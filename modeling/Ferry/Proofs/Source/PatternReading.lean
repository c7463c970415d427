/-
  Ferry.Proofs.Source.PatternReading

  What a pattern that is not refused is read as, one rule for each kind of pattern (`PatternRead`).
  What holds of all matches is shown by induction on the nodes and a look at these rules.
-/
import Ferry.Proofs.Source.Matching

namespace Ferry.Source

open Adapter

/-- What a pattern is read as, in terms of the patterns in it. -/
inductive PatternRead (tables : SideTables) (n : Node) (subject : Expr) (context : PatternContext)
    (isLet : Bool) : PatternMatch → Prop where
  | wildcard (hkind : n.kind = .wildcardPattern) : PatternRead tables n subject context isLet {}
  | identifier (hkind : n.kind = .identifierPattern) :
      PatternRead tables n subject context isLet { bindings := [⟨n.text, subject, isLet⟩] }
  | binding {inner : Node} {found : PatternMatch} (hkind : n.kind = .valueBindingPattern)
      (hinner : n.children.head? = some inner)
      (hread : Yields tables (inner.site.pattern subject context (n.text != "var")).run
        (.ok found)) :
      PatternRead tables n subject context isLet found
  | expression {inner : Node} {e : Expr} (hkind : n.kind = .expressionPattern)
      (hinner : n.children.head? = some inner) (he : Yields tables inner.site.expr e) :
      PatternRead tables n subject context isLet (.ofTest (valueTest subject context e))
  | plainCase (hkind : n.kind = .enumCasePattern)
      (harguments : n.childrenOf .patternArgument = []) :
      PatternRead tables n subject context isLet (.ofTest (valueTest subject context
        (plainMember (.typeName (namedEnum tables n subject.ty) {}) n.text)))
  | enumCase {found : PatternMatch} (hkind : n.kind = .enumCasePattern)
      (harguments : n.childrenOf .patternArgument ≠ [])
      (hread : Yields tables (destructurePayload n.text subject isLet (declaredLabels tables n)
        (.ofTest (plainBinary subject "is"
          (plainMember (.typeName (namedEnum tables n subject.ty) {}) n.text))) 0
        ((n.childrenOf .patternArgument).map Node.site)).run (.ok found)) :
      PatternRead tables n subject context isLet found
  | tuple {found : PatternMatch} (hkind : n.kind = .tuplePattern)
      (hlength : n.children.length ≤ tupleComponents.length)
      (hread : Yields tables (destructureElements subject isLet {}
        ((n.children.map Node.site).zip tupleComponents)).run (.ok found)) :
      PatternRead tables n subject context isLet found
  | isType (hkind : n.kind = .isTypePattern) :
      PatternRead tables n subject context isLet
        (.ofTest (plainBinary subject "is" (.typeName (testedType n) {})))
  | asType {inner : Node} {ty : String} {found : PatternMatch} (hkind : n.kind = .asPattern)
      (hinner : n.child? "pattern" = some inner)
      (hread : Yields tables (inner.site.pattern (plainBinary subject "as" (.typeName ty {}))
        .condition isLet).run (.ok found)) :
      PatternRead tables n subject context isLet
        ((PatternMatch.ofTest (plainBinary subject "is" (.typeName ty {}))).absorb found)

theorem read_of_pattern_site {tables : SideTables} {n : Node} {subject : Expr}
    {context : PatternContext} {isLet : Bool} {found : PatternMatch}
    (h : Yields tables (n.site.pattern subject context isLet).run (.ok found)) :
    PatternRead tables n subject context isLet found := by
  rw [pattern_site] at h
  unfold readPattern at h
  -- One case for each kind of pattern, in the order of the reader.
  split at h
  next hkind =>
    obtain rfl := Except.ok.inj (yields_pure h)
    exact .wildcard hkind
  next hkind =>
    obtain rfl := Except.ok.inj (yields_pure h)
    exact .identifier hkind
  next hkind =>
    rw [List.head?_map] at h
    cases hinner : n.children.head? with
    | none =>
      rw [hinner] at h
      exact absurd h not_yields_refusePattern
    | some inner =>
      rw [hinner] at h
      exact .binding hkind hinner h
  next hkind =>
    rw [List.head?_map] at h
    cases hinner : n.children.head? with
    | none =>
      rw [hinner] at h
      exact absurd h not_yields_refusePattern
    | some inner =>
      rw [hinner] at h
      obtain ⟨e, he, h⟩ := yields_run_bind h
      obtain rfl := Except.ok.inj (yields_pure h)
      exact .expression hkind hinner (yields_run_lift he)
  next hkind =>
    obtain ⟨hplain, hpayload⟩ := yields_of_destructureCase h
    by_cases harguments : n.childrenOf .patternArgument = []
    · rw [hplain harguments]
      exact .plainCase hkind harguments
    · exact .enumCase hkind harguments (hpayload harguments)
  next hkind =>
    rw [destructureTuple] at h
    split at h
    next => exact absurd h not_yields_refusePattern
    next hlength =>
      rw [List.length_map, Nat.not_lt] at hlength
      exact .tuple hkind hlength h
  next hkind =>
    obtain rfl := Except.ok.inj (yields_pure h)
    exact .isType hkind
  next hkind =>
    rw [destructureAs, inRole?_map_site] at h
    split at h
    next inner ty hinner hty =>
      obtain ⟨node, hnode, rfl⟩ := Option.map_eq_some_iff.mp hinner
      obtain ⟨bound, hbound, h⟩ := yields_run_bind h
      obtain rfl := Except.ok.inj (yields_pure h)
      exact .asType hkind hnode hbound
    next => exact absurd h not_yields_refusePattern
  next => exact absurd h not_yields_refusePattern

end Ferry.Source
