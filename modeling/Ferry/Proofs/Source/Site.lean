/-
  Ferry.Proofs.Source.Site

  The site of a node in terms of the node: what it is the site of, the sites of its children, and
  its readings as those of the node with these children.
-/
import Ferry.Source.Adapt

namespace Ferry.Source

theorem Node.induction {motive : Node → Prop}
    (h : ∀ n : Node, (∀ child ∈ n.children, motive child) → motive n) : ∀ n : Node, motive n
  | .node head children =>
    h (.node head children) fun child (_ : child ∈ children) => Node.induction h child
decreasing_by
  have hlt : sizeOf child < sizeOf children := List.sizeOf_lt_of_mem ‹child ∈ children›
  rw [Node.node.sizeOf_spec]
  omega

theorem node_site (n : Node) : n.site.node = n := by
  rw [Node.site_eq]
  rfl

/-- The sites of the children. -/
abbrev Node.childSites (n : Node) : List Site := n.children.map Node.site

theorem children_site (n : Node) : n.site.children = n.childSites := by
  rw [Node.site_eq]
  rfl

theorem kind_site (n : Node) : n.site.kind = n.kind := by
  rw [Site.kind, node_site]

theorem expr_site (n : Node) : n.site.expr = readExpr n n.childSites := by
  rw [Node.site_eq]
  rfl

theorem operators_site (n : Node) :
    n.site.operators =
      readOperators n n.childSites (readExpr n n.childSites) := by
  rw [Node.site_eq]
  rfl

theorem item_site (n : Node) :
    n.site.item =
      readItem n n.childSites (readExpr n n.childSites)
        (readIf n n.childSites) := by
  rw [Node.site_eq]
  rfl

theorem pattern_site (n : Node) : n.site.pattern = readPattern n n.childSites := by
  rw [Node.site_eq]
  rfl

theorem loopVariable_site (n : Node) :
    n.site.loopVariable = readLoopVariable n n.childSites := by
  rw [Node.site_eq]
  rfl

theorem conditional_site (n : Node) :
    n.site.conditional = readIf n n.childSites := by
  rw [Node.site_eq]
  rfl

theorem inRole?_map_site (n : Node) (role : String) :
    inRole? n.childSites role = (n.child? role).map Node.site := by
  rw [inRole?, List.find?_map, Node.child?]
  simp only [Function.comp_def, Site.head, node_site]

theorem child?_site (n : Node) (role : String) :
    n.site.child? role = (n.child? role).map Node.site := by
  rw [Site.child?, children_site, inRole?_map_site]

theorem ofKind_map_site (n : Node) (kind : NodeKind) :
    ofKind n.childSites kind = (n.childrenOf kind).map Node.site := by
  rw [ofKind, List.filter_map, Node.childrenOf]
  simp only [Function.comp_def, Site.kind, node_site]

theorem length_ofKind_map_site (n : Node) (kind : NodeKind) :
    (ofKind n.childSites kind).length = (n.childrenOf kind).length := by
  rw [ofKind_map_site, List.length_map]

end Ferry.Source
