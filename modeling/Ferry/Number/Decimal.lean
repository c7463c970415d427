/-
  Ferry.Number.Decimal

  Decimal texts of floating-point values. Writing takes the fewest digits that read back to the same
  value, and of two such decimals the nearer one. Reading accepts a sign, digits with an optional
  point and an optional exponent, and the names of infinity and of the value that is no number.
-/
import Ferry.Number.Binary

namespace Ferry.Number

/-! ## The fewest digits -/

/-- A positive decimal `0.d₁d₂… · 10 ^ point`, its digits held as one number. -/
structure Decimal where
  digits : Nat
  point : Int
deriving DecidableEq

/-- The number of digits before the point: the least `k` with `num / den < 10 ^ k`. -/
def magnitude (num den : Nat) : Int :=
  if den ≤ num then digitCount (num / den)
  else
    Int.negOfNat (((List.range 400).find? fun j => den ≤ num * Nat.pow 10 (j + 1)).getD 400)

/-- The decimal with `count` digits that reads back to `m · 2 ^ q`, if there is one. Values are
compared in quarters of the unit: half a unit lies above the value, and half or a quarter below. -/
def Format.decimalOf? (format : Format) (m : Nat) (q : Int) (point : Int) (count : Nat) :
    Option Decimal :=
  let exponent := point - count
  let unit := q - 2
  -- `x · 10 ^ exponent` against `y · 2 ^ unit` is `x · a` against `y · b`.
  let a := Nat.pow 10 exponent.toNat * Nat.pow 2 (-unit).toNat
  let b := Nat.pow 2 unit.toNat * Nat.pow 10 (-exponent).toNat
  let value := 4 * m * b
  let gap := if m = Nat.pow 2 (format.precision - 1) ∧ format.least < q then 1 else 2
  let low := (4 * m - gap) * b
  let high := (4 * m + 2) * b
  let closed := m % 2 = 0
  let below := value / a
  let above := below + 1
  let fitsBelow := low < below * a ∨ (closed ∧ low = below * a)
  let fitsAbove := above * a < high ∨ (closed ∧ above * a = high)
  if fitsAbove ∧ (¬fitsBelow ∨ above * a - value ≤ value - below * a) then
    some (if digitCount above = count then ⟨above, point⟩ else ⟨above, point + 1⟩)
  else if fitsBelow then some ⟨below, point⟩
  else none

/-- The shortest decimal that reads back to `m · 2 ^ q`; seventeen digits always do. -/
def Format.shortest (format : Format) (m : Nat) (q : Int) : Decimal :=
  let (num, den) := inUnits m 1 (-q)
  let point := magnitude num den
  ((List.range 17).findSome? fun n => format.decimalOf? m q point (n + 1)).getD ⟨m, point⟩

/-! ## Writing -/

/-- The digits of a number without the zeros that end it. -/
def significantDigits (n : Nat) : List Char :=
  ((Nat.toDigits 10 n).reverse.dropWhile (· = '0')).reverse

/-- Digits with a point after the first `point` of them, filled up with zeros on either side. -/
def positional (digits : List Char) (point : Int) : List Char :=
  if point ≤ 0 then '0' :: '.' :: (List.replicate (-point).toNat '0' ++ digits)
  else if digits.length ≤ point.toNat then
    digits ++ List.replicate (point.toNat - digits.length) '0' ++ ['.', '0']
  else digits.take point.toNat ++ '.' :: digits.drop point.toNat

structure Style where
  /-- The least position of the point, relative to the first digit, that is written out. -/
  least : Int
  /-- Whether a positive exponent has a sign. -/
  hasPlus : Bool

/-- Digits with a point after the first and a power of ten. -/
def scientific (style : Style) (digits : List Char) (point : Int) : List Char :=
  let mantissa :=
    match digits with
    | first :: second :: rest => first :: '.' :: second :: rest
    | digits => digits
  let sign := if style.hasPlus && 1 < point then ['+'] else []
  mantissa ++ 'e' :: sign ++ (toString (point - 1)).toList

/-- The text of a value in a style, always with a point or an exponent: positional below `10 ^ 16`
and as long as the point stands late enough. -/
def Format.textIn (format : Format) (style : Style) : Binary → String
  | .nan => "NaN"
  | .infinite negative => if negative then "-inf" else "inf"
  | .finite negative mantissa exponent =>
    let body :=
      if mantissa = 0 then "0.0"
      else
        let decimal := format.shortest mantissa exponent
        let digits := significantDigits decimal.digits
        String.ofList <|
          if style.least ≤ decimal.point ∧ decimal.point ≤ 16 then positional digits decimal.point
          else scientific style digits decimal.point
    if negative then "-" ++ body else body

/-- Numbers are written out from `0.0001` on, and exponents have no plus. -/
def Style.plain : Style := ⟨-3, false⟩

/-- The text of a value: positional from `0.0001` up to below `10 ^ 16`. -/
def Format.text (format : Format) (value : Binary) : String :=
  format.textIn .plain value

/-! ## Reading -/

def digitsValue (cs : List Char) : Nat :=
  cs.foldl (fun n c => 10 * n + (c.toNat - '0'.toNat)) 0

/-- The exponent after a mantissa: nothing, or an `e` with an optional sign and digits. -/
def readExponent? : List Char → Option Int
  | [] => some 0
  | c :: cs =>
    if c = 'e' ∨ c = 'E' then
      let (negative, ds) :=
        match cs with
        | '-' :: rest => (true, rest)
        | '+' :: rest => (false, rest)
        | rest => (false, rest)
      if ds.isEmpty ∨ !ds.all Char.isDigit then none
      else some (if negative then -(digitsValue ds : Int) else digitsValue ds)
    else none

/-- The value named by the text after its sign. -/
def Format.readMagnitude? (format : Format) (negative : Bool) (cs : List Char) : Option Binary :=
  let whole := cs.takeWhile Char.isDigit
  let rest := cs.dropWhile Char.isDigit
  let (fraction, rest) :=
    match rest with
    | '.' :: tail => (tail.takeWhile Char.isDigit, tail.dropWhile Char.isDigit)
    | tail => ([], tail)
  if whole.isEmpty ∧ fraction.isEmpty then
    match String.ofList (cs.map Char.toLower) with
    | "nan" => some .nan
    | "inf" => some (.infinite negative)
    | "infinity" => some (.infinite negative)
    | _ => none
  else (readExponent? rest).map fun exponent =>
    format.ofDecimal negative (digitsValue (whole ++ fraction)) (exponent - fraction.length)

/-- Reads a decimal text as the nearest value of the format. -/
def Format.read? (format : Format) (text : String) : Option Binary :=
  match text.toList with
  | '-' :: rest => format.readMagnitude? true rest
  | '+' :: rest => format.readMagnitude? false rest
  | rest => format.readMagnitude? false rest

end Ferry.Number
