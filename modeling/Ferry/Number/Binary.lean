/-
  Ferry.Number.Binary

  Binary floating-point values as exact numbers: a sign, a mantissa and a power of two. A format
  bounds the mantissa and the exponent; rounding to a format goes to the nearest value and, halfway
  between two, to the one with the even mantissa.
-/
namespace Ferry.Number

/-- The bounds of a binary format: bits of the mantissa, and the least and greatest exponent of
the mantissa's unit. -/
structure Format where
  precision : Nat
  least : Int
  greatest : Int
deriving DecidableEq

def Format.double : Format := ⟨53, -1074, 971⟩

def Format.single : Format := ⟨24, -149, 104⟩

/-- A floating-point value; `finite negative m q` is `m · 2 ^ q` with its sign. -/
inductive Binary where
  | nan
  | infinite (negative : Bool)
  | finite (negative : Bool) (mantissa : Nat) (exponent : Int)
deriving DecidableEq

/-- Whether the value is less than zero; a zero never is. -/
def Binary.isNegative : Binary → Bool
  | .nan => false
  | .infinite negative => negative
  | .finite negative mantissa _ => negative && mantissa != 0

/-! ## Rounding -/

/-- The integer nearest to a quotient, the even one of two equally near. -/
def roundDiv (num den : Nat) : Nat :=
  let quotient := num / den
  let rest := 2 * (num % den)
  if den < rest ∨ (rest = den ∧ quotient % 2 = 1) then quotient + 1 else quotient

/-- The numerator and denominator of `num / den` in units of `2 ^ q`. -/
def inUnits (num den : Nat) (q : Int) : Nat × Nat :=
  if q < 0 then (num * Nat.pow 2 q.natAbs, den) else (num, den * Nat.pow 2 q.natAbs)

/-- The value of the format nearest to a positive quotient. -/
def Format.round (format : Format) (negative : Bool) (num den : Nat) : Binary :=
  let guess : Int := (num.log2 : Int) - den.log2 - format.precision
  let (n, d) := inUnits num den guess
  let unit := max format.least (if Nat.pow 2 format.precision ≤ n / d then guess + 1 else guess)
  let (n, d) := inUnits num den unit
  let mantissa := roundDiv n d
  let (mantissa, unit) :=
    if mantissa = Nat.pow 2 format.precision then (mantissa / 2, unit + 1) else (mantissa, unit)
  if format.greatest < unit then .infinite negative else .finite negative mantissa unit

def Format.zero (format : Format) (negative : Bool) : Binary :=
  .finite negative 0 format.least

/-- The value of the format nearest to a natural number. -/
def Format.ofNat (format : Format) (n : Nat) : Binary :=
  if n = 0 then format.zero false else format.round false n 1

/-- A value of any format rounded to this one. -/
def Format.convert (format : Format) : Binary → Binary
  | .finite negative mantissa exponent =>
    if mantissa = 0 then format.zero negative
    else if exponent < 0 then format.round negative mantissa (Nat.pow 2 exponent.natAbs)
    else format.round negative (mantissa * Nat.pow 2 exponent.natAbs) 1
  | value => value

def digitCount (n : Nat) : Nat :=
  (Nat.toDigits 10 n).length

/-- The value nearest to `digits · 10 ^ exponent`. A number far outside the format is settled by
its size alone. -/
def Format.ofDecimal (format : Format) (negative : Bool) (digits : Nat) (exponent : Int) : Binary :=
  if digits = 0 then format.zero negative
  else
    let size := (digitCount digits : Int) + exponent
    if 400 < size then .infinite negative
    else if size < -400 then format.zero negative
    else if exponent < 0 then format.round negative digits (Nat.pow 10 exponent.natAbs)
    else format.round negative (digits * Nat.pow 10 exponent.natAbs) 1

end Ferry.Number
