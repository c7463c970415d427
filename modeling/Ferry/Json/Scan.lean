/-
  Ferry.Json.Scan

  The grammar of JSON apart from what a reader makes of it. A scan is the shape of a text as far as
  the grammar holds, with a fault where it stops. Readers walk a scan in the order of the text, so
  the first fault they meet is the one that comes first, whether the text or its use is to blame.

  A reader that skips a value looks less closely: it accepts any code unit in an escape, and numbers
  of any size. A scan therefore says of each string and number what a close reading gives.
-/
import Ferry.Json.Value

namespace Ferry.Json

inductive Fault where
  | grammar
  /-- The text is JSON of another shape than asked for. -/
  | shape
  | ending
deriving DecidableEq, Repr

/-- A part of a string: a character, or a code unit given by its number. -/
inductive Mark where
  | char (c : Char)
  | unit (n : Nat)

inductive Scan where
  | null
  | bool (value : Bool)
  | number (value : Except Fault Numeral)
  | string (text : Except Fault String)
  /-- Items, and what is wrong after the last of them. -/
  | array (items : List Scan) (fault : Option Fault)
  /-- Fields, and what is wrong after the last of them. What stands in place of a name is a field
  without one. -/
  | object (fields : List (Except Fault String × Scan)) (fault : Option Fault)
  /-- A value that breaks off, by its first character: the fault of a close reading and of one that
  skips. -/
  | broken (first : Option Char) (read skipped : Fault)

/-- A scan and the text after it, unless it breaks off. -/
abbrev Scanned := Scan × Option (List Char)

/-! ## Strings -/

def hexDigit? (c : Char) : Option Nat :=
  if c.isDigit then some (c.toNat - '0'.toNat)
  else if 'a' ≤ c ∧ c ≤ 'f' then some (c.toNat - 'a'.toNat + 10)
  else if 'A' ≤ c ∧ c ≤ 'F' then some (c.toNat - 'A'.toNat + 10)
  else none

/-- The code unit written with four hexadecimal digits. -/
def codeUnit? (a b c d : Char) : Option Nat := do
  let a ← hexDigit? a
  let b ← hexDigit? b
  let c ← hexDigit? c
  let d ← hexDigit? d
  return 4096 * a + 256 * b + 16 * c + d

/-- The character of a one-letter escape. -/
def escapeChar? : Char → Option Char
  | '"' => some '"'
  | '\\' => some '\\'
  | '/' => some '/'
  | 'b' => some (Char.ofNat 8)
  | 'f' => some (Char.ofNat 12)
  | 'n' => some '\n'
  | 'r' => some '\r'
  | 't' => some '\t'
  | _ => none

/-- What a `\u` without four digits after it breaks: the text itself when there is not enough of it
left. -/
def shortEscape (rest : List Char) : Fault :=
  if (String.ofList rest).utf8ByteSize < 4 then .ending else .grammar

/-- The marks of a string up to its closing quote and the text after it, or the fault that ends
them. -/
def scanMarks : List Char → List Mark × Except Fault (List Char)
  | [] => ([], .error .ending)
  | '"' :: rest => ([], .ok rest)
  | '\\' :: [] => ([], .error .ending)
  | '\\' :: 'u' :: a :: b :: c :: d :: rest =>
    match codeUnit? a b c d with
    | some n =>
      let (marks, result) := scanMarks rest
      (.unit n :: marks, result)
    | none => ([], .error (shortEscape (a :: b :: c :: d :: rest)))
  | '\\' :: 'u' :: rest => ([], .error (shortEscape rest))
  | '\\' :: c :: rest =>
    match escapeChar? c with
    | some c =>
      let (marks, result) := scanMarks rest
      (.char c :: marks, result)
    | none => ([], .error .grammar)
  | c :: rest =>
    if c.toNat < 32 then ([], .error .grammar)
    else
      let (marks, result) := scanMarks rest
      (.char c :: marks, result)

/-- The characters that marks stand for. Code units beyond the first plane come in pairs; `atEnd` is
what is wrong with a pair cut off by the end of the marks. -/
def decodeMarks (atEnd : Fault) : List Mark → Except Fault (List Char)
  | [] => .ok []
  | .char c :: rest => (decodeMarks atEnd rest).map (c :: ·)
  | [.unit n] =>
    if 0xD800 ≤ n ∧ n ≤ 0xDBFF then .error atEnd
    else if 0xDC00 ≤ n ∧ n ≤ 0xDFFF then .error .grammar
    else .ok [Char.ofNat n]
  | .unit n :: .unit m :: rest =>
    if 0xD800 ≤ n ∧ n ≤ 0xDBFF then
      if 0xDC00 ≤ m ∧ m ≤ 0xDFFF then
        (decodeMarks atEnd rest).map
          (Char.ofNat (0x10000 + 0x400 * (n - 0xD800) + (m - 0xDC00)) :: ·)
      else .error .grammar
    else if 0xDC00 ≤ n ∧ n ≤ 0xDFFF then .error .grammar
    else (decodeMarks atEnd (.unit m :: rest)).map (Char.ofNat n :: ·)
  | .unit n :: .char c :: rest =>
    if 0xD800 ≤ n ∧ n ≤ 0xDFFF then .error .grammar
    else (decodeMarks atEnd (.char c :: rest)).map (Char.ofNat n :: ·)

/-- A string after its opening quote: what a close reading gives, and the text after it or the fault
of a reading that skips. -/
def scanString (cs : List Char) : Except Fault String × Except Fault (List Char) :=
  match scanMarks cs with
  | (marks, .ok rest) => ((decodeMarks .grammar marks).map String.ofList, .ok rest)
  | (marks, .error fault) =>
    (match decodeMarks fault marks with
      | .error fault => .error fault
      | .ok _ => .error fault, .error fault)

/-! ## Numbers and words -/

def greatestUnsigned : Int := 18446744073709551615

def leastSigned : Int := -9223372036854775808

/-- The number with a sign, digits and a power of ten; too large a number cannot be read. -/
def realNumeral (negative : Bool) (digits : Nat) (exponent : Int) : Except Fault Numeral :=
  match Number.Format.double.ofDecimal negative digits exponent with
  | .infinite _ => .error .grammar
  | value => .ok (.real value)

/-- The number with a sign and digits alone. -/
def wholeNumeral (negative : Bool) (digits : Nat) : Except Fault Numeral :=
  let value : Int := if negative then -digits else digits
  if value ≤ greatestUnsigned ∧ leastSigned ≤ value ∧ !(negative && digits == 0) then
    .ok (.whole value)
  else realNumeral negative digits 0

/-- What is wrong where a digit is missing, for a close reading and one that skips. -/
def missingDigit (first : Char) : List Char → Scanned
  | [] => (.broken (some first) .ending .grammar, none)
  | _ => (.broken (some first) .grammar .grammar, none)

/-- The exponent and the text after it. -/
def scanExponent (first : Char) (negative : Bool) (digits : Nat) (exponent : Int) (cs : List Char) :
    Scanned :=
  let (isDown, cs) : Bool × List Char := match cs with
    | '-' :: rest => (true, rest)
    | '+' :: rest => (false, rest)
    | rest => (false, rest)
  let power := cs.takeWhile Char.isDigit
  let rest := cs.dropWhile Char.isDigit
  if power.isEmpty then missingDigit first rest
  else
    let power : Int := Number.digitsValue power
    (.number (realNumeral negative digits (exponent + if isDown then -power else power)), some rest)

/-- A number after its sign and whole digits. -/
def scanFraction (first : Char) (negative : Bool) (digits : Nat) : List Char → Scanned
  | '.' :: cs =>
    let fraction := cs.takeWhile Char.isDigit
    let rest := cs.dropWhile Char.isDigit
    if fraction.isEmpty then missingDigit first rest
    else
      let digits := digits * Nat.pow 10 fraction.length + Number.digitsValue fraction
      match rest with
      | c :: tail =>
        if c = 'e' ∨ c = 'E' then scanExponent first negative digits (-fraction.length) tail
        else (.number (realNumeral negative digits (-fraction.length)), some rest)
      | [] => (.number (realNumeral negative digits (-fraction.length)), some [])
  | c :: cs =>
    if c = 'e' ∨ c = 'E' then scanExponent first negative digits 0 cs
    else (.number (wholeNumeral negative digits), some (c :: cs))
  | [] => (.number (wholeNumeral negative digits), some [])

/-- A number after its sign; a zero stands alone before the point. -/
def scanNumber (first : Char) (negative : Bool) (cs : List Char) : Scanned :=
  match cs with
  | [] => (.broken (some first) .ending .grammar, none)
  | '0' :: rest =>
    if rest.head?.any Char.isDigit then (.broken (some first) .grammar .grammar, none)
    else scanFraction first negative 0 rest
  | c :: _ =>
    if c.isDigit then
      scanFraction first negative (Number.digitsValue (cs.takeWhile Char.isDigit))
        (cs.dropWhile Char.isDigit)
    else (.broken (some first) .grammar .grammar, none)

/-- The rest of a word after its first letter. -/
def scanWord (first : Char) (value : Scan) : (word cs : List Char) → Scanned
  | [], cs => (value, some cs)
  | _ :: _, [] => (.broken (some first) .ending .ending, none)
  | w :: word, c :: cs =>
    if w = c then scanWord first value word cs else (.broken (some first) .grammar .grammar, none)

/-! ## Values -/

def isSpace (c : Char) : Bool :=
  c = ' ' || c = '\n' || c = '\t' || c = '\r'

/-- The text without white space at its start. -/
def skipSpace (cs : List Char) : List Char :=
  cs.dropWhile isSpace

/-- What is wrong where something else was expected. -/
def unexpected : List Char → Fault
  | [] => .ending
  | _ => .grammar

mutual

/-- The value that begins a text. Every step takes a character, so the length of the text is fuel
enough. -/
def scanValue : Nat → List Char → Scanned
  | 0, _ => (.broken none .ending .ending, none)
  | fuel + 1, cs =>
    match skipSpace cs with
    | [] => (.broken none .ending .ending, none)
    | '[' :: rest =>
      match skipSpace rest with
      | ']' :: rest => (.array [] none, some rest)
      | [] => (.array [] (some .ending), none)
      | rest =>
        let (items, fault, rest) := scanItems fuel rest
        (.array items fault, rest)
    | '\x7b' :: rest =>
      match skipSpace rest with
      | '\x7d' :: rest => (.object [] none, some rest)
      | rest =>
        let (fields, fault, rest) := scanFields fuel rest
        (.object fields fault, rest)
    | '"' :: rest =>
      match scanString rest with
      | (text, .ok rest) => (.string text, some rest)
      | (.error read, .error skipped) => (.broken (some '"') read skipped, none)
      | (.ok _, .error skipped) => (.broken (some '"') skipped skipped, none)
    | 'n' :: rest => scanWord 'n' .null ['u', 'l', 'l'] rest
    | 't' :: rest => scanWord 't' (.bool true) ['r', 'u', 'e'] rest
    | 'f' :: rest => scanWord 'f' (.bool false) ['a', 'l', 's', 'e'] rest
    | '-' :: rest => scanNumber '-' true rest
    | c :: rest =>
      if c.isDigit then scanNumber c false (c :: rest)
      else (.broken (some c) .grammar .grammar, none)

/-- The items of an array from the first on. -/
def scanItems : Nat → List Char → List Scan × Option Fault × Option (List Char)
  | 0, _ => ([], some .ending, none)
  | fuel + 1, cs =>
    match scanValue fuel cs with
    | (item, none) => ([item], none, none)
    | (item, some rest) =>
      match skipSpace rest with
      | ']' :: rest => ([item], none, some rest)
      | ',' :: rest =>
        let (items, fault, rest) := scanItems fuel rest
        (item :: items, fault, rest)
      | rest => ([item], some (unexpected rest), none)

/-- The fields of an object from the first on. -/
def scanFields : Nat → List Char →
    List (Except Fault String × Scan) × Option Fault × Option (List Char)
  | 0, _ => ([], some .ending, none)
  | fuel + 1, cs =>
    match skipSpace cs with
    | '"' :: rest =>
      match scanString rest with
      | (.error read, .error skipped) =>
        ([(.error read, .broken none skipped skipped)], none, none)
      | (.ok _, .error skipped) =>
        ([(.error skipped, .broken none skipped skipped)], none, none)
      | (name, .ok rest) =>
        match skipSpace rest with
        | ':' :: rest =>
          match scanValue fuel rest with
          | (value, none) => ([(name, value)], none, none)
          | (value, some rest) =>
            match skipSpace rest with
            | '\x7d' :: rest => ([(name, value)], none, some rest)
            | ',' :: rest =>
              let (fields, fault, rest) := scanFields fuel rest
              ((name, value) :: fields, fault, rest)
            | rest => ([(name, value)], some (unexpected rest), none)
        | rest =>
          let fault := unexpected rest
          ([(name, .broken none fault fault)], none, none)
    | rest =>
      let fault := unexpected rest
      ([(.error fault, .broken none fault fault)], none, none)

end

/-- A whole text: its value, and whether nothing but white space follows. -/
def scan (text : String) : Scan × Bool :=
  let cs := text.toList
  match scanValue (cs.length + 1) cs with
  | (value, some rest) => (value, (skipSpace rest).isEmpty)
  | (value, none) => (value, true)

/-! ## Skipping -/

mutual

/-- The fault that a reader meets who skips the value. -/
def Scan.skip : Scan → Except Fault Unit
  | .array items fault => skipItems fault items
  | .object fields fault => skipFields fault fields
  | .broken _ _ skipped => .error skipped
  | _ => .ok ()

/-- Skips the items of an array, then meets what is wrong after them. -/
def skipItems (fault : Option Fault) : List Scan → Except Fault Unit
  | [] => fault.elim (.ok ()) .error
  | item :: rest => do item.skip; skipItems fault rest

/-- Skips the fields of an object, then meets what is wrong after them. -/
def skipFields (fault : Option Fault) : List (Except Fault String × Scan) → Except Fault Unit
  | [] => fault.elim (.ok ()) .error
  | (_, value) :: rest => do value.skip; skipFields fault rest

end

end Ferry.Json
