import ProofSheet.Json.Value

/-!
# Number literals

`Literal.read?` splits a literal of the JSON grammar into its parts. A literal too large for a
64-bit float is refused where its value is wanted (`Literal.inRange`): the leading digits that fit
64 bits, rounded, are scaled by a rounded power of ten, and the product must be finite.
-/

namespace ProofSheet.Json

/-- A number literal by its parts; digits are values from 0 to 9, the first one leading. -/
structure Literal where
  negative : Bool
  whole : List Nat
  fraction : List Nat
  exponent : Int
  /-- Written without sign, fraction and exponent. -/
  bare : Bool
  deriving DecidableEq

namespace Literal

/-- Whether a byte is a decimal digit. -/
def isDigit (b : UInt8) : Bool :=
  decide (0x30 ≤ b.toNat ∧ b.toNat ≤ 0x39)

/-- The digits at the head of a text, and the rest. -/
def digits (text : List UInt8) : List Nat × List UInt8 :=
  ((text.takeWhile isDigit).map fun b => b.toNat - 0x30, text.dropWhile isDigit)

/-- The number that digits spell. -/
def value (digits : List Nat) : Nat :=
  digits.foldl (fun n d => n * 10 + d) 0

/-- The fraction at the head of a text: at least one digit after a point, or nothing. -/
def fraction? : List UInt8 → Option (List Nat × List UInt8)
  | 0x2E :: text =>
    match digits text with
    | ([], _) => none
    | found => some found
  | text => some ([], text)

/-- The exponent that makes up the whole of a text: at least one digit after the mark and an
optional sign, or nothing. -/
def exponent? : List UInt8 → Option Int
  | [] => some 0
  | mark :: text =>
    if mark = 0x65 ∨ mark = 0x45 then
      let (negative, text) :=
        match text with
        | 0x2B :: text => (false, text)
        | 0x2D :: text => (true, text)
        | text => (false, text)
      match digits text with
      | ([], _) => none
      | (ds, []) => some (if negative then -Int.ofNat (value ds) else Int.ofNat (value ds))
      | _ => none
    else none

/-- Reads a literal of the JSON grammar: no leading zeros, no sign but a minus. -/
def read? (text : List UInt8) : Option Literal :=
  let (negative, text) :=
    match text with
    | 0x2D :: text => (true, text)
    | text => (false, text)
  match digits text with
  | ([], _) => none
  | (0 :: _ :: _, _) => none
  | (whole, text) =>
    match fraction? text with
    | none => none
    | some (fraction, rest) =>
      (exponent? rest).map fun exponent =>
        { negative, whole, fraction, exponent, bare := !negative && text.isEmpty }

/-- What a sheet can make of a literal, given as it is written. -/
def number (literal : Literal) (text : List UInt8) : Number :=
  if literal.bare then .natural (value literal.whole)
  else .other (String.ofList (text.map fun b => Char.ofNat b.toNat))

/-! ## Range -/

/-- Takes in whole digits while they fit 64 bits and counts those that come after. -/
def takeWhole (significand dropped : Nat) : List Nat → Nat × Nat
  | [] => (significand, dropped)
  | d :: ds =>
    if dropped = 0 ∧ significand * 10 + d < Word.bound then takeWhole (significand * 10 + d) 0 ds
    else takeWhole significand (dropped + 1) ds

/-- Takes in digits of a fraction while they fit 64 bits and counts them. -/
def takeFraction (significand taken : Nat) : List Nat → Nat × Nat
  | [] => (significand, taken)
  | d :: ds =>
    if significand * 10 + d < Word.bound then takeFraction (significand * 10 + d) (taken + 1) ds
    else (significand, taken)

/-- A natural number rounded to 53 significant bits, a tie to the even neighbour. -/
def round53 (n : Nat) : Nat :=
  if n.log2 < 53 then n
  else
    let unit := Nat.pow 2 (n.log2 - 52)
    let quotient := n / unit
    let rest := n % unit
    if unit < 2 * rest ∨ (2 * rest = unit ∧ quotient % 2 = 1) then (quotient + 1) * unit
    else quotient * unit

/-- The least number that rounds to no finite 64-bit float. -/
def infinity : Nat := Nat.pow 2 1024 - Nat.pow 2 970

/-- Whether a literal names a finite 64-bit float. -/
def inRange (literal : Literal) : Bool :=
  let (significand, dropped) := takeWhole 0 0 literal.whole
  let (significand, taken) := takeFraction significand 0 literal.fraction
  let scale := literal.exponent + dropped - taken
  if significand = 0 ∨ scale ≤ 0 then true
  else if 308 < scale then false
  else decide (round53 significand * round53 (Nat.pow 10 scale.toNat) < infinity)

end Literal

end ProofSheet.Json
