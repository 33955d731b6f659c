import ProofSheet.Word

/-!
# JSON values

Sheets and reports are exchanged as JSON. Members of an object keep their order, and a name may be
repeated. Of numbers only the natural ones mean something in a sheet.
-/

namespace ProofSheet.Json

/-- A number, by what a sheet can make of it. -/
inductive Number where
  /-- Written as a bare run of digits. -/
  | natural (value : Nat)
  /-- Written with a sign, a fraction or an exponent. -/
  | other (literal : String)
  deriving DecidableEq

/-- A JSON value. -/
inductive Value where
  | null
  | bool (value : Bool)
  | number (value : Number)
  | string (value : String)
  | array (items : List Value)
  | object (members : List (String × Value))

namespace Value

instance : Inhabited Value := ⟨.null⟩

/-- A natural number as a value. -/
def nat (n : Nat) : Value := .number (.natural n)

/-- A list of natural numbers as a value. -/
def nats (ns : List Nat) : Value := .array (ns.map nat)

/-- The value as a string. -/
def string? : Value → Option String
  | .string s => some s
  | _ => none

/-- The value as a truth value. -/
def bool? : Value → Option Bool
  | .bool b => some b
  | _ => none

/-- The value as an array. -/
def items? : Value → Option (List Value)
  | .array items => some items
  | _ => none

/-- The value as a natural number of at most 64 bits. -/
def word? : Value → Option Nat
  | .number (.natural n) => if n < Word.bound then some n else none
  | _ => none

end Value

end ProofSheet.Json
