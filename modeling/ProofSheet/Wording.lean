import ProofSheet.Formula.Basic

/-!
# Wording

How letters, line numbers, premises and assignments are written in explanations.
-/

namespace ProofSheet

/-- The number by which a line is cited. -/
abbrev Label := Nat

namespace Wording

/-- Several items in one sentence. -/
def listed (items : List String) : String :=
  String.intercalate ", " items

/-- Letters, as in `x, y`. -/
def letters (symbols : List Symbol) : String :=
  listed (symbols.map (·.toString))

/-- A line by its number, as in `(3)`. -/
def lineNumber (label : Label) : String :=
  "(" ++ toString label ++ ")"

/-- Lines by their numbers. -/
def lineNumbers (labels : List Label) : String :=
  listed (labels.map lineNumber)

/-- A premise, as in `[3]`. -/
def premise (label : Label) : String :=
  "[" ++ toString label ++ "]"

/-- Premises after their noun, which is in the plural unless there is exactly one. -/
def premises (labels : List Label) : String :=
  (if labels.length = 1 then "premise" else "premises") ++ " " ++ listed (labels.map premise)

/-- An assignment of letters, as in `x → a, y → b`. -/
def assignment (source target : List Symbol) : String :=
  listed (List.zipWith (fun s t => s.toString ++ " → " ++ t.toString) source target)

/-- Where letters are free, as in `a is free in (1), (2).`; nothing when there are none. -/
def freeLetters (free : List (Symbol × List Label)) : String :=
  if free.isEmpty then ""
  else
    listed (free.map fun (symbol, labels) =>
      symbol.toString ++ " is free in " ++ lineNumbers labels) ++ "."

end Wording

end ProofSheet
