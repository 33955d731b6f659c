import ProofSheet.Wording

/-!
# Labels and positions

Once its lines are renumbered, a sheet has an index from labels to positions. A sheet whose labels
are out of range, repeated or missing has none.
-/

namespace ProofSheet

/-- Why the lines of a sheet cannot be told apart by their labels. Positions count lines from
zero. -/
inductive LabelError where
  /-- A label above the limit. -/
  | outOfRange (position : Nat) (label : Label)
  /-- A label that an earlier line has. -/
  | duplicate (position : Nat) (label : Label)
  /-- A reference to a label that no line has. -/
  | missing (position : Nat) (label : Label)
  deriving DecidableEq

namespace LabelError

/-- The position of the line at fault. -/
def position : LabelError → Nat
  | .outOfRange position _ | .duplicate position _ | .missing position _ =>
    position

/-- The error in words. -/
def message : LabelError → String
  | .outOfRange position label =>
    "Line number out of range: " ++ toString label ++ " (line " ++ toString position ++ ")."
  | .duplicate position label =>
    "Duplicate line number: " ++ toString label ++ " (line " ++ toString position ++ ")."
  | .missing position label =>
    "Referenced line number does not exist: " ++ toString label ++ " (line " ++
      toString position ++ ")."

end LabelError

/-- The positions of the lines that have a number, in the order of the numbers. -/
structure LineIndex where
  positions : List Nat := []
  deriving DecidableEq

namespace LineIndex

/-- The position of the line with a label. -/
def position? (index : LineIndex) (label : Label) : Option Nat :=
  index.positions[label]?

/-- How many lines have a number. -/
def length (index : LineIndex) : Nat :=
  index.positions.length

end LineIndex

end ProofSheet
