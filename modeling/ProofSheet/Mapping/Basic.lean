import ProofSheet.Object.Alike

/-!
# Mappings

A mapping has one slot for each designated letter, empty while nothing constrains the letter. Two
mappings join when they agree wherever both fill a slot.

* `Slot`: what may fill a slot. Letters fill the slots of quantifier steps and formulas those of
  truth-functional steps.
* `Mapping.join?`, `Mapping.joinAll`: two mappings joined, and every mapping of one list joined
  with every one of another.
* `Mapping.assignments`: all ways to give each row of a matrix a column of its own so that the
  mappings in the chosen cells join.
-/

namespace ProofSheet

/-- A content of slots. -/
class Slot (α : Type) where
  /-- Whether two contents of one slot are compatible. -/
  compatible : α → α → Bool
  /-- The form in which a content is kept once it has met a compatible one. -/
  kept : α → α

/-- Letters are compatible when they are equal. -/
instance : Slot Symbol where
  compatible a b := a == b
  kept a := a

/-- Formulas are compatible when they are one object, or alike up to pairs of negations. -/
instance : Slot Object where
  compatible a b := decide (a = b) || Object.alike true a b
  kept a := a.core

/-- What fills the slot of each designated letter. -/
abbrev Mapping (α : Type) := List (Option α)

namespace Mapping

variable {α : Type}

/-- The mapping that constrains none of `count` letters. -/
def unfilled (count : Nat) : Mapping α :=
  List.replicate count none

/-- The mapping that constrains the letter at `index` alone. -/
def filledAt (count index : Nat) (content : α) : Mapping α :=
  (unfilled count).set index (some content)

variable [Slot α]

/-- Two contents of one slot joined, if they are compatible. -/
def joinSlot? : Option α → Option α → Option (Option α)
  | none, slot => some slot
  | some a, none => some (some a)
  | some a, some b => if Slot.compatible a b then some (some (Slot.kept a)) else none

/-- Two mappings joined slot by slot, if every slot compatible. The longer is cut to the shorter. -/
def join? : Mapping α → Mapping α → Option (Mapping α)
  | a :: as, b :: bs =>
    match joinSlot? a b with
    | none => none
    | some slot => (join? as bs).map (slot :: ·)
  | _, _ => some []

/-- Every mapping of the first list joined with every mapping of the second, where they join. -/
def joinAll (as bs : List (Mapping α)) : List (Mapping α) :=
  as.flatMap fun a => bs.filterMap (join? a)

/-- Rows of cells; a cell holds the mappings by which its row may take its column. -/
abbrev Matrix (α : Type) := List (List (List (Mapping α)))

/-- Extends the current mappings by a free column for each row. -/
def assignFrom (current : List (Mapping α)) (claimed : List Nat) : Matrix α → List (Mapping α)
  | [] => current
  | row :: rows =>
    if current.isEmpty then current
    else
      row.zipIdx.flatMap fun (cell, column) =>
        if claimed.contains column || cell.isEmpty then []
        else assignFrom (joinAll current cell) (column :: claimed) rows

/-- **All assignments of distinct columns to the rows**, as the mappings that result when a base
mapping and one mapping from each chosen cell join. They stand in the order of the columns
chosen, the first row deciding first. -/
def assignments (base : List (Mapping α)) (matrix : Matrix α) : List (Mapping α) :=
  assignFrom base [] matrix

end Mapping

end ProofSheet
