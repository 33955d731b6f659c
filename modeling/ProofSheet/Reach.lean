import ProofSheet.Flag
import ProofSheet.Labels.Renumber

/-!
# Reach

The lines that each line relies on. A line refers at once to its premises and to the lines its
rule cites; it reaches those, what they reach, and itself. Everything is by position in the sheet.

* A reference to an earlier line adds all that the earlier line reaches, and an edge.
* A reference to a later line is flagged and adds nothing.
* A reference of a line to itself is passed over, and so is one whose label has no position.
-/

namespace ProofSheet

/-- What the lines of a sheet reach. -/
structure Reach where
  /-- For each line the positions it reaches, ascending. -/
  closures : List (List Nat) := []
  /-- For each line the flags of its references to later lines. -/
  flags : List (List Flag) := []
  /-- The references to earlier lines, each pair once, in the order of their first appearance. -/
  edges : List (Nat × Nat) := []
  deriving DecidableEq

namespace Reach

/-- The flag of a reference to a later line. -/
def forwardFlag (line : LogicLine) (label : Label) : Flag :=
  .explained .forwardDependency
    (Wording.lineNumber line.label ++ " depends on " ++ Wording.lineNumber label ++
      ", which cannot occur after it.")

/-- What is known of a line while its references are followed. -/
structure Trail where
  closure : List Nat
  flags : List Flag
  edges : List (Nat × Nat)
  deriving DecidableEq

/-- Follows one reference of the line at a position, given the closures of the lines before
it. -/
def Trail.follow (index : LineIndex) (closures : List (List Nat)) (position : Nat)
    (line : LogicLine) (trail : Trail) (label : Label) : Trail :=
  match index.position? label with
  | none => trail
  | some referenced =>
    if position < referenced then { trail with flags := trail.flags ++ [forwardFlag line label] }
    else if referenced < position then
      { trail with
        closure := Ascending.union trail.closure (closures[referenced]?.getD [])
        edges :=
          if trail.edges.contains (position, referenced) then trail.edges
          else trail.edges ++ [(position, referenced)] }
    else trail

/-- Adds the line at the next position. -/
def extend (index : LineIndex) (reach : Reach) (line : Line) : Reach :=
  let position := reach.closures.length
  let start : Trail := { closure := [position], flags := [], edges := reach.edges }
  let trail :=
    match line with
    | .logic logic => logic.references.foldl (Trail.follow index reach.closures position logic)
        start
    | .text _ => start
  { closures := reach.closures ++ [trail.closure]
    flags := reach.flags ++ [trail.flags]
    edges := trail.edges }

/-- The references as a drawing in the dot language: a node for each position, then an edge for
each reference to an earlier line. -/
def dot (reach : Reach) : String :=
  let nodes := (List.range reach.closures.length).map fun position =>
    "    " ++ toString position ++ " [ label = \"" ++ toString position ++ "\" ]\n"
  let edges := reach.edges.map fun (source, target) =>
    "    " ++ toString source ++ " -> " ++ toString target ++ " [ ]\n"
  "digraph \x7b\n" ++ String.join nodes ++ String.join edges ++ "\x7d\n"

end Reach

/-- **The reach of every line of a sheet**, in one pass from the first line to the last. -/
def Document.reach (document : Document) (index : LineIndex) : Reach :=
  document.lines.foldl (Reach.extend index) {}

end ProofSheet
