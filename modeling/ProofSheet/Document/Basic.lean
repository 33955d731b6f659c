import ProofSheet.Line

/-!
# Documents

A document is the lines of a proof sheet, in the order of the sheet.
-/

namespace ProofSheet

/-- A proof sheet. -/
structure Document where
  lines : List Line
  deriving DecidableEq

namespace Document

/-- The sheet with no lines. -/
def empty : Document := ⟨[]⟩

/-- A sheet with one more line at its end. -/
def push (document : Document) (line : Line) : Document :=
  ⟨document.lines ++ [line]⟩

/-- The number of lines. -/
def length (document : Document) : Nat :=
  document.lines.length

/-- The lines that assert something, in order. -/
def logicLines (document : Document) : List LogicLine :=
  document.lines.filterMap Line.logic?

/-- A sheet as it is written, each line ended. -/
def text (document : Document) : String :=
  String.join (document.lines.map fun line => line.written ++ "\n")

end Document

end ProofSheet
