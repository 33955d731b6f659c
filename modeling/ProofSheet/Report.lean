import ProofSheet.Json.Value
import ProofSheet.Reach

/-!
# Reports

A report holds what a check found: the renumbered sheet, and for each line, by position, its flags
and what it reaches.
-/

namespace ProofSheet

/-- What is counted during a check. -/
structure Tally where
  lines : Nat := 0
  logicLines : Nat := 0
  /-- Logic lines without a problem. -/
  good : Nat := 0
  /-- Logic lines with a problem. -/
  problems : Nat := 0
  /-- Logic lines that cite a truth-functional step. -/
  truthFunctional : Nat := 0
  deriving DecidableEq

namespace Tally

/-- The counts of two checks together. -/
def add (a b : Tally) : Tally where
  lines := a.lines + b.lines
  logicLines := a.logicLines + b.logicLines
  good := a.good + b.good
  problems := a.problems + b.problems
  truthFunctional := a.truthFunctional + b.truthFunctional

instance : Add Tally := ⟨add⟩

/-- The counts of one line with its flags. -/
def ofLine (line : Line) (flags : List Flag) : Tally :=
  match line with
  | .text _ => { lines := 1 }
  | .logic logic =>
    let problem := flags.any Flag.isProblem
    { lines := 1
      logicLines := 1
      good := if problem then 0 else 1
      problems := if problem then 1 else 0
      truthFunctional :=
        match logic.rule with
        | .truthFunctional _ => 1
        | _ => 0 }

end Tally

/-- The summary of a report. -/
inductive Verdict where
  | good
  | problems
  deriving DecidableEq

/-- The word for a summary. -/
def Verdict.word : Verdict → String
  | .good => "Good"
  | .problems => "Problems"

/-- What a check found. -/
structure Report where
  document : Document
  /-- The flags of each line. -/
  flags : List (List Flag)
  reach : Reach
  tally : Tally
  deriving DecidableEq

namespace Report

/-- **The summary**: good when no line has a problem. -/
def verdict (report : Report) : Verdict :=
  if report.flags.any fun flags => flags.any Flag.isProblem then .problems else .good

/-- The positions of the lines with a problem, ascending. -/
def problemPositions (report : Report) : List Nat :=
  report.flags.zipIdx.filterMap fun (flags, position) =>
    if flags.any Flag.isProblem then some position else none

/-- The lines with their flags. -/
def lines (report : Report) : List (Line × List Flag) :=
  report.document.lines.zip report.flags

end Report

/-- A flag as it stands in a written report. -/
def Flag.toValue (flag : Flag) : Json.Value :=
  .object (("kind", .string flag.kind.name) ::
    match flag.text with
    | some text => [("text", .string text)]
    | none => [])

namespace Report

/-- A line as it stands in a written report. -/
def lineValue (position : Nat) (line : Line) (flags : List Flag) (reaches : List Nat) :
    Json.Value :=
  .object
    ([("position", .nat position)] ++
      (match line with
        | .logic logic => [("label", .nat logic.label)]
        | .text _ => []) ++
      [("line", .string line.written),
        ("flags", .array (flags.map Flag.toValue)),
        ("reaches", .nats reaches)])

/-- The written form of a report: its lines in order. -/
def toValue (report : Report) : Json.Value :=
  .array (report.lines.zipIdx.map fun ((line, flags), position) =>
    lineValue position line flags (report.reach.closures[position]?.getD []))

end Report

end ProofSheet
