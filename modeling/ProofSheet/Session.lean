import ProofSheet.Check.Line
import ProofSheet.Report

/-!
# Sessions

A session checks sheets one after another under settings that may change in between, and counts
what it has checked. A check renumbers the sheet, follows the references of its lines, looks at the
letters of each formula, and judges each logic line by the rule it cites. The flags of a line stand
in the order of these stages.
-/

namespace ProofSheet

namespace Document

/-- The scope of each logic line, by position. -/
def scopes (document : Document) : List (Option Scope) :=
  document.lines.map fun line => line.logic?.map fun logic => logic.formula.scope

/-- The sheet as the checkers see it, where its lines lie in memory. -/
def view (document : Document) (memory : Memory) (index : LineIndex) (settings : Settings) :
    View where
  lines := document.lines
  index := index
  scopes := document.scopes
  settings := settings
  memory := memory

end Document

/-- The flags of a line after all stages: references, letters, rule. -/
def View.lineFlags (view : View) (line : Line) (references : List Flag) : List Flag :=
  match line with
  | .logic logic => references ++ logic.formula.scope.flags ++ Check.line view logic
  | .text _ => references ++ [.comment]

/-- **The check of a renumbered sheet.** -/
def Document.reportOn (document : Document) (memory : Memory) (index : LineIndex)
    (settings : Settings) : Report :=
  let reach := document.reach index
  let view := document.view memory index settings
  let flags := List.zipWith view.lineFlags document.lines reach.flags
  let tally := List.zipWith Tally.ofLine document.lines flags
  { document, flags, reach, tally := tally.foldl (· + ·) {} }

/-- The check of a sheet as authored, whose lines lie in memory under their new labels. A sheet whose
lines cannot be told apart is not checked. -/
def Document.check (document : Document) (memory : Memory) (settings : Settings) :
    Except LabelError Report :=
  let renumbered := document.renumber settings.labelLimit.value
  renumbered.outcome.map fun index => renumbered.document.reportOn memory index settings

/-- Settings, and the counts of all checks so far. -/
structure Session where
  settings : Settings := .standard
  tally : Tally := {}
  deriving DecidableEq

namespace Session

/-- Checks a sheet. A check that fails leaves the session as it was. -/
def check (session : Session) (document : Document) (memory : Memory) :
    Session × Except LabelError Report :=
  match document.check memory session.settings with
  | .error error => (session, .error error)
  | .ok report => ({ session with tally := session.tally + report.tally }, .ok report)

/-- Sets a value. A value out of bounds leaves the session as it was. -/
def set (session : Session) (name : Settings.Name) (value : Nat) : Session × Bool :=
  match session.settings.set? name value with
  | none => (session, false)
  | some settings => ({ session with settings }, true)

end Session

end ProofSheet
