import ProofSheet.Document.Basic
import ProofSheet.Labels.Index

/-!
# Renumbering

Authors label lines as they like. Renumbering replaces the labels by consecutive numbers from
zero, in the order of the sheet, and changes every premise and citation to match. Logic lines and
blank lines take a number; comments take none.

* `Document.newLabels`: the new label of each old one, or the first label that cannot be used.
* `NewLabels.relabelLines`: the lines under their new labels, up to the first reference that leads
  nowhere.
* `Document.renumber`: the relabelled sheet with its index. When a reference leads nowhere the
  sheet is left as far as it was relabelled.
-/

namespace ProofSheet

/-- The new label of each old one. -/
abbrev NewLabels := List (Label × Label)

namespace NewLabels

/-- The new label of an old one. -/
def renamed? (labels : NewLabels) (label : Label) : Option Label :=
  (labels.find? fun pair => pair.1 == label).map (·.2)

/-- Replaces labels in order up to the first that has no new label, which is returned with them;
that label and those after it stay. -/
def relabel (labels : NewLabels) : List Label → List Label × Option Label
  | [] => ([], none)
  | old :: olds =>
    match labels.renamed? old with
    | none => (old :: olds, some old)
    | some fresh =>
      let (rest, missing) := labels.relabel olds
      (fresh :: rest, missing)

/-- Replaces the one label of a rule. -/
def relabelOne (labels : NewLabels) (cited : Label) (rule : Label → Rule) :
    Rule × Option Label :=
  match labels.renamed? cited with
  | none => (rule cited, some cited)
  | some fresh => (rule fresh, none)

/-- Replaces the cited and then the discharged label of a rule. -/
def relabelTwo (labels : NewLabels) (cited discharged : Label) (rule : Label → Label → Rule) :
    Rule × Option Label :=
  match labels.renamed? cited with
  | none => (rule cited discharged, some cited)
  | some fresh => labels.relabelOne discharged (rule fresh)

/-- Replaces the labels of a rule. The lines cited by a truth-functional step are put in ascending
order once all of them are relabelled. -/
def relabelRule (labels : NewLabels) : Rule → Rule × Option Label
  | .premise => (.premise, none)
  | .unrecognized name => (.unrecognized name, none)
  | .truthFunctional cited =>
    match labels.relabel cited with
    | (cited, none) => (.truthFunctional (Ascending.sort cited), none)
    | (cited, some missing) => (.truthFunctional cited, some missing)
  | .discharge cited discharged => labels.relabelTwo cited discharged .discharge
  | .instanceElimination cited discharged =>
    labels.relabelTwo cited discharged .instanceElimination
  | .changeOfQuantifier cited => labels.relabelOne cited .changeOfQuantifier
  | .universalInstantiation cited => labels.relabelOne cited .universalInstantiation
  | .universalGeneralization cited => labels.relabelOne cited .universalGeneralization
  | .existentialGeneralization cited => labels.relabelOne cited .existentialGeneralization
  | .instanceIntroduction cited instantial =>
    labels.relabelOne cited (.instanceIntroduction · instantial)

/-- Relabels a logic line: its label, its premises, then its rule, up to the first label that has
no new one. Premises are put in ascending order once all of them are relabelled. -/
def relabelLine (labels : NewLabels) (line : LogicLine) : LogicLine × Option Label :=
  match labels.renamed? line.label with
  | none => (line, some line.label)
  | some label =>
    match labels.relabel line.deps with
    | (deps, some missing) => ({ line with label, deps }, some missing)
    | (deps, none) =>
      let (rule, missing) := labels.relabelRule line.rule
      ({ line with label, deps := Ascending.ofList deps, rule }, missing)

/-- Relabels lines in order, from a position on. The result is the lines, relabelled up to the first
missing reference, and the positions of those that take a number. -/
def relabelLines (labels : NewLabels) (position : Nat) :
    List Line → List Line × Except LabelError (List Nat)
  | [] => ([], .ok [])
  | .logic line :: lines =>
    match labels.relabelLine line with
    | (line, some missing) => (.logic line :: lines, .error (.missing position missing))
    | (line, none) =>
      let (rest, positions) := labels.relabelLines (position + 1) lines
      (.logic line :: rest, positions.map (position :: ·))
  | .text content :: lines =>
    let (rest, positions) := labels.relabelLines (position + 1) lines
    (.text content :: rest,
      if Text.isBlank content then positions.map (position :: ·) else positions)

end NewLabels

/-- Gives each line from a position on its number, the next free number first. A label over the
limit is refused before a repeated one. -/
def assignLabels (limit : Label) (position next : Nat) (known : NewLabels) :
    List Line → Except LabelError NewLabels
  | [] => .ok known
  | .logic line :: lines =>
    if limit < line.label then .error (.outOfRange position line.label)
    else if (known.renamed? line.label).isSome then .error (.duplicate position line.label)
    else assignLabels limit (position + 1) (next + 1) ((line.label, next) :: known) lines
  | .text content :: lines =>
    assignLabels limit (position + 1) (if Text.isBlank content then next + 1 else next) known lines

/-- What renumbering leaves: the sheet, and its index or the error that stopped it. -/
structure Renumbering where
  document : Document
  outcome : Except LabelError LineIndex

namespace Document

/-- The new labels of a sheet whose labels keep to a limit. -/
def newLabels (document : Document) (limit : Label) : Except LabelError NewLabels :=
  assignLabels limit 0 0 [] document.lines

/-- **Renumbering**: every label is checked before any line is relabelled. -/
def renumber (document : Document) (limit : Label) : Renumbering :=
  match document.newLabels limit with
  | .error error => ⟨document, .error error⟩
  | .ok labels =>
    let (lines, positions) := labels.relabelLines 0 document.lines
    ⟨⟨lines⟩, positions.map fun positions => ⟨positions⟩⟩

end Document

end ProofSheet
