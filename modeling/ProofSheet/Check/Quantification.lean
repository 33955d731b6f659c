import ProofSheet.Check.Premises
import ProofSheet.Mapping.Letters

/-!
# Universal instantiation and the two generalizations

UI, UG and EG call for the premises of the cited line. Each of them compares what stands under a run
of quantifiers with a formula that has other letters in their place, and looks for an assignment of
the letters.
-/

namespace ProofSheet.Check

/-- The letters of the run of quantifiers at the head of a formula, and what is under them. The run
stops short of a quantifier over `stop`. -/
def stripRun (quantifier : Quantifier) (stop : Option Symbol) : Formula → List Symbol × Formula
  | .quantified q x body =>
    if q = quantifier && stop != some x then
      let (letters, inner) := stripRun quantifier stop body
      (x :: letters, inner)
    else ([], .quantified q x body)
  | f => ([], f)

/-- The letter bound at the head of a formula by a quantifier. -/
def headBinder (quantifier : Quantifier) (f : Formula) : Option Symbol :=
  (f.quantifiedBy? quantifier).map (·.1)

/-- The flag of an assignment that was found. -/
def assignmentFlag (source target : List Symbol) : Flag :=
  .explained .good ("Possible assignment: " ++ Wording.assignment source target ++ ".")

/-- The letters that a mapping constrains, with what it sends them to. -/
def constrained (letters : List Symbol) (mapping : LetterMapping) : List (Symbol × Symbol) :=
  (letters.zip mapping).filterMap fun (letter, slot) => slot.map fun s => (letter, s)

/-- **UI**: an instance of a run of universal quantifiers. The run stops at the letter that the
line itself quantifies, so `(∀x)(∀y)Fxy` gives `(∀y)Fay`. -/
def universalInstantiation (view : View) (line : LogicLine) (cited : Label) : Judgement := do
  let cited ← view.cited cited
  Premises.check cited.deps line.deps
  let (letters, inner) :=
    stripRun .universal (headBinder .universal line.formula) cited.formula
  if letters.isEmpty then refuse "UI can only be applied to a universal quantification."
  else
    match inner.mappings line.formula letters with
    | [] =>
      refuse ("There is no possible assignment for " ++ Wording.letters letters ++
        " that leads to this sentence.")
    | mapping :: _ =>
      let pairs := constrained letters mapping
      if pairs.isEmpty then return .explained .good "Any assignment leads to this sentence."
      else return assignmentFlag (pairs.map (·.1)) (pairs.map (·.2))

/-- The run of quantifiers that a generalization adds to the cited line, and the one-to-one
assignments of its letters. -/
def generalizedLetters (quantifier : Quantifier) (line cited : LogicLine) (needed : String) :
    Except (List Flag) (List Symbol × List (List Symbol)) :=
  let (letters, target) :=
    stripRun quantifier (headBinder quantifier cited.formula) line.formula
  if letters.isEmpty then refuse needed
  else
    match target.oneOne cited.formula letters with
    | .error error => refuse (error.message letters)
    | .ok candidates => .ok (letters, candidates)

/-- **UG**: a run of universal quantifiers over letters free in no premise. Any one-to-one
assignment to such letters will do. -/
def universalGeneralization (view : View) (line : LogicLine) (cited : Label) : Judgement := do
  let cited ← view.cited cited
  Premises.check cited.deps line.deps
  let (letters, candidates) ←
    generalizedLetters .universal line cited "UG requires adding a universal quantification."
  match candidates.find? fun candidate => (view.freeIn line.deps candidate).isEmpty with
  | some candidate => return assignmentFlag candidate letters
  | none =>
    match candidates with
    | [] => refuse (LetterMapping.Shortfall.noSource.message letters)
    | first :: _ =>
      refuse (Wording.letters first ++ " must not be free in any premise. " ++
        Wording.freeLetters (view.freeIn line.deps first))

/-- **EG**: a run of existential quantifiers, by any one-to-one assignment. -/
def existentialGeneralization (view : View) (line : LogicLine) (cited : Label) : Judgement := do
  let cited ← view.cited cited
  Premises.check cited.deps line.deps
  let (letters, candidates) ←
    generalizedLetters .existential line cited
      "EG requires adding an existential quantification."
  match candidates with
  | candidate :: _ => return assignmentFlag candidate letters
  | [] => refuse (LetterMapping.Shortfall.noSource.message letters)

end ProofSheet.Check
