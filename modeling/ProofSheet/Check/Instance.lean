import ProofSheet.Check.Premises
import ProofSheet.Formula.Substitute
import ProofSheet.Object.Alike

/-!
# Existential instantiation

An existential quantification is used in two steps. EII asserts an instance under an *instantial*
letter, as a premise of itself next to the premises of the quantification; EIE discharges that
premise from a line which depends on it.
-/

namespace ProofSheet.Check

/-- **EII**: an instance of an existential quantification under a letter free in no line up to the
quantification. The instance is a premise of itself. -/
def instanceIntroduction (view : View) (line : LogicLine) (cited : Label)
    (instantial : Symbol) : Judgement := do
  let cited ← view.cited cited
  Premises.check (cited.deps ++ [line.label]) line.deps
  let some (bound, body) := cited.formula.quantifiedBy? .existential
    | refuse "EII can only be applied to an existential quantification."
  let earlier :=
    ((view.lines.filterMap Line.logic?).map (·.label)).filter fun label => label ≤ cited.label
  let free := view.freeIn earlier [instantial]
  if !free.isEmpty then
    refuse (instantial.toString ++ " must not be free in any line up to and including " ++
      Wording.lineNumber cited.label ++ ". " ++ Wording.freeLetters free)
  else
    let expected := body.substitute [bound] [some (.letter instantial)]
    if Object.alike false expected.anew (view.object line) then return .good
    else
      refuse ("The expression within the quantifier is incorrect. Expected: " ++ expected.text)

/-- The letter that an EII line instantiates with. -/
def instantialOf? : Rule → Option Symbol
  | .instanceIntroduction _ instantial => some instantial
  | _ => none

/-- **EIE**: the cited line again, without the premise that is an instance whose letter is free in
no premise that stays. -/
def instanceElimination (view : View) (line : LogicLine) (cited discharged : Label) :
    Judgement := do
  let cited ← view.cited cited
  Premises.check (cited.deps.filter (· != discharged)) line.deps
  let introduction ← view.cited discharged
  let some instantial := instantialOf? introduction.rule
    | refuse ("The discharged premise " ++ Wording.premise discharged ++ ", is not an EII line.")
  if !cited.deps.contains discharged then
    refuse ("The cited line " ++ Wording.lineNumber cited.label ++
      " does not have required premise " ++ Wording.premise discharged ++ ".")
  else
    let free := view.freeIn line.deps [instantial]
    if !free.isEmpty then
      refuse (instantial.toString ++ " must not be free in any premise of this line. " ++
        Wording.freeLetters free)
    else if Object.alike false (view.object cited) (view.object line) then return .good
    else
      refuse ("The expression must be the same as in " ++ Wording.lineNumber cited.label ++
        ". Expected: " ++ cited.formula.text)

end ProofSheet.Check
