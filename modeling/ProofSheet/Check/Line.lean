import ProofSheet.Check.ChangeOfQuantifier
import ProofSheet.Check.Instance
import ProofSheet.Check.Propositional
import ProofSheet.Check.Quantification

/-!
# Checking a line

A line is judged by the checker of the rule it cites. A rule of unknown name justifies nothing.
-/

namespace ProofSheet.Check

/-- The judgement of a line by the rule it cites. -/
def judge (view : View) (line : LogicLine) : Judgement :=
  match line.rule with
  | .premise => premise line
  | .discharge cited discharged => discharge view line cited discharged
  | .truthFunctional cited => truthFunctional view line cited
  | .changeOfQuantifier cited => changeOfQuantifier view line cited
  | .universalInstantiation cited => universalInstantiation view line cited
  | .universalGeneralization cited => universalGeneralization view line cited
  | .existentialGeneralization cited => existentialGeneralization view line cited
  | .instanceIntroduction cited instantial => instanceIntroduction view line cited instantial
  | .instanceElimination cited discharged => instanceElimination view line cited discharged
  | .unrecognized name =>
    .error [.explained .unrecognized ("The rule " ++ name ++ " is not recognized.")]

/-- The flags of a line: its one flag if it is accepted, else those of its refusal. -/
def line (view : View) (line : LogicLine) : List Flag :=
  match judge view line with
  | .ok flag => [flag]
  | .error flags => flags

end ProofSheet.Check
