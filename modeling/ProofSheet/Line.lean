import ProofSheet.Ascending
import ProofSheet.Formula.Text
import ProofSheet.Text.Blank
import ProofSheet.Wording

/-!
# Lines and rules

A line is a logic line or a line of text. A logic line asserts a formula, cites a rule for it and
lists the labels of the premises it depends on:

    [1][2] (4) (A ∧ B) 1,3 TF

Blank text lines are told apart from comments because they take a place in the numbering of lines.
-/

namespace ProofSheet

/-- A rule of the calculus with the lines it is applied to. -/
inductive Rule where
  /-- P: the line is a premise. -/
  | premise
  /-- D: a premise is discharged into the antecedent of a conditional. -/
  | discharge (cited discharged : Label)
  /-- TF: the line follows truth-functionally from the cited lines. -/
  | truthFunctional (cited : List Label)
  /-- CQ: a negation moves across a run of quantifiers. -/
  | changeOfQuantifier (cited : Label)
  /-- UI: an instance of a universal quantification. -/
  | universalInstantiation (cited : Label)
  /-- UG: a universal quantification of an arbitrary instance. -/
  | universalGeneralization (cited : Label)
  /-- EG: an existential quantification of an instance. -/
  | existentialGeneralization (cited : Label)
  /-- EII: an instance of an existential quantification, under a fresh letter. -/
  | instanceIntroduction (cited : Label) (instantial : Symbol)
  /-- EIE: the instance is discharged. -/
  | instanceElimination (cited discharged : Label)
  /-- A rule of some other name. -/
  | unrecognized (name : String)
  deriving DecidableEq

namespace Rule

/-- The name by which a rule is cited. -/
def name : Rule → String
  | .premise => "P"
  | .discharge _ _ => "D"
  | .truthFunctional _ => "TF"
  | .changeOfQuantifier _ => "CQ"
  | .universalInstantiation _ => "UI"
  | .universalGeneralization _ => "UG"
  | .existentialGeneralization _ => "EG"
  | .instanceIntroduction _ _ => "EII"
  | .instanceElimination _ _ => "EIE"
  | .unrecognized name => name

/-- The lines a rule is applied to; a discharged premise is not among them. -/
def citations : Rule → List Label
  | .premise | .unrecognized _ => []
  | .truthFunctional cited => cited
  | .discharge cited _ | .changeOfQuantifier cited | .universalInstantiation cited
  | .universalGeneralization cited | .existentialGeneralization cited
  | .instanceIntroduction cited _ | .instanceElimination cited _ => [cited]

/-- What is written before the name of a rule. -/
def arguments : Rule → String
  | .premise | .unrecognized _ => ""
  | .truthFunctional cited => String.intercalate "," (cited.map toString)
  | .discharge cited discharged | .instanceElimination cited discharged =>
    toString cited ++ "[" ++ toString discharged ++ "]"
  | .instanceIntroduction cited instantial =>
    toString cited ++ "(" ++ instantial.toString ++ ")"
  | .changeOfQuantifier cited | .universalInstantiation cited | .universalGeneralization cited
  | .existentialGeneralization cited => toString cited

end Rule

/-- A line that asserts a formula. -/
structure LogicLine where
  /-- The number of the line. -/
  label : Label
  /-- The labels of the premises it depends on. -/
  deps : List Label
  /-- What it asserts. -/
  formula : Formula
  /-- What it cites. -/
  rule : Rule
  deriving DecidableEq

namespace LogicLine

/-- A logic line whose premises may be given in any order and repeatedly: they are kept as an
ascending set. -/
def make (label : Label) (deps : List Label) (formula : Formula) (rule : Rule) : LogicLine :=
  { label, deps := Ascending.ofList deps, formula, rule }

/-- Every label a line refers to in its premises and citations, in that order. -/
def references (line : LogicLine) : List Label :=
  line.deps ++ line.rule.citations

/-- A logic line as it is written. -/
def text (line : LogicLine) : String :=
  String.join (line.deps.map Wording.premise) ++ " " ++ Wording.lineNumber line.label ++ " " ++
    line.formula.text ++ " " ++ line.rule.arguments ++ " " ++ line.rule.name

end LogicLine

/-- A line of a sheet. -/
inductive Line where
  | logic (line : LogicLine)
  | text (content : String)
  deriving DecidableEq

namespace Line

/-- Whether a line is text that holds nothing but white space. -/
def isBlank : Line → Bool
  | .logic _ => false
  | .text content => Text.isBlank content

/-- The logic line that a line is, if it is one. -/
def logic? : Line → Option LogicLine
  | .logic line => some line
  | .text _ => none

/-- A line as it is written. -/
def written : Line → String
  | .logic line => line.text
  | .text content => content

end Line

end ProofSheet
