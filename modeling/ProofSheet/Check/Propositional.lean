import ProofSheet.Check.Premises
import ProofSheet.Solver.Search

/-!
# Premise, discharge and truth-functional steps

The rules that do not look inside quantifiers.

* P calls for the line itself as its one premise.
* D calls for the premises of the cited line without the discharged one.
* TF calls for the premises of all cited lines.
-/

namespace ProofSheet.Check

/-- **P**: a premise depends on exactly itself. -/
def premise (line : LogicLine) : Judgement := do
  Premises.check [line.label] line.deps
  return .good

/-- **D**: from `Y` depending on the premise `X`, the conditional `X → Y`, no longer depending on
`X`. -/
def discharge (view : View) (line : LogicLine) (cited discharged : Label) : Judgement := do
  let consequent ← view.cited cited
  let expectedDeps := consequent.deps.filter (· != discharged)
  let flags :=
    Premises.flags expectedDeps line.deps ++
      (if consequent.deps.contains discharged then []
        else [.incorrect (Wording.lineNumber cited ++ " must have premise " ++
          Wording.premise discharged ++ " to invoke D.")])
  if !flags.isEmpty then throw flags
  let antecedent ← view.cited discharged
  let expected := Object.conditional (view.object antecedent) (view.object consequent)
  if Object.alike false expected (view.object line) then return .good
  else refuse ("Incorrect expression, expected: " ++ expected.formula.text)

/-- The lines a truth-functional step cites, or the refusal of the first that is no logic line. -/
def citedLines (view : View) : List Label → Except (List Flag) (List LogicLine)
  | [] => .ok []
  | label :: labels => do
    let line ← view.cited label
    let lines ← citedLines view labels
    return line :: lines

/-- **TF**: whatever the solver confirms from the cited lines. -/
def truthFunctional (view : View) (line : LogicLine) (cited : List Label) : Judgement := do
  let lines ← citedLines view cited
  Premises.check (lines.flatMap (·.deps)) line.deps
  let flag := Solver.solve (lines.map view.object) (view.object line)
    view.settings.truthFunctionalDepth.value
  match flag.kind with
  | .good => return flag
  | _ => throw [flag]

end ProofSheet.Check
