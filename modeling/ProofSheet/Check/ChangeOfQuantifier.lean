import ProofSheet.Check.Premises
import ProofSheet.Object.Alike

/-!
# Change of quantifier

CQ moves a negation across a run of quantifiers, changing each of them. It calls for the premises of
the cited line.

Of the line and the cited line one is the *outer* side, with a negation in front, and the other the
*inner* side. After that negation both begin with runs of opposite quantifiers over the same letters
in the same order; after the runs the inner side has a negation, or else the outer side has a second
one. What remains must be alike.
-/

namespace ProofSheet.Check

/-- What is left of two formulas after runs of opposite quantifiers over the same letters, with
the length of the run; or why the quantifiers do not answer each other. -/
def oppositeRuns : Object → Object → Except String (Nat × Object × Object)
  | .quantified q x outer _, .quantified q' x' inner _ =>
    if q = q' then .error "CQ must change the type of quantifier."
    else if x ≠ x' then .error "CQ must preserve the letters and their order."
    else (oppositeRuns outer inner).map fun (run, rest) => (run + 1, rest)
  | outer, inner => .ok (0, outer, inner)

/-- **What CQ compares**: past the negation of the outer side and the runs of quantifiers, one more
negation goes, from the inner side or else from the outer side. -/
def changed (outer inner : Object) : Except String (Object × Object) := do
  let some outer := outer.negated? | throw "Missing outer negation symbol."
  let (run, outer, inner) ← oppositeRuns outer inner
  if run = 0 then throw "CQ needs at least one quantifier on both sides."
  match inner, outer with
  | .negation inner _, outer => return (inner, outer)
  | inner, .negation outer _ => return (inner, outer)
  | _, _ => throw "Missing inner negation symbol."

/-- **CQ**: `¬(∀x)Φ` becomes `(∃x)¬Φ`, and `¬(∃x)Φ` becomes `(∀x)¬Φ`, in either direction and over
a run of quantifiers. The line is the outer side if it is a negation; otherwise the cited line
is. -/
def changeOfQuantifier (view : View) (line : LogicLine) (cited : Label) : Judgement := do
  let cited ← view.cited cited
  Premises.check cited.deps line.deps
  let sides :=
    match line.formula with
    | .negation _ => changed (view.object line) (view.object cited)
    | _ => changed (view.object cited) (view.object line)
  match sides with
  | .error text => refuse text
  | .ok (inner, outer) =>
    if Object.alike false inner outer then return .good
    else refuse "The expressions within quantifiers do not match."

end ProofSheet.Check
