import ProofSheet.Object.Substitute
import ProofSheet.Solver.Table
import ProofSheet.Solver.Template

/-!
# The truth-functional solver

`solve` tries to confirm that a goal follows from premises by chaining the rules of the table for
a bounded number of rounds. It is incomplete by design, so a step that it does not confirm is
warned of and not called incorrect.

Between rounds it keeps the *frontier*, what the previous round discovered (at first the premises),
and the *explored*, what was known before. A round applies rules to every choice of known formulas
that has one on the frontier. All comparisons pass over pairs of negations.
-/

namespace ProofSheet.Solver

/-- What a rule gives when the first formula takes the place of one antecedent and the other
antecedents take distinct formulas among the later ones. -/
def conclusionsAt (rule : Inference) (first : Object) (later : List Object) : List Object :=
  let letters := rule.letters
  rule.antecedents.zipIdx.flatMap fun (antecedent, place) =>
    let base := matchTemplate letters antecedent first
    if base.isEmpty then []
    else
      let matrix := (rule.antecedents.eraseIdx place).map fun other =>
        later.map (matchTemplate letters other)
      (Mapping.assignments base matrix).map (Object.substitute letters · rule.consequent)

/-- **What a rule discovers**: each of the first `frontier` known formulas is taken in turn as the
first one used, with the formulas after it for the other antecedents. -/
def conclusions (rule : Inference) (frontier : Nat) : List Object → List Object
  | [] => []
  | first :: later =>
    match frontier with
    | 0 => []
    | frontier + 1 => conclusionsAt rule first later ++ conclusions rule frontier later

/-- Whether a formula is among others, up to pairs of negations. -/
def knownAmong (known : List Object) (f : Object) : Bool :=
  known.any fun other => Object.alike true other f

/-- The discoveries that are new: alike neither to a known formula nor to an earlier discovery. -/
def freshAmong (known : List Object) : List Object → List Object
  | [] => []
  | f :: fs =>
    let rest := freshAmong (f :: known) fs
    if knownAmong known f then rest else f :: rest

/-- The rules worth trying: those with an antecedent that is a bare letter or of the kind of some
formula on the frontier. -/
def candidates (frontier : List Object) : List Inference :=
  table.filter fun rule =>
    rule.hasAntecedent .letter || frontier.any fun f => rule.hasAntecedent f.kind

/-- The rules worth trying in the last round: their consequent is, besides, a bare letter or of the
kind of the goal. -/
def finalCandidates (frontier : List Object) (goal : Object) : List Inference :=
  (candidates frontier).filter fun rule =>
    rule.hasConsequent .letter || rule.hasConsequent goal.kind

/-- How a search ends. -/
inductive Outcome where
  /-- The goal was found. -/
  | confirmed
  /-- A round discovered nothing at all. -/
  | exhausted
  /-- The rounds were used up. -/
  | depthReached
  deriving DecidableEq

/-- The discoveries of one round, in the order of the rules. -/
def discover (rules : List Inference) (frontier explored : List Object) : List Object :=
  rules.flatMap fun rule => conclusions rule frontier.length (frontier ++ explored)

/-- Searches for the goal in the given number of rounds. The last round tries only rules that can
reach the goal. -/
def search (goal : Object) (explored frontier : List Object) : Nat → Outcome
  | 0 => .depthReached
  | 1 =>
    let discovered := discover (finalCandidates frontier goal) frontier explored
    if discovered.isEmpty then .exhausted
    else if knownAmong discovered goal then .confirmed
    else .depthReached
  | rounds + 2 =>
    let discovered := discover (candidates frontier) frontier explored
    if discovered.isEmpty then .exhausted
    else if knownAmong discovered goal then .confirmed
    else
      let explored := explored ++ frontier
      search goal explored (freshAmong explored discovered) (rounds + 1)

/-- The flag for the end of a search. -/
def Outcome.flag : Outcome → Flag
  | .confirmed => .explained .good "TF solver confirms this is correct."
  | .exhausted =>
    .explained .tfWarning "TF exhausted the search space without confirming this deduction."
  | .depthReached =>
    .explained .tfWarning "TF reached the depth limit without confirming this deduction."

/-- The outcome for a goal and at least one premise. A goal that is a premise needs no round. -/
def outcome (premises : List Object) (goal : Object) (depth : Nat) : Outcome :=
  if knownAmong premises goal then .confirmed else search goal [] premises depth

/-- **The solver's flag**: whether the goal was confirmed from the premises within the given
number of rounds. -/
def solve (premises : List Object) (goal : Object) (depth : Nat) : Flag :=
  if premises.isEmpty then .explained .tfError "TF applied without any premises!"
  else (outcome premises goal depth).flag

end ProofSheet.Solver
