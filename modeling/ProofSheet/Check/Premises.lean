import ProofSheet.Check.View

/-!
# Premises

A checker compares the premises a line lists with those its rule calls for. A difference in either
direction is flagged.
-/

namespace ProofSheet.Premises

/-- Steps through the second of two ascending lists as far as a member `e` of the first, then goes
on with the rest of the first. -/
def differencesFrom (next : List Label → List Label × List Label) (e : Label)
    (expected : List Label) : List Label → List Label × List Label
  | [] => (e :: expected, [])
  | a :: actual =>
    if e < a then
      let (missing, extra) := next (a :: actual)
      (e :: missing, extra)
    else if a < e then
      let (missing, extra) := differencesFrom next e expected actual
      (missing, a :: extra)
    else next actual

/-- The members of each of two ascending lists that the other lacks. -/
def differences : List Label → List Label → List Label × List Label
  | [], actual => ([], actual)
  | e :: expected, actual => differencesFrom (differences expected) e expected actual

/-- **The premises that are missing and those that are extra**, ascending, of labels given in any
order and repeatedly. -/
def difference (expected actual : List Label) : List Label × List Label :=
  differences (Ascending.ofList expected) (Ascending.ofList actual)

/-- A flag for the missing premises and one for the extra ones, where there are any. -/
def flags (expected actual : List Label) : List Flag :=
  let (missing, extra) := difference expected actual
  (if missing.isEmpty then []
    else [.explained .missingDependency ("Missing " ++ Wording.premises missing)]) ++
  (if extra.isEmpty then []
    else [.explained .extraDependency ("Extra " ++ Wording.premises extra)])

/-- Refuses a line whose premises are not the expected ones. -/
def check (expected actual : List Label) : Except (List Flag) Unit :=
  let found := flags expected actual
  if found.isEmpty then .ok () else .error found

end ProofSheet.Premises
