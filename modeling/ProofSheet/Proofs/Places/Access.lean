import ProofSheet.Proofs.Check.Premises

/-!
# Access by place

The routines of a check walk along their lists. They can as well be run on arrays, with places that are
counted and members that are read and written by place. Such a run is told here with every access checked:
one that is out of range gives nothing, and so does the whole run. What it gives when nothing is out of
range is what the routine gives.

* `Places.suffix?`, `Places.before?`, `Places.put?`: the accesses, each with its check.
* `Places.collect?`: one run after another, where each may fail.
* `Places.cursors`: two ascending lists compared by a cursor in each.
* `Places.cursors_eq`: **no cursor leaves its list**, and the premises found missing and extra are those
  that the comparison finds.
-/

namespace ProofSheet.Places

variable {α β : Type}

/-! ## Accesses -/

/-- The members from a place on. The place may be the end of the list. -/
def suffix? (as : List α) (place : Nat) : Option (List α) :=
  if place ≤ as.length then some (as.drop place) else none

/-- The members before a place. The place may be the end of the list. -/
def before? (as : List α) (place : Nat) : Option (List α) :=
  if place ≤ as.length then some (as.take place) else none

/-- Writes the member at a place. -/
def put? (as : List α) (place : Nat) (a : α) : Option (List α) :=
  if place < as.length then some (as.set place a) else none

theorem suffix?_eq {as : List α} {place : Nat} (h : place ≤ as.length) :
    suffix? as place = some (as.drop place) :=
  if_pos h

theorem before?_eq {as : List α} {place : Nat} (h : place ≤ as.length) :
    before? as place = some (as.take place) :=
  if_pos h

theorem put?_eq {as : List α} {place : Nat} (h : place < as.length) (a : α) :
    put? as place a = some (as.set place a) :=
  if_pos h

/-- What a run gives for each member, one after another. It fails if it fails for some member. -/
def collect? (run : α → Option (List β)) : List α → Option (List β)
  | [] => some []
  | a :: as => do
    let found ← run a
    let rest ← collect? run as
    return found ++ rest

/-- Runs that do not fail give what they give, one after another. -/
theorem collect?_eq {run : α → Option (List β)} {gives : α → List β} {as : List α}
    (h : ∀ a ∈ as, run a = some (gives a)) : collect? run as = some (as.flatMap gives) := by
  induction as with
  | nil => rfl
  | cons a as ih =>
    rw [List.forall_mem_cons] at h
    rw [collect?, h.1, ih h.2]
    rfl

/-! ## Two cursors -/

/-- **Two ascending lists, by a cursor in each.** The smaller of the two members at the cursors is missing on
the other side, and its cursor moves on. When one cursor is at the end, what is left behind the other is
missing too. -/
def cursors (expected actual : List Label) (i j : Nat) (missing extra : List Label) :
    Option (List Label × List Label) :=
  if i < expected.length ∧ j < actual.length then do
    let e ← expected[i]?
    let a ← actual[j]?
    if e < a then cursors expected actual (i + 1) j (missing ++ [e]) extra
    else if a < e then cursors expected actual i (j + 1) missing (extra ++ [a])
    else cursors expected actual (i + 1) (j + 1) missing extra
  else do
    let unmet ← suffix? expected i
    let unasked ← suffix? actual j
    return (missing ++ unmet, extra ++ unasked)
termination_by expected.length - i + (actual.length - j)

open Premises (differences differences_nil differences_cons)

/-- **No cursor leaves its list.** -/
theorem cursors_eq (expected actual : List Label) (i j : Nat) (missing extra : List Label)
    (hi : i ≤ expected.length) (hj : j ≤ actual.length) :
    cursors expected actual i j missing extra =
      some (missing ++ (differences (expected.drop i) (actual.drop j)).1,
        extra ++ (differences (expected.drop i) (actual.drop j)).2) := by
  fun_induction cursors expected actual i j missing extra with
  | case1 i j missing extra hin ihless ihgreater ihequal =>
    obtain ⟨hi', hj'⟩ := hin
    have he : expected[i]? = some expected[i] := List.getElem?_eq_getElem hi'
    have ha : actual[j]? = some actual[j] := List.getElem?_eq_getElem hj'
    have hless := ihless expected[i] hi' hj
    have hgreater := ihgreater actual[j] hi hj'
    have hequal := ihequal hi' hj'
    rw [List.drop_eq_getElem_cons hi'] at hgreater ⊢
    rw [List.drop_eq_getElem_cons hj'] at hless ⊢
    rw [differences_cons, he, ha]
    simp only [bind, Option.bind]
    split
    · rw [hless, List.append_assoc]
      rfl
    · split
      · rw [hgreater, List.append_assoc]
        rfl
      · exact hequal
  | case2 i j missing extra hout =>
    rw [suffix?_eq hi, suffix?_eq hj]
    -- one of the cursors is at the end
    rcases Nat.eq_or_lt_of_le hi with hend | hlt
    · rw [hend, List.drop_length]
      rfl
    · have hend : j = actual.length := by omega
      rw [hend, List.drop_length, differences_nil]
      rfl

/-- **Premises compared by place.** -/
def difference? (expected actual : List Label) : Option (List Label × List Label) :=
  cursors (Ascending.ofList expected) (Ascending.ofList actual) 0 0 [] []

theorem difference?_eq (expected actual : List Label) :
    difference? expected actual = some (Premises.difference expected actual) := by
  rw [difference?, cursors_eq _ _ 0 0 [] [] (Nat.zero_le _) (Nat.zero_le _)]
  rfl

end ProofSheet.Places
