import ProofSheet.Ascending.Lemmas
import ProofSheet.Check.Premises

/-!
# Premises that were compared

The comparison steps through two ascending lists at once. The smaller of the two members it is at is
missing on the other side, since all that follows there is greater.

* `Premises.differences_eq`: **what the comparison of two ascending lists finds**, as two filters.
* `Premises.flags_eq_nil_iff`: there is nothing to flag exactly if both lists have the same members.
* `Premises.check_ok`: **premises that pass the comparison are the expected ones**, as sets.
* `Premises.check_of_mem_iff`: the expected premises pass, however they are listed.
* `Premises.difference_exact`: **the comparison is the difference of two sets**, in both directions.
-/

namespace ProofSheet.Premises

/-! ## Two ascending lists -/

theorem differences_nil (expected : List Label) : differences expected [] = (expected, []) := by
  cases expected <;> rfl

/-- The comparison at two members: the smaller is missing on the other side. -/
theorem differences_cons (e a : Label) (expected actual : List Label) :
    differences (e :: expected) (a :: actual) =
      if e < a then
        (e :: (differences expected (a :: actual)).1, (differences expected (a :: actual)).2)
      else if a < e then
        ((differences (e :: expected) actual).1, a :: (differences (e :: expected) actual).2)
      else differences expected actual :=
  rfl

theorem filter_not_mem_nil (xs : List Label) : xs.filter (· ∉ ([] : List Label)) = xs :=
  List.filter_eq_self.mpr (by simp)

/-- A label that a list lacks strikes nothing from it. -/
theorem filter_not_mem_cons {y : Label} {xs ys : List Label} (h : y ∉ xs) :
    xs.filter (· ∉ y :: ys) = xs.filter (· ∉ ys) := by
  refine List.filter_congr fun x hx => ?_
  have hne : x ≠ y := fun heq => h (heq ▸ hx)
  simp [hne]

/-- **What the comparison of two ascending lists finds**: the members of each that the other lacks. -/
theorem differences_eq {expected actual : List Label} (he : expected.Pairwise (· < ·))
    (ha : actual.Pairwise (· < ·)) :
    differences expected actual = (expected.filter (· ∉ actual), actual.filter (· ∉ expected)) := by
  -- on the first list, and at each of its members on the second
  induction expected generalizing actual with
  | nil => rw [differences, filter_not_mem_nil, List.filter_nil]
  | cons e expected ihe =>
    obtain ⟨he1, he2⟩ := List.pairwise_cons.mp he
    induction actual with
    | nil => rw [differences_nil, filter_not_mem_nil, List.filter_nil]
    | cons a actual iha =>
      obtain ⟨ha1, ha2⟩ := List.pairwise_cons.mp ha
      rw [differences_cons]
      rcases Nat.lt_trichotomy e a with hlt | rfl | hgt
      · have hmissing : e ∉ a :: actual := by
          rw [List.mem_cons, not_or]
          exact ⟨Nat.ne_of_lt hlt, fun hmem => Nat.lt_asymm hlt (ha1 e hmem)⟩
        have hkept : (e :: expected).filter (· ∉ a :: actual) = e :: expected.filter (· ∉ a :: actual) :=
          List.filter_cons_of_pos (decide_eq_true hmissing)
        rw [if_pos hlt, ihe he2 ha, hkept, filter_not_mem_cons hmissing]
      · have hexpected : e ∉ expected := fun hmem => Nat.lt_irrefl e (he1 e hmem)
        have hactual : e ∉ actual := fun hmem => Nat.lt_irrefl e (ha1 e hmem)
        rw [if_neg (Nat.lt_irrefl e), if_neg (Nat.lt_irrefl e), ihe he2 ha2,
          List.filter_cons_of_neg (by simp), List.filter_cons_of_neg (by simp),
          filter_not_mem_cons hexpected, filter_not_mem_cons hactual]
      · have hextra : a ∉ e :: expected := by
          rw [List.mem_cons, not_or]
          exact ⟨Nat.ne_of_lt hgt, fun hmem => Nat.lt_asymm hgt (he1 a hmem)⟩
        have hkept : (a :: actual).filter (· ∉ e :: expected) = a :: actual.filter (· ∉ e :: expected) :=
          List.filter_cons_of_pos (decide_eq_true hextra)
        rw [if_neg (Nat.lt_asymm hgt), if_pos hgt, iha ha2, hkept, filter_not_mem_cons hextra]

/-! ## Labels in any order -/

/-- The labels of a list, put in order, ascend strictly. -/
theorem ofList_lt (labels : List Label) : (Ascending.ofList labels).Pairwise (· < ·) :=
  (Ascending.ofList_ascending labels).imp of_decide_eq_true

theorem difference_eq (expected actual : List Label) :
    difference expected actual =
      ((Ascending.ofList expected).filter (· ∉ actual),
        (Ascending.ofList actual).filter (· ∉ expected)) := by
  rw [difference, differences_eq (ofList_lt expected) (ofList_lt actual)]
  simp only [Ascending.mem_ofList]

/-- **There is nothing to flag** exactly if both lists have the same members. -/
theorem flags_eq_nil_iff {expected actual : List Label} :
    flags expected actual = [] ↔ ∀ l, l ∈ expected ↔ l ∈ actual := by
  have hnone : flags expected actual = [] ↔
      (difference expected actual).1 = [] ∧ (difference expected actual).2 = [] := by
    simp [flags]
  rw [hnone, difference_eq]
  simp only [List.filter_eq_nil_iff, Ascending.mem_ofList, decide_eq_true_eq, Decidable.not_not]
  exact ⟨fun h l => ⟨h.1 l, h.2 l⟩, fun h => ⟨fun l => (h l).mp, fun l => (h l).mpr⟩⟩

/-- **Premises without a flag are the expected ones**, in some order. -/
theorem mem_iff_of_flags {expected actual : List Label} (h : flags expected actual = []) (l : Label) :
    l ∈ actual ↔ l ∈ expected :=
  (flags_eq_nil_iff.mp h l).symm

theorem check_eq_ok_iff {expected actual : List Label} {u : Unit} :
    check expected actual = .ok u ↔ flags expected actual = [] := by
  rw [check]
  split
  · rename_i hempty
    exact iff_of_true rfl (List.isEmpty_iff.mp hempty)
  · rename_i hsome
    exact iff_of_false (by simp) fun hnil => hsome (List.isEmpty_iff.mpr hnil)

theorem check_ok {expected actual : List Label} {u : Unit} (h : check expected actual = .ok u)
    (l : Label) : l ∈ actual ↔ l ∈ expected :=
  mem_iff_of_flags (check_eq_ok_iff.mp h) l

/-- **The expected premises pass**, in any order and however often each is listed. -/
theorem check_of_mem_iff {expected actual : List Label} (h : ∀ l, l ∈ actual ↔ l ∈ expected) :
    check expected actual = .ok () :=
  check_eq_ok_iff.mpr (flags_eq_nil_iff.mpr fun l => (h l).symm)

/-- What the comparison flags is a problem. -/
theorem flags_isProblem {expected actual : List Label} :
    ∀ flag ∈ flags expected actual, flag.isProblem = true := by
  intro flag hflag
  unfold flags at hflag
  rcases List.mem_append.mp hflag with hflag | hflag
  · split at hflag
    · simp at hflag
    · rw [List.mem_singleton.mp hflag]; rfl
  · split at hflag
    · simp at hflag
    · rw [List.mem_singleton.mp hflag]; rfl

/-- **The comparison is the difference of two sets**, in both directions. What is missing is expected and
not listed, what is extra is listed and not expected, each label once and in ascending order, whatever the
order of the two lists and however often they repeat a label. So a line passes exactly if the labels it
lists are those that are expected. -/
theorem difference_exact (expected actual : List Label) :
    ∃ missing extra, difference expected actual = (missing, extra) ∧
      (missing.Pairwise (· < ·) ∧ ∀ l, l ∈ missing ↔ l ∈ expected ∧ l ∉ actual) ∧
      (extra.Pairwise (· < ·) ∧ ∀ l, l ∈ extra ↔ l ∈ actual ∧ l ∉ expected) ∧
      (check expected actual = .ok () ↔ ∀ l, l ∈ expected ↔ l ∈ actual) := by
  refine ⟨_, _, difference_eq expected actual, ⟨(ofList_lt expected).filter _, fun l => ?_⟩,
    ⟨(ofList_lt actual).filter _, fun l => ?_⟩, check_eq_ok_iff.trans flags_eq_nil_iff⟩
  · rw [List.mem_filter, Ascending.mem_ofList, decide_eq_true_eq]
  · rw [List.mem_filter, Ascending.mem_ofList, decide_eq_true_eq]

/-- The last label of each list is missing in the other. -/
example : difference [4, 1, 1, 7] [1, 9, 4, 9, 2] = ([7], [2, 9]) := by decide

end ProofSheet.Premises
