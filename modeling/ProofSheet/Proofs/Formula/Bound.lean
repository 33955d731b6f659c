import ProofSheet.Formula.Bound

/-!
# Letters bound on two sides

The bindings that a comparison has passed, one from each side, say which letters correspond below them.

* `BoundPairs.Linked`: what alikeness asks of two letters.
* `BoundPairs.Proper`: bindings none of which binds a letter again.
* `BoundPairs.Chained`: the bindings of two comparisons that share their middle formula, and those of the
  comparison of the outer two.
* `BoundPairs.Matched`: each letter is bound together with itself.
-/

namespace ProofSheet

namespace BoundPairs

/-- Letters that correspond in a comparison: bound together, or both free and equal. -/
def Linked (bound : BoundPairs) (l r : Symbol) : Prop :=
  bound.matchLetters l r = true

theorem clashes_eq_false {bound : BoundPairs} {x y : Symbol} :
    bound.clashes x y = false ↔ ∀ pair ∈ bound, pair.1 ≠ x ∧ pair.2 ≠ y := by
  simp [clashes]

@[simp] theorem linked_nil {l r : Symbol} : Linked [] l r ↔ l = r := by
  simp [Linked, matchLetters]

/-- **Linked letters below a quantifier**: the two that it binds, or two others that were linked
before. -/
theorem linked_cons {bound : BoundPairs} {x y l r : Symbol} (h : bound.clashes x y = false) :
    Linked ((x, y) :: bound) l r ↔ (l = x ∧ r = y) ∨ (l ≠ x ∧ r ≠ y ∧ bound.Linked l r) := by
  rw [clashes_eq_false] at h
  unfold Linked matchLetters
  -- the pair in front is the one found, or the search goes on past it
  by_cases hl : x = l
  · subst hl
    simp only [List.find?_cons, beq_self_eq_true, beq_iff_eq]
    grind
  · have hl' : l ≠ x := fun e => hl e.symm
    simp only [List.find?_cons, beq_eq_false_iff_ne.mpr hl, hl', false_and, false_or, ne_eq,
      not_false_eq_true, true_and]
    cases hf : bound.find? fun pair => pair.1 == l with
    | none =>
      simp only [List.any_cons, Bool.and_eq_true, beq_iff_eq, Bool.not_eq_true',
        Bool.or_eq_false_iff, beq_eq_false_iff_ne]
      grind
    | some pair =>
      have hpair := h pair (List.mem_of_find?_eq_some hf)
      simp only [beq_iff_eq]
      grind

/-- The pairs of a comparison with its sides exchanged. -/
def swap (bound : BoundPairs) : BoundPairs :=
  bound.map Prod.swap

/-- The bindings along a path of quantifiers, none of which binds a letter again. -/
inductive Proper : BoundPairs → Prop
  | nil : Proper []
  | cons {bound x y} : Proper bound → bound.clashes x y = false → Proper ((x, y) :: bound)

theorem clashes_swap (bound : BoundPairs) (x y : Symbol) :
    bound.swap.clashes y x = bound.clashes x y := by
  simp [clashes, swap, List.any_map, Function.comp_def, Bool.or_comm]

theorem Proper.linked_swap {bound : BoundPairs} (h : bound.Proper) {l r : Symbol} :
    bound.swap.Linked r l ↔ bound.Linked l r := by
  induction h with
  | nil => simp [swap, eq_comm]
  | @cons bound x y _ hc ih =>
    have hc' : bound.swap.clashes y x = false := by rw [clashes_swap]; exact hc
    have hs : swap ((x, y) :: bound) = (y, x) :: bound.swap := rfl
    rw [hs, linked_cons hc, linked_cons hc', ih]
    grind

/-- The bindings of two comparisons that share their middle formula, and those of the comparison of
the outer two. -/
inductive Chained : BoundPairs → BoundPairs → BoundPairs → Prop
  | nil : Chained [] [] []
  | cons {b₁ b₂ b₃ x y z} : Chained b₁ b₂ b₃ → b₁.clashes x y = false → b₂.clashes y z = false →
      Chained ((x, y) :: b₁) ((y, z) :: b₂) ((x, z) :: b₃)

theorem Chained.clashes {b₁ b₂ b₃ : BoundPairs} (h : Chained b₁ b₂ b₃) {x y z : Symbol}
    (h₁ : b₁.clashes x y = false) (h₂ : b₂.clashes y z = false) : b₃.clashes x z = false := by
  induction h with
  | nil => rfl
  | cons _ _ _ ih =>
    rw [clashes_eq_false] at h₁ h₂ ⊢
    simp only [List.forall_mem_cons] at h₁ h₂ ⊢
    have hrest := ih (clashes_eq_false.mpr h₁.2) (clashes_eq_false.mpr h₂.2)
    exact ⟨⟨h₁.1.1, h₂.1.2⟩, clashes_eq_false.mp hrest⟩

theorem Chained.linked {b₁ b₂ b₃ : BoundPairs} (h : Chained b₁ b₂ b₃) {l m r : Symbol}
    (hlm : b₁.Linked l m) (hmr : b₂.Linked m r) : b₃.Linked l r := by
  induction h with
  | nil => simp only [linked_nil] at *; exact hlm.trans hmr
  | @cons b₁ b₂ b₃ x y z hch h₁ h₂ ih =>
    rw [linked_cons h₁] at hlm
    rw [linked_cons h₂] at hmr
    rw [linked_cons (hch.clashes h₁ h₂)]
    grind

/-- The bindings of a formula compared with itself. -/
def diagonal (bound : BoundPairs) : BoundPairs :=
  bound.map fun pair => (pair.1, pair.1)

theorem Proper.chained_swap {bound : BoundPairs} (h : bound.Proper) :
    Chained bound bound.swap bound.diagonal := by
  induction h with
  | nil => exact .nil
  | @cons bound x y _ hc ih => exact .cons ih hc ((clashes_swap bound x y).trans hc)

theorem Proper.chained_diagonal {bound : BoundPairs} (h : bound.Proper) :
    Chained bound.diagonal bound bound := by
  induction h with
  | nil => exact .nil
  | @cons bound x y h hc ih =>
    have hd := h.chained_swap.clashes hc ((clashes_swap bound x y).trans hc)
    exact .cons ih hd hc

/-! ## The letters of one side -/

/-- The letters bound on the left. -/
def lefts (bound : BoundPairs) : List Symbol :=
  bound.map Prod.fst

/-- The letters bound on the right. -/
def rights (bound : BoundPairs) : List Symbol :=
  bound.map Prod.snd

/-- A letter that is not bound on the left is linked to itself alone, where that is not bound on the
right. -/
theorem linked_of_not_mem {bound : BoundPairs} {l r : Symbol} (h : l ∉ bound.lefts) :
    bound.Linked l r ↔ l = r ∧ r ∉ bound.rights := by
  have hnone : (bound.find? fun pair => pair.1 == l) = none := by
    rw [List.find?_eq_none]
    rintro ⟨x, y⟩ hpair hx
    exact h (List.mem_map.mpr ⟨(x, y), hpair, by simpa using hx⟩)
  have hright : (bound.any fun pair => pair.2 == r) = true ↔ r ∈ bound.rights := by
    simp [rights]
  simp only [Linked, matchLetters, hnone, Bool.and_eq_true, beq_iff_eq, Bool.not_eq_true']
  rw [← Bool.not_eq_true, hright]

@[simp] theorem lefts_swap (bound : BoundPairs) : bound.swap.lefts = bound.rights := by
  simp [lefts, rights, swap]

@[simp] theorem rights_swap (bound : BoundPairs) : bound.swap.rights = bound.lefts := by
  simp [lefts, rights, swap]

/-! ## Letters bound to themselves -/

/-- Each letter is bound together with itself. -/
def Matched (bound : BoundPairs) : Prop :=
  ∀ pair ∈ bound, pair.1 = pair.2

theorem isMatched_iff {bound : BoundPairs} : bound.isMatched = true ↔ bound.Matched := by
  simp [isMatched, Matched]

@[simp] theorem matched_nil : Matched [] := by
  simp [Matched]

theorem matched_cons {bound : BoundPairs} {x y : Symbol} :
    Matched ((x, y) :: bound) ↔ x = y ∧ bound.Matched := by
  simp [Matched]

/-- Letters bound to themselves are so bound with the sides exchanged. -/
theorem Matched.swap {bound : BoundPairs} (h : bound.Matched) : bound.swap.Matched := by
  rintro pair hpair
  obtain ⟨pair', hpair', rfl⟩ := List.mem_map.mp hpair
  exact (h pair' hpair').symm

/-- What is bound to itself on the way to the middle formula changes nothing. -/
theorem Chained.eq_right {b₁ b₂ b₃ : BoundPairs} (h : Chained b₁ b₂ b₃) (hb : b₁.Matched) :
    b₃ = b₂ := by
  induction h with
  | nil => rfl
  | cons _ _ _ ih =>
    obtain ⟨rfl, hrest⟩ := matched_cons.mp hb
    rw [ih hrest]

theorem Chained.eq_left {b₁ b₂ b₃ : BoundPairs} (h : Chained b₁ b₂ b₃) (hb : b₂.Matched) :
    b₃ = b₁ := by
  induction h with
  | nil => rfl
  | cons _ _ _ ih =>
    obtain ⟨rfl, hrest⟩ := matched_cons.mp hb
    rw [ih hrest]

theorem Matched.cons {bound : BoundPairs} (h : bound.Matched) (x : Symbol) :
    Matched ((x, x) :: bound) :=
  List.forall_mem_cons.mpr ⟨rfl, h⟩

theorem Matched.matchLetters {bound : BoundPairs} (h : bound.Matched) (s : Symbol) :
    bound.matchLetters s s = true := by
  unfold BoundPairs.matchLetters
  cases hfind : bound.find? fun pair => pair.1 == s with
  | some pair =>
    have hfirst : pair.1 = s := by simpa using List.find?_some hfind
    have hsecond := h pair (List.mem_of_find?_eq_some hfind)
    simp [← hsecond, hfirst]
  | none =>
    rw [List.find?_eq_none] at hfind
    simp only [beq_self_eq_true, Bool.true_and, Bool.not_eq_true', List.any_eq_false]
    intro pair hpair
    rw [← h pair hpair]
    exact hfind pair hpair

theorem Matched.clashes {bound : BoundPairs} (h : bound.Matched) {x : Symbol}
    (hx : x ∉ bound.lefts) : bound.clashes x x = false := by
  rw [clashes_eq_false]
  intro pair hpair
  have hne : pair.1 ≠ x := by
    rintro rfl
    exact hx (List.mem_map_of_mem hpair)
  exact ⟨hne, h pair hpair ▸ hne⟩

theorem not_mem_lefts {bound : BoundPairs} {x y : Symbol} (h : bound.clashes x y = false) :
    x ∉ bound.lefts := by
  intro hx
  obtain ⟨pair, hpair, rfl⟩ := List.mem_map.mp hx
  exact (clashes_eq_false.mp h pair hpair).1 rfl

end BoundPairs

end ProofSheet
