import ProofSheet.Proofs.Formula.Correspondence

/-!
# Replacing free letters

An instance of what stands under quantifiers has other letters in the place of the quantified ones,
wherever these are free, and none of the new letters is bound where it is put.

* `Formula.replaceFree`, `Formula.CaptureFree`: the replacement, and that it captures nothing.
* `Formula.IsInstance`: a formula is alike to a capture-free replacement.
* `Formula.isInstance_iff`: **being an instance is alignment in all letters**: each letter is bound
  together with the one it faces, or that is the letter that replaces it and is bound nowhere.
-/

namespace ProofSheet

/-- What replaces a symbol: the letter at its first place among the targets, or itself. -/
def assigned (targets letters : List Symbol) (s : Symbol) : Symbol :=
  ((targets.idxOf? s).bind fun k => letters[k]?).getD s

namespace Formula

variable (targets letters : List Symbol)

mutual

/-- Replaces the targets by letters, wherever no quantifier around binds them. -/
def replaceFree (around : List Symbol) : Formula → Formula
  | .letter s => .letter (if around.contains s then s else assigned targets letters s)
  | .predicate name args => .predicate name (replaceFreeAll around args)
  | .junction junctor juncts => .junction junctor (replaceFreeAll around juncts)
  | .conditional a c => .conditional (replaceFree around a) (replaceFree around c)
  | .biconditional a b => .biconditional (replaceFree around a) (replaceFree around b)
  | .negation f => .negation (replaceFree around f)
  | .quantified q x body => .quantified q x (replaceFree (x :: around) body)
  | .identity a b equal => .identity (replaceFree around a) (replaceFree around b) equal

/-- The replacement in each formula of a list. -/
def replaceFreeAll (around : List Symbol) : List Formula → List Formula
  | [] => []
  | f :: fs => replaceFree around f :: replaceFreeAll around fs

end

mutual

/-- No letter is bound where it replaces a target. -/
def CaptureFree (around : List Symbol) : Formula → Prop
  | .letter s => s ∉ around → assigned targets letters s ∉ around
  | .predicate _ args => CaptureFreeAll around args
  | .junction _ juncts => CaptureFreeAll around juncts
  | .conditional a c => CaptureFree around a ∧ CaptureFree around c
  | .biconditional a b => CaptureFree around a ∧ CaptureFree around b
  | .negation f => CaptureFree around f
  | .quantified _ x body => CaptureFree (x :: around) body
  | .identity a b _ => CaptureFree around a ∧ CaptureFree around b

/-- No letter is captured in any formula of a list. -/
def CaptureFreeAll (around : List Symbol) : List Formula → Prop
  | [] => True
  | f :: fs => CaptureFree around f ∧ CaptureFreeAll around fs

end

variable {targets letters}

theorem replaceFreeAll_eq (around : List Symbol) (fs : List Formula) :
    replaceFreeAll targets letters around fs = fs.map (replaceFree targets letters around) := by
  induction fs with
  | nil => rfl
  | cons f fs ih => rw [replaceFreeAll, ih]; rfl

theorem captureFreeAll_iff {around : List Symbol} {fs : List Formula} :
    CaptureFreeAll targets letters around fs ↔
      ∀ f ∈ fs, CaptureFree targets letters around f := by
  induction fs with
  | nil => simp [CaptureFreeAll]
  | cons f fs ih => rw [CaptureFreeAll, ih, List.forall_mem_cons]

/-- Pairs of negations capture nothing. -/
theorem captureFree_core {around : List Symbol} (f : Formula) :
    CaptureFree targets letters around f.core ↔ CaptureFree targets letters around f := by
  induction f using faceInduction true with
  | negation f h _ => rw [core_negation (h rfl)]
  | doubled f _ ih => rw [core_doubled, ih, CaptureFree, CaptureFree]
  | _ => rw [core]; simp

/-- **An instance** of a formula: alike to what it becomes when letters replace the targets where they
are free, no letter being captured. -/
def IsInstance (targets letters : List Symbol) (template sample : Formula) : Prop :=
  CaptureFree targets letters [] template ∧
    Alike false (replaceFree targets letters [] template) sample

/-- **What an instance asks of two letters**: that they are bound together, or that the second
replaces the first and is bound on neither side. -/
def Exact (targets letters : List Symbol) (bound : BoundPairs) (t i : Symbol) : Prop :=
  if t ∈ bound.lefts then bound.Linked t i
  else assigned targets letters t = i ∧ i ∉ bound.lefts ∧ i ∉ bound.rights

/-- One letter: linked after the replacement and not captured, or exact before it. -/
theorem exact_iff {bound : BoundPairs} {t i : Symbol} :
    ((t ∉ bound.lefts → assigned targets letters t ∉ bound.lefts) ∧
      bound.Linked (if bound.lefts.contains t then t else assigned targets letters t) i) ↔
      Exact targets letters bound t i := by
  unfold Exact
  -- a bound letter is not replaced
  by_cases ht : t ∈ bound.lefts
  · simp [ht]
  · simp only [ht, not_false_eq_true, forall_const, List.contains_eq_mem, decide_false,
      Bool.false_eq_true, if_false]
    constructor
    · rintro ⟨hfree, hlinked⟩
      obtain ⟨hi, hright⟩ := (BoundPairs.linked_of_not_mem hfree).mp hlinked
      exact ⟨hi, hi ▸ hfree, hright⟩
    · rintro ⟨rfl, hleft, hright⟩
      exact ⟨hleft, (BoundPairs.linked_of_not_mem hleft).mpr ⟨rfl, hright⟩⟩

open BoundPairs (Linked)

/-- Lists of formulas, given the equivalence for each of them. -/
theorem forall₂_replaceFree {bound : BoundPairs} {fs gs : List Formula}
    (ih : ∀ f ∈ fs, ∀ g, CaptureFree targets letters bound.lefts f ∧
      Corresponds false Linked bound (replaceFree targets letters bound.lefts f) g ↔
        Corresponds false (Exact targets letters) bound f g) :
    CaptureFreeAll targets letters bound.lefts fs ∧
      List.Forall₂ (Corresponds false Linked bound)
        (replaceFreeAll targets letters bound.lefts fs) gs ↔
      List.Forall₂ (Corresponds false (Exact targets letters) bound) fs gs := by
  rw [captureFreeAll_iff, replaceFreeAll_eq, List.forall₂_map_left_iff, ← List.forall₂_and_left]
  constructor
  · exact forall₂_of_mem fun f hf g => (ih f hf g).mp
  · exact forall₂_of_mem fun f hf g => (ih f hf g).mpr

/-- **Linked after a capture-free replacement is exact before it.** -/
theorem corresponds_replaceFree (f : Formula) : ∀ {bound : BoundPairs} {g : Formula},
    CaptureFree targets letters bound.lefts f ∧
      Corresponds false Linked bound (replaceFree targets letters bound.lefts f) g ↔
        Corresponds false (Exact targets letters) bound f g := by
  induction f using inductionOn with
  | letter t =>
    intro bound g
    rw [CaptureFree, replaceFree, Corresponds, Corresponds]
    constructor
    · rintro ⟨hfree, i, hi, hlinked⟩
      exact ⟨i, hi, exact_iff.mp ⟨hfree, hlinked⟩⟩
    · rintro ⟨i, hi, hexact⟩
      obtain ⟨hfree, hlinked⟩ := exact_iff.mpr hexact
      exact ⟨hfree, i, hi, hlinked⟩
  | predicate name args ih =>
    intro bound g
    rw [CaptureFree, replaceFree, Corresponds, Corresponds]
    simp only [correspondEach_iff, ← forall₂_replaceFree fun f hf g => ih f hf]
    grind
  | junction junctor juncts ih =>
    intro bound g
    rw [CaptureFree, replaceFree, Corresponds, Corresponds]
    simp only [correspondEach_iff, ← forall₂_replaceFree fun f hf g => ih f hf]
    grind
  | conditional a c iha ihc =>
    intro bound g
    rw [CaptureFree, replaceFree, Corresponds, Corresponds]
    simp only [← iha, ← ihc]
    grind
  | biconditional a b iha ihb =>
    intro bound g
    rw [CaptureFree, replaceFree, Corresponds, Corresponds]
    simp only [← iha, ← ihb]
    grind
  | negation f ih =>
    intro bound g
    rw [CaptureFree, replaceFree, corresponds_negation (by simp), corresponds_negation (by simp)]
    simp only [← ih]
    grind
  | quantified q x body ih =>
    intro bound g
    rw [CaptureFree, replaceFree, Corresponds, Corresponds]
    have hlefts : ∀ x' : Symbol, BoundPairs.lefts ((x, x') :: bound) = x :: bound.lefts :=
      fun _ => rfl
    constructor
    · rintro ⟨hfree, x', body', hg, hclash, hbody⟩
      exact ⟨x', body', hg, hclash, ih.mp ⟨by rw [hlefts]; exact hfree, by rw [hlefts]; exact hbody⟩⟩
    · rintro ⟨x', body', hg, hclash, hbody⟩
      obtain ⟨hfree, hbody⟩ := ih.mpr hbody
      rw [hlefts] at hfree hbody
      exact ⟨hfree, x', body', hg, hclash, hbody⟩
  | identity a b equal iha ihb =>
    intro bound g
    rw [CaptureFree, replaceFree, Corresponds, Corresponds]
    simp only [← iha, ← ihb]
    grind

/-- Two formulas are aligned in all their letters. -/
def AlignedExactly (targets letters : List Symbol) (template sample : Formula) : Prop :=
  Corresponds false (Exact targets letters) [] template sample

/-- **Being an instance is alignment in all letters.** -/
theorem isInstance_iff {template sample : Formula} :
    IsInstance targets letters template sample ↔
      AlignedExactly targets letters template sample := by
  rw [IsInstance, Alike]
  exact @corresponds_replaceFree targets letters template [] sample

end Formula

end ProofSheet
