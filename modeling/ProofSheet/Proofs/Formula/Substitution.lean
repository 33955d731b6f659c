import ProofSheet.Formula.Substitute
import ProofSheet.Proofs.Formula.FreeLetters

/-!
# Letters under substitution

* `replacementFor_eq_some`: what stands for a symbol, by its place among the symbols replaced.
* `Formula.freeIn_substitute`: **the letters of a substitution instance** come from the replacements
  and from letters that are not replaced, where nothing is bound.
-/

namespace ProofSheet

/-- What stands for a symbol is the entry at the symbol's first place. -/
theorem replacementFor_eq_some {α : Type} {source : List Symbol} {s : Symbol} {e : α} :
    ∀ {target : List (Option α)}, replacementFor source target s = some e ↔
      ∃ k, source.idxOf? s = some k ∧ target[k]? = some (some e) := by
  induction source with
  | nil => intro target; simp [replacementFor]
  | cons t source ih =>
    intro target
    by_cases hts : t = s
    · subst hts
      cases target <;> simp [replacementFor, List.idxOf?_cons]
    · cases target with
      | nil => simp [replacementFor]
      | cons slot target =>
        rw [replacementFor, if_neg hts, ih, List.idxOf?_cons]
        simp [hts]

namespace Formula

variable {source : List Symbol} {target : List (Option Formula)}

theorem substituteAll_eq (fs : List Formula) :
    substituteAll source target fs = fs.map (substitute source target) := by
  induction fs with
  | nil => rfl
  | cons f fs ih => rw [substituteAll, ih]; rfl

/-- **The letters of a substitution instance** of a formula without quantifiers are those of what
stands for its letters. -/
theorem freeIn_substitute {f : Formula} (hf : binders f = []) {s : Symbol}
    (h : FreeIn s (substitute source target f)) :
    ∃ t, FreeIn t f ∧ FreeIn s ((replacementFor source target t).getD (.letter t)) := by
  induction f using inductionOn with
  | letter t => exact ⟨t, by simp [FreeIn], h⟩
  | predicate name fs ih =>
    rw [binders, bindersOfAll_eq, List.flatMap_eq_nil_iff] at hf
    rw [substitute, substituteAll_eq, FreeIn, freeInSome_iff] at h
    obtain ⟨_, hmap, hs⟩ := h
    obtain ⟨f, hmem, rfl⟩ := List.mem_map.mp hmap
    obtain ⟨t, ht, hs⟩ := ih f hmem (hf f hmem) hs
    exact ⟨t, by rw [FreeIn, freeInSome_iff]; exact ⟨f, hmem, ht⟩, hs⟩
  | junction name fs ih =>
    rw [binders, bindersOfAll_eq, List.flatMap_eq_nil_iff] at hf
    rw [substitute, substituteAll_eq, freeIn_junctionOf] at h
    obtain ⟨_, hmap, hs⟩ := h
    obtain ⟨f, hmem, rfl⟩ := List.mem_map.mp hmap
    obtain ⟨t, ht, hs⟩ := ih f hmem (hf f hmem) hs
    exact ⟨t, by rw [FreeIn, freeInSome_iff]; exact ⟨f, hmem, ht⟩, hs⟩
  | conditional a b iha ihb | biconditional a b iha ihb | identity a b _ iha ihb =>
    rw [binders, List.append_eq_nil_iff] at hf
    rw [substitute, FreeIn] at h
    rcases h with h | h
    · obtain ⟨t, ht, hs⟩ := iha hf.1 h
      exact ⟨t, by rw [FreeIn]; exact Or.inl ht, hs⟩
    · obtain ⟨t, ht, hs⟩ := ihb hf.2 h
      exact ⟨t, by rw [FreeIn]; exact Or.inr ht, hs⟩
  | negation f ih =>
    rw [binders] at hf
    rw [substitute, FreeIn] at h
    obtain ⟨t, ht, hs⟩ := ih hf h
    exact ⟨t, by rw [FreeIn]; exact ht, hs⟩
  | quantified q x body _ => simp [binders] at hf

end Formula

end ProofSheet
