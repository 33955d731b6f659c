import Mathlib.Data.List.Basic
import ProofSheet.Proofs.Formula.Counting
import ProofSheet.Proofs.Formula.Substitution

/-!
# Counting quantifiers

A change of letters neither adds nor removes a quantifier.

* `Formula.binders_substitute`: **letters put for letters rename the quantifiers**, and no more.
* `Formula.length_binders`: each quantifier binds one symbol.
* `Formula.occurrences_instance`: an instance has a quantifier less than its quantification.
-/

namespace ProofSheet.Formula

/-- A junction has the quantifiers of its parts, flattened or not. -/
theorem binders_junctionOf (junctor : Junctor) (parts : List Formula) :
    binders (junctionOf junctor parts) = parts.flatMap binders := by
  have hpart : ∀ f, (junctsUnder junctor f).flatMap binders = binders f := by
    intro f
    unfold junctsUnder
    split
    · split
      · rw [binders, bindersOfAll_eq]
      · simp
    · simp
  rw [junctionOf, binders, bindersOfAll_eq, List.flatMap_assoc]
  exact List.flatMap_congr fun f _ => hpart f

section Substitution

variable {source : List Symbol} {target : List (Option Formula)}

/-- **Letters put for letters rename the quantifiers**, each in its place. -/
theorem binders_substitute
    (hletters : ∀ s e, replacementFor source target s = some e → ∃ t, e = .letter t) (f : Formula) :
    binders (substitute source target f) = (binders f).map (rebind source target) := by
  induction f using inductionOn with
  | letter s =>
    rw [substitute]
    cases hs : replacementFor source target s with
    | none => rfl
    | some e =>
      obtain ⟨t, rfl⟩ := hletters s e hs
      rfl
  | predicate name fs ih =>
    rw [substitute, substituteAll_eq, binders, binders, bindersOfAll_eq, bindersOfAll_eq,
      List.flatMap_map, List.map_flatMap]
    exact List.flatMap_congr ih
  | junction junctor fs ih =>
    rw [substitute, substituteAll_eq, binders_junctionOf, binders, bindersOfAll_eq,
      List.flatMap_map, List.map_flatMap]
    exact List.flatMap_congr ih
  | conditional a b iha ihb | biconditional a b iha ihb | identity a b _ iha ihb =>
    rw [substitute, binders, binders, iha, ihb, List.map_append]
  | negation f ih => rw [substitute, binders, binders, ih]
  | quantified q x body ih => rw [substitute, binders, binders, ih, List.map_cons]

end Substitution

/-- Each quantifier binds one symbol. -/
theorem length_binders (f : Formula) : (binders f).length = occurrences .quantified f := by
  have heach : ∀ fs : List Formula,
      (∀ f ∈ fs, (binders f).length = occurrences .quantified f) →
        (fs.flatMap binders).length = occurrencesIn .quantified fs := by
    intro fs h
    induction fs with
    | nil => rfl
    | cons f fs ih =>
      rw [List.forall_mem_cons] at h
      rw [List.flatMap_cons, List.length_append, occurrencesIn, h.1, ih h.2]
  induction f using inductionOn with
  | letter s => rfl
  | predicate name fs ih | junction junctor fs ih =>
    rw [binders, bindersOfAll_eq, heach fs ih, occurrences]
    simp [tick]
  | conditional a b iha ihb | biconditional a b iha ihb | identity a b _ iha ihb =>
    rw [binders, List.length_append, iha, ihb, occurrences]
    simp [tick]
  | negation f ih => rw [binders, ih, occurrences_negation (by decide)]
  | quantified q x body ih =>
    rw [binders, List.length_cons, ih, occurrences, tick, if_pos rfl, Nat.add_comm]

/-- **An instance has a quantifier less than its quantification**, whatever letter is put in. -/
theorem occurrences_instance {q : Quantifier} {x a : Symbol} {body : Formula} :
    occurrences .quantified (.quantified q x body) =
      occurrences .quantified (body.substitute [x] [some (.letter a)]) + 1 := by
  have hletters : ∀ s (e : Formula), replacementFor [x] [some (.letter a)] s = some e →
      ∃ t, e = .letter t := by
    intro s e he
    rw [replacementFor] at he
    split at he
    · exact ⟨a, (Option.some.inj he).symm⟩
    · simp [replacementFor] at he
  rw [← length_binders, ← length_binders, binders_substitute hletters, List.length_map, binders,
    List.length_cons]

end ProofSheet.Formula
