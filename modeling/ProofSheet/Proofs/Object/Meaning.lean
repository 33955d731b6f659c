import ProofSheet.Proofs.Interpretation

/-!
# What alike objects share

Alike objects are true in the same interpretations under the same assignments, and have the same free
letters. Inside them two assignments are kept, one for each side, that agree on letters bound together.
A letter that is free on one side is never bound by a quantifier of the other.

* `Object.freeIn_of_paired`: **a free letter faces a free letter** that is linked to it.
* `Object.free_iff_of_paired`: the letters left free are the same on both sides.
* `Object.alike_sameMeaning`: **alike objects mean the same, and nothing is captured.**
-/

namespace ProofSheet

universe u

namespace Object

variable {dn : Bool} {bound : BoundPairs}

open BoundPairs (Linked Proper)
open Formula (FreeIn FreeInSome freeInSome_iff exists_of_forall₂)
open Interpretation (Agree holds)

theorem freeIn_face {s : Symbol} {r o : Object} (h : face dn r = o) :
    FreeIn s o.formula ↔ FreeIn s r.formula := by
  subst h
  cases dn with
  | false => rfl
  | true => exact (formula_core r).symm ▸ Formula.freeIn_core r.formula

/-- A letter is free in some parts if it is in one. -/
theorem freeInSome_formula_iff {s : Symbol} {os : List Object} :
    FreeInSome s (os.map formula) ↔ ∃ o ∈ os, FreeIn s o.formula := by
  rw [freeInSome_iff]
  simp only [List.mem_map, exists_exists_and_eq_and]

/-- **A free letter faces a free letter** that is linked to it. -/
theorem freeIn_of_paired {l r : Object} (h : Paired dn bound l r) :
    ∀ {s : Symbol}, FreeIn s l.formula → ∃ t, bound.Linked s t ∧ FreeIn t r.formula := by
  induction h with
  | one hb =>
    intro s hs
    exact ⟨s, hb.matchLetters s, hs⟩
  | letter hl hr h =>
    intro s hs
    rw [← freeIn_face hl, formula_letter, FreeIn] at hs
    subst hs
    exact ⟨_, h, (freeIn_face hr).mp rfl⟩
  | predicate hl hr hlen _ ih =>
    intro s hs
    rw [← freeIn_face hl, formula_predicate, FreeIn, freeInSome_formula_iff] at hs
    obtain ⟨a, ha, hs⟩ := hs
    obtain ⟨i, rfl⟩ := List.mem_iff_get.mp ha
    obtain ⟨t, hst, ht⟩ := ih i hs
    refine ⟨t, hst, (freeIn_face hr).mp ?_⟩
    rw [formula_predicate, FreeIn, freeInSome_formula_iff]
    exact ⟨_, List.get_mem _ _, ht⟩
  | junction hl hr σ _ ih =>
    intro s hs
    rw [← freeIn_face hl, formula_junction, FreeIn, freeInSome_formula_iff] at hs
    obtain ⟨o, ho, hs⟩ := hs
    obtain ⟨i, rfl⟩ := List.mem_iff_get.mp ho
    obtain ⟨t, hst, ht⟩ := ih i hs
    refine ⟨t, hst, (freeIn_face hr).mp ?_⟩
    rw [formula_junction, FreeIn, freeInSome_formula_iff]
    exact ⟨_, List.get_mem _ _, ht⟩
  | conditional hl hr _ _ iha ihb | biconditional hl hr _ _ iha ihb | identity hl hr _ _ iha ihb =>
    intro s hs
    rcases (freeIn_face hl).mpr hs with hs | hs
    · obtain ⟨t, hst, ht⟩ := iha hs
      exact ⟨t, hst, (freeIn_face hr).mp (.inl ht)⟩
    · obtain ⟨t, hst, ht⟩ := ihb hs
      exact ⟨t, hst, (freeIn_face hr).mp (.inr ht)⟩
  | biconditionalCrossed hl hr _ _ iha ihb | identityCrossed hl hr _ _ iha ihb =>
    intro s hs
    rcases (freeIn_face hl).mpr hs with hs | hs
    · obtain ⟨t, hst, ht⟩ := iha hs
      exact ⟨t, hst, (freeIn_face hr).mp (.inr ht)⟩
    · obtain ⟨t, hst, ht⟩ := ihb hs
      exact ⟨t, hst, (freeIn_face hr).mp (.inl ht)⟩
  | negation hl hr _ ih =>
    intro s hs
    obtain ⟨t, hst, ht⟩ := ih ((freeIn_face hl).mpr hs)
    exact ⟨t, hst, (freeIn_face hr).mp ht⟩
  | quantified hl hr hc _ ih =>
    intro s hs
    obtain ⟨hx, hs⟩ := (freeIn_face hl).mpr hs
    obtain ⟨t, hst, ht⟩ := ih hs
    rw [BoundPairs.linked_cons hc] at hst
    rcases hst with ⟨rfl, -⟩ | ⟨-, hty, hst⟩
    · exact absurd rfl hx
    · exact ⟨t, hst, (freeIn_face hr).mp ⟨hty.symm, ht⟩⟩

/-- A letter that nothing binds on the left is bound by nothing on the right. -/
theorem free_of_paired {l r : Object} (h : Paired dn bound l r) {s : Symbol}
    (hs : s ∉ bound.lefts ∧ FreeIn s l.formula) : s ∉ bound.rights ∧ FreeIn s r.formula := by
  obtain ⟨t, hst, ht⟩ := freeIn_of_paired h hs.2
  obtain ⟨rfl, hright⟩ := (BoundPairs.linked_of_not_mem hs.1).mp hst
  exact ⟨hright, ht⟩

/-- **The letters left free are the same on both sides.** -/
theorem free_iff_of_paired (hb : bound.Proper) {l r : Object} (h : Paired dn bound l r) {s : Symbol} :
    (s ∉ bound.lefts ∧ FreeIn s l.formula) ↔ (s ∉ bound.rights ∧ FreeIn s r.formula) := by
  have hback := @free_of_paired dn bound.swap r l (h.symm hb) s
  rw [BoundPairs.lefts_swap, BoundPairs.rights_swap] at hback
  exact ⟨free_of_paired h, hback⟩

/-- **Alike objects mean the same, and nothing is captured.** They are true in the same interpretations
under the same assignments. Parts that are alike under letters bound around them are true together under
assignments that agree on letters bound together, and the letters that are left free in the one, also by
the quantifiers around it, are those left free in the other. -/
theorem alike_sameMeaning (dn : Bool) :
    (∀ l r : Object, alike dn l r = true →
      ∀ (I : Interpretation.{u}) (σ : I.Assignment), holds σ l.formula ↔ holds σ r.formula) ∧
    ∀ bound : BoundPairs, bound.Proper → ∀ l r : Object, alikeUnder dn bound l r = true →
      (∀ (I : Interpretation.{u}) (σ τ : I.Assignment), Agree bound σ τ →
        (holds σ l.formula ↔ holds τ r.formula)) ∧
      ∀ s, (s ∉ bound.lefts ∧ FreeIn s l.formula) ↔ (s ∉ bound.rights ∧ FreeIn s r.formula) := by
  constructor
  · intro l r h I σ
    exact Interpretation.holds_alike h
  · intro bound hb l r h
    have hpaired := (alikeUnder_iff_paired hb).mp h
    constructor
    · intro I σ τ hagree
      exact Interpretation.holds_paired hpaired hagree
    · intro s
      exact free_iff_of_paired hb hpaired

/-- `(∀x)(∃y)Rxya` means what `(∀z)¬¬(∃w)Rzwa` does, and `a`, which is free below `(∀x)` on the left, is
free below `(∀z)` on the right. And `(∀x)(P ∧ Q)` means what `(∀x)(Q ∧ P)` does, over one object `P`
which is `(∀x)Fx`. -/
theorem alike_sameMeaning_renamed :
    (∀ (I : Interpretation.{0}) (σ : I.Assignment),
      holds σ (.quantified .universal 'x' (.quantified .existential 'y'
          (.predicate 'R' [.letter 'x', .letter 'y', .letter 'a']))) ↔
        holds σ (.quantified .universal 'z' (.negation (.negation (.quantified .existential 'w'
          (.predicate 'R' [.letter 'z', .letter 'w', .letter 'a'])))))) ∧
      ('a' ∉ BoundPairs.rights [('x', 'z')] ∧
        FreeIn 'a' (.quantified .existential 'w'
          (.predicate 'R' [.letter 'z', .letter 'w', .letter 'a']))) ∧
      ∀ (I : Interpretation.{0}) (σ : I.Assignment),
        holds σ (.quantified .universal 'x' (.junction .conjunction
            [.quantified .universal 'x' (.predicate 'F' [.letter 'x']), .letter 'Q'])) ↔
          holds σ (.quantified .universal 'x' (.junction .conjunction
            [.letter 'Q', .quantified .universal 'x' (.predicate 'F' [.letter 'x'])])) := by
  obtain ⟨hmeaning, hparts⟩ := alike_sameMeaning.{0} true
  refine ⟨?_, ?_, ?_⟩
  · exact hmeaning
      (.quantified .universal 'x' (.quantified .existential 'y'
        (.predicate 'R' [.letter 'x', .letter 'y', .letter 'a'])))
      (.quantified .universal 'z' (.negation (.negation (.quantified .existential 'w'
        (.predicate 'R' [.letter 'z', .letter 'w', .letter 'a']))))) (by decide)
  · refine ((hparts [('x', 'z')] (.cons .nil rfl)
      (.quantified .existential 'y' (.predicate 'R' [.letter 'x', .letter 'y', .letter 'a']))
      (.quantified .existential 'w' (.predicate 'R' [.letter 'z', .letter 'w', .letter 'a']))
      (by decide)).2 'a').mp ?_
    simp [BoundPairs.lefts, FreeIn, FreeInSome]
  · exact hmeaning
      (.quantified .universal 'x' (.junction .conjunction [.quantified .universal 'x'
        (.predicate 'F' [.letter 'x'] (some [2])) (some [1]), .letter 'Q' (some [3])]) (some [4]))
      (.quantified .universal 'x' (.junction .conjunction [.letter 'Q' (some [5]),
        .quantified .universal 'x' (.predicate 'F' [.letter 'x'] (some [2])) (some [1])])
        (some [6])) (by decide)

end Object

end ProofSheet
