import ProofSheet.Proofs.Formula.Built

/-!
# Substitution and capture

Substitution does not look at scopes. Where no quantifier binds a letter that is replaced, it replaces
the free occurrences and builds the junctions again. A letter put in place of another may be captured
then, by a quantifier that was there for another letter.

* `Formula.rebuilt`: a formula with its junctions built again, which is itself if it was built.
* `Formula.withLetters_eq_rebuilt`: **letters put for letters that nothing binds** are put where these are
  free.
* `Formula.exists_freeIn_of_replaceFree`: every letter free after a replacement was free, or replaces one
  that was.
* `Formula.freeIn_replaceFree`: **where nothing is captured**, each such letter is free.
-/

namespace ProofSheet.Formula

variable {targets letters around : List Symbol} {s : Symbol}

/-! ## Junctions built again -/

/-- A formula with its junctions built again. -/
def rebuilt (f : Formula) : Formula :=
  f.substitute [] []

/-- Building junctions again does not change which letters are free. -/
theorem freeIn_rebuilt (f : Formula) : FreeIn s f.rebuilt ↔ FreeIn s f := by
  induction f using inductionOn with
  | letter t => rfl
  | predicate name fs ih =>
    rw [rebuilt, substitute, substituteAll_eq, FreeIn, FreeIn, freeInSome_iff, freeInSome_iff]
    simp only [List.mem_map, exists_exists_and_eq_and]
    exact exists_congr fun f => and_congr_right fun hf => ih f hf
  | junction junctor fs ih =>
    rw [rebuilt, substitute, substituteAll_eq, freeIn_junctionOf, FreeIn, freeInSome_iff]
    simp only [List.mem_map, exists_exists_and_eq_and]
    exact exists_congr fun f => and_congr_right fun hf => ih f hf
  | conditional a b iha ihb | biconditional a b iha ihb | identity a b _ iha ihb =>
    exact or_congr iha ihb
  | negation f ih => exact ih
  | quantified q x body ih => exact and_congr_right' ih

/-- Only a junction is a junction after a replacement. -/
theorem exists_junction_of_replaceFree {junctor : Junctor} {f : Formula} {inner : List Formula}
    (h : replaceFree targets letters around f = .junction junctor inner) :
    ∃ juncts, f = .junction junctor juncts := by
  cases f with
  | junction junctor' juncts =>
    obtain ⟨rfl, -⟩ := Formula.junction.inj h
    exact ⟨juncts, rfl⟩
  | _ => cases h

/-- **What is built stays built** when free letters are replaced. -/
theorem Built.rebuilt_replaceFree {f : Formula} (h : Built f) :
    (replaceFree targets letters around f).rebuilt = replaceFree targets letters around f := by
  induction f using inductionOn generalizing around with
  | letter t => rfl
  | predicate name fs ih =>
    cases h with
    | predicate hargs =>
      rw [replaceFree, rebuilt, substitute, substituteAll_eq, replaceFreeAll_eq, List.map_map]
      congr 1
      exact List.map_congr_left fun f hf => ih f hf (hargs f hf)
  | junction junctor fs ih =>
    have hjuncts := h.of_mem_juncts
    have hsame : substituteAll [] [] (replaceFreeAll targets letters around fs) =
        replaceFreeAll targets letters around fs := by
      rw [substituteAll_eq, replaceFreeAll_eq, List.map_map]
      exact List.map_congr_left fun f hf => ih f hf (hjuncts f hf).1
    have hkind : ∀ inner, .junction junctor inner ∉ replaceFreeAll targets letters around fs := by
      intro inner hmem
      rw [replaceFreeAll_eq] at hmem
      obtain ⟨f, hf, heq⟩ := List.mem_map.mp hmem
      obtain ⟨inner', hinner⟩ := exists_junction_of_replaceFree heq
      exact (hjuncts f hf).2 inner' hinner
    rw [replaceFree, rebuilt, substitute, hsame, junctionOf_eq hkind]
  | conditional a b iha ihb =>
    cases h with
    | conditional ha hb => exact congrArg₂ Formula.conditional (iha ha) (ihb hb)
  | biconditional a b iha ihb =>
    cases h with
    | biconditional ha hb => exact congrArg₂ Formula.biconditional (iha ha) (ihb hb)
  | negation f ih =>
    cases h with
    | negation hf => exact congrArg Formula.negation (ih hf)
  | quantified q x body ih =>
    cases h with
    | quantified hbody => exact congrArg (Formula.quantified q x) (ih hbody)
  | identity a b equal iha ihb =>
    cases h with
    | identity ha hb => exact congrArg₂ (Formula.identity · · equal) (iha ha) (ihb hb)

/-! ## Letters for letters that nothing binds -/

/-- **Letters put for letters that nothing binds** are put where these are free, and junctions are built
again. -/
theorem withLetters_eq_rebuilt {f : Formula} (haround : ∀ x ∈ targets, x ∉ around)
    (hbinders : ∀ x ∈ targets, x ∉ binders f) :
    withLetters targets letters f = (replaceFree targets letters around f).rebuilt := by
  induction f using inductionOn generalizing around with
  | letter t =>
    rw [withLetters_letter, replaceFree]
    by_cases ht : t ∈ around
    · have hother : t ∉ targets := fun hmem => haround t hmem ht
      rw [assigned_of_not_mem hother, ite_self]
      rfl
    · rw [if_neg (by simpa using ht)]
      rfl
  | predicate name fs ih =>
    simp only [binders, bindersOfAll_eq, List.mem_flatMap, not_exists, not_and] at hbinders
    rw [withLetters_predicate, replaceFree, rebuilt, substitute, substituteAll_eq, replaceFreeAll_eq,
      List.map_map]
    congr 1
    exact List.map_congr_left fun f hf => ih f hf haround fun x hx => hbinders x hx f hf
  | junction junctor fs ih =>
    simp only [binders, bindersOfAll_eq, List.mem_flatMap, not_exists, not_and] at hbinders
    rw [withLetters, substitute, substituteAll_eq, replaceFree, rebuilt, substitute, substituteAll_eq,
      replaceFreeAll_eq, List.map_map]
    congr 1
    exact List.map_congr_left fun f hf => ih f hf haround fun x hx => hbinders x hx f hf
  | conditional a b iha ihb =>
    simp only [binders, List.mem_append, not_or] at hbinders
    exact congrArg₂ Formula.conditional (iha haround fun x hx => (hbinders x hx).1)
      (ihb haround fun x hx => (hbinders x hx).2)
  | biconditional a b iha ihb =>
    simp only [binders, List.mem_append, not_or] at hbinders
    exact congrArg₂ Formula.biconditional (iha haround fun x hx => (hbinders x hx).1)
      (ihb haround fun x hx => (hbinders x hx).2)
  | negation f ih => exact congrArg Formula.negation (ih haround hbinders)
  | quantified q y body ih =>
    simp only [binders, List.mem_cons, not_or] at hbinders
    -- the quantifier's own letter is not replaced, and no letter replaced is bound below it
    have hy : y ∉ targets := fun hmem => (hbinders y hmem).1 rfl
    have hbelow : ∀ x ∈ targets, x ∉ y :: around := by
      intro x hx
      rw [List.mem_cons, not_or]
      exact ⟨(hbinders x hx).1, haround x hx⟩
    rw [withLetters_quantified, assigned_of_not_mem hy, ih hbelow fun x hx => (hbinders x hx).2]
    rfl
  | identity a b equal iha ihb =>
    simp only [binders, List.mem_append, not_or] at hbinders
    exact congrArg₂ (Formula.identity · · equal) (iha haround fun x hx => (hbinders x hx).1)
      (ihb haround fun x hx => (hbinders x hx).2)

/-! ## Letters that are free after a replacement -/

/-- **Every letter free after a replacement** was free and is none of the targets, or replaces a target
that was free. -/
theorem exists_freeIn_of_replaceFree {f : Formula} (hs : s ∉ around)
    (h : FreeIn s (replaceFree targets letters around f)) :
    ∃ t, t ∉ around ∧ FreeIn t f ∧ assigned targets letters t = s := by
  induction f using inductionOn generalizing around with
  | letter t =>
    rw [replaceFree, FreeIn] at h
    by_cases ht : t ∈ around
    · rw [if_pos (by simpa using ht)] at h
      exact absurd (h ▸ ht) hs
    · rw [if_neg (by simpa using ht)] at h
      exact ⟨t, ht, rfl, h⟩
  | predicate name fs ih | junction junctor fs ih =>
    rw [replaceFree, replaceFreeAll_eq, FreeIn, freeInSome_iff] at h
    obtain ⟨_, hmem, hfree⟩ := h
    obtain ⟨f, hf, rfl⟩ := List.mem_map.mp hmem
    obtain ⟨t, ht, htf, hts⟩ := ih f hf hs hfree
    exact ⟨t, ht, freeInSome_iff.mpr ⟨f, hf, htf⟩, hts⟩
  | conditional a b iha ihb | biconditional a b iha ihb | identity a b _ iha ihb =>
    rcases h with h | h
    · obtain ⟨t, ht, hta, hts⟩ := iha hs h
      exact ⟨t, ht, .inl hta, hts⟩
    · obtain ⟨t, ht, htb, hts⟩ := ihb hs h
      exact ⟨t, ht, .inr htb, hts⟩
  | negation f ih => exact ih hs h
  | quantified q y body ih =>
    obtain ⟨hys, hbody⟩ := h
    have hbelow : s ∉ y :: around := by
      rw [List.mem_cons, not_or]
      exact ⟨hys.symm, hs⟩
    obtain ⟨t, ht, htbody, hts⟩ := ih hbelow hbody
    rw [List.mem_cons, not_or] at ht
    exact ⟨t, ht.2, ⟨Ne.symm ht.1, htbody⟩, hts⟩

/-- What replaces a free letter is free, where it is not captured. -/
theorem freeIn_replaceFree_of_freeIn {f : Formula} (hcapture : CaptureFree targets letters around f)
    {t : Symbol} (ht : t ∉ around) (h : FreeIn t f) :
    assigned targets letters t ∉ around ∧
      FreeIn (assigned targets letters t) (replaceFree targets letters around f) := by
  induction f using inductionOn generalizing around with
  | letter t' =>
    obtain rfl : t' = t := h
    refine ⟨hcapture ht, ?_⟩
    rw [replaceFree, if_neg (by simpa using ht)]
    rfl
  | predicate name fs ih | junction junctor fs ih =>
    obtain ⟨f, hf, htf⟩ := freeInSome_iff.mp h
    obtain ⟨hout, hfree⟩ := ih f hf (captureFreeAll_iff.mp hcapture f hf) ht htf
    refine ⟨hout, ?_⟩
    rw [replaceFree, replaceFreeAll_eq, FreeIn, freeInSome_iff]
    exact ⟨_, List.mem_map_of_mem hf, hfree⟩
  | conditional a b iha ihb | biconditional a b iha ihb | identity a b _ iha ihb =>
    rcases h with h | h
    · exact (iha hcapture.1 ht h).imp_right .inl
    · exact (ihb hcapture.2 ht h).imp_right .inr
  | negation f ih => exact ih hcapture ht h
  | quantified q y body ih =>
    obtain ⟨hyt, hbody⟩ := h
    have hbelow : t ∉ y :: around := by
      rw [List.mem_cons, not_or]
      exact ⟨hyt.symm, ht⟩
    obtain ⟨hout, hfree⟩ := ih hcapture hbelow hbody
    rw [List.mem_cons, not_or] at hout
    exact ⟨hout.2, Ne.symm hout.1, hfree⟩

/-- **Where nothing is captured, the letters free after a replacement** are those that were free, each
replaced. -/
theorem freeIn_replaceFree {f : Formula} (hcapture : CaptureFree targets letters [] f) :
    FreeIn s (replaceFree targets letters [] f) ↔
      ∃ t, FreeIn t f ∧ assigned targets letters t = s := by
  constructor
  · intro h
    obtain ⟨t, -, ht⟩ := exists_freeIn_of_replaceFree List.not_mem_nil h
    exact ⟨t, ht⟩
  · rintro ⟨t, ht, rfl⟩
    exact (freeIn_replaceFree_of_freeIn hcapture List.not_mem_nil ht).2

end ProofSheet.Formula
