import ProofSheet.Proofs.Formula.Built
import ProofSheet.Proofs.Mapping.Exhaustive

/-!
# The alignment of an instance

A formula is aligned part by part with its instances, that is with what it becomes when letters are put
for some of its letters. The alignment gives the mapping that sends each letter, where it is free, to the
letter put for it.

* `LetterMapping.ofInstance`: that mapping.
* `LetterMapping.alignment_withLetters`: **a formula is aligned with its instances**, if none of the
  letters replaced is bound in it and it binds no letter again.
* `Formula.mem_mappings_withLetters`, `Formula.oneOne_withLetters`: so the search finds the mapping, and
  it is one of the one-to-one assignments if each letter is free and has a letter of its own.
-/

namespace ProofSheet

namespace LetterMapping

open Formula (FreeIn Built rebindings rebindingsOfAll_eq withLetters)
open Mapping (IsUnion Fills)

variable {targets letters : List Symbol}

/-- The mapping of the targets to the letters put for them, where they are free in a formula. -/
def ofInstance (targets letters : List Symbol) (f : Formula) : LetterMapping :=
  List.zipWith (fun x a => if f.scope.isFree x then some a else none) targets letters

theorem length_ofInstance (hlen : letters.length = targets.length) (f : Formula) :
    (ofInstance targets letters f).length = targets.length := by
  simp [ofInstance, hlen]

theorem fills_ofInstance {f : Formula} {k : Nat} {s : Symbol} :
    Fills (ofInstance targets letters f) k s ↔
      ∃ x, targets[k]? = some x ∧ letters[k]? = some s ∧ FreeIn x f := by
  rw [Fills, ofInstance, List.getElem?_zipWith]
  cases targets[k]? with
  | none => simp
  | some x =>
    cases letters[k]? with
    | none => simp
    | some a =>
      by_cases hfree : FreeIn x f
      · simp [Formula.scope_isFree.mpr hfree, hfree]
      · have hnot : f.scope.isFree x = false := by
          rw [← Bool.not_eq_true, Formula.scope_isFree]
          exact hfree
        simp [hnot, hfree]

theorem ofInstance_congr {f g : Formula} (h : ∀ x ∈ targets, FreeIn x f ↔ FreeIn x g) :
    ofInstance targets letters f = ofInstance targets letters g := by
  refine Mapping.eq_of_fills (by simp [ofInstance]) fun k s => ?_
  rw [fills_ofInstance, fills_ofInstance]
  constructor
  · rintro ⟨x, hx, hs, hfree⟩
    exact ⟨x, hx, hs, (h x (List.mem_of_getElem? hx)).mp hfree⟩
  · rintro ⟨x, hx, hs, hfree⟩
    exact ⟨x, hx, hs, (h x (List.mem_of_getElem? hx)).mpr hfree⟩

/-- A formula fills the slots that its parts fill, if its free letters are theirs. -/
theorem isUnion_ofInstance (hlen : letters.length = targets.length) {f : Formula}
    {parts : List Formula} (h : ∀ x ∈ targets, FreeIn x f ↔ ∃ part ∈ parts, FreeIn x part) :
    IsUnion targets.length (parts.map (ofInstance targets letters))
      (ofInstance targets letters f) := by
  refine ⟨length_ofInstance hlen f, fun k s => ?_⟩
  rw [fills_ofInstance]
  constructor
  · rintro ⟨x, hx, hs, hfree⟩
    obtain ⟨part, hpart, hfree⟩ := (h x (List.mem_of_getElem? hx)).mp hfree
    exact ⟨_, List.mem_map_of_mem hpart, fills_ofInstance.mpr ⟨x, hx, hs, hfree⟩⟩
  · rintro ⟨_, hmap, hfills⟩
    obtain ⟨part, hpart, rfl⟩ := List.mem_map.mp hmap
    obtain ⟨x, hx, hs, hfree⟩ := fills_ofInstance.mp hfills
    exact ⟨x, hx, hs, (h x (List.mem_of_getElem? hx)).mpr ⟨part, hpart, hfree⟩⟩

/-- Two sides fill what the whole fills. -/
theorem isUnion_sides (hlen : letters.length = targets.length) {f a b : Formula}
    (h : ∀ x, FreeIn x f ↔ FreeIn x a ∨ FreeIn x b) :
    IsUnion targets.length [ofInstance targets letters a, ofInstance targets letters b]
      (ofInstance targets letters f) := by
  have hsides : ∀ x ∈ targets, FreeIn x f ↔ ∃ part ∈ [a, b], FreeIn x part := by
    intro x _
    rw [h x]
    simp
  exact isUnion_ofInstance hlen hsides

theorem says_ofInstance (hlen : letters.length = targets.length) (hnodup : targets.Nodup)
    {bound : BoundPairs} (hunbound : ∀ x ∈ targets, x ∉ bound.lefts) (t : Symbol) :
    Says targets bound t (assigned targets letters t) (ofInstance targets letters (.letter t)) := by
  refine ⟨length_ofInstance hlen _, fun k s => fills_ofInstance.trans ?_⟩
  rw [Formula.idxOf?_eq_some_iff_getElem? hnodup]
  constructor
  · rintro ⟨_, hx, hs, rfl⟩
    refine ⟨fun pair hpair heq => ?_, hx, (Formula.assigned_eq hnodup hx hs).symm⟩
    exact hunbound _ (List.mem_of_getElem? hx) (heq ▸ List.mem_map_of_mem hpair)
  · rintro ⟨-, hx, rfl⟩
    have hk : k < letters.length := by
      obtain ⟨hk, -⟩ := List.getElem?_eq_some_iff.mp hx
      omega
    have hs : letters[k]? = some letters[k] := List.getElem?_eq_getElem hk
    rw [Formula.assigned_eq hnodup hx hs]
    exact ⟨t, hx, hs, rfl⟩

/-- The mappings of the members of a list, as a family. -/
theorem isUnion_ofFn (hlen : letters.length = targets.length) {f : Formula} {parts : List Formula}
    (h : ∀ x ∈ targets, FreeIn x f ↔ ∃ part ∈ parts, FreeIn x part) :
    IsUnion targets.length (List.ofFn fun k => ofInstance targets letters (parts.get k))
      (ofInstance targets letters f) := by
  have hmap : (List.ofFn fun k => ofInstance targets letters (parts.get k)) =
      parts.map (ofInstance targets letters) := by
    rw [← Function.comp_def (ofInstance targets letters), ← List.map_ofFn, List.ofFn_get]
  rw [hmap]
  exact isUnion_ofInstance hlen h

/-- **A formula is aligned with its instances**, under letters bound together with themselves, if none
of the letters replaced is bound around it or in it and it binds no letter again. -/
theorem alignment_withLetters (hlen : letters.length = targets.length) (hnodup : targets.Nodup)
    {around : List Symbol} (haround : ∀ x ∈ targets, x ∈ around) {f : Formula} (hf : Built f) :
    ∀ {bound : BoundPairs}, bound.Matched → (∀ x ∈ targets, x ∉ bound.lefts) →
      rebindings (bound.lefts ++ around) f = [] →
      Alignment targets bound f (withLetters targets letters f) (ofInstance targets letters f) := by
  induction f using Formula.inductionOn with
  | letter t =>
    intro bound _ hunbound _
    rw [Formula.withLetters_letter]
    exact .letter (says_ofInstance hlen hnodup hunbound t)
  | predicate name args ih =>
    intro bound hmatched hunbound hfresh
    rw [rebindings, rebindingsOfAll_eq, List.flatMap_eq_nil_iff] at hfresh
    cases hf with
    | predicate hargs =>
      rw [Formula.withLetters_predicate]
      refine .predicate (by simp) _ (fun k => ?_) (isUnion_ofFn hlen fun x _ => ?_)
      · have hmem := List.get_mem args k
        have hget := ih _ hmem (hargs _ hmem) hmatched hunbound (hfresh _ hmem)
        simpa using hget
      · rw [FreeIn, Formula.freeInSome_iff]
  | junction junctor juncts ih =>
    intro bound hmatched hunbound hfresh
    rw [rebindings, rebindingsOfAll_eq, List.flatMap_eq_nil_iff] at hfresh
    rw [hf.withLetters_junction]
    -- each junct with its own instance: the bijection keeps every junct in its place
    refine .junction (finCongr (by simp)) _ (fun k => ?_) (isUnion_ofFn hlen fun x _ => ?_)
    · have hmem := List.get_mem juncts k
      have hget := ih _ hmem (hf.of_mem_juncts _ hmem).1 hmatched hunbound (hfresh _ hmem)
      simpa using hget
    · rw [FreeIn, Formula.freeInSome_iff]
  | conditional a b iha ihb =>
    intro bound hmatched hunbound hfresh
    rw [rebindings, List.append_eq_nil_iff] at hfresh
    cases hf with
    | conditional ha hb =>
      exact .conditional (iha ha hmatched hunbound hfresh.1) (ihb hb hmatched hunbound hfresh.2)
        (isUnion_sides hlen fun x => Iff.rfl)
  | biconditional a b iha ihb =>
    intro bound hmatched hunbound hfresh
    rw [rebindings, List.append_eq_nil_iff] at hfresh
    cases hf with
    | biconditional ha hb =>
      exact .biconditional (iha ha hmatched hunbound hfresh.1) (ihb hb hmatched hunbound hfresh.2)
        (isUnion_sides hlen fun x => Iff.rfl)
  | negation f ih =>
    intro bound hmatched hunbound hfresh
    cases hf with
    | negation hf => exact .negation (ih hf hmatched hunbound hfresh)
  | quantified q y body ih =>
    intro bound hmatched hunbound hfresh
    obtain ⟨hy, hbody⟩ := Formula.rebindings_quantified_eq_nil.mp hfresh
    obtain ⟨hbound, haway⟩ := not_or.mp (mt List.mem_append.mpr hy)
    have hne : ∀ x ∈ targets, y ≠ x := fun x hx heq => haway (heq ▸ haround x hx)
    have hkept : assigned targets letters y = y :=
      Formula.assigned_of_not_mem fun hmem => hne y hmem rfl
    have hsame : ofInstance targets letters (.quantified q y body) = ofInstance targets letters body :=
      ofInstance_congr fun x hx => ⟨And.right, fun hfree => ⟨hne x hx, hfree⟩⟩
    have hunbound' : ∀ x ∈ targets, x ∉ BoundPairs.lefts ((y, y) :: bound) := fun x hx hmem =>
      (List.mem_cons.mp hmem).elim (fun heq => hne x hx heq.symm) (hunbound x hx)
    cases hf with
    | quantified hf =>
      rw [Formula.withLetters_quantified, hkept, hsame]
      refine .quantified (BoundPairs.clashes_eq_false.mp (hmatched.clashes hbound)) ?_
      exact ih hf (hmatched.cons y) hunbound' hbody
  | identity a b equal iha ihb =>
    intro bound hmatched hunbound hfresh
    rw [rebindings, List.append_eq_nil_iff] at hfresh
    cases hf with
    | identity ha hb =>
      exact .identity (iha ha hmatched hunbound hfresh.1) (ihb hb hmatched hunbound hfresh.2)
        (isUnion_sides hlen fun x => Iff.rfl)

/-- A list of letters leaves no slot empty. -/
theorem complete?_map_some : ∀ letters : List Symbol, complete? (letters.map some) = some letters
  | [] => rfl
  | a :: letters => by rw [List.map_cons, complete?, complete?_map_some letters, Option.map_some]

/-- The mapping of an instance leaves no slot empty if each target is free. -/
theorem ofInstance_eq_map (hlen : letters.length = targets.length) {f : Formula}
    (h : ∀ x ∈ targets, FreeIn x f) : ofInstance targets letters f = letters.map some := by
  refine Mapping.eq_of_fills (by simp [ofInstance, hlen]) fun k s => ?_
  rw [fills_ofInstance, Fills, List.getElem?_map, Option.map_eq_some_iff]
  constructor
  · rintro ⟨-, -, hs, -⟩
    exact ⟨s, hs, rfl⟩
  · rintro ⟨s, hs, heq⟩
    obtain rfl := Option.some.inj heq
    obtain ⟨hk, -⟩ := List.getElem?_eq_some_iff.mp hs
    have hx : targets[k]? = some (targets[k]) := List.getElem?_eq_getElem (by omega)
    exact ⟨_, hx, hs, h _ (List.mem_of_getElem? hx)⟩

end LetterMapping

namespace Formula

variable {targets letters : List Symbol} {f : Formula}

/-- **The search finds the mapping of an instance.** -/
theorem mem_mappings_withLetters (hlen : letters.length = targets.length) (hnodup : targets.Nodup)
    {around : List Symbol} (haround : ∀ x ∈ targets, x ∈ around) (hf : Built f)
    (hfresh : rebindings around f = []) :
    LetterMapping.ofInstance targets letters f ∈
      mappings f (withLetters targets letters f) targets := by
  have hnil : BoundPairs.Matched [] := by simp [BoundPairs.Matched]
  rw [mappings, Ascending.mem_ofList, LetterMapping.mem_align_iff]
  exact LetterMapping.alignment_withLetters hlen hnodup haround hf hnil
    (fun x _ => List.not_mem_nil) hfresh

/-- **The letters of an instance are one of the one-to-one assignments**, if each letter replaced is
free and has a letter of its own. -/
theorem oneOne_withLetters (hlen : letters.length = targets.length) (hnodup : targets.Nodup)
    {around : List Symbol} (haround : ∀ x ∈ targets, x ∈ around) (hf : Built f)
    (hfresh : rebindings around f = []) (hfree : ∀ x ∈ targets, FreeIn x f) (hown : letters.Nodup) :
    ∃ candidates, oneOne f (withLetters targets letters f) targets = .ok candidates ∧
      letters ∈ candidates := by
  have hfound := mem_mappings_withLetters hlen hnodup haround hf hfresh
  have hcomplete : letters ∈
      (mappings f (withLetters targets letters f) targets).filterMap LetterMapping.complete? := by
    refine List.mem_filterMap.mpr ⟨_, hfound, ?_⟩
    rw [LetterMapping.ofInstance_eq_map hlen hfree, LetterMapping.complete?_map_some]
  have hinjective : letters ∈
      ((mappings f (withLetters targets letters f) targets).filterMap
        LetterMapping.complete?).filter fun letters => decide letters.Nodup :=
    List.mem_filter.mpr ⟨hcomplete, decide_eq_true hown⟩
  refine ⟨_, ?_, hinjective⟩
  rw [oneOne, if_neg, if_neg, if_neg]
  · exact fun hempty => List.ne_nil_of_mem hinjective (List.isEmpty_iff.mp hempty)
  · exact fun hempty => List.ne_nil_of_mem hcomplete (List.isEmpty_iff.mp hempty)
  · exact fun hempty => List.ne_nil_of_mem hfound (List.isEmpty_iff.mp hempty)

end Formula

end ProofSheet
