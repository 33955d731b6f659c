import Mathlib.Logic.Function.Basic
import ProofSheet.Proofs.Formula.Replacement
import ProofSheet.Proofs.Formula.Substitution
import ProofSheet.Proofs.Valuation

/-!
# First-order interpretations

An interpretation has a domain that is not empty, a relation for each predicate, and the set of
elements that are true, for letters used as sentences. Under an assignment of elements to letters it
gives each formula a truth value.

* `Interpretation.holds`: truth in an interpretation under an assignment.
* `Interpretation.holds_congr`: only free letters matter.
* `Interpretation.holds_alike`, `Interpretation.valuation`: **alike objects mean the same**, so an
  interpretation under an assignment is a truth valuation.
* `Interpretation.holds_substitute`: putting one letter for another, where nothing is captured.
-/

namespace ProofSheet

universe u

/-- A first-order interpretation. -/
structure Interpretation where
  Domain : Type u
  /-- An element, which is the value of every term that is not a letter. -/
  other : Domain
  relation : Symbol → List Domain → Prop
  /-- The true elements. -/
  truths : Domain → Prop

namespace Interpretation

open Formula
open BoundPairs (Linked)

variable (I : Interpretation.{u})

/-- An element for each letter. -/
abbrev Assignment := Symbol → I.Domain

variable {I} {σ τ : I.Assignment}

/-- The value of a term. Terms are letters, with pairs of negations around them or not. -/
def value (σ : I.Assignment) (f : Formula) : I.Domain :=
  match f.core with
  | .letter s => σ s
  | _ => I.other

mutual

/-- **Truth in an interpretation under an assignment.** -/
def holds (σ : I.Assignment) : Formula → Prop
  | .letter s => I.truths (σ s)
  | .predicate name args => I.relation name (args.map (value σ))
  | .junction junctor juncts => holdEach σ junctor juncts
  | .conditional a c => holds σ a → holds σ c
  | .biconditional a b => holds σ a ↔ holds σ b
  | .negation f => ¬ holds σ f
  | .quantified .universal x body => ∀ d, holds (Function.update σ x d) body
  | .quantified .existential x body => ∃ d, holds (Function.update σ x d) body
  | .identity a b true => value σ a = value σ b
  | .identity a b false => value σ a ≠ value σ b

/-- Truth of a junction's juncts, taken together. -/
def holdEach (σ : I.Assignment) : Junctor → List Formula → Prop
  | .conjunction, [] => True
  | .disjunction, [] => False
  | .conjunction, f :: fs => holds σ f ∧ holdEach σ .conjunction fs
  | .disjunction, f :: fs => holds σ f ∨ holdEach σ .disjunction fs

end

theorem holdEach_iff {junctor : Junctor} {juncts : List Formula} :
    holdEach σ junctor juncts ↔ junctor.joins (holds σ) juncts := by
  induction juncts with
  | nil => cases junctor <;> simp [holdEach, Junctor.joins]
  | cons f fs ih => cases junctor <;> simp_all [holdEach, Junctor.joins]

theorem holds_junction {junctor : Junctor} {juncts : List Formula} :
    holds σ (.junction junctor juncts) ↔ junctor.joins (holds σ) juncts := by
  rw [holds, holdEach_iff]

/-! ## Only free letters matter -/

theorem value_congr {f : Formula} (h : ∀ s, FreeIn s f → σ s = τ s) : value σ f = value τ f := by
  unfold value
  split
  · rename_i s hs
    refine h s ((freeIn_core f).mp ?_)
    rw [hs, FreeIn]
  · rfl

theorem joins_congr {P Q : Formula → Prop} {junctor : Junctor} {juncts : List Formula}
    (h : ∀ f ∈ juncts, (P f ↔ Q f)) : junctor.joins P juncts ↔ junctor.joins Q juncts :=
  Junctor.joins_forall₂ (List.forall₂_same.mpr h)

/-- **Only free letters matter.** -/
theorem holds_congr (f : Formula) : ∀ {σ τ : I.Assignment}, (∀ s, FreeIn s f → σ s = τ s) →
    (holds σ f ↔ holds τ f) := by
  induction f using inductionOn with
  | letter s =>
    intro σ τ h
    rw [holds, holds, h s (by rw [FreeIn])]
  | predicate name args _ =>
    intro σ τ h
    have hargs : args.map (value σ) = args.map (value τ) := by
      refine List.map_congr_left fun a ha => value_congr fun s hs => h s ?_
      rw [FreeIn, freeInSome_iff]
      exact ⟨a, ha, hs⟩
    rw [holds, holds, hargs]
  | junction junctor juncts ih =>
    intro σ τ h
    rw [holds_junction, holds_junction]
    refine joins_congr fun f hf => ih f hf fun s hs => h s ?_
    rw [FreeIn, freeInSome_iff]
    exact ⟨f, hf, hs⟩
  | conditional a c iha ihc =>
    intro σ τ h
    rw [holds, holds, iha fun s hs => h s (Or.inl hs), ihc fun s hs => h s (Or.inr hs)]
  | biconditional a b iha ihb =>
    intro σ τ h
    rw [holds, holds, iha fun s hs => h s (Or.inl hs), ihb fun s hs => h s (Or.inr hs)]
  | negation f ih =>
    intro σ τ h
    rw [holds, holds, ih h]
  | quantified q x body ih =>
    intro σ τ h
    have hbody : ∀ d, holds (Function.update σ x d) body ↔ holds (Function.update τ x d) body := by
      intro d
      refine ih fun s hs => ?_
      by_cases hsx : s = x
      · simp [hsx]
      · rw [Function.update_of_ne hsx, Function.update_of_ne hsx]
        exact h s ⟨fun hxs => hsx hxs.symm, hs⟩
    cases q <;> simp only [holds, hbody]
  | identity a b equal _ _ =>
    intro σ τ h
    have ha : value σ a = value τ a := value_congr fun s hs => h s (Or.inl hs)
    have hb : value σ b = value τ b := value_congr fun s hs => h s (Or.inr hs)
    cases equal <;> rw [holds, holds, ha, hb]

/-- A letter that is not free may have any value. -/
theorem holds_update {f : Formula} {a : Symbol} (h : ¬ FreeIn a f) (d : I.Domain) :
    holds (Function.update σ a d) f ↔ holds σ f := by
  refine holds_congr f fun s hs => ?_
  have hsa : s ≠ a := by
    rintro rfl
    exact h hs
  rw [Function.update_of_ne hsa]

/-- A value that no free letter has, but for one that is given another value, changes nothing. -/
theorem holds_update_update {f : Formula} {a b : Symbol} (h : ∀ s, FreeIn s f → s ≠ b → s ≠ a)
    (d e : I.Domain) :
    holds (Function.update (Function.update σ a d) b e) f ↔ holds (Function.update σ b e) f := by
  refine holds_congr f fun s hs => ?_
  by_cases hsb : s = b
  · rw [hsb, Function.update_self, Function.update_self]
  · rw [Function.update_of_ne hsb, Function.update_of_ne hsb, Function.update_of_ne (h s hs hsb)]

/-! ## Alike objects -/

/-- Pairs of negations change nothing. -/
theorem holds_core (f : Formula) : holds σ f.core ↔ holds σ f := by
  induction f using faceInduction true with
  | negation f h _ => rw [core_negation (h rfl)]
  | doubled f _ ih => rw [core_doubled, ih, holds, holds, not_not]
  | _ => rw [core]; simp

theorem holds_face {dn : Bool} {o o' : Object} (h : Object.face dn o = o') :
    holds σ o.formula ↔ holds σ o'.formula := by
  rw [← h]
  cases dn with
  | false => rfl
  | true => exact ((Object.formula_core o).symm ▸ holds_core o.formula).symm

/-- Two assignments agree on linked letters. -/
def Agree (bound : BoundPairs) (σ τ : I.Assignment) : Prop :=
  ∀ {l r}, bound.Linked l r → σ l = τ r

theorem agree_nil : Agree [] σ σ := fun hlr => by rw [BoundPairs.linked_nil.mp hlr]

/-- Two assignments that agree on letters bound to themselves are one. -/
theorem Agree.eq_of_matched {bound : BoundPairs} (h : Agree bound σ τ) (hb : bound.Matched) :
    σ = τ :=
  funext fun s => h (hb.matchLetters s)

theorem Agree.update {bound : BoundPairs} (h : Agree bound σ τ) {x y : Symbol}
    (hc : bound.clashes x y = false) (d : I.Domain) :
    Agree ((x, y) :: bound) (Function.update σ x d) (Function.update τ y d) := by
  intro l r hlr
  rw [BoundPairs.linked_cons hc] at hlr
  rcases hlr with ⟨rfl, rfl⟩ | ⟨hl, hr, hlr⟩
  · rw [Function.update_self, Function.update_self]
  · rw [Function.update_of_ne hl, Function.update_of_ne hr, h hlr]

variable {dn : Bool} {bound : BoundPairs}

/-! ### Terms under pairs of negations -/

theorem value_core (f : Formula) : value σ f.core = value σ f := by
  rw [value, value, core_core]

theorem value_doubled (f : Formula) : value σ (.negation (.negation f)) = value σ f := by
  rw [value, value, core_doubled]

theorem value_negation_core (f : Formula) : value σ (.negation f.core) = value σ (.negation f) := by
  induction f using faceInduction true with
  | negation f h _ => rw [core_negation (h rfl)]
  | doubled f _ ih => rw [core_doubled, ih, value_doubled]
  | _ => rw [core]; simp

theorem value_face {dn : Bool} {o o' : Object} (h : Object.face dn o = o') :
    value σ o.formula = value σ o'.formula := by
  rw [← h]
  cases dn with
  | false => rfl
  | true => exact ((Object.formula_core o).symm ▸ value_core o.formula).symm

theorem value_negation_face {dn : Bool} {o o' : Object} (h : Object.face dn o = o') :
    value σ (.negation o.formula) = value σ (.negation o'.formula) := by
  rw [← h]
  cases dn with
  | false => rfl
  | true => exact ((Object.formula_core o).symm ▸ value_negation_core o.formula).symm

/-- **Paired objects have one value** as terms, and so do their negations. -/
theorem value_paired {l r : Object} (hlr : Object.Paired dn bound l r) :
    ∀ {σ τ : I.Assignment}, Agree bound σ τ → value σ l.formula = value τ r.formula ∧
      value σ (.negation l.formula) = value τ (.negation r.formula) := by
  -- the negation of a negation is worth what stands under both
  induction hlr with
  | one hb =>
    intro σ τ h
    rw [h.eq_of_matched hb]
    exact ⟨rfl, rfl⟩
  | letter hl hr hst =>
    intro σ τ h
    rw [value_face hl, value_face hr, value_negation_face hl, value_negation_face hr]
    exact ⟨h hst, rfl⟩
  | negation hl hr _ ih =>
    intro σ τ h
    rw [value_face hl, value_face hr, value_negation_face hl, value_negation_face hr,
      Object.formula_negation, Object.formula_negation, value_doubled, value_doubled]
    exact (ih h).symm
  | predicate hl hr | junction hl hr | conditional hl hr | biconditional hl hr
  | biconditionalCrossed hl hr | quantified hl hr | identity hl hr | identityCrossed hl hr =>
    intro σ τ _
    rw [value_face hl, value_face hr, value_negation_face hl, value_negation_face hr]
    simp [value, core]

/-- **Paired objects mean the same.** -/
theorem holds_paired {l r : Object} (hlr : Object.Paired dn bound l r) :
    ∀ {σ τ : I.Assignment}, Agree bound σ τ → (holds σ l.formula ↔ holds τ r.formula) := by
  induction hlr with
  | one hb =>
    intro σ τ h
    rw [h.eq_of_matched hb]
  | letter hl hr hst =>
    intro σ τ h
    rw [holds_face hl, holds_face hr, Object.formula_letter, Object.formula_letter, holds, holds,
      h hst]
  | predicate hl hr hlen hargs _ =>
    intro σ τ h
    have hvalues : List.Forall₂ (fun a a' : Object => value σ a.formula = value τ a'.formula) _ _ :=
      forall₂_iff_fin.mpr ⟨hlen, fun i => (value_paired (hargs i) h).1⟩
    rw [holds_face hl, holds_face hr, Object.formula_predicate, Object.formula_predicate, holds, holds,
      List.map_map, List.map_map]
    rw [← List.forall₂_map_right_iff (R := fun a e => value σ (Object.formula a) = e),
      ← List.forall₂_map_left_iff (R := Eq), List.forall₂_eq_eq_eq] at hvalues
    exact hvalues ▸ Iff.rfl
  | junction hl hr σ' _ ih =>
    intro σ τ h
    obtain ⟨paired, hperm, hpairs⟩ := (exists_perm_iff_exists_equiv
      (R := fun o o' => holds σ o.formula ↔ holds τ o'.formula)).mpr ⟨σ', fun i => ih i h⟩
    rw [holds_face hl, holds_face hr, Object.formula_junction, Object.formula_junction, holds_junction,
      holds_junction, Junctor.joins_map, Junctor.joins_map, ← Junctor.joins_perm hperm]
    exact Junctor.joins_forall₂ hpairs
  | conditional hl hr _ _ iha ihc =>
    intro σ τ h
    rw [holds_face hl, holds_face hr]
    exact imp_congr (iha h) (ihc h)
  | biconditional hl hr _ _ iha ihb =>
    intro σ τ h
    rw [holds_face hl, holds_face hr]
    exact iff_congr (iha h) (ihb h)
  | biconditionalCrossed hl hr _ _ iha ihb =>
    intro σ τ h
    rw [holds_face hl, holds_face hr]
    exact (iff_congr (iha h) (ihb h)).trans iff_comm
  | negation hl hr _ ih =>
    intro σ τ h
    rw [holds_face hl, holds_face hr]
    exact not_congr (ih h)
  | @quantified _ _ _ _ _ q _ _ _ _ hl hr hc _ ih =>
    intro σ τ h
    rw [holds_face hl, holds_face hr]
    cases q with
    | universal => exact forall_congr' fun d => ih (h.update hc d)
    | existential => exact exists_congr fun d => ih (h.update hc d)
  | @identity _ _ _ _ _ _ _ equal _ _ hl hr ha hb =>
    intro σ τ h
    have ha' := (value_paired ha h).1
    have hb' := (value_paired hb h).1
    rw [holds_face hl, holds_face hr, Object.formula_identity, Object.formula_identity]
    cases equal <;> rw [holds, holds, ha', hb']
  | @identityCrossed _ _ _ _ _ _ _ equal _ _ hl hr ha hb =>
    intro σ τ h
    have ha' := (value_paired ha h).1
    have hb' := (value_paired hb h).1
    rw [holds_face hl, holds_face hr, Object.formula_identity, Object.formula_identity]
    cases equal <;> rw [holds, holds, ha', hb']
    · exact ne_comm
    · exact eq_comm

/-- **Alike objects mean the same**, whether or not pairs of negations are passed over. -/
theorem holds_alike {l r : Object} (h : Object.alike dn l r = true) :
    holds σ l.formula ↔ holds σ r.formula :=
  holds_paired (Object.alike_iff.mp h) agree_nil

/-- Corresponding formulas mean the same. -/
theorem holds_linked {l r : Formula} (h : Agree bound σ τ) (hlr : Corresponds dn Linked bound l r) :
    holds σ l ↔ holds τ r := by
  have hparts : Object.Parts dn (Object.Paired dn) bound l.anew r.anew :=
    Object.parts_of_corresponds (by rwa [formula_anew, formula_anew])
  simpa only [formula_anew] using holds_paired (.of_parts hparts) h

/-- **An interpretation under an assignment is a truth valuation.** -/
def valuation (σ : I.Assignment) : Object.Valuation where
  holds o := holds σ o.formula
  negation o p := by rw [Object.formula_negation, holds]
  junction junctor juncts p := by
    rw [Object.formula_junction, holds_junction, Junctor.joins_map]
  conditional a c p := by rw [Object.formula_conditional, holds]
  biconditional a b p := by rw [Object.formula_biconditional, holds]
  atoms a b _ _ h := holds_alike h

/-- A junction keeps its value as it flattens. -/
theorem holds_junctionOf {junctor : Junctor} {parts : List Formula} :
    holds σ (junctionOf junctor parts) ↔ junctor.joins (holds σ) parts := by
  have hanew := (valuation σ).holds_junctionOf junctor (parts.map anew)
  have hparts : (parts.map anew).map Object.formula = parts := by
    rw [List.map_map]
    exact List.map_id'' formula_anew parts
  rw [Junctor.joins_map] at hanew
  simpa only [valuation, Object.formula_junctionOf, hparts, formula_anew] using hanew

/-! ## One letter for another -/

section Substitute

variable {x a : Symbol}

theorem substitute_letter (s : Symbol) :
    substitute [x] [some (.letter a)] (.letter s) = .letter (assigned [x] [a] s) := by
  by_cases h : x = s <;> simp [substitute, replacementFor, assigned, List.idxOf?_cons, h]

theorem assigned_of_ne {s : Symbol} (h : s ≠ x) : assigned [x] [a] s = s := by
  simp [assigned, List.idxOf?_cons, h.symm]

theorem rebind_of_ne {y : Symbol} (h : y ≠ x) : rebind [x] [some (.letter a)] y = y := by
  simp [rebind, replacementFor, h.symm]

/-- Putting a letter for another makes no term of what is none. -/
theorem value_substitute {f : Formula}
    (h : ∀ s, f.core = .letter s → σ (assigned [x] [a] s) = τ s) :
    value σ (substitute [x] [some (.letter a)] f) = value τ f := by
  induction f using faceInduction true with
  | letter s =>
    rw [substitute_letter]
    exact h s rfl
  | negation f hf _ =>
    -- a letter is put for letters only, so no negation appears where there was none
    have hne : ∀ g, substitute [x] [some (.letter a)] f ≠ .negation g := by
      intro g
      cases f with
      | letter s => rw [substitute_letter]; simp
      | negation k => exact absurd rfl (hf rfl k)
      | _ => simp [substitute, junctionOf]
    rw [substitute, value, value, core_negation hne, core_negation (hf rfl)]
  | doubled f _ ih =>
    rw [core_doubled] at h
    have hdoubled : ∀ (ρ : I.Assignment) (g : Formula),
        value ρ (.negation (.negation g)) = value ρ g := by
      intro ρ g
      rw [value, value, core_doubled]
    rw [substitute, substitute, hdoubled, hdoubled, ih h]
  | _ => rfl

/-- **How two assignments lie around a place** where one letter is put for another: they agree on the
letters bound there, and on a free letter after the change. -/
structure Puts (x a : Symbol) (around : List Symbol) (σ τ : I.Assignment) : Prop where
  unbound : x ∉ around
  bound : ∀ s ∈ around, σ s = τ s
  free : ∀ s ∉ around, assigned [x] [a] s ∉ around → σ (assigned [x] [a] s) = τ s

variable {around : List Symbol}

theorem Puts.letter (h : Puts x a around σ τ) {s : Symbol}
    (hs : s ∉ around → assigned [x] [a] s ∉ around) : σ (assigned [x] [a] s) = τ s := by
  by_cases hmem : s ∈ around
  · have hsx : s ≠ x := by
      rintro rfl
      exact h.unbound hmem
    rw [assigned_of_ne hsx]
    exact h.bound s hmem
  · exact h.free s hmem (hs hmem)

theorem Puts.update (h : Puts x a around σ τ) {y : Symbol} (hy : y ≠ x) (d : I.Domain) :
    Puts x a (y :: around) (Function.update σ y d) (Function.update τ y d) where
  unbound hmem := by
    rcases List.mem_cons.mp hmem with hxy | hmem
    · exact hy hxy.symm
    · exact h.unbound hmem
  bound s hmem := by
    by_cases hsy : s = y
    · rw [hsy, Function.update_self, Function.update_self]
    · rw [Function.update_of_ne hsy, Function.update_of_ne hsy]
      exact h.bound s ((List.mem_cons.mp hmem).resolve_left hsy)
  free s hs hassigned := by
    simp only [List.mem_cons, not_or] at hs hassigned
    rw [Function.update_of_ne hassigned.1, Function.update_of_ne hs.1]
    exact h.free s hs.2 hassigned.2

theorem Puts.value (h : Puts x a around σ τ) {f : Formula}
    (hf : CaptureFree [x] [a] around f) :
    Interpretation.value σ (substitute [x] [some (.letter a)] f) = Interpretation.value τ f := by
  refine value_substitute fun s hs => h.letter ?_
  rw [← captureFree_core, hs, CaptureFree] at hf
  exact hf

/-- **Putting one letter for another** under the letters bound around a place. -/
theorem Puts.holds (f : Formula) : ∀ {around : List Symbol} {σ τ : I.Assignment},
    Puts x a around σ τ → x ∉ binders f → CaptureFree [x] [a] around f →
      (Interpretation.holds σ (substitute [x] [some (.letter a)] f) ↔
        Interpretation.holds τ f) := by
  induction f using inductionOn with
  | letter s =>
    intro around σ τ h _ hf
    rw [substitute_letter, Interpretation.holds, Interpretation.holds, h.letter hf]
  | predicate name args _ =>
    intro around σ τ h _ hf
    rw [CaptureFree, captureFreeAll_iff] at hf
    rw [substitute, substituteAll_eq, Interpretation.holds, Interpretation.holds, List.map_map]
    have hargs : args.map (Interpretation.value σ ∘ substitute [x] [some (.letter a)]) =
        args.map (Interpretation.value τ) :=
      List.map_congr_left fun arg harg => h.value (hf arg harg)
    rw [hargs]
  | junction junctor juncts ih =>
    intro around σ τ h hx hf
    rw [CaptureFree, captureFreeAll_iff] at hf
    rw [binders, bindersOfAll_eq, List.mem_flatMap] at hx
    rw [substitute, substituteAll_eq, holds_junction]
    -- the substitution flattens the junction, which no valuation notices
    refine holds_junctionOf.trans ?_
    apply Junctor.joins_forall₂
    rw [List.forall₂_map_left_iff, List.forall₂_same]
    exact fun f hmem => ih f hmem h (fun hxf => hx ⟨f, hmem, hxf⟩) (hf f hmem)
  | conditional p q ihp ihq =>
    intro around σ τ h hx hf
    rw [binders, List.mem_append, not_or] at hx
    rw [substitute, Interpretation.holds, Interpretation.holds, ihp h hx.1 hf.1, ihq h hx.2 hf.2]
  | biconditional p q ihp ihq =>
    intro around σ τ h hx hf
    rw [binders, List.mem_append, not_or] at hx
    rw [substitute, Interpretation.holds, Interpretation.holds, ihp h hx.1 hf.1, ihq h hx.2 hf.2]
  | negation f ih =>
    intro around σ τ h hx hf
    rw [substitute, Interpretation.holds, Interpretation.holds, ih h hx hf]
  | quantified q y body ih =>
    intro around σ τ h hx hf
    rw [binders, List.mem_cons, not_or] at hx
    have hyx : y ≠ x := fun hyx => hx.1 hyx.symm
    have hbody : ∀ d, Interpretation.holds (Function.update σ y d)
        (substitute [x] [some (.letter a)] body) ↔
          Interpretation.holds (Function.update τ y d) body :=
      fun d => ih (h.update hyx d) hx.2 hf
    rw [substitute, rebind_of_ne hyx]
    cases q <;> simp only [Interpretation.holds, hbody]
  | identity p q equal _ _ =>
    intro around σ τ h _ hf
    rw [substitute]
    cases equal <;>
      rw [Interpretation.holds, Interpretation.holds, h.value hf.1, h.value hf.2]

/-- **An instance says of the new letter what the formula says of the old one**, where the old one is
not bound again and the new one not captured. -/
theorem holds_substitute {f : Formula} (hx : x ∉ binders f) (hf : CaptureFree [x] [a] [] f) :
    holds σ (substitute [x] [some (.letter a)] f) ↔ holds (Function.update σ x (σ a)) f := by
  refine Puts.holds f ⟨by simp, by simp, fun s _ _ => ?_⟩ hx hf
  by_cases hsx : s = x
  · subst hsx
    simp [assigned, List.idxOf?_cons]
  · rw [assigned_of_ne hsx, Function.update_of_ne hsx]

end Substitute

end Interpretation

end ProofSheet
