import Mathlib.Data.List.Perm.Basic
import ProofSheet.Proofs.Formula.Bound
import ProofSheet.Proofs.Formula.Parts

/-!
# Correspondence

Two formulas correspond when they have the same parts, up to the order of juncts and of the sides of
biconditionals and identities. What is asked of two letters that face each other is a parameter.

* `Formula.Corresponds`: the relation. Two junctions correspond when *some* pairing of their juncts
  does.
* `Formula.corresponds_symm`: correspondence by linked letters is symmetric.
* `Formula.Alike`: correspondence by linked letters outside all quantifiers.
-/

namespace ProofSheet

namespace Formula

/-! ## The relation -/

section Corresponds

variable (dn : Bool) (fits : BoundPairs → Symbol → Symbol → Prop)

mutual

/-- **Two formulas correspond**: they have the same parts in the same places, up to the order of
juncts and of sides, and any two letters that face each other fit under the letters bound around
them. With `dn`, pairs of negations are passed over. -/
def Corresponds (bound : BoundPairs) : Formula → Formula → Prop
  | .letter l, r => ∃ s, face dn r = .letter s ∧ fits bound l s
  | .predicate name args, r =>
    ∃ args', face dn r = .predicate name args' ∧ CorrespondEach bound args args'
  | .junction junctor juncts, r =>
    ∃ juncts' paired, face dn r = .junction junctor juncts' ∧ paired.Perm juncts' ∧
      CorrespondEach bound juncts paired
  | .conditional a c, r =>
    ∃ a' c', face dn r = .conditional a' c' ∧ Corresponds bound a a' ∧ Corresponds bound c c'
  | .biconditional a b, r =>
    ∃ a' b', face dn r = .biconditional a' b' ∧
      (Corresponds bound a a' ∧ Corresponds bound b b' ∨
        Corresponds bound a b' ∧ Corresponds bound b a')
  | .negation inner, r =>
    match dn, inner with
    | true, .negation twice => Corresponds bound twice r
    | _, inner => ∃ inner', face dn r = .negation inner' ∧ Corresponds bound inner inner'
  | .quantified q x body, r =>
    ∃ x' body', face dn r = .quantified q x' body' ∧ bound.clashes x x' = false ∧
      Corresponds ((x, x') :: bound) body body'
  | .identity a b equal, r =>
    ∃ a' b', face dn r = .identity a' b' equal ∧
      (Corresponds bound a a' ∧ Corresponds bound b b' ∨
        Corresponds bound a b' ∧ Corresponds bound b a')

/-- Two lists of formulas correspond place by place. -/
def CorrespondEach (bound : BoundPairs) : List Formula → List Formula → Prop
  | [], [] => True
  | l :: ls, r :: rs => Corresponds bound l r ∧ CorrespondEach bound ls rs
  | _, _ => False

end

variable {dn fits}

theorem correspondEach_iff {bound : BoundPairs} : ∀ {ls rs : List Formula},
    CorrespondEach dn fits bound ls rs ↔ List.Forall₂ (Corresponds dn fits bound) ls rs
  | [], [] => by simp [CorrespondEach]
  | [], _ :: _ => by simp [CorrespondEach]
  | _ :: _, [] => by simp [CorrespondEach]
  | l :: ls, r :: rs => by
    rw [CorrespondEach, List.forall₂_cons, correspondEach_iff]

theorem corresponds_doubled {bound : BoundPairs} {f r : Formula} :
    Corresponds true fits bound (.negation (.negation f)) r ↔ Corresponds true fits bound f r :=
  Iff.rfl

/-- A negation that is not the outer one of a pair corresponds to negations. -/
theorem corresponds_negation {bound : BoundPairs} {f r : Formula}
    (h : dn = true → ∀ g, f ≠ .negation g) :
    Corresponds dn fits bound (.negation f) r ↔
      ∃ g, face dn r = .negation g ∧ Corresponds dn fits bound f g := by
  rw [Corresponds]
  intro twice hdn hf
  exact h hdn twice hf

/-- **A formula corresponds to what its face does.** -/
theorem corresponds_face_left {bound : BoundPairs} {l r : Formula} :
    Corresponds dn fits bound (face dn l) r ↔ Corresponds dn fits bound l r := by
  induction l using faceInduction dn with
  | negation f h _ => rw [face_negation h]
  | doubled f hdn ih =>
    subst hdn
    rw [corresponds_doubled, ← ih, face, face, if_pos rfl, if_pos rfl, core_doubled]
  | _ => rw [face_of_ne (by simp)]

theorem corresponds_face_right {bound : BoundPairs} {l r : Formula} :
    Corresponds dn fits bound l (face dn r) ↔ Corresponds dn fits bound l r := by
  induction l using faceInduction dn with
  | negation f h _ => rw [corresponds_negation h, corresponds_negation h, face_face]
  | doubled f hdn ih =>
    subst hdn
    rw [corresponds_doubled, corresponds_doubled, ih]
  | _ => simp only [Corresponds, face_face]

/-- What a formula corresponds to may be read off the faces of both sides. -/
theorem corresponds_of_faces {bound : BoundPairs} {l r l' r' : Formula} (hl : face dn l = l')
    (hr : face dn r = r') (h : Corresponds dn fits bound l' r') : Corresponds dn fits bound l r := by
  rw [← corresponds_face_left, ← corresponds_face_right, hl, hr]
  exact h

theorem corresponds_letter {bound : BoundPairs} {l r : Symbol} :
    Corresponds dn fits bound (.letter l) (.letter r) ↔ fits bound l r := by
  show (∃ s, face dn (.letter r) = .letter s ∧ fits bound l s) ↔ _
  simp [face_of_ne]

theorem corresponds_predicate {bound : BoundPairs} {name : Symbol} {args args' : List Formula} :
    Corresponds dn fits bound (.predicate name args) (.predicate name args') ↔
      List.Forall₂ (Corresponds dn fits bound) args args' := by
  show (∃ as, face dn (.predicate name args') = .predicate name as ∧
    CorrespondEach dn fits bound args as) ↔ _
  simp [face_of_ne, correspondEach_iff]

theorem corresponds_junction {bound : BoundPairs} {junctor : Junctor}
    {juncts juncts' : List Formula} :
    Corresponds dn fits bound (.junction junctor juncts) (.junction junctor juncts') ↔
      ∃ paired, paired.Perm juncts' ∧ List.Forall₂ (Corresponds dn fits bound) juncts paired := by
  show (∃ js paired, face dn (.junction junctor juncts') = .junction junctor js ∧ paired.Perm js ∧
    CorrespondEach dn fits bound juncts paired) ↔ _
  simp [face_of_ne, correspondEach_iff]

theorem corresponds_conditional {bound : BoundPairs} {a c a' c' : Formula} :
    Corresponds dn fits bound (.conditional a c) (.conditional a' c') ↔
      Corresponds dn fits bound a a' ∧ Corresponds dn fits bound c c' := by
  show (∃ u w, face dn (.conditional a' c') = .conditional u w ∧
    Corresponds dn fits bound a u ∧ Corresponds dn fits bound c w) ↔ _
  simp [face_of_ne]

theorem corresponds_biconditional {bound : BoundPairs} {a b a' b' : Formula} :
    Corresponds dn fits bound (.biconditional a b) (.biconditional a' b') ↔
      Corresponds dn fits bound a a' ∧ Corresponds dn fits bound b b' ∨
        Corresponds dn fits bound a b' ∧ Corresponds dn fits bound b a' := by
  show (∃ u w, face dn (.biconditional a' b') = .biconditional u w ∧
    (Corresponds dn fits bound a u ∧ Corresponds dn fits bound b w ∨
      Corresponds dn fits bound a w ∧ Corresponds dn fits bound b u)) ↔ _
  simp [face_of_ne]

theorem corresponds_quantified {bound : BoundPairs} {q : Quantifier} {x x' : Symbol}
    {body body' : Formula} :
    Corresponds dn fits bound (.quantified q x body) (.quantified q x' body') ↔
      bound.clashes x x' = false ∧ Corresponds dn fits ((x, x') :: bound) body body' := by
  show (∃ y u, face dn (.quantified q x' body') = .quantified q y u ∧ bound.clashes x y = false ∧
    Corresponds dn fits ((x, y) :: bound) body u) ↔ _
  simp [face_of_ne]

theorem corresponds_identity {bound : BoundPairs} {a b a' b' : Formula} {equal : Bool} :
    Corresponds dn fits bound (.identity a b equal) (.identity a' b' equal) ↔
      Corresponds dn fits bound a a' ∧ Corresponds dn fits bound b b' ∨
        Corresponds dn fits bound a b' ∧ Corresponds dn fits bound b a' := by
  show (∃ u w, face dn (.identity a' b' equal) = .identity u w equal ∧
    (Corresponds dn fits bound a u ∧ Corresponds dn fits bound b w ∨
      Corresponds dn fits bound a w ∧ Corresponds dn fits bound b u)) ↔ _
  simp [face_of_ne]

end Corresponds

/-! ## Symmetry -/

theorem forall₂_of_mem {α β : Type} {R S : α → β → Prop} {ls : List α} {rs : List β}
    (h : ∀ l ∈ ls, ∀ r, R l r → S l r) (hls : List.Forall₂ R ls rs) : List.Forall₂ S ls rs :=
  ((List.forall₂_and_left ls rs).mpr ⟨fun _ hl => hl, hls⟩).imp fun l r hlr => h l hlr.1 r hlr.2

/-- Each member on the left is paired with a member on the right. -/
theorem exists_of_forall₂ {α β : Type} {R : α → β → Prop} {ls : List α} {rs : List β}
    (h : List.Forall₂ R ls rs) {l : α} (hl : l ∈ ls) : ∃ r ∈ rs, R l r := by
  induction h with
  | nil => simp at hl
  | @cons a b ls rs hab _ ih =>
    rcases List.mem_cons.mp hl with rfl | hl
    · exact ⟨b, List.mem_cons_self, hab⟩
    · obtain ⟨r, hr, hlr⟩ := ih hl
      exact ⟨r, List.mem_cons_of_mem b hr, hlr⟩

/-- Two sides related straight or crossed are so related back. -/
theorem sides_symm {α : Type} {R S : α → α → Prop} {a b a' b' : α}
    (ha : ∀ {r}, R a r → S r a) (hb : ∀ {r}, R b r → S r b)
    (h : R a a' ∧ R b b' ∨ R a b' ∧ R b a') : S a' a ∧ S b' b ∨ S a' b ∧ S b' a := by
  rcases h with ⟨haa, hbb⟩ | ⟨hab, hba⟩
  · exact Or.inl ⟨ha haa, hb hbb⟩
  · exact Or.inr ⟨hb hba, ha hab⟩

variable {dn : Bool}

open BoundPairs (Linked Proper)

/-- **Correspondence by linked letters is symmetric.** -/
theorem corresponds_symm {bound : BoundPairs} (hb : bound.Proper) {l r : Formula}
    (h : Corresponds dn Linked bound l r) : Corresponds dn Linked bound.swap r l := by
  induction l using faceInduction dn generalizing bound r with
  | letter s =>
    rw [Corresponds] at h
    obtain ⟨t, hr, ht⟩ := h
    refine corresponds_of_faces hr (face_of_ne (by simp)) ?_
    exact corresponds_letter.mpr (hb.linked_swap.mpr ht)
  | predicate name args ih =>
    rw [Corresponds] at h
    obtain ⟨args', hr, hargs⟩ := h
    refine corresponds_of_faces hr (face_of_ne (by simp)) (corresponds_predicate.mpr ?_)
    exact (forall₂_of_mem (fun a ha b => ih a ha hb) (correspondEach_iff.mp hargs)).flip
  | junction junctor juncts ih =>
    rw [Corresponds] at h
    obtain ⟨juncts', paired, hr, hperm, hjuncts⟩ := h
    refine corresponds_of_faces hr (face_of_ne (by simp)) (corresponds_junction.mpr ?_)
    -- the pairing read backwards, then in the order of the juncts on the right
    have hback : List.Forall₂ (Corresponds dn Linked bound.swap) paired juncts :=
      (forall₂_of_mem (fun a ha b => ih a ha hb) (correspondEach_iff.mp hjuncts)).flip
    obtain ⟨back, hpairs, hback⟩ := List.perm_comp_forall₂ hperm.symm hback
    exact ⟨back, hback, hpairs⟩
  | conditional a c iha ihc =>
    rw [Corresponds] at h
    obtain ⟨a', c', hr, ha, hc⟩ := h
    refine corresponds_of_faces hr (face_of_ne (by simp)) (corresponds_conditional.mpr ?_)
    exact ⟨iha hb ha, ihc hb hc⟩
  | biconditional a b iha ihb =>
    rw [Corresponds] at h
    obtain ⟨a', b', hr, h⟩ := h
    refine corresponds_of_faces hr (face_of_ne (by simp)) (corresponds_biconditional.mpr ?_)
    exact sides_symm (iha hb) (ihb hb) h
  | negation f hf ih =>
    rw [corresponds_negation hf] at h
    obtain ⟨g, hr, hg⟩ := h
    refine corresponds_of_faces hr (face_negation hf) ?_
    exact (corresponds_negation (ne_negation_of_face hr)).mpr ⟨f, face_negation hf, ih hb hg⟩
  | doubled f hdn ih =>
    subst hdn
    rw [corresponds_doubled] at h
    rw [← corresponds_face_right, face, if_pos rfl, core_doubled]
    exact corresponds_face_right.mpr (ih hb h)
  | quantified q x body ih =>
    rw [Corresponds] at h
    obtain ⟨x', body', hr, hc, hbody⟩ := h
    refine corresponds_of_faces hr (face_of_ne (by simp)) (corresponds_quantified.mpr ?_)
    exact ⟨(BoundPairs.clashes_swap bound x x').trans hc, ih (hb.cons hc) hbody⟩
  | identity a b equal iha ihb =>
    rw [Corresponds] at h
    obtain ⟨a', b', hr, h⟩ := h
    refine corresponds_of_faces hr (face_of_ne (by simp)) (corresponds_identity.mpr ?_)
    exact sides_symm (iha hb) (ihb hb) h

/-! ## Two modes of comparison -/

/-- **Passing over pairs of negations relates more.** -/
theorem corresponds_passing {fits : BoundPairs → Symbol → Symbol → Prop} {bound : BoundPairs}
    {l r : Formula} (h : Corresponds false fits bound l r) : Corresponds true fits bound l r := by
  have hface : ∀ g : Formula, face false g = g := fun _ => rfl
  induction l using faceInduction true generalizing bound r with
  | letter s =>
    rw [Corresponds, hface] at h
    obtain ⟨t, rfl, ht⟩ := h
    exact corresponds_letter.mpr ht
  | predicate name args ih =>
    rw [Corresponds, hface] at h
    obtain ⟨args', rfl, hargs⟩ := h
    rw [correspondEach_iff] at hargs
    exact corresponds_predicate.mpr (forall₂_of_mem (fun a ha _ => ih a ha) hargs)
  | junction junctor juncts ih =>
    rw [Corresponds, hface] at h
    obtain ⟨juncts', paired, rfl, hperm, hjuncts⟩ := h
    rw [correspondEach_iff] at hjuncts
    exact corresponds_junction.mpr ⟨paired, hperm, forall₂_of_mem (fun a ha _ => ih a ha) hjuncts⟩
  | conditional a c iha ihc =>
    rw [Corresponds, hface] at h
    obtain ⟨a', c', rfl, ha, hc⟩ := h
    exact corresponds_conditional.mpr ⟨iha ha, ihc hc⟩
  | biconditional a b iha ihb =>
    rw [Corresponds, hface] at h
    obtain ⟨a', b', rfl, h⟩ := h
    exact corresponds_biconditional.mpr
      (h.imp (fun h => ⟨iha h.1, ihb h.2⟩) fun h => ⟨iha h.1, ihb h.2⟩)
  | negation f hf ih =>
    rw [corresponds_negation (by simp)] at h
    obtain ⟨g, rfl, hg⟩ := h
    rw [corresponds_negation hf]
    -- what stands under the other negation is none either
    have hne : ∀ k, g ≠ .negation k := by
      rintro k rfl
      cases f <;> simp_all [Corresponds]
    exact ⟨g, core_negation hne, ih hg⟩
  | doubled f _ ih =>
    rw [corresponds_negation (by simp)] at h
    obtain ⟨g, rfl, hg⟩ := h
    rw [corresponds_negation (by simp), hface] at hg
    obtain ⟨k, rfl, hk⟩ := hg
    rw [corresponds_doubled, ← corresponds_face_right, face, if_pos rfl, core_doubled]
    exact corresponds_face_right.mpr (ih hk)
  | quantified q x body ih =>
    rw [Corresponds, hface] at h
    obtain ⟨x', body', rfl, hc, hbody⟩ := h
    exact corresponds_quantified.mpr ⟨hc, ih hbody⟩
  | identity a b equal iha ihb =>
    rw [Corresponds, hface] at h
    obtain ⟨a', b', rfl, h⟩ := h
    exact corresponds_identity.mpr
      (h.imp (fun h => ⟨iha h.1, ihb h.2⟩) fun h => ⟨iha h.1, ihb h.2⟩)

/-! ## Separate formulas -/

/-- **Two formulas are alike** as objects that share no part are (`Formula.alike_laid_iff`). Two objects
that share parts may be alike although their formulas are not. -/
def Alike (dn : Bool) (l r : Formula) : Prop :=
  Corresponds dn Linked [] l r

theorem Alike.symm {l r : Formula} (h : Alike dn l r) : Alike dn r l :=
  corresponds_symm .nil h

theorem Alike.passing {l r : Formula} (h : Alike false l r) : Alike true l r :=
  corresponds_passing h

end Formula

end ProofSheet
