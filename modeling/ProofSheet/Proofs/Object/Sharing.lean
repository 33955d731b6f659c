import ProofSheet.Proofs.Formula.Rebinding
import ProofSheet.Proofs.Object.Likeness

/-!
# Shared parts

A comparison passes over two parts that are one object. This makes a difference only to formulas that
bind a letter again within its scope: such a formula is alike itself as one object, and not alike a copy
of it.

* `Object.parts_of_corresponds`: objects whose formulas correspond are alike, whatever they share.
* `Object.corresponds_of_paired`: formulas that bind no letter again correspond if the objects are paired.
* `Object.SharesNothing`, `Object.rebindings_of_sharesNothing`: so do those of objects that share no part.
* `Object.alikeApart_copy`: a copy is alike by its parts where no letter is bound again.
* `Formula.alike_laid_iff`: formulas are alike exactly if they are when laid out apart.
* `Object.alike_equivalence`: **alikeness is an equivalence of objects, and identity of parts has a role in
  it only where a letter is bound again.**
* `Object.sharing_distinguishes`: objects for which it has.
-/

namespace ProofSheet

namespace Object

variable {dn : Bool} {bound : BoundPairs}

open BoundPairs (Linked Matched)
open Formula (Alike Corresponds corresponds_of_faces corresponds_letter corresponds_predicate
  corresponds_junction corresponds_conditional corresponds_biconditional corresponds_quantified
  corresponds_identity corresponds_negation correspondEach_iff forall₂_of_mem rebindings rebindingsOfAll_eq)

/-! ## From formulas to objects -/

/-- A permutation of the formulas of some objects comes from one of the objects. -/
theorem exists_perm_of_formulas {fs : List Formula} {os : List Object}
    (h : fs.Perm (os.map formula)) : ∃ os' : List Object, os'.Perm os ∧ fs = os'.map formula := by
  have hos : List.Forall₂ (fun f o => f = formula o) (os.map formula) os := by
    rw [List.forall₂_map_left_iff]
    exact List.forall₂_same.mpr fun _ _ => rfl
  obtain ⟨os', hfs, hperm⟩ := List.perm_comp_forall₂ h hos
  refine ⟨os', hperm, ?_⟩
  rwa [← List.forall₂_map_right_iff (R := Eq), List.forall₂_eq_eq_eq] at hfs

/-- **The parts of objects whose formulas correspond are paired off**, whatever they share. -/
theorem parts_of_corresponds {l : Object} : ∀ {bound : BoundPairs} {r : Object},
    Corresponds dn Linked bound l.formula r.formula → Parts dn (Paired dn) bound l r := by
  -- the face of the object on the right has the form of that of its formula
  induction l using faceInduction dn with
  | letter s p =>
    intro bound r h
    rw [formula_letter, Corresponds, ← formula_face] at h
    obtain ⟨t, hr, h⟩ := h
    obtain ⟨q, hr'⟩ := formula_eq_letter.mp hr
    rw [Parts, face_letter]
    exact ⟨t, q, hr', h⟩
  | predicate name args p ih =>
    intro bound r h
    rw [formula_predicate, Corresponds, ← formula_face] at h
    obtain ⟨_, hr, h⟩ := h
    obtain ⟨args', q, hr', rfl⟩ := formula_eq_predicate.mp hr
    rw [correspondEach_iff, List.forall₂_map_left_iff, List.forall₂_map_right_iff] at h
    rw [Parts, face_predicate]
    exact ⟨args', q, hr', forall₂_of_mem (fun a ha _ haa => .of_parts (ih a ha haa)) h⟩
  | junction junctor juncts p ih =>
    intro bound r h
    rw [formula_junction, Corresponds, ← formula_face] at h
    obtain ⟨_, paired, hr, hperm, h⟩ := h
    obtain ⟨juncts', q, hr', rfl⟩ := formula_eq_junction.mp hr
    obtain ⟨paired', hperm', rfl⟩ := exists_perm_of_formulas hperm
    rw [correspondEach_iff, List.forall₂_map_left_iff, List.forall₂_map_right_iff] at h
    rw [Parts, face_junction]
    exact ⟨juncts', q, hr', paired', hperm', forall₂_of_mem (fun o ho _ hoo => .of_parts (ih o ho hoo)) h⟩
  | conditional a c p iha ihc =>
    intro bound r h
    rw [formula_conditional, Corresponds, ← formula_face] at h
    obtain ⟨_, _, hr, ha, hc⟩ := h
    obtain ⟨a', c', q, hr', rfl, rfl⟩ := formula_eq_conditional.mp hr
    rw [Parts, face_conditional]
    exact ⟨a', c', q, hr', .of_parts (iha ha), .of_parts (ihc hc)⟩
  | biconditional a b p iha ihb =>
    intro bound r h
    rw [formula_biconditional, Corresponds, ← formula_face] at h
    obtain ⟨_, _, hr, h⟩ := h
    obtain ⟨a', b', q, hr', rfl, rfl⟩ := formula_eq_biconditional.mp hr
    rw [Parts, face_biconditional]
    refine ⟨a', b', q, hr', h.imp (fun h => ?_) fun h => ?_⟩
    · exact ⟨.of_parts (iha h.1), .of_parts (ihb h.2)⟩
    · exact ⟨.of_parts (iha h.1), .of_parts (ihb h.2)⟩
  | negation o p ho ih =>
    intro bound r h
    have hface := formula_face dn (.negation o p)
    rw [face_negation ho] at hface
    rw [formula_negation, corresponds_negation (Formula.ne_negation_of_face hface.symm),
      ← formula_face] at h
    obtain ⟨_, hr, h⟩ := h
    obtain ⟨o', q, hr', rfl⟩ := formula_eq_negation.mp hr
    rw [Parts, face_negation ho]
    exact ⟨o', q, hr', .of_parts (ih h)⟩
  | doubled o p p' hdn ih =>
    intro bound r h
    subst hdn
    exact (ih h).of_faces (core_doubled o p p') rfl
  | quantified k x body p ih =>
    intro bound r h
    rw [formula_quantified, Corresponds, ← formula_face] at h
    obtain ⟨x', _, hr, hfresh, h⟩ := h
    obtain ⟨body', q, hr', rfl⟩ := formula_eq_quantified.mp hr
    rw [Parts, face_quantified]
    exact ⟨x', body', q, hr', hfresh, .of_parts (ih h)⟩
  | identity a b equal p iha ihb =>
    intro bound r h
    rw [formula_identity, Corresponds, ← formula_face] at h
    obtain ⟨_, _, hr, h⟩ := h
    obtain ⟨a', b', q, hr', rfl, rfl⟩ := formula_eq_identity.mp hr
    rw [Parts, face_identity]
    refine ⟨a', b', q, hr', h.imp (fun h => ?_) fun h => ?_⟩
    · exact ⟨.of_parts (iha h.1), .of_parts (ihb h.2)⟩
    · exact ⟨.of_parts (iha h.1), .of_parts (ihb h.2)⟩

/-- **Objects whose formulas are alike are alike**, whatever they share. -/
theorem alike_of_formulas {l r : Object} (h : Alike dn l.formula r.formula) : alike dn l r = true :=
  alike_iff_parts.mpr (parts_of_corresponds h)

/-- Formulas that are alike are so when they are built anew. -/
theorem alike_anew {f g : Formula} (h : Alike dn f g) : alike dn f.anew g.anew = true :=
  alike_of_formulas (by rwa [Formula.formula_anew, Formula.formula_anew])

/-! ## From objects to formulas -/

theorem rebindings_of_face {around : List Symbol} {o o' : Object} (h : face dn o = o') :
    rebindings around o.formula = rebindings around o'.formula := by
  rw [← h, formula_face, Formula.rebindings_face]

/-- Objects correspond where their faces do. -/
theorem corresponds_of_object_faces {l r l' r' : Object} (hl : face dn l = l') (hr : face dn r = r')
    (h : Corresponds dn Linked bound l'.formula r'.formula) :
    Corresponds dn Linked bound l.formula r.formula := by
  rw [← hl, ← hr, formula_face, formula_face] at h
  exact corresponds_of_faces rfl rfl h

/-- **Formulas that bind no letter again correspond if the objects are paired**, whatever these share. -/
theorem corresponds_of_paired {l r : Object} (h : Paired dn bound l r)
    (hfresh : rebindings bound.lefts l.formula = []) :
    Corresponds dn Linked bound l.formula r.formula := by
  induction h with
  | one h => exact Formula.corresponds_self h hfresh
  | letter hl hr h =>
    exact corresponds_of_object_faces hl hr (corresponds_letter.mpr h)
  | predicate hl hr hlen _ ih =>
    rw [rebindings_of_face hl, formula_predicate, rebindings, rebindingsOfAll_eq,
      List.flatMap_eq_nil_iff, List.forall_mem_map] at hfresh
    refine corresponds_of_object_faces hl hr ?_
    rw [formula_predicate, formula_predicate, corresponds_predicate, List.forall₂_map_left_iff,
      List.forall₂_map_right_iff]
    exact forall₂_iff_fin.mpr ⟨hlen, fun i => ih i (hfresh _ (List.get_mem _ i))⟩
  | junction hl hr σ _ ih =>
    rw [rebindings_of_face hl, formula_junction, rebindings, rebindingsOfAll_eq,
      List.flatMap_eq_nil_iff, List.forall_mem_map] at hfresh
    refine corresponds_of_object_faces hl hr ?_
    rw [formula_junction, formula_junction, corresponds_junction]
    obtain ⟨paired, hperm, hpairs⟩ := (exists_perm_iff_exists_equiv
      (R := fun o o' => Corresponds dn Linked _ o.formula o'.formula)).mpr
        ⟨σ, fun i => ih i (hfresh _ (List.get_mem _ i))⟩
    refine ⟨paired.map formula, hperm.map formula, ?_⟩
    rwa [List.forall₂_map_left_iff, List.forall₂_map_right_iff]
  | conditional hl hr _ _ iha ihc =>
    rw [rebindings_of_face hl, formula_conditional, rebindings, List.append_eq_nil_iff] at hfresh
    exact corresponds_of_object_faces hl hr (corresponds_conditional.mpr ⟨iha hfresh.1, ihc hfresh.2⟩)
  | biconditional hl hr _ _ iha ihb =>
    rw [rebindings_of_face hl, formula_biconditional, rebindings, List.append_eq_nil_iff] at hfresh
    exact corresponds_of_object_faces hl hr
      (corresponds_biconditional.mpr (.inl ⟨iha hfresh.1, ihb hfresh.2⟩))
  | biconditionalCrossed hl hr _ _ iha ihb =>
    rw [rebindings_of_face hl, formula_biconditional, rebindings, List.append_eq_nil_iff] at hfresh
    exact corresponds_of_object_faces hl hr
      (corresponds_biconditional.mpr (.inr ⟨iha hfresh.1, ihb hfresh.2⟩))
  | negation hl hr _ ih =>
    rw [rebindings_of_face hl, formula_negation, rebindings] at hfresh
    have hface := (formula_face dn _).symm.trans (congrArg formula hl)
    have hface' := (formula_face dn _).symm.trans (congrArg formula hr)
    refine corresponds_of_faces hface hface' ?_
    refine (corresponds_negation (Formula.ne_negation_of_face hface)).mpr ⟨_, ?_, ih hfresh⟩
    exact Formula.face_negation (Formula.ne_negation_of_face hface')
  | quantified hl hr hclash _ ih =>
    rw [rebindings_of_face hl, formula_quantified, Formula.rebindings_quantified_eq_nil] at hfresh
    exact corresponds_of_object_faces hl hr (corresponds_quantified.mpr ⟨hclash, ih hfresh.2⟩)
  | identity hl hr _ _ iha ihb =>
    rw [rebindings_of_face hl, formula_identity, rebindings, List.append_eq_nil_iff] at hfresh
    exact corresponds_of_object_faces hl hr
      (corresponds_identity.mpr (.inl ⟨iha hfresh.1, ihb hfresh.2⟩))
  | identityCrossed hl hr _ _ iha ihb =>
    rw [rebindings_of_face hl, formula_identity, rebindings, List.append_eq_nil_iff] at hfresh
    exact corresponds_of_object_faces hl hr
      (corresponds_identity.mpr (.inr ⟨iha hfresh.1, ihb hfresh.2⟩))

/-! ## Objects that share no part -/

mutual

/-- The places of all parts of an object. -/
def places : Object → List (Option Place)
  | .letter _ p => [p]
  | .predicate _ args p => p :: placesOfAll args
  | .junction _ juncts p => p :: placesOfAll juncts
  | .conditional a c p => p :: (places a ++ places c)
  | .biconditional a b p => p :: (places a ++ places b)
  | .negation o p => p :: places o
  | .quantified _ _ body p => p :: places body
  | .identity a b _ p => p :: (places a ++ places b)

/-- The places of all parts of some objects. -/
def placesOfAll : List Object → List (Option Place)
  | [] => []
  | o :: os => places o ++ placesOfAll os

end

theorem placesOfAll_eq (os : List Object) : placesOfAll os = os.flatMap places := by
  induction os with
  | nil => rfl
  | cons o os ih => rw [placesOfAll, ih, List.flatMap_cons]

theorem places_ne_nil (o : Object) : o.places ≠ [] := by
  cases o <;> simp [places]

/-- The parts of a core are parts. -/
theorem places_core_subset (o : Object) : o.core.places ⊆ o.places := by
  induction o using faceInduction true with
  | negation o p h _ =>
    rw [core_negation (h rfl)]
    exact List.Subset.refl _
  | doubled o p p' _ ih =>
    rw [core_doubled, places, places]
    exact fun q hq => List.mem_cons_of_mem _ (List.mem_cons_of_mem _ (ih hq))
  | _ => simp [core]

/-- **Two objects share no part.** -/
def SharesNothing (l r : Object) : Prop :=
  ∀ p ∈ l.places, p ∉ r.places

theorem SharesNothing.ne {o : Object} : ¬ SharesNothing o o := by
  intro h
  obtain ⟨p, hp⟩ := List.exists_mem_of_ne_nil _ (places_ne_nil o)
  exact h p hp hp

theorem SharesNothing.symm {l r : Object} (h : SharesNothing l r) : SharesNothing r l :=
  fun p hp hp' => h p hp' hp

theorem SharesNothing.of_face {l r l' r' : Object} (h : SharesNothing l r) (hl : face dn l = l')
    (hr : face dn r = r') : SharesNothing l' r' := by
  have hsub : ∀ o : Object, (face dn o).places ⊆ o.places := by
    intro o
    cases dn with
    | false => exact fun _ hp => hp
    | true => exact places_core_subset o
  subst hl hr
  exact fun p hp hp' => h p (hsub l hp) (hsub r hp')

theorem SharesNothing.mono {l r a a' : Object} (h : SharesNothing l r) (hl : a.places ⊆ l.places)
    (hr : a'.places ⊆ r.places) : SharesNothing a a' :=
  fun p hp hp' => h p (hl hp) (hr hp')

theorem places_subset_of_mem {o : Object} {os : List Object} (h : o ∈ os) (p : Option Place) :
    o.places ⊆ p :: placesOfAll os := by
  rw [placesOfAll_eq]
  exact fun q hq => List.mem_cons_of_mem p (List.mem_flatMap.mpr ⟨o, h, hq⟩)

/-- **Paired objects that share no part bind no letter again.** -/
theorem rebindings_of_sharesNothing {l r : Object} (h : Paired dn bound l r)
    (hshare : SharesNothing l r) : rebindings bound.lefts l.formula = [] := by
  induction h with
  | one => exact absurd hshare SharesNothing.ne
  | letter hl => rw [rebindings_of_face hl]; rfl
  | predicate hl hr hlen _ ih =>
    have hparts := hshare.of_face hl hr
    rw [rebindings_of_face hl, formula_predicate, rebindings, rebindingsOfAll_eq,
      List.flatMap_eq_nil_iff, List.forall_mem_map]
    intro a ha
    obtain ⟨i, rfl⟩ := List.mem_iff_get.mp ha
    exact ih i (hparts.mono (places_subset_of_mem (List.get_mem _ _) _)
      (places_subset_of_mem (List.get_mem _ _) _))
  | junction hl hr σ _ ih =>
    have hparts := hshare.of_face hl hr
    rw [rebindings_of_face hl, formula_junction, rebindings, rebindingsOfAll_eq,
      List.flatMap_eq_nil_iff, List.forall_mem_map]
    intro o ho
    obtain ⟨i, rfl⟩ := List.mem_iff_get.mp ho
    exact ih i (hparts.mono (places_subset_of_mem (List.get_mem _ _) _)
      (places_subset_of_mem (List.get_mem _ _) _))
  | conditional hl hr _ _ iha ihc =>
    have hparts := hshare.of_face hl hr
    rw [rebindings_of_face hl, formula_conditional, rebindings, List.append_eq_nil_iff]
    exact ⟨iha (hparts.mono (by simp [places]) (by simp [places])),
      ihc (hparts.mono (by simp [places]) (by simp [places]))⟩
  | biconditional hl hr _ _ iha ihb | biconditionalCrossed hl hr _ _ iha ihb =>
    have hparts := hshare.of_face hl hr
    rw [rebindings_of_face hl, formula_biconditional, rebindings, List.append_eq_nil_iff]
    exact ⟨iha (hparts.mono (by simp [places]) (by simp [places])),
      ihb (hparts.mono (by simp [places]) (by simp [places]))⟩
  | negation hl hr _ ih =>
    rw [rebindings_of_face hl, formula_negation, rebindings]
    exact ih ((hshare.of_face hl hr).mono (by simp [places]) (by simp [places]))
  | quantified hl hr hclash _ ih =>
    rw [rebindings_of_face hl, formula_quantified, Formula.rebindings_quantified_eq_nil]
    exact ⟨BoundPairs.not_mem_lefts hclash,
      ih ((hshare.of_face hl hr).mono (by simp [places]) (by simp [places]))⟩
  | identity hl hr _ _ iha ihb | identityCrossed hl hr _ _ iha ihb =>
    have hparts := hshare.of_face hl hr
    rw [rebindings_of_face hl, formula_identity, rebindings, List.append_eq_nil_iff]
    exact ⟨iha (hparts.mono (by simp [places]) (by simp [places])),
      ihb (hparts.mono (by simp [places]) (by simp [places]))⟩

/-! ## What identity decides -/

/-- **The formulas of alike objects are alike**, if no letter is bound again or no part is shared. -/
theorem formulas_of_alike {l r : Object} (h : alike dn l r = true)
    (hrole : rebindings [] l.formula = [] ∨ SharesNothing l r) : Alike dn l.formula r.formula := by
  have hpaired := alike_iff.mp h
  refine corresponds_of_paired hpaired ?_
  rcases hrole with hfresh | hshare
  · exact hfresh
  · exact rebindings_of_sharesNothing hpaired hshare

/-- **Alikeness of objects is that of their formulas**, if no letter is bound again or no part is
shared. -/
theorem alike_iff_formulas {l r : Object} (hrole : rebindings [] l.formula = [] ∨ SharesNothing l r) :
    alike dn l r = true ↔ Alike dn l.formula r.formula :=
  ⟨fun h => formulas_of_alike h hrole, alike_of_formulas⟩

/-- Passing over pairs of negations relates more, where identity has no role. -/
theorem alike_passing {l r : Object} (hrole : rebindings [] l.formula = [] ∨ SharesNothing l r)
    (h : alike false l r = true) : alike true l r = true :=
  alike_of_formulas (formulas_of_alike h hrole).passing

/-! ## Copies -/

/-- A comparison by parts looks at the face of what is on the right. -/
theorem alikeApart_face_right {l r : Object} :
    alikeApart dn bound l (face dn r) = alikeApart dn bound l r := by
  induction l using faceInduction dn with
  | negation o p ho _ =>
    rw [alikeApart, alikeApart, face_face]
    · exact fun twice q hdn => ho hdn twice q
    · exact fun twice q hdn => ho hdn twice q
  | doubled o p p' hdn ih =>
    subst hdn
    rw [alikeApart, alikeApart]
    exact ih
  | _ => rw [alikeApart, alikeApart, face_face]

/-- Juncts that stand in the same places claim each other, one after the other. -/
theorem claimEach_of_forall₂ {ls rs : List Object}
    (h : List.Forall₂ (fun l r => alikeUnder dn bound l r = true) ls rs) : ∀ claimed : Nat,
      claimEach dn bound ls (rs.map some ++ List.replicate claimed none) = true := by
  induction h with
  | nil => intro claimed; rw [claimEach]
  | @cons l r ls rs hlr _ ih =>
    intro claimed
    -- the junct at the head of the ring is the partner, and its place goes to the end
    have hclaim : claimFirst (alikeUnder dn bound l)
        ((r :: rs).map some ++ List.replicate claimed none) =
          some (none :: (rs.map some ++ List.replicate claimed none)) := by
      simp only [List.map_cons, List.cons_append, claimFirst, hlr, if_true]
    have hrest := ih (claimed + 1)
    rw [List.replicate_succ', ← List.append_assoc] at hrest
    rw [claimEach_cons, hclaim]
    exact hrest

/-- Two lists of the same formulas, one by one. -/
theorem forall₂_of_formulas {R : Object → Object → Prop} {ls rs : List Object}
    (h : rs.map formula = ls.map formula) (hR : ∀ l ∈ ls, ∀ r : Object, r.formula = l.formula → R l r) :
    List.Forall₂ R ls rs := by
  have hsame : List.Forall₂ (fun l r => formula l = formula r) ls rs := by
    rw [← List.forall₂_map_right_iff (R := fun l f => formula l = f), ← List.forall₂_map_left_iff
      (R := Eq), List.forall₂_eq_eq_eq]
    exact h.symm
  exact forall₂_of_mem (fun l hl r hlr => hR l hl r hlr.symm) hsame

/-- **A copy is alike by its parts**, under letters bound to themselves, if no quantifier binds one of
them, or a letter bound around it, again. -/
theorem alikeApart_copy {l : Object} : ∀ {bound : BoundPairs}, bound.Matched →
    rebindings bound.lefts l.formula = [] → ∀ r : Object, r.formula = l.formula →
      alikeApart dn bound l r = true := by
  induction l using faceInduction dn with
  | letter s p =>
    intro bound hb _ r hr
    obtain ⟨q, rfl⟩ := formula_eq_letter.mp hr
    rw [alikeApart, face_letter]
    exact hb.matchLetters s
  | predicate name args p ih =>
    intro bound hb hfresh r hr
    obtain ⟨args', q, rfl, hargs⟩ := formula_eq_predicate.mp (formula_predicate name args p ▸ hr)
    rw [formula_predicate, rebindings, rebindingsOfAll_eq, List.flatMap_eq_nil_iff,
      List.forall_mem_map] at hfresh
    rw [alikeApart, face_predicate]
    simp only [beq_self_eq_true, Bool.true_and, alikeEach_iff]
    refine forall₂_of_formulas hargs fun a ha r hr => ?_
    rw [alikeUnder, ih a ha hb (hfresh a ha) r hr, Bool.or_true]
  | junction junctor juncts p ih =>
    intro bound hb hfresh r hr
    obtain ⟨juncts', q, rfl, hjuncts⟩ := formula_eq_junction.mp (formula_junction junctor juncts p ▸ hr)
    rw [formula_junction, rebindings, rebindingsOfAll_eq, List.flatMap_eq_nil_iff,
      List.forall_mem_map] at hfresh
    have hpairs : List.Forall₂ (fun l r => alikeUnder dn bound l r = true) juncts juncts' := by
      refine forall₂_of_formulas hjuncts fun o ho r hr => ?_
      rw [alikeUnder, ih o ho hb (hfresh o ho) r hr, Bool.or_true]
    have hclaims := claimEach_of_forall₂ hpairs 0
    rw [List.replicate_zero, List.append_nil] at hclaims
    rw [alikeApart, face_junction]
    simp only [decide_true, hpairs.length_eq, beq_self_eq_true, Bool.true_and]
    exact hclaims
  | conditional a c p iha ihc =>
    intro bound hb hfresh r hr
    obtain ⟨a', c', q, rfl, ha, hc⟩ := formula_eq_conditional.mp hr
    rw [formula_conditional, rebindings, List.append_eq_nil_iff] at hfresh
    rw [alikeApart, face_conditional]
    simp only [iha hb hfresh.1 a' ha, ihc hb hfresh.2 c' hc, Bool.or_true, Bool.and_self]
  | biconditional a b p iha ihb =>
    intro bound hb hfresh r hr
    obtain ⟨a', b', q, rfl, ha, hb'⟩ := formula_eq_biconditional.mp hr
    rw [formula_biconditional, rebindings, List.append_eq_nil_iff] at hfresh
    rw [alikeApart, face_biconditional]
    simp only [iha hb hfresh.1 a' ha, ihb hb hfresh.2 b' hb', Bool.or_true, Bool.and_self,
      Bool.true_or]
  | negation o p ho ih =>
    intro bound hb hfresh r hr
    obtain ⟨o', q, rfl, ho'⟩ := formula_eq_negation.mp hr
    have hne : dn = true → ∀ k q, o' ≠ .negation k q := by
      rintro hdn k q rfl
      obtain ⟨k', q', rfl, -⟩ := formula_eq_negation.mp ho'.symm
      exact ho hdn k' q' rfl
    rw [alikeApart, face_negation hne]
    · simp only [ih hb hfresh o' ho', Bool.or_true]
    · exact fun twice q hdn => ho hdn twice q
  | doubled o p p' hdn ih =>
    intro bound hb hfresh r hr
    subst hdn
    obtain ⟨o', q, rfl, ho'⟩ := formula_eq_negation.mp hr
    obtain ⟨o'', q', rfl, ho''⟩ := formula_eq_negation.mp ho'
    have hface : face true (.negation (.negation o'' q') q) = face true o'' := core_doubled o'' q q'
    rw [alikeApart, ← alikeApart_face_right, hface, alikeApart_face_right]
    exact ih hb hfresh o'' ho''
  | quantified k x body p ih =>
    intro bound hb hfresh r hr
    obtain ⟨body', q, rfl, hbody⟩ := formula_eq_quantified.mp hr
    rw [formula_quantified, Formula.rebindings_quantified_eq_nil] at hfresh
    rw [alikeApart, face_quantified]
    simp only [decide_true, hb.clashes hfresh.1, Bool.not_false, Bool.and_self,
      ih (hb.cons x) hfresh.2 body' hbody, Bool.or_true]
  | identity a b equal p iha ihb =>
    intro bound hb hfresh r hr
    obtain ⟨a', b', q, rfl, ha, hb'⟩ := formula_eq_identity.mp hr
    rw [formula_identity, rebindings, List.append_eq_nil_iff] at hfresh
    rw [alikeApart, face_identity]
    simp only [iha hb hfresh.1 a' ha, ihb hb hfresh.2 b' hb', beq_self_eq_true, Bool.or_true,
      Bool.and_self, Bool.true_or]

end Object

/-! ## Layouts -/

namespace Formula

mutual

/-- The parts of a formula lie where the layout puts them. -/
theorem exists_of_mem_places : ∀ (f : Formula) {layout : Place → Option Place} {p : Option Place},
    p ∈ (f.laid layout).places → ∃ path, p = layout path
  | .letter _, _, _, h => ⟨[], by simpa [laid, Object.places] using h⟩
  | .predicate _ args, _, _, h => by
    rw [laid, Object.places, List.mem_cons] at h
    exact h.elim (fun h => ⟨[], h⟩) (exists_of_mem_placesOfAll args)
  | .junction _ juncts, _, _, h => by
    rw [laid, Object.places, List.mem_cons] at h
    exact h.elim (fun h => ⟨[], h⟩) (exists_of_mem_placesOfAll juncts)
  | .conditional a b, _, _, h | .biconditional a b, _, _, h | .identity a b _, _, _, h => by
    rw [laid, Object.places, List.mem_cons, List.mem_append] at h
    rcases h with h | h | h
    · exact ⟨[], h⟩
    · obtain ⟨path, hpath⟩ := exists_of_mem_places a h
      exact ⟨_, hpath⟩
    · obtain ⟨path, hpath⟩ := exists_of_mem_places b h
      exact ⟨_, hpath⟩
  | .negation f, _, _, h | .quantified _ _ f, _, _, h => by
    rw [laid, Object.places, List.mem_cons] at h
    rcases h with h | h
    · exact ⟨[], h⟩
    · obtain ⟨path, hpath⟩ := exists_of_mem_places f h
      exact ⟨_, hpath⟩

theorem exists_of_mem_placesOfAll : ∀ (fs : List Formula) {layout : Place → Option Place}
    {number : Nat} {p : Option Place}, p ∈ Object.placesOfAll (laidFrom layout number fs) →
      ∃ path, p = layout path
  | [], _, _, _, h => by simp [laidFrom, Object.placesOfAll] at h
  | f :: fs, _, _, _, h => by
    rw [laidFrom, Object.placesOfAll, List.mem_append] at h
    rcases h with h | h
    · obtain ⟨path, hpath⟩ := exists_of_mem_places f h
      exact ⟨_, hpath⟩
    · exact exists_of_mem_placesOfAll fs h

end

/-- Formulas that are laid out in different places share no part. -/
theorem sharesNothing_laid {layout layout' : Place → Option Place} (h : ∀ p q, layout p ≠ layout' q)
    (f g : Formula) : Object.SharesNothing (f.laid layout) (g.laid layout') := by
  intro p hp hp'
  obtain ⟨path, rfl⟩ := exists_of_mem_places f hp
  obtain ⟨path', hpath'⟩ := exists_of_mem_places g hp'
  exact h path path' hpath'

variable {dn : Bool}

/-- **Formulas are alike exactly if they are as objects that share no part.** -/
theorem alike_laid_iff {layout layout' : Place → Option Place} (h : ∀ p q, layout p ≠ layout' q)
    {f g : Formula} : (f.laid layout).alike dn (g.laid layout') = true ↔ Alike dn f g := by
  rw [Object.alike_iff_formulas (.inr (sharesNothing_laid h f g)), formula_laid, formula_laid]

/-- Alikeness of formulas is decided by the comparison, of one laid out anew and the other somewhere. -/
instance (f g : Formula) : Decidable (Alike dn f g) :=
  decidable_of_iff _ (@alike_laid_iff dn (fun _ => none) some (by simp) f g)

end Formula

namespace Object

open Formula (rebindings)

/-! ## What identity of parts decides -/

/-- **Alikeness is an equivalence of objects, and identity of parts has a role in it only where a letter
is bound again.** An object is alike itself, whatever it binds. A copy of it that shares no part is alike it
exactly if no quantifier stands in the scope of another over the same letter; and under any letters bound
to themselves, if no quantifier binds one of these either. Where the formula on the left binds no letter
again, what two objects share changes nothing: they are alike exactly if they are when laid out apart.
Passing over pairs of negations then makes more objects alike; so it does for objects that share no
part. -/
theorem alike_equivalence (dn : Bool) :
    (∀ l r, alike dn l r = true → alike dn r l = true) ∧
    (∀ l m r, alike dn l m = true → alike dn m r = true → alike dn l r = true) ∧
    (∀ o, alike dn o o = true) ∧
    (∀ (f : Formula) layout layout', (∀ p q, layout p ≠ layout' q) →
      (alike dn (f.laid layout) (f.laid layout') = true ↔ rebindings [] f = [])) ∧
    (∀ bound : BoundPairs, bound.Matched → ∀ l r : Object, r.formula = l.formula →
      rebindings bound.lefts l.formula = [] → alikeApart dn bound l r = true) ∧
    (∀ l r, rebindings [] l.formula = [] → ∀ layout layout', (∀ p q, layout p ≠ layout' q) →
      alike dn l r = alike dn (l.formula.laid layout) (r.formula.laid layout')) ∧
    ∀ l r, rebindings [] l.formula = [] ∨ SharesNothing l r → alike false l r = true →
      alike true l r = true := by
  refine ⟨fun l r => alike_symm, fun l m r => alike_trans, alike_self dn, ?_, ?_, ?_,
    fun l r hrole h => alike_passing hrole h⟩
  · intro f layout layout' h
    rw [Formula.alike_laid_iff h, Formula.alike_self_iff]
  · intro bound hb l r hformula hfresh
    exact alikeApart_copy hb hfresh r hformula
  · intro l r hfresh layout layout' h
    rw [Bool.eq_iff_iff, Formula.alike_laid_iff h, alike_iff_formulas (.inl hfresh)]

/-- The formula `(∀x)(∃y)Rxy` is alike `(∀z)¬¬(∃w)Rzw` where pairs of negations are passed over, so the
latter is alike the former; and a copy of it is alike it, laid out elsewhere. -/
theorem alike_equivalence_renamed :
    alike true
        (.quantified .universal 'z' (.negation (.negation (.quantified .existential 'w'
          (.predicate 'R' [.letter 'z', .letter 'w'])))))
        (.quantified .universal 'x' (.quantified .existential 'y'
          (.predicate 'R' [.letter 'x', .letter 'y']))) = true ∧
      ∀ layout layout' : Place → Option Place, (∀ p q, layout p ≠ layout' q) →
        alike true
          ((Formula.quantified .universal 'x' (.quantified .existential 'y'
            (.predicate 'R' [.letter 'x', .letter 'y']))).laid layout)
          ((Formula.quantified .universal 'x' (.quantified .existential 'y'
            (.predicate 'R' [.letter 'x', .letter 'y']))).laid layout') = true := by
  obtain ⟨hsymm, -, -, hcopy, -⟩ := alike_equivalence true
  refine ⟨hsymm _ _ (by decide), fun layout layout' h => (hcopy _ layout layout' h).mpr (by decide)⟩

/-- The object `(∀x)(∀x)Fx`, laid out from a place on. -/
def boundAgain (start : Nat) : Object :=
  (Formula.quantified .universal 'x' (.quantified .universal 'x' (.predicate 'F' [.letter 'x']))).laid
    fun path => some (start :: path)

/-- The object `(∀x)¬u`, laid out from a place on, over one object `u`, which is `¬(∀x)Fx`. -/
def aroundShared (start : Nat) : Object :=
  .quantified .universal 'x' (.negation (.negation (.quantified .universal 'x'
    (.predicate 'F' [.letter 'x'] (some [0, 0, 0])) (some [0, 0])) (some [0])) (some [start, 0]))
    (some [start])

/-- **Identity of parts has a role where a letter is bound again.** `(∀x)(∀x)Fx` is alike itself and not
alike a copy of itself. And `(∀x)¬u` is alike a copy over the same `u`, which is `¬(∀x)Fx`, as long as
pairs of negations count; when they are passed over, what is compared under `(∀x)` is no longer `u` but
`(∀x)Fx`, which binds `x` again. -/
theorem sharing_distinguishes :
    alike false (boundAgain 1) (boundAgain 1) = true ∧
      alike false (boundAgain 1) (boundAgain 2) = false ∧
      alike false (aroundShared 1) (aroundShared 2) = true ∧
      alike true (aroundShared 1) (aroundShared 2) = false := by
  decide

end Object

end ProofSheet
