import ProofSheet.Proofs.Object.Sharing

/-!
# Truth valuations

A truth valuation is classical on the connectives and knows nothing of what is inside an atom: a
letter, a predicate, a quantification or an identity. It takes alike atoms to have one value.

* `Valuation`: the valuations of formulas.
* `Object.Valuation`: the valuations of objects. These may tell objects with one formula apart.
* `Object.Valuation.holds_like`: **alike objects hold together**, not only alike atoms.
* `Object.Valuation.holds_junctionOf`: a junction keeps its value as it flattens.
* `Valuation.ofObjects`: **each valuation of formulas is one of objects**, as far as no letter is bound
  again.
-/

namespace ProofSheet

namespace Junctor

variable {α β : Type} {P : α → Prop}

/-- What a junctor makes of a property: that all have it, or that some have it. -/
def joins (junctor : Junctor) (P : α → Prop) (juncts : List α) : Prop :=
  match junctor with
  | .conjunction => ∀ f ∈ juncts, P f
  | .disjunction => ∃ f ∈ juncts, P f

theorem joins_forall₂ {Q : β → Prop} {junctor : Junctor} {ls : List α} {rs : List β}
    (h : List.Forall₂ (fun l r => P l ↔ Q r) ls rs) : junctor.joins P ls ↔ junctor.joins Q rs := by
  induction h with
  | nil => cases junctor <;> simp [joins]
  | cons hlr _ ih => cases junctor <;> simp_all [joins]

theorem joins_perm {junctor : Junctor} {ls rs : List α} (h : ls.Perm rs) :
    junctor.joins P ls ↔ junctor.joins P rs := by
  cases junctor <;> simp [joins, h.mem_iff]

/-- Juncts taken apart: what is asked of all parts is asked of each group of them. -/
theorem joins_flatMap {junctor : Junctor} {parts : β → List α} {fs : List β} :
    junctor.joins P (fs.flatMap parts) ↔ junctor.joins (fun f => junctor.joins P (parts f)) fs := by
  cases junctor <;> simp only [joins, List.mem_flatMap] <;> grind

theorem joins_map {junctor : Junctor} {parts : β → α} {fs : List β} :
    junctor.joins P (fs.map parts) ↔ junctor.joins (fun f => P (parts f)) fs := by
  cases junctor <;> simp [joins]

end Junctor

namespace Formula

/-- The formulas that a truth valuation does not look into. -/
def IsAtom : Formula → Prop
  | .letter _ | .predicate _ _ | .quantified _ _ _ | .identity _ _ _ => True
  | .junction _ _ | .conditional _ _ | .biconditional _ _ | .negation _ => False

end Formula

/-- **A truth valuation**: classical on the connectives, with one value for alike atoms. -/
structure Valuation where
  holds : Formula → Prop
  negation : ∀ f, holds (.negation f) ↔ ¬ holds f
  junction : ∀ junctor juncts, holds (.junction junctor juncts) ↔ junctor.joins holds juncts
  conditional : ∀ a c, holds (.conditional a c) ↔ (holds a → holds c)
  biconditional : ∀ a b, holds (.biconditional a b) ↔ (holds a ↔ holds b)
  atoms : ∀ a b, a.IsAtom → b.IsAtom → Formula.Alike true a b → (holds a ↔ holds b)

/-- **A truth valuation of objects.** Two objects with one formula may have two values, unless they are
alike. -/
structure Object.Valuation where
  holds : Object → Prop
  negation : ∀ o p, holds (.negation o p) ↔ ¬ holds o
  junction : ∀ junctor juncts p, holds (.junction junctor juncts p) ↔ junctor.joins holds juncts
  conditional : ∀ a c p, holds (.conditional a c p) ↔ (holds a → holds c)
  biconditional : ∀ a b p, holds (.biconditional a b p) ↔ (holds a ↔ holds b)
  atoms : ∀ a b, a.formula.IsAtom → b.formula.IsAtom → Object.alike true a b = true →
    (holds a ↔ holds b)

namespace Object.Valuation

variable (v : Object.Valuation)

/-- Pairs of negations change nothing. -/
theorem holds_core (o : Object) : v.holds o.core ↔ v.holds o := by
  induction o using faceInduction true with
  | negation o p h _ => rw [core_negation (h rfl)]
  | doubled o p p' _ ih => rw [core_doubled, ih, v.negation, v.negation, not_not]
  | _ => rw [core]; simp

/-- An object holds where its face does. -/
theorem holds_face {r s : Object} (h : face true r = s) : v.holds r ↔ v.holds s := by
  rw [← h]
  exact (v.holds_core r).symm

/-- An atom holds where an atom alike it does, whatever pairs of negations stand around that. -/
theorem holds_atom {l r : Object} (hl : l.formula.IsAtom) (hr : (face true r).formula.IsAtom)
    (h : Like l r) : v.holds l ↔ v.holds r := by
  rw [v.atoms l _ hl hr (like_core_right.mpr h), ← v.holds_face rfl]

theorem holds_like {l : Object} : ∀ {r : Object}, Like l r → (v.holds l ↔ v.holds r) := by
  -- an atom faces an atom; anything else is compared part by part
  induction l using faceInduction true with
  | letter _ _ | predicate _ _ _ =>
    intro r h
    have hparts := like_iff_parts.mp h
    simp only [Parts, face_letter, face_predicate] at hparts
    obtain ⟨_, _, hr, _⟩ := hparts
    exact v.holds_atom (by simp [Formula.IsAtom]) (by simp [hr, Formula.IsAtom]) h
  | quantified _ _ _ _ _ | identity _ _ _ _ _ =>
    intro r h
    have hparts := like_iff_parts.mp h
    simp only [Parts, face_quantified, face_identity] at hparts
    obtain ⟨_, _, _, hr, _⟩ := hparts
    exact v.holds_atom (by simp [Formula.IsAtom]) (by simp [hr, Formula.IsAtom]) h
  | junction junctor juncts p ih =>
    intro r h
    obtain ⟨juncts', paired, q, hr, hperm, hjuncts⟩ := h.exists_junction
    rw [v.holds_face hr, v.junction, v.junction, ← Junctor.joins_perm hperm]
    exact Junctor.joins_forall₂ (Formula.forall₂_of_mem (fun o ho _ hoo => ih o ho hoo) hjuncts)
  | conditional a c p iha ihc =>
    intro r h
    obtain ⟨a', c', q, hr, ha, hc⟩ := h.exists_conditional
    rw [v.holds_face hr, v.conditional, v.conditional]
    exact imp_congr (iha ha) (ihc hc)
  | biconditional a b p iha ihb =>
    intro r h
    have hparts := like_iff_parts.mp h
    rw [Parts, face_biconditional] at hparts
    obtain ⟨a', b', q, hr, hab⟩ := hparts
    rw [v.holds_face hr, v.biconditional, v.biconditional]
    rcases hab with ⟨ha, hb⟩ | ⟨ha, hb⟩
    · exact iff_congr (iha (alike_iff.mpr ha)) (ihb (alike_iff.mpr hb))
    · exact (iff_congr (iha (alike_iff.mpr ha)) (ihb (alike_iff.mpr hb))).trans iff_comm
  | negation o p ho ih =>
    intro r h
    have hparts := like_iff_parts.mp h
    rw [Parts, face_negation ho] at hparts
    obtain ⟨o', q, hr, hoo⟩ := hparts
    rw [v.holds_face hr, v.negation, v.negation]
    exact not_congr (ih (alike_iff.mpr hoo))
  | doubled o p p' _ ih =>
    intro r h
    rw [← like_core_left, core_doubled, like_core_left] at h
    rw [v.negation, v.negation, not_not]
    exact ih h

/-- What an object contributes to a junction is worth what the object is. -/
theorem joins_junctsUnder (junctor : Junctor) (o : Object) :
    junctor.joins v.holds (junctsUnder junctor o) ↔ v.holds o := by
  have hself : ∀ o : Object, junctor.joins v.holds [o] ↔ v.holds o := by
    intro o
    cases junctor <;> simp [Junctor.joins]
  cases o with
  | junction inner juncts p =>
    rw [junctsUnder]
    split
    · rename_i h
      rw [v.junction, h]
    · exact hself _
  | _ => exact hself _

/-- **A junction keeps its value as it flattens.** -/
theorem holds_junctionOf (junctor : Junctor) (parts : List Object) :
    v.holds (junctionOf junctor parts) ↔ junctor.joins v.holds parts := by
  rw [junctionOf, v.junction, Junctor.joins_flatMap]
  exact Junctor.joins_forall₂ (List.forall₂_same.mpr fun o _ => v.joins_junctsUnder junctor o)

end Object.Valuation

/-! ## Valuations of formulas -/

namespace Formula

mutual

/-- A formula with a letter in the place of each atom that binds a letter again. -/
def boundOnce : Formula → Formula
  | .junction junctor juncts => .junction junctor (boundOnceAll juncts)
  | .conditional a c => .conditional (boundOnce a) (boundOnce c)
  | .biconditional a b => .biconditional (boundOnce a) (boundOnce b)
  | .negation f => .negation (boundOnce f)
  | .letter s => .letter s
  | .predicate name args =>
    if rebindings [] (.predicate name args) = [] then .predicate name args else .letter 'A'
  | .quantified q x body =>
    if rebindings [] (.quantified q x body) = [] then .quantified q x body else .letter 'A'
  | .identity a b equal =>
    if rebindings [] (.identity a b equal) = [] then .identity a b equal else .letter 'A'

/-- Each of some formulas with a letter in the place of each atom that binds a letter again. -/
def boundOnceAll : List Formula → List Formula
  | [] => []
  | f :: fs => boundOnce f :: boundOnceAll fs

end

theorem boundOnceAll_eq (fs : List Formula) : boundOnceAll fs = fs.map boundOnce := by
  induction fs with
  | nil => rfl
  | cons f fs ih => rw [boundOnceAll, ih, List.map_cons]

theorem boundOnce_of_isAtom {f : Formula} (hf : f.IsAtom) :
    f.boundOnce = if rebindings [] f = [] then f else .letter 'A' := by
  cases f with
  | letter s => rfl
  | predicate | quantified | identity => rw [boundOnce]
  | _ => exact hf.elim

/-- A formula that binds no letter again is left as it is. -/
theorem boundOnce_eq_self {f : Formula} (h : rebindings [] f = []) : f.boundOnce = f := by
  induction f using inductionOn with
  | letter s => rfl
  | predicate | quantified | identity => rw [boundOnce, if_pos h]
  | junction junctor juncts ih =>
    rw [rebindings, rebindingsOfAll_eq, List.flatMap_eq_nil_iff] at h
    rw [boundOnce, boundOnceAll_eq, List.map_congr_left fun f hf => ih f hf (h f hf), List.map_id']
  | conditional a b iha ihb | biconditional a b iha ihb =>
    rw [rebindings, List.append_eq_nil_iff] at h
    rw [boundOnce, iha h.1, ihb h.2]
  | negation f ih => rw [boundOnce, ih h]

end Formula

namespace Valuation

open Formula (rebindings)

/-- **A valuation of formulas as one of objects.** Atoms that bind a letter again have one value, as
identity of parts decides which of these are alike. -/
def ofObjects (v : Valuation) : Object.Valuation where
  holds o := v.holds o.formula.boundOnce
  negation o p := v.negation _
  junction junctor juncts p := by
    rw [Object.formula_junction, Formula.boundOnce, Formula.boundOnceAll_eq, v.junction,
      Junctor.joins_map, Junctor.joins_map]
  conditional a c p := v.conditional _ _
  biconditional a b p := v.biconditional _ _
  atoms a b ha hb h := by
    rw [Formula.boundOnce_of_isAtom ha, Formula.boundOnce_of_isAtom hb]
    by_cases hfresh : rebindings [] a.formula = []
    · have halike := Object.formulas_of_alike h (.inl hfresh)
      have hfresh' : rebindings [] b.formula = [] := Formula.rebindings_of_corresponds halike.symm
      rw [if_pos hfresh, if_pos hfresh']
      exact v.atoms _ _ ha hb halike
    · have hback : rebindings [] b.formula ≠ [] := fun hfresh' => hfresh
        (Formula.rebindings_of_corresponds (Object.formulas_of_alike (Object.alike_symm h)
          (.inl hfresh')).symm)
      rw [if_neg hfresh, if_neg hback]

/-- **An object that binds no letter again holds where its formula does.** -/
theorem ofObjects_holds (v : Valuation) {o : Object} (h : rebindings [] o.formula = []) :
    v.ofObjects.holds o ↔ v.holds o.formula := by
  show v.holds o.formula.boundOnce ↔ _
  rw [Formula.boundOnce_eq_self h]

end Valuation

end ProofSheet
