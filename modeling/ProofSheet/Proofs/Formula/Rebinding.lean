import ProofSheet.Proofs.Formula.Correspondence
import ProofSheet.Proofs.Formula.FreeLetters

/-!
# Letters bound again

A formula corresponds to a copy of itself unless it binds a letter again within its scope.

* `Formula.rebindings_of_corresponds`: what corresponds to anything binds no letter again.
* `Formula.corresponds_self`, `Formula.alike_self_iff`: **which formulas are alike a copy of
  themselves.**
-/

namespace ProofSheet

namespace Formula

variable {dn : Bool}

open BoundPairs (Linked)

theorem rebindings_quantified_eq_nil {around : List Symbol} {q : Quantifier} {x : Symbol}
    {body : Formula} : rebindings around (.quantified q x body) = [] ↔
      x ∉ around ∧ rebindings (x :: around) body = [] := by
  rw [rebindings, List.append_eq_nil_iff]
  simp

/-- **What corresponds to anything binds no letter again.** -/
theorem rebindings_of_corresponds {fits : BoundPairs → Symbol → Symbol → Prop} {bound : BoundPairs}
    {l r : Formula} (h : Corresponds dn fits bound l r) : rebindings bound.lefts l = [] := by
  induction l using faceInduction dn generalizing bound r with
  | letter s => rfl
  | predicate name args ih =>
    rw [Corresponds] at h
    obtain ⟨args', -, hargs⟩ := h
    rw [rebindings, rebindingsOfAll_eq, List.flatMap_eq_nil_iff]
    intro a ha
    obtain ⟨a', -, haa⟩ := exists_of_forall₂ (correspondEach_iff.mp hargs) ha
    exact ih a ha haa
  | junction junctor juncts ih =>
    rw [Corresponds] at h
    obtain ⟨juncts', paired, -, -, hjuncts⟩ := h
    rw [rebindings, rebindingsOfAll_eq, List.flatMap_eq_nil_iff]
    intro f hf
    obtain ⟨g, -, hfg⟩ := exists_of_forall₂ (correspondEach_iff.mp hjuncts) hf
    exact ih f hf hfg
  | conditional a c iha ihc =>
    rw [Corresponds] at h
    obtain ⟨a', c', -, ha, hc⟩ := h
    rw [rebindings, iha ha, ihc hc, List.append_nil]
  | biconditional a b iha ihb | identity a b _ iha ihb =>
    rw [Corresponds] at h
    obtain ⟨a', b', -, ⟨ha, hb⟩ | ⟨ha, hb⟩⟩ := h
    · rw [rebindings, iha ha, ihb hb, List.append_nil]
    · rw [rebindings, iha ha, ihb hb, List.append_nil]
  | negation f hf ih =>
    rw [corresponds_negation hf] at h
    obtain ⟨g, -, hg⟩ := h
    exact ih hg
  | doubled f hdn ih =>
    subst hdn
    rw [corresponds_doubled] at h
    exact ih h
  | quantified q x body ih =>
    rw [Corresponds] at h
    obtain ⟨x', body', -, hc, hbody⟩ := h
    exact rebindings_quantified_eq_nil.mpr ⟨BoundPairs.not_mem_lefts hc, ih hbody⟩

/-- Pairs of negations bind nothing. -/
theorem rebindings_core (around : List Symbol) (f : Formula) :
    rebindings around f.core = rebindings around f := by
  induction f using faceInduction true with
  | negation f h _ => rw [core_negation (h rfl)]
  | doubled f _ ih => rw [core_doubled, ih, rebindings, rebindings]
  | _ => rw [core]; simp

theorem rebindings_face (around : List Symbol) (f : Formula) :
    rebindings around (face dn f) = rebindings around f := by
  cases dn with
  | false => rfl
  | true => exact rebindings_core around f

/-- **A formula corresponds to itself** under letters bound to themselves, if none of its quantifiers
binds one of them, or a letter bound around it, again. -/
theorem corresponds_self {bound : BoundPairs} (hb : bound.Matched) {f : Formula}
    (h : rebindings bound.lefts f = []) : Corresponds dn Linked bound f f := by
  induction f using faceInduction dn generalizing bound with
  | letter s => exact corresponds_letter.mpr (hb.matchLetters s)
  | predicate name args ih =>
    rw [rebindings, rebindingsOfAll_eq, List.flatMap_eq_nil_iff] at h
    exact corresponds_predicate.mpr (List.forall₂_same.mpr fun a ha => ih a ha hb (h a ha))
  | junction junctor juncts ih =>
    rw [rebindings, rebindingsOfAll_eq, List.flatMap_eq_nil_iff] at h
    refine corresponds_junction.mpr ⟨juncts, .refl _, ?_⟩
    exact List.forall₂_same.mpr fun f hf => ih f hf hb (h f hf)
  | conditional a c iha ihc =>
    rw [rebindings, List.append_eq_nil_iff] at h
    exact corresponds_conditional.mpr ⟨iha hb h.1, ihc hb h.2⟩
  | biconditional a b iha ihb =>
    rw [rebindings, List.append_eq_nil_iff] at h
    exact corresponds_biconditional.mpr (.inl ⟨iha hb h.1, ihb hb h.2⟩)
  | negation f hf ih => exact (corresponds_negation hf).mpr ⟨f, face_negation hf, ih hb h⟩
  | doubled f hdn ih =>
    subst hdn
    rw [corresponds_doubled, ← corresponds_face_right, face, if_pos rfl, core_doubled]
    exact corresponds_face_right.mpr (ih hb h)
  | quantified q x body ih =>
    obtain ⟨hx, hbody⟩ := rebindings_quantified_eq_nil.mp h
    exact corresponds_quantified.mpr ⟨hb.clashes hx, ih (hb.cons x) hbody⟩
  | identity a b equal iha ihb =>
    rw [rebindings, List.append_eq_nil_iff] at h
    exact corresponds_identity.mpr (.inl ⟨iha hb h.1, ihb hb h.2⟩)

/-- **A formula is alike a copy of itself exactly if it binds no letter again** within its scope. -/
theorem alike_self_iff {f : Formula} : Alike dn f f ↔ rebindings [] f = [] :=
  ⟨rebindings_of_corresponds, corresponds_self BoundPairs.matched_nil⟩

end Formula

end ProofSheet
