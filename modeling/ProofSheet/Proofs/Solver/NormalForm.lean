import ProofSheet.Proofs.Draft.NormalForm
import ProofSheet.Proofs.Solver.Uses

/-!
# Normal form is kept

A junction is flattened by one level only as it is built, so it is in normal form if its parts are. Each
way to build formulas is given parts in normal form: those of a draft are accepted before the whole, and
what a rule of the solver fills its letters with are parts of formulas that are known, stripped of pairs
of negations or with a negation supplied.

* `Formula.junctionOf_bracketed`: **bracketing does not matter**, be the parts in normal form or not.
* `Formula.isNormal_substitute`: what stands for letters may be put into a formula in normal form.
* `Solver.passes_isNormal`, `Solver.Gives.isNormal`: the parts that templates take are in normal form, and
  so is what one use of a rule gives.
* `Solver.Reached.isNormal_discover`: so is **all that any round of a search discovers**.
* `Formula.normalForm_kept`: the results for drafts, substitution and the solver, together.
-/

namespace ProofSheet

namespace Formula

/-! ## Building junctions -/

/-- **A part that is built as a junction of the same kind contributes what its own parts would.** -/
theorem junctionOf_bracketed (junctor : Junctor) (xs ys zs : List Formula) :
    junctionOf junctor (xs ++ [junctionOf junctor ys] ++ zs) =
      junctionOf junctor (xs ++ ys ++ zs) := by
  have hinner : junctsUnder junctor (junctionOf junctor ys) = ys.flatMap (junctsUnder junctor) :=
    junctsUnder_junction junctor _
  have hparts : (xs ++ [junctionOf junctor ys] ++ zs).flatMap (junctsUnder junctor) =
      (xs ++ ys ++ zs).flatMap (junctsUnder junctor) := by
    simp only [List.flatMap_append, List.flatMap_singleton, hinner]
  exact congrArg (junction junctor) hparts

/-! ## Substitution -/

variable {source : List Symbol} {target : List (Option Formula)} {f : Formula}

/-- **Normal formulas may be put for letters of a normal formula.** A junction that is put into a junction
of its kind is flattened, since that one is built anew. -/
theorem isNormal_substitute (htarget : ∀ e, some e ∈ target → e.IsNormal) (hf : f.IsNormal) :
    (substitute source target f).IsNormal := by
  induction f using inductionOn with
  | letter s =>
    rw [substitute]
    cases he : replacementFor source target s with
    | none => trivial
    | some e =>
      obtain ⟨k, -, hk⟩ := replacementFor_eq_some.mp he
      exact htarget e (List.mem_of_getElem? hk)
  | predicate name args ih =>
    rw [IsNormal, allNormal_iff] at hf
    rw [substitute, substituteAll_eq, IsNormal, allNormal_iff, List.forall_mem_map]
    exact fun g hg => ih g hg (hf g hg)
  | junction junctor juncts ih =>
    obtain ⟨hne, -, hjuncts⟩ := hf
    rw [substitute, substituteAll_eq]
    refine isNormal_junctionOf (by simpa using hne) (List.forall_mem_map.mpr fun g hg => ?_)
    exact ih g hg (allNormal_iff.mp hjuncts g hg)
  | conditional a b iha ihb | biconditional a b iha ihb | identity a b _ iha ihb =>
    exact ⟨iha hf.1, ihb hf.2⟩
  | negation f ih => exact ih hf
  | quantified q x body ih => exact ih hf

/-- So may objects that are normal formulas. -/
theorem isNormal_substituteObjects {target : List (Option Object)}
    (htarget : ∀ e, some e ∈ target → e.formula.IsNormal) (hf : f.IsNormal) :
    (Object.substitute source target f).formula.IsNormal := by
  rw [Object.formula_substitute]
  refine isNormal_substitute (fun e he => ?_) hf
  obtain ⟨o, ho, rfl⟩ : ∃ o, some o ∈ target ∧ o.formula = e := by simpa using he
  exact htarget o ho

theorem isNormal_core (hf : f.IsNormal) : f.core.IsNormal := by
  induction f using faceInduction true with
  | negation f h _ => rwa [core_negation (h rfl)]
  | doubled f _ ih =>
    rw [core_doubled]
    exact ih hf
  | _ => exact hf

end Formula

/-! ## Rules of the solver -/

namespace Solver

open Formula (IsNormal)

variable {rule : Inference} {f : Object} {premises explored frontier : List Object}

/-- **Normal form passes to the parts that templates take.** -/
theorem passes_isNormal : PassesToParts fun f => f.formula.IsNormal where
  core h := by
    rw [Object.formula_core]
    exact Formula.isNormal_core h
  opposite {f} h := by
    cases f with
    | negation f => exact h
    | _ => exact h
  juncts h := by
    rw [Object.formula_junction, IsNormal, Formula.allNormal_iff, List.forall_mem_map] at h
    exact h.2.2
  sides h := h

/-- The consequents of the rules are in normal form. -/
theorem isNormal_consequent (hrule : rule ∈ table) : rule.consequent.IsNormal := by
  have hall : ∀ rule ∈ table, rule.consequent.IsNormal := by
    simp [table, Schema.a, Schema.b, Schema.c, Schema.neg, Schema.conj, Schema.disj, Schema.cond,
      IsNormal, Formula.AllNormal]
  exact hall rule hrule

/-- **One use of a rule gives a normal formula**, if it takes normal formulas. -/
theorem Gives.isNormal (hrule : rule ∈ table) {used : List Object} (h : Gives rule used f)
    (hused : ∀ x ∈ used, x.formula.IsNormal) : f.formula.IsNormal := by
  obtain ⟨m, -, hm, rfl⟩ := h.exists_contents hrule passes_isNormal hused
  refine Formula.isNormal_substituteObjects (fun e he => ?_) (isNormal_consequent hrule)
  obtain ⟨k, hk⟩ := List.mem_iff_getElem?.mp he
  exact hm k e hk

/-- **From normal premises, each round of a search discovers normal formulas only**, whichever rules it
tries. -/
theorem Reached.isNormal_discover (h : Reached premises explored frontier)
    (hpremises : ∀ p ∈ premises, p.formula.IsNormal) {rules : List Inference}
    (hrules : rules ⊆ table) : ∀ f ∈ discover rules frontier explored, f.formula.IsNormal := by
  have hgives : ∀ rule ∈ table, ∀ used f, Gives rule used f → (∀ x ∈ used, x.formula.IsNormal) →
      f.formula.IsNormal := fun _ hrule _ _ h => h.isNormal hrule
  exact forall_discover hgives hrules (h.forall_of_gives hgives hpremises)

end Solver

/-! ## Every way to build formulas -/

namespace Formula

open Solver (Reached discover table)

/-- **Every way to build formulas keeps them in normal form.** A formula that is accepted from a draft is
normal; so is a junction that is built of normal formulas, of which there are some; so is what comes of
putting normal formulas for letters of a normal formula. From normal premises each round of the solver
discovers normal formulas only, whichever rules of the table it tries. And a junction is the same tree
however its parts are bracketed. -/
theorem normalForm_kept :
    (∀ (draft : Draft.Formula) (f : Formula), draft.accept = .ok f → f.IsNormal) ∧
    (∀ (junctor : Junctor) (parts : List Formula), parts ≠ [] → (∀ part ∈ parts, part.IsNormal) →
      (junctionOf junctor parts).IsNormal) ∧
    (∀ (source : List Symbol) (target : List (Option Formula)) (f : Formula),
      (∀ e, some e ∈ target → e.IsNormal) → f.IsNormal → (substitute source target f).IsNormal) ∧
    (∀ (source : List Symbol) (target : List (Option Object)) (f : Formula),
      (∀ e, some e ∈ target → e.formula.IsNormal) → f.IsNormal →
        (Object.substitute source target f).formula.IsNormal) ∧
    (∀ premises : List Object, (∀ p ∈ premises, p.formula.IsNormal) →
      ∀ explored frontier, Reached premises explored frontier →
        ∀ rules, rules ⊆ table → ∀ f ∈ discover rules frontier explored, f.formula.IsNormal) ∧
    ∀ (junctor : Junctor) (xs ys zs : List Formula),
      junctionOf junctor (xs ++ [junctionOf junctor ys] ++ zs) =
        junctionOf junctor (xs ++ ys ++ zs) := by
  refine ⟨fun draft f h => Draft.isNormal_of_accept h, fun junctor parts => isNormal_junctionOf,
    fun source target f htarget hf => isNormal_substitute htarget hf,
    fun source target f htarget hf => isNormal_substituteObjects htarget hf, ?_,
    junctionOf_bracketed⟩
  intro premises hpremises explored frontier h rules hrules
  exact h.isNormal_discover hpremises hrules

/-- `(A ∧ B) ∧ C` is accepted as one conjunction of three parts. `A ∧ B` put for `a` in `a ∧ ¬a` is
flattened where it becomes a part, and stands as it is under the negation. And from `¬¬(A ∧ B)` and `C`
the first round discovers the conjunction of the three again, its first part stripped of the negations. -/
theorem normalForm_kept_flattened :
    let a := Formula.letter 'A'
    let b := Formula.letter 'B'
    let c := Formula.letter 'C'
    let ab := Formula.junction .conjunction [a, b]
    let abc := Formula.junction .conjunction [a, b, c]
    let template := Formula.junction .conjunction [.letter 'a', .negation (.letter 'a')]
    let premises := [Formula.negation (.negation ab), c].map Formula.anew
    Draft.Formula.accept (.junction true [.junction true [.letter "A", .letter "B"], .letter "C"]) =
        .ok abc ∧
      substitute ['a'] [some ab] template = .junction .conjunction [a, b, .negation ab] ∧
      abc.anew ∈ discover table premises [] ∧
      abc.IsNormal ∧
      (substitute ['a'] [some ab] template).IsNormal ∧
      ∀ f ∈ discover table premises [], f.formula.IsNormal := by
  intro a b c ab abc template premises
  have hab : ab.IsNormal := by simp [ab, a, b, IsNormal, AllNormal]
  have haccept : Draft.Formula.accept
      (.junction true [.junction true [.letter "A", .letter "B"], .letter "C"]) = .ok abc := by
    rfl
  obtain ⟨hdraft, -, hsubstitute, -, hsolver, -⟩ := normalForm_kept
  refine ⟨haccept, by decide, by decide, hdraft _ abc haccept, ?_, ?_⟩
  · exact hsubstitute ['a'] [some ab] template (by simp [hab])
      (by simp [template, IsNormal, AllNormal])
  · have hpremises : ∀ p ∈ premises, p.formula.IsNormal := by simp [premises, c, IsNormal, hab]
    exact hsolver premises hpremises [] premises .start table (List.Subset.refl table)

end Formula

end ProofSheet
