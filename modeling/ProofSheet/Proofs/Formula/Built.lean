import Mathlib.Data.List.Nodup
import ProofSheet.Proofs.Formula.Rebinding
import ProofSheet.Proofs.Formula.Replacement
import ProofSheet.Proofs.Formula.Substitution

/-!
# Formulas as they are built

The constructors flatten junctions, so in a formula built by them no junct is a junction of the same
kind. Such a formula keeps its shape when letters are put for letters.

* `Formula.Built`: the formulas that the constructors build.
* `Formula.Built.of_mem_juncts`: **the juncts of what is built are built**, and of another kind.
* `Formula.withLetters`: letters put for letters, everywhere and in binders too.
* `Formula.Built.withLetters_junction`: **a junction with other letters is the junction of its juncts
  with other letters**, in their places.
* `Formula.rebindings_quantify`: a run of quantifiers that binds no letter again.
-/

namespace ProofSheet.Formula

/-- **The formulas that the constructors build**, part by part. -/
inductive Built : Formula → Prop
  | letter (s : Symbol) : Built (.letter s)
  | predicate {name : Symbol} {args : List Formula} (h : ∀ arg ∈ args, Built arg) :
      Built (.predicate name args)
  | junction {junctor : Junctor} {parts : List Formula} (h : ∀ part ∈ parts, Built part) :
      Built (junctionOf junctor parts)
  | conditional {a c : Formula} (ha : Built a) (hc : Built c) : Built (.conditional a c)
  | biconditional {a b : Formula} (ha : Built a) (hb : Built b) : Built (.biconditional a b)
  | negation {f : Formula} (h : Built f) : Built (.negation f)
  | quantified {q : Quantifier} {x : Symbol} {body : Formula} (h : Built body) :
      Built (.quantified q x body)
  | identity {a b : Formula} {equal : Bool} (ha : Built a) (hb : Built b) :
      Built (.identity a b equal)

/-- **The juncts of what is built are built**, and none is a junction of the same kind. -/
theorem Built.of_mem_juncts {junctor : Junctor} {juncts : List Formula}
    (h : Built (.junction junctor juncts)) :
    ∀ junct ∈ juncts, Built junct ∧ ∀ inner, junct ≠ .junction junctor inner := by
  -- on how the junction was built: a junct is a part, or a junct of a part of the same kind
  generalize hf : Formula.junction junctor juncts = f at h
  induction h generalizing juncts with
  | @junction junctor' parts hparts ih =>
    obtain ⟨rfl, rfl⟩ := Formula.junction.inj hf
    intro junct hjunct
    obtain ⟨part, hpart, hjunct⟩ := List.mem_flatMap.mp hjunct
    by_cases hkind : ∃ inner, part = .junction junctor inner
    · obtain ⟨inner, rfl⟩ := hkind
      rw [junctsUnder, if_pos rfl] at hjunct
      exact ih _ hpart rfl junct hjunct
    · have hother : ∀ inner, part ≠ .junction junctor inner := fun inner heq => hkind ⟨inner, heq⟩
      rw [junctsUnder_eq_singleton hother, List.mem_singleton] at hjunct
      subst hjunct
      exact ⟨hparts _ hpart, hother⟩
  | _ => cases hf

/-- What stands under a run of quantifiers is built if the whole is. -/
theorem Built.of_quantify {bindings : List (Quantifier × Symbol)} {body : Formula}
    (h : Built (quantify bindings body)) : Built body := by
  induction bindings with
  | nil => exact h
  | cons binding bindings ih =>
    cases h with
    | quantified h => exact ih h

/-! ## Letters for letters -/

section Letters

variable {targets letters : List Symbol}

/-- Letters put for the targets, everywhere at once, in binders too. -/
def withLetters (targets letters : List Symbol) (f : Formula) : Formula :=
  f.substitute targets (letters.map fun a => some (.letter a))

theorem replacementFor_letters (s : Symbol) :
    replacementFor targets (letters.map fun a => some (Formula.letter a)) s =
      ((targets.idxOf? s).bind fun k => letters[k]?).map Formula.letter := by
  refine Option.ext fun e => ?_
  rw [replacementFor_eq_some, Option.map_eq_some_iff]
  simp only [Option.bind_eq_some_iff, List.getElem?_map, Option.map_eq_some_iff, Option.some.injEq]
  grind

theorem withLetters_letter (s : Symbol) :
    withLetters targets letters (.letter s) = .letter (assigned targets letters s) := by
  rw [withLetters, substitute, replacementFor_letters, assigned]
  cases (targets.idxOf? s).bind fun k => letters[k]? <;> rfl

theorem withLetters_predicate (name : Symbol) (args : List Formula) :
    withLetters targets letters (.predicate name args) =
      .predicate name (args.map (withLetters targets letters)) := by
  rw [withLetters, substitute, substituteAll_eq]
  rfl

theorem withLetters_quantified (q : Quantifier) (x : Symbol) (body : Formula) :
    withLetters targets letters (.quantified q x body) =
      .quantified q (assigned targets letters x) (withLetters targets letters body) := by
  have hbinder : rebind targets (letters.map fun a => some (.letter a)) x =
      assigned targets letters x := by
    rw [rebind, replacementFor_letters, assigned]
    cases (targets.idxOf? x).bind fun k => letters[k]? <;> rfl
  rw [withLetters, substitute, hbinder]
  rfl

/-- Only a junction becomes a junction, of the same kind. -/
theorem exists_junction_of_withLetters {junctor : Junctor} {f : Formula} {inner : List Formula}
    (h : withLetters targets letters f = .junction junctor inner) :
    ∃ juncts, f = .junction junctor juncts := by
  cases f with
  | letter s => rw [withLetters_letter] at h; cases h
  | junction junctor' juncts =>
    obtain ⟨rfl, -⟩ := Formula.junction.inj h
    exact ⟨juncts, rfl⟩
  | _ => cases h

/-- **A junction with other letters is the junction of its juncts with other letters**, each in its
place. -/
theorem Built.withLetters_junction {junctor : Junctor} {juncts : List Formula}
    (h : Built (.junction junctor juncts)) :
    withLetters targets letters (.junction junctor juncts) =
      .junction junctor (juncts.map (withLetters targets letters)) := by
  have hkind : ∀ inner, .junction junctor inner ∉ juncts.map (withLetters targets letters) := by
    intro inner hmem
    obtain ⟨junct, hjunct, heq⟩ := List.mem_map.mp hmem
    obtain ⟨inner', hinner⟩ := exists_junction_of_withLetters heq
    exact (h.of_mem_juncts junct hjunct).2 inner' hinner
  have hparts : substituteAll targets (letters.map fun a => some (.letter a)) juncts =
      juncts.map (withLetters targets letters) := substituteAll_eq juncts
  rw [withLetters, substitute, hparts, junctionOf_eq hkind]

theorem assigned_of_not_mem {s : Symbol} (h : s ∉ targets) : assigned targets letters s = s := by
  rw [assigned, List.idxOf?_eq_none_iff.mpr h]
  rfl

theorem idxOf?_eq_some_iff_getElem? (hnodup : targets.Nodup) {k : Nat} {x : Symbol} :
    targets.idxOf? x = some k ↔ targets[k]? = some x := by
  rw [List.idxOf?_eq_some_iff, List.getElem?_eq_some_iff]
  constructor
  · rintro ⟨hk, heq, -⟩
    exact ⟨hk, by simpa using heq⟩
  · rintro ⟨hk, rfl⟩
    refine ⟨hk, by simp, fun j hj heq => ?_⟩
    have hplace : j = k := (List.Nodup.getElem_inj_iff hnodup).mp (by simpa using heq)
    omega

/-- The letter in the place of a target replaces it. -/
theorem assigned_eq (hnodup : targets.Nodup) {k : Nat} {x a : Symbol} (hx : targets[k]? = some x)
    (ha : letters[k]? = some a) : assigned targets letters x = a := by
  rw [assigned, (idxOf?_eq_some_iff_getElem? hnodup).mpr hx, Option.bind_some, ha]
  rfl

end Letters

/-! ## Runs of quantifiers -/

/-- **A run that binds no letter again** has letters all different, none of them bound around it or
again inside. -/
theorem rebindings_quantify {q : Quantifier} {xs around : List Symbol} {body : Formula}
    (h : rebindings around (quantify (xs.map fun x => (q, x)) body) = []) :
    xs.Nodup ∧ (∀ x ∈ xs, x ∉ around) ∧ rebindings (xs.reverse ++ around) body = [] := by
  induction xs generalizing around with
  | nil => exact ⟨List.nodup_nil, by simp, h⟩
  | cons x xs ih =>
    obtain ⟨hx, hrest⟩ := rebindings_quantified_eq_nil.mp h
    obtain ⟨hnodup, hnew, hbody⟩ := ih hrest
    refine ⟨List.nodup_cons.mpr ⟨fun hmem => hnew x hmem List.mem_cons_self, hnodup⟩, ?_, ?_⟩
    · refine List.forall_mem_cons.mpr ⟨hx, fun y hy hmem => ?_⟩
      exact hnew y hy (List.mem_cons_of_mem x hmem)
    · rw [List.reverse_cons, List.append_assoc]
      exact hbody

end ProofSheet.Formula
