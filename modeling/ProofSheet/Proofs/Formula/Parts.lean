import ProofSheet.Formula.Basic

/-!
# Formulas and their parts

* `Formula.inductionOn`, `Formula.faceInduction`: induction over formulas, and over formulas as a
  comparison sees them, with a pair of negations as a case of its own.
* `Formula.face`: what counts of a formula where pairs of negations at its head are passed over.
* `Formula.junctionOf_eq`: a junction without juncts of its own kind is built as it is.
-/

namespace ProofSheet

namespace Formula

/-- **Induction over formulas as a comparison sees them.** Where pairs of negations are passed over, a
pair is a case of its own and any other negation negates something that is none. -/
@[elab_as_elim]
theorem faceInduction (dn : Bool) {motive : Formula → Prop} (letter : ∀ s, motive (.letter s))
    (predicate : ∀ name args, (∀ f ∈ args, motive f) → motive (.predicate name args))
    (junction : ∀ junctor juncts, (∀ f ∈ juncts, motive f) → motive (.junction junctor juncts))
    (conditional : ∀ a c, motive a → motive c → motive (.conditional a c))
    (biconditional : ∀ a b, motive a → motive b → motive (.biconditional a b))
    (negation : ∀ f, (dn = true → ∀ g, f ≠ .negation g) → motive f → motive (.negation f))
    (doubled : ∀ f, dn = true → motive f → motive (.negation (.negation f)))
    (quantified : ∀ q x body, motive body → motive (.quantified q x body))
    (identity : ∀ a b equal, motive a → motive b → motive (.identity a b equal))
    (f : Formula) : motive f := by
  -- on the size, since a pair of negations is passed over in one step
  have key : ∀ n (f : Formula), sizeOf f < n → motive f := by
    intro n
    induction n with
    | zero => intro f hf; omega
    | succ n ih =>
      intro f hf
      cases f with
      | letter s => exact letter s
      | predicate name args =>
        refine predicate name args fun g hg => ih g ?_
        have := List.sizeOf_lt_of_mem hg
        simp only [Formula.predicate.sizeOf_spec] at hf
        omega
      | junction junctor juncts =>
        refine junction junctor juncts fun g hg => ih g ?_
        have := List.sizeOf_lt_of_mem hg
        simp only [Formula.junction.sizeOf_spec] at hf
        omega
      | conditional a c =>
        simp only [Formula.conditional.sizeOf_spec] at hf
        exact conditional a c (ih a (by omega)) (ih c (by omega))
      | biconditional a b =>
        simp only [Formula.biconditional.sizeOf_spec] at hf
        exact biconditional a b (ih a (by omega)) (ih b (by omega))
      | negation inner =>
        simp only [Formula.negation.sizeOf_spec] at hf
        by_cases h : dn = true ∧ ∃ g, inner = .negation g
        · obtain ⟨hdn, g, rfl⟩ := h
          simp only [Formula.negation.sizeOf_spec] at hf
          exact doubled g hdn (ih g (by omega))
        · exact negation inner (fun hdn g hg => h ⟨hdn, g, hg⟩) (ih inner (by omega))
      | quantified q x body =>
        simp only [Formula.quantified.sizeOf_spec] at hf
        exact quantified q x body (ih body (by omega))
      | identity a b equal =>
        simp only [Formula.identity.sizeOf_spec] at hf
        exact identity a b equal (ih a (by omega)) (ih b (by omega))
  exact key _ f (Nat.lt_succ_self _)

/-- **Induction over formulas**, with the claim at hand for each member of a list of parts. -/
@[elab_as_elim]
theorem inductionOn {motive : Formula → Prop} (letter : ∀ s, motive (.letter s))
    (predicate : ∀ name args, (∀ f ∈ args, motive f) → motive (.predicate name args))
    (junction : ∀ junctor juncts, (∀ f ∈ juncts, motive f) → motive (.junction junctor juncts))
    (conditional : ∀ a c, motive a → motive c → motive (.conditional a c))
    (biconditional : ∀ a b, motive a → motive b → motive (.biconditional a b))
    (negation : ∀ f, motive f → motive (.negation f))
    (quantified : ∀ q x body, motive body → motive (.quantified q x body))
    (identity : ∀ a b equal, motive a → motive b → motive (.identity a b equal))
    (f : Formula) : motive f :=
  faceInduction false letter predicate junction conditional biconditional
    (fun f _ => negation f) (fun _ h => absurd h (by decide)) quantified identity f

/-! ## The core of a formula -/

@[simp] theorem core_doubled (f : Formula) : core (.negation (.negation f)) = core f := by
  rw [core]

theorem core_negation {f : Formula} (h : ∀ g, f ≠ .negation g) :
    core (.negation f) = .negation f := by
  rw [core]
  rintro g hg
  simp only [Formula.negation.injEq] at hg
  exact h g hg

theorem core_core (f : Formula) : core (core f) = core f := by
  induction f using faceInduction true with
  | negation f h _ => rw [core_negation (h rfl), core_negation (h rfl)]
  | doubled f _ ih => rw [core_doubled]; exact ih
  | _ => simp [core]

/-- No pair of negations stands at the head of a core. -/
theorem core_ne_doubled (f g : Formula) : core f ≠ .negation (.negation g) := by
  induction f using faceInduction true with
  | negation f h _ =>
    rw [core_negation (h rfl)]
    simp only [ne_eq, Formula.negation.injEq]
    exact h rfl g
  | doubled f _ ih => rw [core_doubled]; exact ih
  | _ => simp [core]

/-- The part of a formula that counts. -/
def face (dn : Bool) (f : Formula) : Formula :=
  if dn then f.core else f

theorem face_face (dn : Bool) (f : Formula) : face dn (face dn f) = face dn f := by
  cases dn with
  | false => rfl
  | true => exact core_core f

/-- The face of a negation that is not the outer one of a pair. -/
theorem face_negation {dn : Bool} {f : Formula} (h : dn = true → ∀ g, f ≠ .negation g) :
    face dn (.negation f) = .negation f := by
  cases dn with
  | false => rfl
  | true => exact core_negation (h rfl)

theorem face_of_ne {dn : Bool} {f : Formula} (h : ∀ g, f ≠ .negation g) : face dn f = f := by
  cases dn with
  | false => rfl
  | true =>
    rw [face, if_pos rfl, core]
    exact fun g hg => h _ hg

/-- The inner negation of a face's negation is none itself, where pairs are passed over. -/
theorem ne_negation_of_face {dn : Bool} {r g : Formula} (h : face dn r = .negation g) :
    dn = true → ∀ k, g ≠ .negation k := by
  rintro rfl k rfl
  exact core_ne_doubled r k h

/-! ## Junctions -/

theorem junctsUnder_junction (junctor : Junctor) (fs : List Formula) :
    junctsUnder junctor (.junction junctor fs) = fs := if_pos rfl

/-- A formula that is no junction of a kind contributes itself to such a junction. -/
theorem junctsUnder_eq_singleton {junctor : Junctor} {f : Formula}
    (h : ∀ inner, f ≠ .junction junctor inner) : junctsUnder junctor f = [f] := by
  cases f with
  | junction junctor' juncts =>
    have hne : junctor' ≠ junctor := fun heq => h juncts (by rw [heq])
    rw [junctsUnder, if_neg hne]
  | _ => rfl

/-- A junction without juncts of its own kind is built as it is. -/
theorem junctionOf_eq {junctor : Junctor} {juncts : List Formula}
    (h : ∀ inner, .junction junctor inner ∉ juncts) :
    junctionOf junctor juncts = .junction junctor juncts := by
  have hflat : juncts.flatMap (junctsUnder junctor) = juncts := by
    induction juncts with
    | nil => rfl
    | cons junct juncts ih =>
      rw [List.flatMap_cons, junctsUnder_eq_singleton, ih, List.singleton_append]
      · exact fun inner hmem => h inner (List.mem_cons_of_mem _ hmem)
      · exact fun inner heq => h inner (heq ▸ List.mem_cons_self)
  rw [junctionOf, hflat]

end Formula

end ProofSheet
