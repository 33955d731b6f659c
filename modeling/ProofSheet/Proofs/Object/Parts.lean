import Mathlib.Data.List.Basic
import ProofSheet.Object.Alike
import ProofSheet.Proofs.Formula.Parts

/-!
# Objects and their parts

* `Object.inductionOn`, `Object.faceInduction`: induction over objects, and over objects as a
  comparison sees them, with a pair of negations as a case of its own.
* `Formula.formula_laid`: a formula laid out in memory is that formula.
* `Object.formula_core`, `Object.formula_junctionOf`: what is built from objects is, as a formula, what is
  built from their formulas.
-/

namespace ProofSheet

namespace Object

/-- **Induction over objects as a comparison sees them.** Where pairs of negations are passed over, a
pair is a case of its own and any other negation negates something that is none. -/
@[elab_as_elim]
theorem faceInduction (dn : Bool) {motive : Object → Prop} (letter : ∀ s p, motive (.letter s p))
    (predicate : ∀ name args p, (∀ o ∈ args, motive o) → motive (.predicate name args p))
    (junction : ∀ junctor juncts p, (∀ o ∈ juncts, motive o) → motive (.junction junctor juncts p))
    (conditional : ∀ a c p, motive a → motive c → motive (.conditional a c p))
    (biconditional : ∀ a b p, motive a → motive b → motive (.biconditional a b p))
    (negation : ∀ o p, (dn = true → ∀ o' p', o ≠ .negation o' p') → motive o →
      motive (.negation o p))
    (doubled : ∀ o p p', dn = true → motive o → motive (.negation (.negation o p') p))
    (quantified : ∀ q x body p, motive body → motive (.quantified q x body p))
    (identity : ∀ a b equal p, motive a → motive b → motive (.identity a b equal p))
    (o : Object) : motive o := by
  -- on the size, since a pair of negations is passed over in one step
  have key : ∀ n (o : Object), sizeOf o < n → motive o := by
    intro n
    induction n with
    | zero => intro o ho; omega
    | succ n ih =>
      intro o ho
      cases o with
      | letter s p => exact letter s p
      | predicate name args p =>
        refine predicate name args p fun a ha => ih a ?_
        have := List.sizeOf_lt_of_mem ha
        simp only [Object.predicate.sizeOf_spec] at ho
        omega
      | junction junctor juncts p =>
        refine junction junctor juncts p fun a ha => ih a ?_
        have := List.sizeOf_lt_of_mem ha
        simp only [Object.junction.sizeOf_spec] at ho
        omega
      | conditional a c p =>
        simp only [Object.conditional.sizeOf_spec] at ho
        exact conditional a c p (ih a (by omega)) (ih c (by omega))
      | biconditional a b p =>
        simp only [Object.biconditional.sizeOf_spec] at ho
        exact biconditional a b p (ih a (by omega)) (ih b (by omega))
      | negation inner p =>
        simp only [Object.negation.sizeOf_spec] at ho
        by_cases h : dn = true ∧ ∃ o' p', inner = .negation o' p'
        · obtain ⟨hdn, o', p', rfl⟩ := h
          simp only [Object.negation.sizeOf_spec] at ho
          exact doubled o' p p' hdn (ih o' (by omega))
        · exact negation inner p (fun hdn o' p' ho' => h ⟨hdn, o', p', ho'⟩) (ih inner (by omega))
      | quantified q x body p =>
        simp only [Object.quantified.sizeOf_spec] at ho
        exact quantified q x body p (ih body (by omega))
      | identity a b equal p =>
        simp only [Object.identity.sizeOf_spec] at ho
        exact identity a b equal p (ih a (by omega)) (ih b (by omega))
  exact key _ o (Nat.lt_succ_self _)

/-- **Induction over objects**, with the claim at hand for each member of a list of parts. -/
@[elab_as_elim]
theorem inductionOn {motive : Object → Prop} (letter : ∀ s p, motive (.letter s p))
    (predicate : ∀ name args p, (∀ o ∈ args, motive o) → motive (.predicate name args p))
    (junction : ∀ junctor juncts p, (∀ o ∈ juncts, motive o) → motive (.junction junctor juncts p))
    (conditional : ∀ a c p, motive a → motive c → motive (.conditional a c p))
    (biconditional : ∀ a b p, motive a → motive b → motive (.biconditional a b p))
    (negation : ∀ o p, motive o → motive (.negation o p))
    (quantified : ∀ q x body p, motive body → motive (.quantified q x body p))
    (identity : ∀ a b equal p, motive a → motive b → motive (.identity a b equal p))
    (o : Object) : motive o :=
  faceInduction false letter predicate junction conditional biconditional
    (fun o p _ => negation o p) (fun _ _ _ h => absurd h (by decide)) quantified identity o

/-! ## The formula of an object -/

@[simp] theorem formulas_eq (os : List Object) : formulas os = os.map formula := by
  induction os with
  | nil => rfl
  | cons o os ih => rw [formulas, ih, List.map_cons]

@[simp] theorem formula_letter (s : Symbol) (p : Option Place) :
    (letter s p).formula = .letter s := rfl

@[simp] theorem formula_predicate (name : Symbol) (args : List Object) (p : Option Place) :
    (predicate name args p).formula = .predicate name (args.map formula) := by
  rw [formula, formulas_eq]

@[simp] theorem formula_junction (junctor : Junctor) (juncts : List Object) (p : Option Place) :
    (junction junctor juncts p).formula = .junction junctor (juncts.map formula) := by
  rw [formula, formulas_eq]

@[simp] theorem formula_conditional (a c : Object) (p : Option Place) :
    (conditional a c p).formula = .conditional a.formula c.formula := rfl

@[simp] theorem formula_biconditional (a b : Object) (p : Option Place) :
    (biconditional a b p).formula = .biconditional a.formula b.formula := rfl

@[simp] theorem formula_negation (o : Object) (p : Option Place) :
    (negation o p).formula = .negation o.formula := rfl

@[simp] theorem formula_quantified (q : Quantifier) (x : Symbol) (body : Object) (p : Option Place) :
    (quantified q x body p).formula = .quantified q x body.formula := rfl

@[simp] theorem formula_identity (a b : Object) (equal : Bool) (p : Option Place) :
    (identity a b equal p).formula = .identity a.formula b.formula equal := rfl

/-! ### Objects of a given formula -/

variable {o : Object}

theorem formula_eq_letter {s : Symbol} : o.formula = .letter s ↔ ∃ p, o = .letter s p := by
  cases o <;> simp

theorem formula_eq_predicate {name : Symbol} {fs : List Formula} :
    o.formula = .predicate name fs ↔ ∃ args p, o = .predicate name args p ∧ args.map formula = fs := by
  cases o <;> simp

theorem formula_eq_junction {junctor : Junctor} {fs : List Formula} : o.formula = .junction junctor fs ↔
    ∃ juncts p, o = .junction junctor juncts p ∧ juncts.map formula = fs := by
  cases o <;> simp

theorem formula_eq_conditional {f g : Formula} : o.formula = .conditional f g ↔
    ∃ a c p, o = .conditional a c p ∧ a.formula = f ∧ c.formula = g := by
  cases o <;> simp

theorem formula_eq_biconditional {f g : Formula} : o.formula = .biconditional f g ↔
    ∃ a b p, o = .biconditional a b p ∧ a.formula = f ∧ b.formula = g := by
  cases o <;> simp

theorem formula_eq_negation {f : Formula} :
    o.formula = .negation f ↔ ∃ inner p, o = .negation inner p ∧ inner.formula = f := by
  cases o <;> simp

theorem formula_eq_quantified {q : Quantifier} {x : Symbol} {f : Formula} :
    o.formula = .quantified q x f ↔ ∃ body p, o = .quantified q x body p ∧ body.formula = f := by
  cases o <;> simp
  grind

theorem formula_eq_identity {f g : Formula} {equal : Bool} : o.formula = .identity f g equal ↔
    ∃ a b p, o = .identity a b equal p ∧ a.formula = f ∧ b.formula = g := by
  cases o <;> simp
  grind

/-! ## The core of an object -/

@[simp] theorem core_doubled (o : Object) (p p' : Option Place) :
    core (.negation (.negation o p') p) = core o := by
  rw [core]

theorem core_negation {o : Object} {p : Option Place} (h : ∀ o' p', o ≠ .negation o' p') :
    core (.negation o p) = .negation o p := by
  rw [core]
  rintro o' p₁ p₂ ho
  simp only [Object.negation.injEq] at ho
  exact h o' p₁ ho.1

theorem core_of_ne {o : Object} (h : ∀ o' p', o ≠ .negation o' p') : o.core = o := by
  cases o with
  | negation o p => exact absurd rfl (h o p)
  | _ => rfl

theorem core_core (o : Object) : core (core o) = core o := by
  induction o using faceInduction true with
  | negation o p h _ => rw [core_negation (h rfl), core_negation (h rfl)]
  | doubled o p p' _ ih => rw [core_doubled]; exact ih
  | _ => simp [core]

/-- No pair of negations stands at the head of a core. -/
theorem core_ne_doubled (o o' : Object) (p p' : Option Place) :
    core o ≠ .negation (.negation o' p') p := by
  induction o using faceInduction true with
  | negation o p h _ =>
    rw [core_negation (h rfl)]
    simp only [ne_eq, Object.negation.injEq, not_and]
    exact fun heq => absurd heq (h rfl _ _)
  | doubled o _ _ _ ih => rw [core_doubled]; exact ih
  | _ => simp [core]

/-- **The core of an object is the core of its formula.** -/
@[simp] theorem formula_core (o : Object) : o.core.formula = o.formula.core := by
  induction o using faceInduction true with
  | negation o p h _ =>
    rw [core_negation (h rfl), formula_negation]
    cases o with
    | negation o' p' => exact absurd rfl (h rfl o' p')
    | _ => simp [Formula.core]
  | doubled o p p' _ ih => rw [core_doubled, ih, formula_negation, formula_negation, Formula.core]
  | _ => simp [core, Formula.core]

@[simp] theorem kind_letter (s : Symbol) (p : Option Place) : (letter s p).kind = .letter := rfl

@[simp] theorem kind_predicate (name : Symbol) (args : List Object) (p : Option Place) :
    (predicate name args p).kind = .predicate := rfl

@[simp] theorem kind_junction (junctor : Junctor) (juncts : List Object) (p : Option Place) :
    (junction junctor juncts p).kind = .junction := rfl

@[simp] theorem kind_conditional (a c : Object) (p : Option Place) :
    (conditional a c p).kind = .conditional := rfl

@[simp] theorem kind_biconditional (a b : Object) (p : Option Place) :
    (biconditional a b p).kind = .biconditional := rfl

@[simp] theorem kind_negation (o : Object) (p : Option Place) : (negation o p).kind = .negation := rfl

@[simp] theorem kind_quantified (q : Quantifier) (x : Symbol) (body : Object) (p : Option Place) :
    (quantified q x body p).kind = .quantified := rfl

@[simp] theorem kind_identity (a b : Object) (equal : Bool) (p : Option Place) :
    (identity a b equal p).kind = .identity := rfl

/-! ## The face of an object -/

variable {dn : Bool}

theorem face_face (dn : Bool) (o : Object) : face dn (face dn o) = face dn o := by
  cases dn with
  | false => rfl
  | true => exact core_core o

/-- The face of an object is the face of its formula. -/
theorem formula_face (dn : Bool) (o : Object) : (face dn o).formula = Formula.face dn o.formula := by
  cases dn with
  | false => rfl
  | true => exact formula_core o

/-- The face of a negation that is not the outer one of a pair. -/
theorem face_negation {o : Object} {p : Option Place} (h : dn = true → ∀ o' p', o ≠ .negation o' p') :
    face dn (.negation o p) = .negation o p := by
  cases dn with
  | false => rfl
  | true => exact core_negation (h rfl)

theorem face_of_ne {o : Object} (h : ∀ o' p', o ≠ .negation o' p') : face dn o = o := by
  cases dn with
  | false => rfl
  | true => exact core_of_ne h

@[simp] theorem face_letter (s : Symbol) (p : Option Place) : face dn (.letter s p) = .letter s p :=
  face_of_ne (by simp)

@[simp] theorem face_predicate (name : Symbol) (args : List Object) (p : Option Place) :
    face dn (.predicate name args p) = .predicate name args p :=
  face_of_ne (by simp)

@[simp] theorem face_junction (junctor : Junctor) (juncts : List Object) (p : Option Place) :
    face dn (.junction junctor juncts p) = .junction junctor juncts p :=
  face_of_ne (by simp)

@[simp] theorem face_conditional (a c : Object) (p : Option Place) :
    face dn (.conditional a c p) = .conditional a c p :=
  face_of_ne (by simp)

@[simp] theorem face_biconditional (a b : Object) (p : Option Place) :
    face dn (.biconditional a b p) = .biconditional a b p :=
  face_of_ne (by simp)

@[simp] theorem face_quantified (q : Quantifier) (x : Symbol) (body : Object) (p : Option Place) :
    face dn (.quantified q x body p) = .quantified q x body p :=
  face_of_ne (by simp)

@[simp] theorem face_identity (a b : Object) (equal : Bool) (p : Option Place) :
    face dn (.identity a b equal p) = .identity a b equal p :=
  face_of_ne (by simp)

/-! ## Junctions -/

theorem formula_junctsUnder (junctor : Junctor) (o : Object) :
    (junctsUnder junctor o).map formula = Formula.junctsUnder junctor o.formula := by
  cases o with
  | junction inner juncts p =>
    simp only [junctsUnder, formula_junction, Formula.junctsUnder]
    split <;> simp
  | _ => simp [junctsUnder, Formula.junctsUnder]

/-- **A junction built from objects is the junction built from their formulas.** -/
@[simp] theorem formula_junctionOf (junctor : Junctor) (parts : List Object) :
    (junctionOf junctor parts).formula = Formula.junctionOf junctor (parts.map formula) := by
  simp only [junctionOf, formula_junction, Formula.junctionOf, Formula.junction.injEq, true_and]
  rw [List.map_flatMap, List.flatMap_map]
  exact List.flatMap_congr fun o _ => formula_junctsUnder junctor o

end Object

/-! ## Layout -/

namespace Formula

mutual

/-- **A formula laid out in memory is that formula.** -/
@[simp] theorem formula_laid : ∀ (layout : Place → Option Place) (f : Formula),
    (f.laid layout).formula = f
  | _, .letter _ => rfl
  | layout, .predicate name args => by
    rw [laid, Object.formula_predicate, formula_laidFrom layout 0 args]
  | layout, .junction junctor juncts => by
    rw [laid, Object.formula_junction, formula_laidFrom layout 0 juncts]
  | _, .conditional a c => by
    rw [laid, Object.formula_conditional, formula_laid _ a, formula_laid _ c]
  | _, .biconditional a b => by
    rw [laid, Object.formula_biconditional, formula_laid _ a, formula_laid _ b]
  | _, .negation inner => by rw [laid, Object.formula_negation, formula_laid _ inner]
  | _, .quantified q x body => by rw [laid, Object.formula_quantified, formula_laid _ body]
  | _, .identity a b equal => by
    rw [laid, Object.formula_identity, formula_laid _ a, formula_laid _ b]

theorem formula_laidFrom : ∀ (layout : Place → Option Place) (number : Nat) (fs : List Formula),
    (laidFrom layout number fs).map Object.formula = fs
  | _, _, [] => rfl
  | layout, number, f :: fs => by
    rw [laidFrom, List.map_cons, formula_laid _ f, formula_laidFrom layout (number + 1) fs]

end

@[simp] theorem formula_anew (f : Formula) : f.anew.formula = f :=
  formula_laid _ f

end Formula

end ProofSheet
