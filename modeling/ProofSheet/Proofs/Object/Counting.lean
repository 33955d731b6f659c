import ProofSheet.Proofs.Formula.Binders
import ProofSheet.Proofs.Object.Sharing

/-!
# Counting the parts of objects

A comparison passes over pairs of negations and changes the order of juncts and of sides. So it keeps
the number of parts of every other kind.

* `Object.occurrences_of_paired`: **paired objects have as many parts of each kind**, negations aside.
* `Object.not_alike_consequent`, `Object.not_alike_instance`: a conditional is not alike its own
  consequent, nor an instance its own quantification.
-/

namespace ProofSheet.Object

variable {kind : Formula.Kind} {dn : Bool}

open Formula (occurrences occurrencesIn occurrencesIn_perm)

/-- Outer pairs of negations do not count. -/
theorem occurrences_of_face (hkind : kind ≠ .negation) {o o' : Object} (h : face dn o = o') :
    occurrences kind o.formula = occurrences kind o'.formula := by
  rw [← h, formula_face, Formula.occurrences_face dn hkind]

/-- Objects that have as many parts one by one have as many together. -/
theorem occurrencesIn_of_forall₂ {ls rs : List Object}
    (h : List.Forall₂ (fun l r => occurrences kind l.formula = occurrences kind r.formula) ls rs) :
    occurrencesIn kind (ls.map formula) = occurrencesIn kind (rs.map formula) := by
  induction h with
  | nil => rfl
  | cons hhead _ ih => rw [List.map_cons, List.map_cons, occurrencesIn, occurrencesIn, hhead, ih]

/-- **Paired objects have as many parts of each kind**, negations aside. -/
theorem occurrences_of_paired (hkind : kind ≠ .negation) {bound : BoundPairs} {l r : Object}
    (h : Paired dn bound l r) : occurrences kind l.formula = occurrences kind r.formula := by
  -- the counts of the faces, part by part
  induction h with
  | one => rfl
  | letter hl hr => rw [occurrences_of_face hkind hl, occurrences_of_face hkind hr]; rfl
  | predicate hl hr hlen _ ih =>
    have hargs := occurrencesIn_of_forall₂ (forall₂_iff_fin.mpr ⟨hlen, ih⟩)
    rw [occurrences_of_face hkind hl, occurrences_of_face hkind hr, formula_predicate,
      formula_predicate, occurrences, occurrences, hargs]
  | junction hl hr σ _ ih =>
    obtain ⟨paired, hperm, hpairs⟩ := (exists_perm_iff_exists_equiv
      (R := fun l r => occurrences kind l.formula = occurrences kind r.formula)).mpr ⟨σ, ih⟩
    rw [occurrences_of_face hkind hl, occurrences_of_face hkind hr, formula_junction,
      formula_junction, occurrences, occurrences, occurrencesIn_of_forall₂ hpairs,
      occurrencesIn_perm (hperm.map formula)]
  | conditional hl hr _ _ iha ihb | biconditional hl hr _ _ iha ihb | identity hl hr _ _ iha ihb =>
    rw [occurrences_of_face hkind hl, occurrences_of_face hkind hr]
    simp only [formula_conditional, formula_biconditional, formula_identity, occurrences, iha, ihb]
  | biconditionalCrossed hl hr _ _ iha ihb | identityCrossed hl hr _ _ iha ihb =>
    rw [occurrences_of_face hkind hl, occurrences_of_face hkind hr]
    simp only [formula_biconditional, formula_identity, occurrences, iha, ihb]
    omega
  | negation hl hr _ ih =>
    rw [occurrences_of_face hkind hl, occurrences_of_face hkind hr, formula_negation,
      formula_negation, occurrences, occurrences, ih]
  | quantified hl hr _ _ ih =>
    rw [occurrences_of_face hkind hl, occurrences_of_face hkind hr, formula_quantified,
      formula_quantified, occurrences, occurrences, ih]

/-- Objects that are alike have as many parts of each kind, negations aside. -/
theorem occurrences_of_alike (hkind : kind ≠ .negation) {l r : Object} (h : alike dn l r = true) :
    occurrences kind l.formula = occurrences kind r.formula :=
  occurrences_of_paired hkind (alike_iff.mp h)

/-- **A conditional is not alike its own consequent**, which has one conditional less. -/
theorem not_alike_consequent {a c r : Object} {p : Option Place} (hr : r.formula = c.formula) :
    alike dn (.conditional a c p) r = false := by
  refine Bool.eq_false_iff.mpr fun h => ?_
  have hcount := occurrences_of_alike (show Formula.Kind.conditional ≠ .negation by decide) h
  rw [hr, formula_conditional, Formula.occurrences, Formula.tick, if_pos rfl] at hcount
  omega

/-- **An instance is not alike its own quantification**, which has one quantifier more. -/
theorem not_alike_instance {q : Quantifier} {x a : Symbol} {body : Formula} :
    ¬ Formula.Alike dn (body.substitute [x] [some (.letter a)]) (.quantified q x body) := by
  intro h
  have hcount := occurrences_of_alike (show Formula.Kind.quantified ≠ .negation by decide)
    (alike_anew h)
  rw [Formula.formula_anew, Formula.formula_anew, Formula.occurrences_instance (a := a)] at hcount
  omega

end ProofSheet.Object
