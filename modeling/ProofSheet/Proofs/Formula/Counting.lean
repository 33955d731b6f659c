import ProofSheet.Proofs.Formula.Parts

/-!
# Counting parts

* `Formula.occurrences`: how many parts of a formula are of a kind.
* `Formula.occurrences_face`: outer pairs of negations do not count among the parts of another kind.
-/

namespace ProofSheet.Formula

variable {kind : Kind} {dn : Bool}

section Occurrences

variable (kind : Kind)

/-- What a node of a kind counts for. -/
def tick (node : Kind) : Nat := if node = kind then 1 else 0

mutual

/-- How many parts of a formula are of a kind, the formula itself included. -/
def occurrences : Formula → Nat
  | .letter _ => tick kind .letter
  | .predicate _ args => tick kind .predicate + occurrencesIn args
  | .junction _ juncts => tick kind .junction + occurrencesIn juncts
  | .conditional a c => tick kind .conditional + (occurrences a + occurrences c)
  | .biconditional a b => tick kind .biconditional + (occurrences a + occurrences b)
  | .negation f => tick kind .negation + occurrences f
  | .quantified _ _ body => tick kind .quantified + occurrences body
  | .identity a b _ => tick kind .identity + (occurrences a + occurrences b)

/-- How many parts of some formulas are of a kind. -/
def occurrencesIn : List Formula → Nat
  | [] => 0
  | f :: fs => occurrences f + occurrencesIn fs

end

end Occurrences

theorem occurrencesIn_append (fs gs : List Formula) :
    occurrencesIn kind (fs ++ gs) = occurrencesIn kind fs + occurrencesIn kind gs := by
  induction fs with
  | nil => exact (Nat.zero_add _).symm
  | cons f fs ih => rw [List.cons_append, occurrencesIn, occurrencesIn, ih, Nat.add_assoc]

theorem occurrencesIn_perm {fs gs : List Formula} (h : fs.Perm gs) :
    occurrencesIn kind fs = occurrencesIn kind gs := by
  induction h with
  | nil => rfl
  | cons f _ ih => rw [occurrencesIn, occurrencesIn, ih]
  | swap f g fs =>
    simp only [occurrencesIn]
    omega
  | trans _ _ ih ih' => exact ih.trans ih'

theorem le_occurrencesIn_of_mem (kind : Kind) {f : Formula} {fs : List Formula} (h : f ∈ fs) :
    occurrences kind f ≤ occurrencesIn kind fs := by
  obtain ⟨before, after, rfl⟩ := List.append_of_mem h
  rw [occurrencesIn_append, occurrencesIn]
  omega

theorem occurrences_junction (junctor : Junctor) (fs : List Formula) :
    occurrences kind (.junction junctor fs) = tick kind .junction + occurrencesIn kind fs := rfl

theorem occurrences_negation (hkind : kind ≠ .negation) (f : Formula) :
    occurrences kind (.negation f) = occurrences kind f := by
  rw [occurrences, tick, if_neg hkind.symm, Nat.zero_add]

/-- Outer pairs of negations do not count. -/
theorem occurrences_face (dn : Bool) (hkind : kind ≠ .negation) (f : Formula) :
    occurrences kind (face dn f) = occurrences kind f := by
  induction f using faceInduction dn with
  | negation f hf _ => rw [face_negation hf]
  | doubled f hdn ih =>
    subst hdn
    rw [face, if_pos rfl, core_doubled, occurrences_negation hkind, occurrences_negation hkind]
    exact ih
  | _ => rw [face_of_ne (by simp)]

end ProofSheet.Formula
