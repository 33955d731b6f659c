import Mathlib.Data.Bool.Basic
import ProofSheet.Proofs.Object.Counting

/-!
# Congruence

A part of an object may be replaced by what is alike. The comparison passes over pairs of negations at
every part, while a junction takes its parts apart only where they are junctions as they stand. So
`(a ∧ b) ∧ c` is one conjunction of three parts and `¬¬(a ∧ b) ∧ c` one of two.

* `Object.alike_junctionOf_replace_iff`: **a part of a junction may be replaced by what is alike
  exactly if both are taken apart or neither is.**
* `Object.alike_doubled_iff`: when `¬¬a ∧ b` is alike to `a ∧ ¬¬¬¬b`.
* `Object.alike_congruence`: these together, for both modes of comparison.
* `Object.doubled_part_not_alike`: a part for which the replacement fails.
-/

namespace ProofSheet.Object

variable {dn : Bool} {x y a b : Object} {junctor : Junctor}

open Formula (occurrences occurrencesIn occurrencesIn_append occurrences_junction occurrences_negation
  le_occurrencesIn_of_mem tick)

/-! ## Parts of junctions -/

/-- Where pairs of negations count, objects that are alike are of one kind. -/
theorem kind_of_alike (h : alike false x y = true) : x.kind = y.kind := by
  have hface : ∀ o : Object, face false o = o := fun _ => rfl
  rw [alike_iff_parts, Parts, hface, hface] at h
  cases x with
  | letter | predicate | junction | negation =>
    obtain ⟨_, _, rfl, _⟩ := h
    rfl
  | conditional | biconditional | quantified | identity =>
    obtain ⟨_, _, _, rfl, _⟩ := h
    rfl

/-- An object has one junction more than what it contributes to a junction, if it is taken apart. -/
theorem occurrencesIn_junctsUnder (junctor : Junctor) (x : Object) :
    occurrencesIn .junction ((junctsUnder junctor x).map formula) + (joinedBy junctor x).toNat =
      occurrences .junction x.formula := by
  cases hx : joinedBy junctor x with
  | true =>
    obtain ⟨xs, p, rfl⟩ := joinedBy_iff.mp hx
    rw [junctsUnder_junction, formula_junction, occurrences_junction, tick, if_pos rfl]
    exact Nat.add_comm _ _
  | false =>
    rw [junctsUnder_of_not_joined hx]
    simp [occurrencesIn]

/-- **A part of a junction may be replaced by what is alike exactly if both are taken apart or neither
is**: otherwise one side has a junction more than the other. -/
theorem alike_junctionOf_replace_iff {us vs : List Object} (h : alike dn x y = true) :
    alike dn (junctionOf junctor (us ++ [x] ++ vs)) (junctionOf junctor (us ++ [y] ++ vs)) = true ↔
      joinedBy junctor x = joinedBy junctor y := by
  constructor
  · intro halike
    have hcount := occurrences_of_alike (show Formula.Kind.junction ≠ .negation by decide) halike
    have hparts := occurrences_of_alike (show Formula.Kind.junction ≠ .negation by decide) h
    simp only [junctionOf, formula_junction, occurrences_junction, List.flatMap_append,
      List.flatMap_cons, List.flatMap_nil, List.append_nil, List.map_append,
      occurrencesIn_append] at hcount
    rw [← occurrencesIn_junctsUnder junctor x, ← occurrencesIn_junctsUnder junctor y] at hparts
    have hsame : (joinedBy junctor x).toNat = (joinedBy junctor y).toNat := by omega
    simpa only [Bool.ofNat_toNat] using congrArg Bool.ofNat hsame
  · intro hjoined
    have hsame : ∀ ws : List Object, List.Forall₂
        (fun f g => alike dn f g = true ∧ joinedBy junctor f = joinedBy junctor g) ws ws :=
      fun ws => List.forall₂_same.mpr fun w _ => ⟨alike_self dn w, rfl⟩
    exact alike_junctionOf (List.rel_append (List.rel_append (hsame us)
      (.cons ⟨h, hjoined⟩ .nil)) (hsame vs))

/-! ## Pairs of negations on either part -/

theorem like_doubled_left {p q : Option Place} : Like (.negation (.negation a p) q) b ↔ Like a b := by
  rw [← like_core_left, core_doubled, like_core_left]

theorem like_doubled_right {p q : Option Place} : Like a (.negation (.negation b p) q) ↔ Like a b := by
  rw [← like_core_right, core_doubled, like_core_right]

/-- A negated part is not taken apart. -/
theorem junctsUnder_negation (junctor : Junctor) (x : Object) (p : Option Place) :
    junctsUnder junctor (.negation x p) = [.negation x p] := rfl

/-- Where each part is doubled on the one side, the other parts are taken apart together. -/
theorem joinedBy_eq_of_doubled
    (h : Like (junctionOf junctor [.negation (.negation a), b])
      (junctionOf junctor [a, .negation (.negation (.negation (.negation b)))])) :
    joinedBy junctor a = joinedBy junctor b := by
  have hcount := occurrences_of_alike (show Formula.Kind.junction ≠ .negation by decide) h
  have ha := occurrencesIn_junctsUnder junctor a
  have hb := occurrencesIn_junctsUnder junctor b
  have hnegation : ∀ x, occurrences .junction (.negation x) = occurrences .junction x :=
    occurrences_negation (by decide)
  simp only [junctionOf, formula_junction, occurrences_junction, List.flatMap_cons, List.flatMap_nil,
    List.append_nil, List.map_append, List.map_cons, List.map_nil, occurrencesIn_append,
    junctsUnder_negation, formula_negation, occurrencesIn, hnegation] at hcount
  have hsame : (joinedBy junctor a).toNat = (joinedBy junctor b).toNat := by omega
  simpa only [Bool.ofNat_toNat] using congrArg Bool.ofNat hsame

/-- **When `¬¬a ∧ b` is alike to `a ∧ ¬¬¬¬b`**: neither part is a conjunction as it stands, or both are
and are alike. -/
theorem alike_doubled_iff :
    alike true (junctionOf junctor [.negation (.negation a), b])
        (junctionOf junctor [a, .negation (.negation (.negation (.negation b)))]) = true ↔
      joinedBy junctor a = joinedBy junctor b ∧ (joinedBy junctor a = true → Like a b) := by
  constructor
  · intro halike
    have hjoined := joinedBy_eq_of_doubled halike
    refine ⟨hjoined, fun hja => ?_⟩
    obtain ⟨as, p, rfl⟩ := joinedBy_iff.mp hja
    obtain ⟨bs, q, rfl⟩ := joinedBy_iff.mp (hjoined.symm.trans hja)
    obtain ⟨paired, hperm, hpairs⟩ := alike_junction.mp halike
    simp only [List.flatMap_cons, List.flatMap_nil, junctsUnder_negation, junctsUnder_junction,
      List.append_nil, List.singleton_append] at hperm hpairs
    obtain ⟨partner, _, hpartner, _, rfl⟩ := List.forall₂_cons_left_iff.mp hpairs
    have hlike := like_doubled_left.mp hpartner
    rcases List.mem_append.mp (hperm.subset List.mem_cons_self) with hmem | hmem
    -- a junct of `a` has fewer junctions than `a`
    · have hle := le_occurrencesIn_of_mem .junction (List.mem_map_of_mem (f := formula) hmem)
      have hcount := occurrences_of_alike (show Formula.Kind.junction ≠ .negation by decide) hlike
      rw [formula_junction, occurrences_junction, tick, if_pos rfl] at hcount
      omega
    · rw [List.mem_singleton.mp hmem] at hlike
      exact like_doubled_right.mp (like_doubled_right.mp hlike)
  · rintro ⟨hjoined, hab⟩
    have hdoubled : ∀ {x : Object}, Like x b →
        Like x (.negation (.negation (.negation (.negation b)))) :=
      fun hx => like_doubled_right.mpr (like_doubled_right.mpr hx)
    cases hja : joinedBy junctor a with
    | false =>
      exact alike_junctionOf (.cons ⟨like_doubled_left.mpr (.refl a), hja.symm⟩
        (.cons ⟨hdoubled (.refl b), hjoined.symm.trans hja⟩ .nil))
    | true =>
      have hfirst : Like (.negation (.negation a)) _ := like_doubled_left.mpr (hdoubled (hab hja))
      have hback := (hab hja).symm
      obtain ⟨as, p, rfl⟩ := joinedBy_iff.mp hja
      obtain ⟨bs, q, rfl⟩ := joinedBy_iff.mp (hjoined.symm.trans hja)
      obtain ⟨paired, hperm, hpairs⟩ := like_junction.mp hback
      refine alike_junction.mpr ?_
      simp only [List.flatMap_cons, List.flatMap_nil, junctsUnder_negation, junctsUnder_junction,
        List.append_nil, List.singleton_append]
      exact ⟨_ :: paired, (hperm.cons _).trans (List.perm_append_singleton _ as).symm,
        .cons hfirst hpairs⟩

/-! ## Both modes together -/

/-- **A part may be replaced by what is alike** in a negation, a conditional and a biconditional; in a
junction exactly if both are taken apart or neither is, which is always so where pairs of negations
count. In particular `¬¬a ∧ b` is alike to `a ∧ ¬¬¬¬b` exactly if both parts are taken apart together,
when they must be alike, or not at all. -/
theorem alike_congruence (dn : Bool) (x y : Object) (h : alike dn x y = true) :
    (∀ p q, alike dn (.negation x p) (.negation y q) = true) ∧
    (∀ z p q,
      alike dn (.conditional x z p) (.conditional y z q) = true ∧
      alike dn (.conditional z x p) (.conditional z y q) = true ∧
      alike dn (.biconditional x z p) (.biconditional y z q) = true ∧
      alike dn (.biconditional z x p) (.biconditional z y q) = true) ∧
    (∀ junctor us vs,
      (alike dn (junctionOf junctor (us ++ [x] ++ vs)) (junctionOf junctor (us ++ [y] ++ vs)) = true ↔
        joinedBy junctor x = joinedBy junctor y)) ∧
    (dn = false → ∀ junctor, joinedBy junctor x = joinedBy junctor y) ∧
    ∀ a b, (alike true (junctionOf .conjunction [.negation (.negation a), b])
        (junctionOf .conjunction [a, .negation (.negation (.negation (.negation b)))]) = true ↔
      joinedBy .conjunction a = joinedBy .conjunction b ∧
        (joinedBy .conjunction a = true → alike true a b = true)) := by
  refine ⟨fun p q => alike_negation h, fun z p q => ?_, fun junctor us vs => ?_, ?_, fun a b => ?_⟩
  · have hz := alike_self dn z
    exact ⟨alike_conditional.mpr ⟨h, hz⟩, alike_conditional.mpr ⟨hz, h⟩,
      alike_biconditional.mpr (.inl ⟨h, hz⟩), alike_biconditional.mpr (.inl ⟨hz, h⟩)⟩
  · exact alike_junctionOf_replace_iff h
  · rintro rfl junctor
    exact joinedBy_eq_of_kind junctor h (kind_of_alike h)
  · exact alike_doubled_iff

/-- `¬¬A` may stand for `A` in `A → C` and among the parts of `B ∧ A ∧ C`. -/
theorem alike_congruence_doubledLetter :
    alike true (.negation (.negation (.letter 'A'))) (.letter 'A') = true ∧
      alike true (.conditional (.negation (.negation (.letter 'A'))) (.letter 'C'))
        (.conditional (.letter 'A') (.letter 'C')) = true ∧
      alike true (junctionOf .conjunction
          ([.letter 'B'] ++ [.negation (.negation (.letter 'A'))] ++ [.letter 'C']))
        (junctionOf .conjunction ([.letter 'B'] ++ [.letter 'A'] ++ [.letter 'C'])) = true := by
  have hdoubled : alike true (.negation (.negation (.letter 'A'))) (.letter 'A') = true := by decide
  obtain ⟨_, hsides, hjuncts, _⟩ := alike_congruence true _ _ hdoubled
  exact ⟨hdoubled, (hsides (.letter 'C') none none).1,
    (hjuncts .conjunction [.letter 'B'] [.letter 'C']).mpr rfl⟩

/-- **A doubled conjunction may not stand for the conjunction** among the parts of another: `¬¬(A ∧ B)`
is alike to `A ∧ B`, but `¬¬(A ∧ B) ∧ C` is a conjunction of two parts, and alike neither to
`(A ∧ B) ∧ C` nor to `(A ∧ B) ∧ ¬¬¬¬C`, which have three. -/
theorem doubled_part_not_alike :
    alike true (.negation (.negation (.junction .conjunction [.letter 'A', .letter 'B'])))
        (.junction .conjunction [.letter 'A', .letter 'B']) = true ∧
      alike true (.letter 'C') (.letter 'C') = true ∧
      alike true
        (junctionOf .conjunction
          [.negation (.negation (.junction .conjunction [.letter 'A', .letter 'B'])), .letter 'C'])
        (junctionOf .conjunction
          [.junction .conjunction [.letter 'A', .letter 'B'], .letter 'C']) = false ∧
      alike true
        (junctionOf .conjunction
          [.negation (.negation (.junction .conjunction [.letter 'A', .letter 'B'])), .letter 'C'])
        (junctionOf .conjunction
          [.junction .conjunction [.letter 'A', .letter 'B'],
            .negation (.negation (.negation (.negation (.letter 'C'))))]) = false := by
  decide

end ProofSheet.Object
