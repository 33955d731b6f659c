import ProofSheet.Proofs.Object.Pairing
import ProofSheet.Proofs.Mapping.Union

/-!
# Every alignment is found

The mappings of designated letters are found by joining lists of mappings, with a search over the ways
to pair off juncts. Here an alignment is said without lists and without a search.

* `LetterMapping.Alignment`: **the alignments of two formulas**, clause by clause, each with the
  mapping that it gives.
* `LetterMapping.mem_align_iff`: the search finds the mapping of every alignment, and no other.
* `Formula.mappings_exhaustive`: **the mappings are those of all alignments**, each listed once, in
  ascending order.
-/

namespace ProofSheet

namespace LetterMapping

open Mapping (IsUnion Sized)

/-- **What a pair of letters says.** A target that nothing binds has its slot, the first that it has,
filled with the letter it faces; every other slot is empty. -/
structure Says (targets : List Symbol) (bound : BoundPairs) (t i : Symbol) (m : LetterMapping) :
    Prop where
  length_eq : m.length = targets.length
  fills_iff : ∀ k s, Mapping.Fills m k s ↔
    (∀ pair ∈ bound, pair.1 ≠ t) ∧ targets.idxOf? t = some k ∧ s = i

/-- **An alignment of a template with an instance**, under the letters bound around them, and the
mapping that it gives. The mappings of the parts must have a union, which is the mapping of the whole.
Juncts are aligned along any bijection, and the sides of biconditionals and identities straight or
crossed. -/
inductive Alignment (targets : List Symbol) :
    BoundPairs → Formula → Formula → LetterMapping → Prop
  | letter {bound : BoundPairs} {t i : Symbol} {m : LetterMapping} (h : Says targets bound t i m) :
      Alignment targets bound (.letter t) (.letter i) m
  | predicate {bound : BoundPairs} {name : Symbol} {args args' : List Formula} {m : LetterMapping}
      (hlen : args.length = args'.length) (parts : Fin args.length → LetterMapping)
      (h : ∀ k, Alignment targets bound (args.get k) (args'.get (k.cast hlen)) (parts k))
      (hunion : IsUnion targets.length (List.ofFn parts) m) :
      Alignment targets bound (.predicate name args) (.predicate name args') m
  | junction {bound : BoundPairs} {junctor : Junctor} {juncts juncts' : List Formula}
      {m : LetterMapping} (σ : Fin juncts.length ≃ Fin juncts'.length)
      (parts : Fin juncts.length → LetterMapping)
      (h : ∀ k, Alignment targets bound (juncts.get k) (juncts'.get (σ k)) (parts k))
      (hunion : IsUnion targets.length (List.ofFn parts) m) :
      Alignment targets bound (.junction junctor juncts) (.junction junctor juncts') m
  | conditional {bound : BoundPairs} {a c a' c' : Formula} {p q m : LetterMapping}
      (ha : Alignment targets bound a a' p) (hc : Alignment targets bound c c' q)
      (hunion : IsUnion targets.length [p, q] m) :
      Alignment targets bound (.conditional a c) (.conditional a' c') m
  | biconditional {bound : BoundPairs} {a b a' b' : Formula} {p q m : LetterMapping}
      (ha : Alignment targets bound a a' p) (hb : Alignment targets bound b b' q)
      (hunion : IsUnion targets.length [p, q] m) :
      Alignment targets bound (.biconditional a b) (.biconditional a' b') m
  | biconditionalCrossed {bound : BoundPairs} {a b a' b' : Formula} {p q m : LetterMapping}
      (ha : Alignment targets bound a b' p) (hb : Alignment targets bound b a' q)
      (hunion : IsUnion targets.length [p, q] m) :
      Alignment targets bound (.biconditional a b) (.biconditional a' b') m
  | negation {bound : BoundPairs} {f g : Formula} {m : LetterMapping}
      (h : Alignment targets bound f g m) : Alignment targets bound (.negation f) (.negation g) m
  | quantified {bound : BoundPairs} {q : Quantifier} {x x' : Symbol} {body body' : Formula}
      {m : LetterMapping} (hfresh : ∀ pair ∈ bound, pair.1 ≠ x ∧ pair.2 ≠ x')
      (h : Alignment targets ((x, x') :: bound) body body' m) :
      Alignment targets bound (.quantified q x body) (.quantified q x' body') m
  | identity {bound : BoundPairs} {a b a' b' : Formula} {equal : Bool} {p q m : LetterMapping}
      (ha : Alignment targets bound a a' p) (hb : Alignment targets bound b b' q)
      (hunion : IsUnion targets.length [p, q] m) :
      Alignment targets bound (.identity a b equal) (.identity a' b' equal) m
  | identityCrossed {bound : BoundPairs} {a b a' b' : Formula} {equal : Bool}
      {p q m : LetterMapping} (ha : Alignment targets bound a b' p)
      (hb : Alignment targets bound b a' q) (hunion : IsUnion targets.length [p, q] m) :
      Alignment targets bound (.identity a b equal) (.identity a' b' equal) m

variable {targets : List Symbol} {bound : BoundPairs} {m : LetterMapping}

/-! ## Letters and sides -/

theorem any_eq_false_iff {t : Symbol} :
    (bound.any fun pair => pair.1 == t) = false ↔ ∀ pair ∈ bound, pair.1 ≠ t := by
  simp only [List.any_eq_false, beq_iff_eq, ne_eq]

/-- What the search takes from a pair of letters is what the pair says. -/
theorem says_ofLetters (t i : Symbol) : Says targets bound t i (ofLetters targets bound t i) := by
  refine ⟨length_ofLetters t i, fun k s => ?_⟩
  unfold ofLetters
  cases hbound : bound.any fun pair => pair.1 == t with
  | true =>
    have hnot : ¬ ∀ pair ∈ bound, pair.1 ≠ t := by
      rw [← any_eq_false_iff, hbound]
      simp
    exact iff_of_false Mapping.not_fills_unfilled fun h => hnot h.1
  | false =>
    have hfree := any_eq_false_iff.mp hbound
    cases hindex : targets.idxOf? t with
    | none => exact iff_of_false Mapping.not_fills_unfilled fun h => by simp at h
    | some index =>
      have hlt : index < targets.length := (List.idxOf?_eq_some_iff.mp hindex).1
      refine (Mapping.fills_filledAt hlt).trans ?_
      rw [Option.some.injEq]
      exact ⟨fun h => ⟨hfree, h⟩, fun h => h.2⟩

theorem mem_align_letter_iff {t i : Symbol} :
    m ∈ align targets bound (.letter t) (.letter i) ↔ Says targets bound t i m := by
  have hfound := @says_ofLetters targets bound t i
  rw [align, List.mem_singleton]
  constructor
  · rintro rfl
    exact hfound
  · intro h
    refine Mapping.eq_of_fills (h.length_eq.trans hfound.length_eq.symm) fun k s => ?_
    exact (h.fills_iff k s).trans (hfound.fills_iff k s).symm

/-- Two pairs of parts, aligned one after the other. -/
theorem mem_joined_align_iff {a b a' b' : Formula} :
    m ∈ joined (align targets bound a a') (align targets bound b b') ↔
      ∃ p ∈ align targets bound a a', ∃ q ∈ align targets bound b b',
        IsUnion targets.length [p, q] m :=
  Mapping.mem_joined_iff (sized_align a bound a') (sized_align b bound b')

/-! ## Arguments and juncts -/

theorem alignEach_nil (ts is : List Formula) : alignEach targets bound ts is [] = [] := by
  cases ts with
  | nil => rw [alignEach]; simp
  | cons t ts =>
    cases is with
    | nil => rw [alignEach]; simp
    | cons i is =>
      have hjoined : joined (align targets bound t i) [] = [] :=
        List.eq_nil_iff_forall_not_mem.mpr fun m hm => by
          obtain ⟨p, -, q, hq, -⟩ := Mapping.mem_joinAll.mp (mem_joined.mp hm)
          exact absurd hq List.not_mem_nil
      rw [alignEach, hjoined]
      rfl

/-- Stopping when nothing is left loses nothing. -/
theorem alignEach_cons (t i : Formula) (ts is : List Formula) (found : List LetterMapping) :
    alignEach targets bound (t :: ts) (i :: is) found =
      alignEach targets bound ts is (joined (align targets bound t i) found) := by
  rw [alignEach]
  split
  · rename_i hempty
    rw [List.isEmpty_iff.mp hempty, alignEach_nil]
  · rfl

/-- Arguments are aligned each with its own, and their mappings are united with one found before. -/
theorem mem_alignEach_iff {ts : List Formula} : ∀ {is : List Formula} {found : List LetterMapping},
    ts.length = is.length → Sized targets.length found →
    (m ∈ alignEach targets bound ts is found ↔
      ∃ first ∈ found, ∃ picks : List (Formula × LetterMapping), picks.map Prod.fst = is ∧
        List.Forall₂ (fun t pick => pick.2 ∈ align targets bound t pick.1) ts picks ∧
        IsUnion targets.length (first :: picks.map Prod.snd) m) := by
  induction ts with
  | nil =>
    intro is found hlen hfound
    obtain rfl : is = [] := List.length_eq_zero_iff.mp hlen.symm
    have hstart : alignEach targets bound [] [] found = found := by
      rw [alignEach]
      simp
    rw [hstart]
    constructor
    · intro hm
      exact ⟨m, hm, [], rfl, .nil, (Mapping.isUnion_singleton_iff (hfound m hm)).mpr rfl⟩
    · rintro ⟨first, hfirst, picks, -, hpicks, hunion⟩
      cases hpicks
      rw [(Mapping.isUnion_singleton_iff (hfound first hfirst)).mp hunion]
      exact hfirst
  | cons t ts ih =>
    intro is found hlen hfound
    cases is with
    | nil => simp at hlen
    | cons i is =>
      have hlen' : ts.length = is.length := by simpa using hlen
      have hsized := sized_joined (sized_align t bound i) hfound
      rw [alignEach_cons, ih hlen' hsized]
      constructor
      · rintro ⟨next, hnext, picks, rfl, hpicks, hunion⟩
        obtain ⟨p, hp, first, hfirst, hpair⟩ :=
          (Mapping.mem_joined_iff (sized_align t bound i) hfound).mp hnext
        have hall : IsUnion targets.length (p :: first :: picks.map Prod.snd) m :=
          (Mapping.isUnion_cons_cons (sized_align t bound i p hp) (hfound first hfirst)).mpr
            ⟨next, hpair, hunion⟩
        exact ⟨first, hfirst, (i, p) :: picks, rfl, .cons hp hpicks,
          (Mapping.isUnion_perm (.swap _ _ _)).mp hall⟩
      · rintro ⟨first, hfirst, picks, hfst, hpicks, hunion⟩
        cases hpicks with
        | @cons _ pick _ picks hp hpicks =>
          obtain ⟨i', p⟩ := pick
          obtain ⟨rfl, rfl⟩ := List.cons.inj hfst
          have hall : IsUnion targets.length (p :: first :: picks.map Prod.snd) m :=
            (Mapping.isUnion_perm (.swap _ _ _)).mp hunion
          obtain ⟨next, hpair, hrest⟩ :=
            (Mapping.isUnion_cons_cons (sized_align t bound _ p hp) (hfound first hfirst)).mp hall
          have hnext := (Mapping.mem_joined_iff (sized_align t bound _) hfound).mpr
            ⟨p, hp, first, hfirst, hpair⟩
          exact ⟨next, hnext, picks, rfl, hpicks, hrest⟩

section Families

variable {R : Formula → Formula → LetterMapping → Prop} {P : List LetterMapping → Prop}
  {ts is : List Formula}

/-- The parts of pairs that stand in a list, as a family. -/
theorem ofFn_snd {picks : List (Formula × LetterMapping)} (hlen : ts.length = picks.length) :
    List.ofFn (fun k : Fin ts.length => (picks.get (k.cast hlen)).2) = picks.map Prod.snd := by
  apply List.ext_getElem
  · simp [hlen]
  · intro k hk hk'
    simp

/-- The members of a list, read along a bijection. -/
theorem perm_ofFn_get {n : Nat} (σ : Fin n ≃ Fin is.length) :
    (List.ofFn fun k => is.get (σ k)).Perm is := by
  obtain rfl : n = is.length := Fin.equiv_iff_eq.mp ⟨σ⟩
  have hperm := Equiv.Perm.ofFn_comp_perm σ is.get
  rwa [List.ofFn_get] at hperm

/-- A family of pairs, as a list. -/
theorem forall₂_ofFn {others : Fin ts.length → Formula} {parts : Fin ts.length → LetterMapping}
    (h : ∀ k, R (ts.get k) (others k) (parts k)) :
    List.Forall₂ (fun t pick => R t pick.1 pick.2) ts (List.ofFn fun k => (others k, parts k)) := by
  refine List.forall₂_iff_get.mpr ⟨by simp, fun k hk hk' => ?_⟩
  rw [List.get_ofFn]
  exact h ⟨k, hk⟩

/-- **Pairings as permutations and as bijections**, with what each pair brings. -/
theorem exists_picks_perm_iff :
    (∃ picks : List (Formula × LetterMapping), (picks.map Prod.fst).Perm is ∧
      List.Forall₂ (fun t pick => R t pick.1 pick.2) ts picks ∧ P (picks.map Prod.snd)) ↔
    ∃ (σ : Fin ts.length ≃ Fin is.length) (parts : Fin ts.length → LetterMapping),
      (∀ k, R (ts.get k) (is.get (σ k)) (parts k)) ∧ P (List.ofFn parts) := by
  constructor
  · rintro ⟨picks, hperm, hpicks, hP⟩
    obtain ⟨hlen, h⟩ := List.forall₂_iff_get.mp hpicks
    let σ : Fin ts.length ≃ Fin is.length :=
      (finCongr (hlen.trans (by simp))).trans (placesOf hperm)
    refine ⟨σ, fun k => (picks.get (k.cast hlen)).2, fun k => ?_, (ofFn_snd hlen).symm ▸ hP⟩
    have hget : is.get (σ k) = (picks.get (k.cast hlen)).1 := by
      simp only [σ, Equiv.trans_apply, get_placesOf]
      simp
    rw [hget]
    exact h k k.isLt (hlen ▸ k.isLt)
  · rintro ⟨σ, parts, h, hP⟩
    refine ⟨List.ofFn fun k => (is.get (σ k), parts k), ?_, forall₂_ofFn h, ?_⟩
    · rw [List.map_ofFn]
      exact perm_ofFn_get σ
    · rw [List.map_ofFn]
      exact hP

/-- Pairs of members in the same places, with what each pair brings. -/
theorem exists_picks_eq_iff (hlen : ts.length = is.length) :
    (∃ picks : List (Formula × LetterMapping), picks.map Prod.fst = is ∧
      List.Forall₂ (fun t pick => R t pick.1 pick.2) ts picks ∧ P (picks.map Prod.snd)) ↔
    ∃ parts : Fin ts.length → LetterMapping,
      (∀ k, R (ts.get k) (is.get (k.cast hlen)) (parts k)) ∧ P (List.ofFn parts) := by
  constructor
  · rintro ⟨picks, rfl, hpicks, hP⟩
    obtain ⟨hlen', h⟩ := List.forall₂_iff_get.mp hpicks
    refine ⟨fun k => (picks.get (k.cast hlen')).2, fun k => ?_, (ofFn_snd hlen').symm ▸ hP⟩
    have hpick := h k k.isLt (hlen' ▸ k.isLt)
    simpa using hpick
  · rintro ⟨parts, h, hP⟩
    refine ⟨List.ofFn fun k => (is.get (k.cast hlen), parts k), ?_, forall₂_ofFn h, ?_⟩
    · rw [List.map_ofFn]
      apply List.ext_getElem
      · simp [hlen]
      · intro k hk hk'
        simp
    · rw [List.map_ofFn]
      exact hP

end Families

/-! ## The search and the relation -/

/-- Juncts are aligned along some bijection, and their mappings are united. -/
theorem mem_align_junction_iff {junctor : Junctor} {ts is : List Formula} :
    m ∈ align targets bound (.junction junctor ts) (.junction junctor is) ↔
      ∃ (σ : Fin ts.length ≃ Fin is.length) (parts : Fin ts.length → LetterMapping),
        (∀ k, parts k ∈ align targets bound (ts.get k) (is.get (σ k))) ∧
        IsUnion targets.length (List.ofFn parts) m := by
  refine Iff.trans ?_ (exists_picks_perm_iff (R := fun t i part => part ∈ align targets bound t i)
    (P := fun parts => IsUnion targets.length parts m))
  have hcell : ∀ t ∈ ts, ∀ i ∈ is, Sized targets.length (align targets bound t i) :=
    fun t _ i _ => sized_align t bound i
  constructor
  · intro h
    obtain ⟨_, heq, hlen, h⟩ := mem_align_junction h
    obtain ⟨-, rfl⟩ := Formula.junction.inj heq
    obtain ⟨first, hfirst, picks, hsub, hpicks, hunion⟩ :=
      (Mapping.mem_assignments_iff_union (sized_unfilled _) hcell).mp h
    rw [List.mem_singleton.mp hfirst, Mapping.isUnion_unfilled_cons] at hunion
    have hcount : is.length ≤ (picks.map Prod.fst).length := by
      rw [List.length_map, ← hpicks.length_eq, hlen]
    exact ⟨picks, hsub.perm_of_length_le hcount, hpicks, hunion⟩
  · rintro ⟨picks, hperm, hpicks, hunion⟩
    have hlen : ts.length = is.length := by
      rw [hpicks.length_eq, ← hperm.length_eq, List.length_map]
    rw [align, if_pos (by simp [hlen]), Ascending.mem_ofList, alignRows_eq,
      Mapping.mem_assignments_iff_union (sized_unfilled _) hcell]
    exact ⟨_, List.mem_singleton_self _, picks, hperm.subperm, hpicks,
      Mapping.isUnion_unfilled_cons.mpr hunion⟩

/-- Arguments are aligned each with its own, and their mappings are united. -/
theorem mem_align_predicate_iff {name : Symbol} {ts is : List Formula}
    (hlen : ts.length = is.length) :
    m ∈ align targets bound (.predicate name ts) (.predicate name is) ↔
      ∃ parts : Fin ts.length → LetterMapping,
        (∀ k, parts k ∈ align targets bound (ts.get k) (is.get (k.cast hlen))) ∧
        IsUnion targets.length (List.ofFn parts) m := by
  have htest : (name == name && ts.length == is.length) = true := by simp [hlen]
  rw [align, if_pos htest, mem_alignEach_iff hlen (sized_unfilled _)]
  refine Iff.trans ?_ (exists_picks_eq_iff (R := fun t i part => part ∈ align targets bound t i)
    (P := fun parts => IsUnion targets.length parts m) hlen)
  constructor
  · rintro ⟨first, hfirst, picks, hfst, hpicks, hunion⟩
    rw [List.mem_singleton.mp hfirst, Mapping.isUnion_unfilled_cons] at hunion
    exact ⟨picks, hfst, hpicks, hunion⟩
  · rintro ⟨picks, hfst, hpicks, hunion⟩
    exact ⟨_, List.mem_singleton_self _, picks, hfst, hpicks,
      Mapping.isUnion_unfilled_cons.mpr hunion⟩

/-- **The search finds the mapping of every alignment, and no other.** -/
theorem mem_align_iff {t i : Formula} :
    m ∈ align targets bound t i ↔ Alignment targets bound t i m := by
  constructor
  · intro h
    induction t using Formula.inductionOn generalizing bound i m with
    | letter t =>
      obtain ⟨s, rfl, -⟩ := mem_align_letter h
      exact .letter (mem_align_letter_iff.mp h)
    | predicate name args ih =>
      obtain ⟨args', rfl, hlen, -⟩ := mem_align_predicate h
      obtain ⟨parts, hparts, hunion⟩ := (mem_align_predicate_iff hlen).mp h
      exact .predicate hlen parts (fun k => ih _ (List.get_mem args k) (hparts k)) hunion
    | junction junctor juncts ih =>
      obtain ⟨juncts', rfl, -, -⟩ := mem_align_junction h
      obtain ⟨σ, parts, hparts, hunion⟩ := mem_align_junction_iff.mp h
      exact .junction σ parts (fun k => ih _ (List.get_mem juncts k) (hparts k)) hunion
    | conditional a c iha ihc =>
      obtain ⟨a', c', rfl, hm⟩ := mem_align_conditional h
      obtain ⟨p, hp, q, hq, hunion⟩ := mem_joined_align_iff.mp hm
      exact .conditional (iha hp) (ihc hq) hunion
    | biconditional a b iha ihb =>
      obtain ⟨a', b', rfl, hm | hm⟩ := mem_align_biconditional h
      · obtain ⟨p, hp, q, hq, hunion⟩ := mem_joined_align_iff.mp hm
        exact .biconditional (iha hp) (ihb hq) hunion
      · obtain ⟨p, hp, q, hq, hunion⟩ := mem_joined_align_iff.mp hm
        exact .biconditionalCrossed (iha hp) (ihb hq) hunion
    | negation f ih =>
      obtain ⟨g, rfl, hm⟩ := mem_align_negation h
      exact .negation (ih hm)
    | quantified q x body ih =>
      obtain ⟨x', body', rfl, hclash, hm⟩ := mem_align_quantified h
      exact .quantified (BoundPairs.clashes_eq_false.mp hclash) (ih hm)
    | identity a b equal iha ihb =>
      obtain ⟨a', b', rfl, hm | hm⟩ := mem_align_identity h
      · obtain ⟨p, hp, q, hq, hunion⟩ := mem_joined_align_iff.mp hm
        exact .identity (iha hp) (ihb hq) hunion
      · obtain ⟨p, hp, q, hq, hunion⟩ := mem_joined_align_iff.mp hm
        exact .identityCrossed (iha hp) (ihb hq) hunion
  · intro h
    induction h with
    | letter h => exact mem_align_letter_iff.mpr h
    | predicate hlen parts _ hunion ih => exact (mem_align_predicate_iff hlen).mpr ⟨parts, ih, hunion⟩
    | junction σ parts _ hunion ih => exact mem_align_junction_iff.mpr ⟨σ, parts, ih, hunion⟩
    | conditional _ _ hunion iha ihc => exact mem_joined_align_iff.mpr ⟨_, iha, _, ihc, hunion⟩
    | biconditional _ _ hunion iha ihb =>
      exact List.mem_append_left _ (mem_joined_align_iff.mpr ⟨_, iha, _, ihb, hunion⟩)
    | biconditionalCrossed _ _ hunion iha ihb =>
      exact List.mem_append_right _ (mem_joined_align_iff.mpr ⟨_, iha, _, ihb, hunion⟩)
    | negation _ ih => exact ih
    | quantified hfresh _ ih =>
      rw [align, BoundPairs.clashes_eq_false.mpr hfresh]
      simpa using ih
    | @identity _ _ _ _ _ equal _ _ _ _ _ hunion iha ihb =>
      rw [align, if_pos (beq_self_eq_true equal)]
      exact List.mem_append_left _ (mem_joined_align_iff.mpr ⟨_, iha, _, ihb, hunion⟩)
    | @identityCrossed _ _ _ _ _ equal _ _ _ _ _ hunion iha ihb =>
      rw [align, if_pos (beq_self_eq_true equal)]
      exact List.mem_append_right _ (mem_joined_align_iff.mpr ⟨_, iha, _, ihb, hunion⟩)

/-- The order of mappings is the dictionary order, an empty slot first and letters by code point. -/
theorem lex_of_before : ∀ {m m' : LetterMapping}, Ranked.before m m' = true →
    List.Lex (Option.lt fun a b : Symbol => a.toNat < b.toNat) m m'
  | [], [], h => by simp [Ranked.before, Ranked.lexicographic] at h
  | [], _ :: _, _ => .nil
  | _ :: _, [], h => by simp [Ranked.before, Ranked.lexicographic] at h
  | slot :: m, slot' :: m', h => by
    rcases LawfulRanked.lexicographic_cons.mp h with hslot | ⟨rfl, hrest⟩
    · refine .rel ?_
      cases slot with
      | none => cases slot' <;> simp_all [Ranked.before, Option.lt]
      | some a => cases slot' <;> simp_all [Ranked.before, Option.lt]
    · exact .cons (lex_of_before hrest)

end LetterMapping

namespace Formula

open LetterMapping (Alignment)

/-- **The mappings of a template and an instance are those of all their alignments.** They are listed
in strictly ascending dictionary order, an empty slot before a filled one and letters by code point, so
each is listed once. -/
theorem mappings_exhaustive (template sample : Formula) (targets : List Symbol) :
    (mappings template sample targets).Pairwise
        (List.Lex (Option.lt fun a b : Symbol => a.toNat < b.toNat)) ∧
      ∀ m, m ∈ mappings template sample targets ↔ Alignment targets [] template sample m := by
  constructor
  · have hascending : Ascending.IsAscending (mappings template sample targets) :=
      Ascending.ofList_ascending _
    exact hascending.imp LetterMapping.lex_of_before
  · intro m
    rw [mappings, Ascending.mem_ofList, LetterMapping.mem_align_iff]

/-- Each junct of `Fy ∧ Fx` may face either junct of `Fa ∧ Fb`. -/
example : mappings
    (.junction .conjunction [.predicate 'F' [.letter 'y'], .predicate 'F' [.letter 'x']])
    (.junction .conjunction [.predicate 'F' [.letter 'a'], .predicate 'F' [.letter 'b']]) ['x', 'y'] =
      [[some 'a', some 'b'], [some 'b', some 'a']] := by
  decide

end Formula

end ProofSheet
