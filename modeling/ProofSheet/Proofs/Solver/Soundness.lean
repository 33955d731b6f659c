import ProofSheet.Proofs.Solver.Matching
import ProofSheet.Solver.Search

/-!
# Soundness of the truth-functional solver

The solver keeps what it knows in two lists and adds to them in rounds. Everything it ever knows is
grounded in the premises: it holds wherever they hold, and it brings no letter that they do not have.

* `Solver.Application`: what is known of the mapping by which a rule was applied.
* `Solver.consequent_holds`: each rule of the table is truth-functionally valid.
* `Solver.Grounded.conclusion`, `Solver.Reached.grounded`: the invariant, for one use of a rule and
  over any number of rounds.
* `Solver.solve_sound`: **a goal that the solver confirms follows from the premises.**
-/

namespace ProofSheet.Solver

open Formula (FreeIn)
open Object (substitute alike)
open Mapping (Agrees Stable)

variable {rule : Inference} {known : List Object} {m : Mapping Object}

/-! ## The use of a rule -/

/-- **A mapping applies a rule to known formulas**: each antecedent is fitted by one of them, and the
mapping brings no letter that they do not have. -/
structure Application (rule : Inference) (known : List Object) (m : Mapping Object) : Prop where
  fits : ∀ {admits}, Stable admits → Agrees admits m →
    ∀ a ∈ rule.antecedents, ∃ g ∈ known, Fits rule.letters admits a g
  within : Agrees (WithinLetters known) m

theorem Application.mono {known' : List Object} (h : Application rule known m)
    (hsub : known ⊆ known') : Application rule known' m where
  fits hst hagree a ha := by
    obtain ⟨g, hg, hfits⟩ := h.fits hst hagree a ha
    exact ⟨g, hsub hg, hfits⟩
  within := h.within.mono fun _ _ he s hs =>
    let ⟨f, hf, hfs⟩ := he s hs
    ⟨f, hsub hf, hfs⟩

/-- What a rule gives with a formula in the first place comes from an application. -/
theorem application_of_mem_conclusionsAt {first f : Object} {later : List Object}
    (h : f ∈ conclusionsAt rule first later) :
    ∃ m, Application rule (first :: later) m ∧ f = substitute rule.letters m rule.consequent := by
  obtain ⟨⟨antecedent, place⟩, hplace, h⟩ := List.mem_flatMap.mp h
  simp only at h
  split at h
  · simp at h
  · obtain ⟨m, hm, rfl⟩ := List.mem_map.mp h
    refine ⟨m, ⟨?_, ?_⟩, rfl⟩
    · intro admits hst hagree a ha
      obtain ⟨⟨x, hx, hxa⟩, picks, hsub, hpicks⟩ := Mapping.assignments_agrees hst
        (sized_matchTemplate antecedent first) (fun t _ g _ => sized_matchTemplate t g) hm hagree
      -- the antecedent in question is the one at the chosen place, or among the others
      have hmem : a = antecedent ∨ a ∈ rule.antecedents.eraseIdx place := by
        rw [List.mem_zipIdx_iff_getElem?] at hplace
        obtain ⟨i, hi, rfl⟩ := List.mem_iff_getElem.mp ha
        by_cases hip : i = place
        · subst hip
          exact Or.inl (Option.some.inj (by rw [← hplace, List.getElem?_eq_getElem hi]))
        · exact Or.inr (List.mem_eraseIdx_iff_getElem.mpr ⟨i, hi, hip, rfl⟩)
      rcases hmem with rfl | hother
      · exact ⟨first, List.mem_cons_self, fits_of_mem_matchTemplate hst a hx hxa⟩
      · obtain ⟨g, hg, y, hy, hya⟩ := Formula.exists_of_forall₂ hpicks hother
        exact ⟨g, List.mem_cons_of_mem first (hsub.subset hg), fits_of_mem_matchTemplate hst a hy hya⟩
    · have hown : ∀ g ∈ first :: later, WithinLetters (first :: later) 0 g :=
        fun g hg s hs => ⟨g, hg, hs⟩
      exact Mapping.agrees_assignments (kept_withinLetters _)
        (agrees_matchTemplate antecedent (hown first List.mem_cons_self))
        (fun t _ g hg => agrees_matchTemplate t (hown g (List.mem_cons_of_mem first hg))) m hm

/-- **All that a rule gives comes from applications.** -/
theorem application_of_mem_conclusions {f : Object} {frontier : Nat}
    (h : f ∈ conclusions rule frontier known) :
    ∃ m, Application rule known m ∧ f = substitute rule.letters m rule.consequent := by
  induction known generalizing frontier with
  | nil => simp [conclusions] at h
  | cons first later ih =>
    cases frontier with
    | zero => simp [conclusions] at h
    | succ frontier =>
      rw [conclusions, List.mem_append] at h
      rcases h with h | h
      · exact application_of_mem_conclusionsAt h
      · obtain ⟨m, hm, hf⟩ := ih h
        exact ⟨m, hm.mono (List.subset_cons_self first later), hf⟩

/-- Where the known formulas hold, so do the instances of the antecedents. -/
theorem Application.holds_antecedent {v : Object.Valuation} (h : Application rule known m)
    (hknown : ∀ g ∈ known, v.holds g) {a : Formula} (ha : a ∈ rule.antecedents) :
    v.holds (substitute rule.letters m a) := by
  obtain ⟨g, hg, hfits⟩ := h.fits (stable_worthAs v m) (agrees_worthAs v m) a ha
  exact hfits.holds_iff.mpr (hknown g hg)

theorem mem_letters {s : Symbol} :
    s ∈ rule.letters ↔ ∃ a ∈ rule.antecedents, FreeIn s a := by
  have hfold : ∀ (as : List Formula) (letters : List Symbol),
      s ∈ as.foldl (fun letters f => Ascending.union letters f.scope.free) letters ↔
        s ∈ letters ∨ ∃ a ∈ as, FreeIn s a := by
    intro as
    induction as with
    | nil => simp
    | cons a as ih =>
      intro letters
      rw [List.foldl_cons, ih, Ascending.mem_union, Formula.mem_scope_free]
      simp [or_assoc]
  simpa [Inference.letters] using hfold rule.antecedents []

/-- **No letter of the rule is left without a replacement.** An empty slot would be met by the
condition that nothing stands in its place, which the antecedent with that letter refutes. -/
theorem Application.replaced (h : Application rule known m) {s : Symbol} (hs : s ∈ rule.letters) :
    ∃ e, replacementFor rule.letters m s = some e := by
  obtain ⟨a, ha, hsa⟩ := mem_letters.mp hs
  by_contra hnone
  have hempty : Agrees (fun k _ => rule.letters.idxOf? s ≠ some k) m := by
    intro k e he hk
    exact hnone ⟨e, replacementFor_eq_some.mpr ⟨k, hk, he⟩⟩
  have hst : Stable fun k (_ : Object) => rule.letters.idxOf? s ≠ some k :=
    fun k _ _ _ hk => ⟨hk, hk⟩
  -- `a` has the letter, so what fits it puts something in the slot
  obtain ⟨g, -, hfits⟩ := h.fits hst hempty a ha
  obtain ⟨k, e, hk, hne⟩ := hfits.admits_of_freeIn hsa
  exact hne hk

/-! ## The table -/

/-- **Each rule of the table is truth-functionally valid**, whatever stands for its letters. -/
theorem consequent_holds (hrule : rule ∈ table) {v : Object.Valuation} {source : List Symbol}
    (h : ∀ a ∈ rule.antecedents, v.holds (substitute source m a)) :
    v.holds (substitute source m rule.consequent) := by
  simp only [table, List.mem_cons, List.not_mem_nil, or_false] at hrule
  rcases hrule with rfl | rfl | rfl | rfl | rfl | rfl | rfl | rfl | rfl | rfl | rfl | rfl | rfl | rfl |
    rfl <;>
  · simp only [Schema.neg, Schema.conj, Schema.disj, Schema.cond, Object.substitute,
      Object.substituteAll, v.holds_junctionOf, v.negation, v.conditional, Junctor.joins,
      List.mem_cons, List.not_mem_nil, or_false, forall_eq_or_imp, forall_eq, exists_eq_or_imp,
      exists_eq_left] at h ⊢
    tauto

/-- Every letter of a consequent occurs in an antecedent. -/
theorem consequent_letters (hrule : rule ∈ table) {s : Symbol} (hs : FreeIn s rule.consequent) :
    s ∈ rule.letters := by
  have hall : (table.all fun rule => rule.consequent.scope.free.all rule.letters.contains) = true := by
    decide
  have hletters := List.all_eq_true.mp (List.all_eq_true.mp hall rule hrule) s
  simpa using hletters (Formula.mem_scope_free.mpr hs)

theorem consequent_binders (hrule : rule ∈ table) : rule.consequent.binders = [] := by
  have hall : ∀ rule ∈ table, rule.consequent.binders = [] := by decide
  exact hall rule hrule

/-! ## Rounds -/

/-- **A formula is grounded in premises**: it holds wherever they hold, and each of its letters is
one of theirs. -/
structure Grounded (premises : List Object) (f : Object) : Prop where
  follows : ∀ v : Object.Valuation, (∀ p ∈ premises, v.holds p) → v.holds f
  letters : ∀ s, FreeIn s f.formula → ∃ p ∈ premises, FreeIn s p.formula

variable {premises explored frontier : List Object}

theorem Grounded.of_mem {p : Object} (hp : p ∈ premises) : Grounded premises p where
  follows _ h := h p hp
  letters _ hs := ⟨p, hp, hs⟩

/-- **One use of a rule keeps to what is grounded.** -/
theorem Grounded.conclusion (hknown : ∀ g ∈ known, Grounded premises g) (hrule : rule ∈ table)
    {count : Nat} {f : Object} (hf : f ∈ conclusions rule count known) : Grounded premises f := by
  obtain ⟨m, happ, rfl⟩ := application_of_mem_conclusions hf
  constructor
  · intro v hv
    apply consequent_holds hrule
    intro a ha
    exact happ.holds_antecedent (fun g hg => (hknown g hg).follows v hv) ha
  · intro s hs
    rw [Object.formula_substitute] at hs
    obtain ⟨t, ht, hst⟩ := Formula.freeIn_substitute (consequent_binders hrule) hs
    -- the letter `t` of the consequent has a replacement, so `s` comes from there
    obtain ⟨e, he⟩ := happ.replaced (consequent_letters hrule ht)
    rw [Object.replacementFor_formula, he, Option.map_some, Option.getD_some] at hst
    obtain ⟨k, -, hk⟩ := replacementFor_eq_some.mp he
    obtain ⟨g, hg, hsg⟩ := happ.within k e hk s hst
    exact (hknown g hg).letters s hsg

theorem Grounded.discovered (hknown : ∀ g ∈ frontier ++ explored, Grounded premises g)
    {rules : List Inference} (hrules : rules ⊆ table) {f : Object}
    (hf : f ∈ discover rules frontier explored) : Grounded premises f := by
  obtain ⟨rule, hrule, hf⟩ := List.mem_flatMap.mp hf
  exact Grounded.conclusion hknown (hrules hrule) hf

theorem candidates_subset : candidates frontier ⊆ table :=
  List.filter_sublist.subset

theorem finalCandidates_subset {goal : Object} : finalCandidates frontier goal ⊆ table :=
  List.Subset.trans List.filter_sublist.subset candidates_subset

/-- **New discoveries stand in the order in which they were made.** -/
theorem freshAmong_sublist : ∀ (known fs : List Object), (freshAmong known fs).Sublist fs
  | _, [] => List.nil_sublist _
  | known, f :: fs => by
    have ih := freshAmong_sublist (f :: known) fs
    rw [freshAmong]
    split
    · exact ih.cons f
    · exact ih.cons_cons f

theorem freshAmong_subset (known fs : List Object) : freshAmong known fs ⊆ fs :=
  (freshAmong_sublist known fs).subset

/-- The states of a search from some premises: what is explored and what is on the frontier. -/
inductive Reached (premises : List Object) : List Object → List Object → Prop
  | start : Reached premises [] premises
  | round (explored frontier : List Object) : Reached premises explored frontier →
      Reached premises (explored ++ frontier)
        (freshAmong (explored ++ frontier) (discover (candidates frontier) frontier explored))

/-- **What is true of the premises, and of all that a round discovers if it is true of all that was known
before, is true of all that is known in any round.** -/
theorem Reached.forall_known {P : Object → Prop} (h : Reached premises explored frontier)
    (hpremises : ∀ p ∈ premises, P p)
    (hround : ∀ explored frontier, (∀ g ∈ frontier ++ explored, P g) →
      ∀ f ∈ discover (candidates frontier) frontier explored, P f) :
    ∀ g ∈ frontier ++ explored, P g := by
  induction h with
  | start =>
    intro g hg
    exact hpremises g (by simpa using hg)
  | round explored frontier _ ih =>
    intro g hg
    rcases List.mem_append.mp hg with hg | hg
    · exact hround explored frontier ih g (freshAmong_subset _ _ hg)
    · apply ih
      rw [List.mem_append] at hg ⊢
      exact hg.symm

/-- **All that is known in any round is grounded in the premises.** -/
theorem Reached.grounded (h : Reached premises explored frontier) :
    ∀ g ∈ frontier ++ explored, Grounded premises g :=
  h.forall_known (fun _ hp => Grounded.of_mem hp)
    fun _ _ hknown _ hf => Grounded.discovered hknown candidates_subset hf

theorem knownAmong_iff {goal : Object} :
    knownAmong known goal = true ↔ ∃ f ∈ known, alike true f goal = true := by
  simp [knownAmong]

/-- A search that confirms its goal has discovered something alike that is grounded. -/
theorem search_confirmed {goal : Object} {rounds : Nat} (h : Reached premises explored frontier)
    (hs : search goal explored frontier rounds = .confirmed) :
    ∃ f, Grounded premises f ∧ alike true f goal = true := by
  -- the goal is confirmed in the last round, in an earlier one, or after it
  fun_induction search goal explored frontier rounds with
  | case3 explored frontier discovered _ hknown =>
    obtain ⟨f, hf, hgoal⟩ := knownAmong_iff.mp hknown
    exact ⟨f, Grounded.discovered h.grounded finalCandidates_subset hf, hgoal⟩
  | case6 explored frontier rounds discovered _ hknown =>
    obtain ⟨f, hf, hgoal⟩ := knownAmong_iff.mp hknown
    exact ⟨f, Grounded.discovered h.grounded candidates_subset hf, hgoal⟩
  | case7 explored frontier rounds discovered _ _ _ ih => exact ih (h.round explored frontier) hs
  | _ => exact absurd hs (by simp)

/-- A confirmed goal is alike to something grounded in the premises. -/
theorem outcome_confirmed {goal : Object} {depth : Nat}
    (h : outcome premises goal depth = .confirmed) :
    ∃ f, Grounded premises f ∧ alike true f goal = true := by
  unfold outcome at h
  split at h
  · rename_i hknown
    obtain ⟨f, hf, hgoal⟩ := knownAmong_iff.mp hknown
    exact ⟨f, Grounded.of_mem hf, hgoal⟩
  · exact search_confirmed .start h

/-- The flag is good only for a confirmed goal. -/
theorem solve_good {goal : Object} {depth : Nat} (h : (solve premises goal depth).kind = .good) :
    outcome premises goal depth = .confirmed := by
  unfold solve at h
  split at h
  · simp [Flag.explained] at h
  · cases ho : outcome premises goal depth with
    | confirmed => rfl
    | exhausted | depthReached => simp [ho, Outcome.flag, Flag.explained] at h

/-- A good flag makes the goal hold wherever the premises do. -/
theorem holds_of_solve_good {goal : Object} {depth : Nat} {v : Object.Valuation}
    (h : (solve premises goal depth).kind = .good) (hv : ∀ p ∈ premises, v.holds p) :
    v.holds goal := by
  obtain ⟨f, hf, hgoal⟩ := outcome_confirmed (solve_good h)
  exact (v.holds_like hgoal).mp (hf.follows v hv)

/-- **The solver is sound.** A goal that it calls good holds in every valuation in which the premises
hold; and whatever any rule gives in any round of a search has only letters of the premises, so no
letter of a template is left standing. -/
theorem solve_sound (premises : List Object) (goal : Object) (depth : Nat) :
    ((solve premises goal depth).kind = .good →
      ∀ v : Object.Valuation, (∀ p ∈ premises, v.holds p) → v.holds goal) ∧
    ∀ explored frontier, Reached premises explored frontier → ∀ rule ∈ table,
      ∀ f ∈ conclusions rule frontier.length (frontier ++ explored),
        (∀ v : Object.Valuation, (∀ p ∈ premises, v.holds p) → v.holds f) ∧
          ∀ s, FreeIn s f.formula → ∃ p ∈ premises, FreeIn s p.formula := by
  constructor
  · intro h v hv
    exact holds_of_solve_good h hv
  · intro explored frontier h rule hrule f hf
    have hgrounded := Grounded.conclusion h.grounded hrule hf
    exact ⟨hgrounded.follows, hgrounded.letters⟩

open Schema in
/-- From `a → b`, `b → c` and `a` the solver confirms `c` in its second round, and the first gives
`b`. It confirms `(∀x)(∀x)Fx` from that same object. -/
theorem solve_sound_chain :
    (solve [(Schema.cond a b).anew, (Schema.cond b c).anew, a.anew] c.anew 2).kind = .good ∧
      (∀ v : Object.Valuation,
        (∀ p ∈ [(Schema.cond a b).anew, (Schema.cond b c).anew, a.anew], v.holds p) →
          v.holds c.anew) ∧
      b.anew ∈ conclusions ⟨[Schema.cond a b, a], b, "modus ponens"⟩ 3
        [(Schema.cond a b).anew, (Schema.cond b c).anew, a.anew] ∧
      (∀ v : Object.Valuation,
        (∀ p ∈ [(Schema.cond a b).anew, (Schema.cond b c).anew, a.anew], v.holds p) →
          v.holds b.anew) ∧
      (solve [Object.boundAgain 1] (Object.boundAgain 1) 1).kind = .good ∧
      ∀ v : Object.Valuation,
        (∀ p ∈ [Object.boundAgain 1], v.holds p) → v.holds (Object.boundAgain 1) := by
  have hgood :
      (solve [(Schema.cond a b).anew, (Schema.cond b c).anew, a.anew] c.anew 2).kind = .good := by
    decide
  have hrule : (⟨[Schema.cond a b, a], b, "modus ponens"⟩ : Inference) ∈ table := by simp [table]
  have hb : b.anew ∈ conclusions ⟨[Schema.cond a b, a], b, "modus ponens"⟩ 3
      [(Schema.cond a b).anew, (Schema.cond b c).anew, a.anew] := by
    decide
  have hagain : (solve [Object.boundAgain 1] (Object.boundAgain 1) 1).kind = .good := by decide
  have hsound := solve_sound [(Schema.cond a b).anew, (Schema.cond b c).anew, a.anew] c.anew 2
  exact ⟨hgood, hsound.1 hgood, hb, (hsound.2 [] _ .start _ hrule _ hb).1, hagain,
    (solve_sound _ _ 1).1 hagain⟩

end ProofSheet.Solver
