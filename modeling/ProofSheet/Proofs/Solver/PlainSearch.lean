import ProofSheet.Proofs.Solver.Stages

/-!
# Plain search

A plain search has the rounds, the test for the goal and the choice of new discoveries of the
solver's search. It tries every rule in every round, and on every choice of known formulas. The
solver leaves uses out in three ways: by the kinds of antecedents, by the kind of the goal in the last
round, and where nothing is taken from the frontier.

* `Solver.plainConfirms`: the plain search.
* `Solver.plainNext_eq`: a round of both searches comes to the same stage.
* `Solver.reaches_iff`: so does the last round, as far as the goal is concerned.
* `Solver.solve_good_iff_plainConfirms`: **the solver confirms what plain search confirms**, where
  nothing is lost to pairs of negations.
* `Solver.plainConfirms_unconfirmed`: goals that plain search alone confirms.
-/

namespace ProofSheet.Solver

open Object (Like substitute)

variable {rule : Inference} {f goal : Object} {s : Stage} {premises : List Object}

/-! ## The search -/

/-- What all rules give on every choice of known formulas. -/
def discoverAll (frontier explored : List Object) : List Object :=
  discover table (frontier ++ explored) []

/-- Whether a plain search finds the goal in the given number of rounds. -/
def plainSearch (goal : Object) (explored frontier : List Object) : Nat → Bool
  | 0 => false
  | rounds + 1 =>
    let discovered := discoverAll frontier explored
    let explored := explored ++ frontier
    knownAmong discovered goal || plainSearch goal explored (freshAmong explored discovered) rounds

/-- **Whether plain search confirms a goal.** A goal that is a premise needs no round. -/
def plainConfirms (premises : List Object) (goal : Object) (depth : Nat) : Bool :=
  knownAmong premises goal || plainSearch goal [] premises depth

/-- The stage after one more round of plain search. -/
def Stage.plainNext (s : Stage) : Stage :=
  ⟨s.known, freshAmong s.known (discoverAll s.frontier s.explored)⟩

theorem known_or_plainSearch_iff {rounds : Nat} :
    knownAmong s.known goal = true ∨ plainSearch goal s.explored s.frontier rounds = true ↔
      knownAmong (Stage.plainNext^[rounds] s).known goal = true := by
  induction rounds generalizing s with
  | zero => simp [plainSearch]
  | succ rounds ih =>
    rw [Function.iterate_succ_apply, ← ih, plainSearch, Bool.or_eq_true, ← or_assoc]
    exact or_congr_left knownAmong_freshAmong.symm

theorem plainConfirms_iff {depth : Nat} : plainConfirms premises goal depth = true ↔
    knownAmong (Stage.plainNext^[depth] ⟨[], premises⟩).known goal = true := by
  rw [← known_or_plainSearch_iff, plainConfirms, Bool.or_eq_true]
  rfl

/-! ## One round -/

/-- All that a rule gives is what it gives with a formula from the frontier, and what it gives with
explored formulas alone. -/
theorem conclusions_append (rule : Inference) (frontier explored : List Object) (count : Nat) :
    conclusions rule (frontier.length + count) (frontier ++ explored) =
      conclusions rule frontier.length (frontier ++ explored) ++ conclusions rule count explored := by
  induction frontier with
  | nil =>
    have hnone : conclusions rule 0 explored = [] := by cases explored <;> rfl
    rw [List.length_nil, Nat.zero_add, List.nil_append, hnone, List.nil_append]
  | cons first frontier ih =>
    rw [List.length_cons, Nat.add_right_comm, List.cons_append, conclusions, conclusions, ih,
      List.append_assoc]

theorem discoverAll_eq : discoverAll s.frontier s.explored =
    table.flatMap fun rule => s.concluded rule ++ conclusions rule s.explored.length s.explored := by
  refine List.flatMap_congr fun rule _ => ?_
  rw [List.append_nil, List.length_append, conclusions_append]
  rfl

theorem exists_gives_of_explored (hrule : rule ∈ table)
    (hf : f ∈ conclusions rule s.explored.length s.explored) :
    ∃ used, used.Sublist s.explored ∧ Gives rule used f := by
  have hall : f ∈ conclusions rule s.explored.length (s.explored ++ []) := by
    rwa [List.append_nil]
  obtain ⟨fresh, old, hfresh, hold, -, hgives⟩ := (mem_conclusions_iff hrule).mp hall
  cases List.sublist_nil.mp hold
  exact ⟨fresh, hfresh, by rwa [List.append_nil] at hgives⟩

/-- **A round of plain search comes to the same stage as the solver's round**, where nothing is lost:
all that it discovers besides is known. -/
theorem plainNext_eq (hsettled : s.Settled) (htollens : s.TollensTried) : s.plainNext = s.next := by
  let new : Object → Bool := fun f => !knownAmong s.known f
  have hnew : ∀ f, new f = false → knownAmong s.known f = true := by simp [new]
  have hexplored : ∀ rule ∈ table,
      (conclusions rule s.explored.length s.explored).filter new = [] := by
    intro rule hrule
    refine List.filter_eq_nil_iff.mpr fun f hf => ?_
    obtain ⟨used, hused, hgives⟩ := exists_gives_of_explored hrule hf
    simp [new, hsettled rule hrule used f hused.subperm hgives]
  have hskipped : ∀ rule ∈ table, rule ∉ candidates s.frontier →
      (s.concluded rule).filter new = [] := by
    intro rule hrule hcandidate
    refine List.filter_eq_nil_iff.mpr fun f hf => ?_
    simp [new, known_of_skipped htollens hrule hcandidate hf]
  -- once what is known is struck out, both rounds discover the same formulas in the same order
  have hfilter : (discoverAll s.frontier s.explored).filter new = s.discovered.filter new := by
    rw [discoverAll_eq, Stage.discovered, discover, candidates, List.filter_flatMap,
      List.filter_flatMap]
    refine flatMap_filter_eq fun rule hrule => ?_
    rw [List.filter_append, hexplored rule hrule, List.append_nil]
    split
    · rfl
    · rename_i htest
      exact hskipped rule hrule fun hmem => htest (List.mem_filter.mp hmem).2
  rw [Stage.plainNext, Stage.next, ← freshAmong_filter new fun f _ => hnew f, hfilter,
    freshAmong_filter new fun f _ => hnew f]

/-- Rounds of both searches come to the same stage. -/
theorem iterate_plainNext_eq {n : Nat} (htollens : ∀ m < n, (stage premises m).TollensTried) :
    Stage.plainNext^[n] ⟨[], premises⟩ = stage premises n := by
  induction n with
  | zero => rfl
  | succ n ih =>
    have hbefore : ∀ m < n, (stage premises m).TollensTried := fun m hm => htollens m (by omega)
    rw [Function.iterate_succ_apply', ih hbefore, stage_succ]
    exact plainNext_eq (settled_stage hbefore) (htollens n n.lt_succ_self)

/-! ## The last round -/

/-- What a rule gives is of the kind of its consequent, if that is neither a letter nor a negation,
and then a goal that is alike to it is of this kind without its outermost pairs of negations. -/
theorem kind_core_goal {used : List Object} (hgives : Gives rule used f) (hgoal : Like f goal)
    (hletter : rule.consequent.kind ≠ .letter) (hnegation : rule.consequent.kind ≠ .negation) :
    goal.core.kind = rule.consequent.kind := by
  have hinstance : ∃ m, f = substitute rule.letters m rule.consequent := by
    cases hgives <;> exact ⟨_, rfl⟩
  obtain ⟨m, rfl⟩ := hinstance
  have hkind : (substitute rule.letters m rule.consequent).kind = rule.consequent.kind := by
    cases hconsequent : rule.consequent with
    | letter => exact absurd (by rw [hconsequent]; rfl) hletter
    | _ => rfl
  rw [← hgoal.kind_core, Object.core_of_ne, hkind]
  intro g p hg
  rw [hg] at hkind
  exact hnegation hkind.symm

theorem mem_finalCandidates {frontier : List Object} :
    rule ∈ finalCandidates frontier goal ↔ rule ∈ candidates frontier ∧
      (rule.consequent.kind = .letter ∨ rule.consequent.kind = goal.kind) := by
  simp [finalCandidates, Inference.hasConsequent]

/-- **A goal does not escape the last round** at a stage: it is no junction or conditional behind a
pair of negations, and it is a negation or no rule for negations reaches it. -/
structure Unhidden (goal : Object) (s : Stage) : Prop where
  core : goal.core.kind = .junction ∨ goal.core.kind = .conditional → goal.core = goal
  negated : goal.kind = .negation ∨
    ∀ rule ∈ table, rule.consequent.kind = .negation → knownAmong (s.concluded rule) goal = false

/-- A rule that reaches an unhidden goal is tried in the last round. -/
theorem Unhidden.mem_finalCandidates (h : Unhidden goal s) (hcandidate : rule ∈ candidates s.frontier)
    (hgoal : knownAmong (s.concluded rule) goal = true) :
    rule ∈ finalCandidates s.frontier goal := by
  have hrule := candidates_subset hcandidate
  refine Solver.mem_finalCandidates.mpr ⟨hcandidate, or_iff_not_imp_left.mpr fun hletter => ?_⟩
  -- only a negated consequent may give a formula whose core is of another kind
  by_cases hnegation : rule.consequent.kind = .negation
  · rw [hnegation]
    refine (h.negated.resolve_right fun hnone => ?_).symm
    simp [hnone rule hrule hnegation] at hgoal
  · obtain ⟨f, hf, hfg⟩ := knownAmong_like.mp hgoal
    obtain ⟨x, used, _, _, hgives⟩ := exists_gives_of_concluded hrule hf
    have hkind := kind_core_goal hgives hfg hletter hnegation
    have hcompound : goal.core.kind = .junction ∨ goal.core.kind = .conditional := by
      have hschematic := (table_schematic hrule).2
      rw [hkind]
      generalize rule.consequent = consequent at hschematic hletter hnegation
      cases hschematic with
      | letter => exact absurd rfl hletter
      | negation => exact absurd rfl hnegation
      | junction => exact .inl rfl
      | conditional => exact .inr rfl
    rw [← hkind, h.core hcompound]

/-- **The last round reaches what a plain round reaches**, where the goal does not escape it. -/
theorem reaches_iff (hsettled : s.Settled) (htollens : s.TollensTried) (hgoal : Unhidden goal s) :
    s.Reaches goal ↔ knownAmong s.plainNext.known goal = true := by
  have hplain : knownAmong s.plainNext.known goal = true ↔ knownAmong s.known goal = true ∨
      knownAmong (discoverAll s.frontier s.explored) goal = true := knownAmong_freshAmong
  rw [hplain]
  constructor
  · refine Or.imp_right fun h => ?_
    obtain ⟨f, hf, hfg⟩ := knownAmong_like.mp h
    obtain ⟨rule, hrule, hf⟩ := mem_discover.mp hf
    refine knownAmong_like.mpr ⟨f, ?_, hfg⟩
    rw [discoverAll_eq]
    exact List.mem_flatMap.mpr
      ⟨rule, finalCandidates_subset hrule, List.mem_append_left _ hf⟩
  · rintro (h | h)
    · exact .inl h
    · obtain ⟨f, hf, hfg⟩ := knownAmong_like.mp h
      rw [discoverAll_eq] at hf
      obtain ⟨rule, hrule, hf⟩ := List.mem_flatMap.mp hf
      obtain ⟨used, hused, hgives⟩ : ∃ used, used.Subperm s.known ∧ Gives rule used f := by
        rcases List.mem_append.mp hf with hf | hf
        · obtain ⟨x, used, _, hsub, hgives⟩ := exists_gives_of_concluded hrule hf
          exact ⟨_, hsub.subperm.trans List.perm_append_comm.subperm, hgives⟩
        · obtain ⟨used, hsub, hgives⟩ := exists_gives_of_explored hrule hf
          exact ⟨used, (hsub.trans (List.sublist_append_left _ _)).subperm, hgives⟩
      refine (Stage.known_or_concluded hsettled htollens hrule hused hgives).imp
        (knownAmong_of_like · hfg) ?_
      rintro ⟨hcandidate, hconcluded⟩
      have hreached := knownAmong_of_like hconcluded hfg
      exact knownAmong_discover (hgoal.mem_finalCandidates hcandidate hreached) hreached

/-! ## Whole searches -/

/-- **The solver confirms exactly what plain search confirms**, where pairs of negations hide nothing
from it. From the second stage on, modus tollens must be tried or give nothing new, since it meets
formulas of any kind by supplying a negation; and the goal must not escape the last round. -/
theorem solve_good_iff_plainConfirms (premises : List Object) (goal : Object) (depth : Nat)
    (htollens : ∀ n, 0 < n → n < depth → (stage premises n).TollensTried)
    (hgoal : ∀ n, n + 1 = depth → Unhidden goal (stage premises n)) :
    (solve premises goal depth).kind = .good ↔ plainConfirms premises goal depth = true := by
  rw [solve_good_iff, plainConfirms_iff]
  cases depth with
  | zero => exact outcome_zero_confirmed_iff
  | succ n =>
    have hall : ∀ m < n + 1, (stage premises m).TollensTried := by
      intro m hm
      cases m with
      | zero => exact tollensTried_start
      | succ m => exact htollens (m + 1) m.succ_pos hm
    have hbefore : ∀ m < n, (stage premises m).TollensTried := fun m hm => hall m (by omega)
    rw [outcome_confirmed_iff, Function.iterate_succ_apply', iterate_plainNext_eq hbefore]
    exact reaches_iff (settled_stage hbefore) (hall n n.lt_succ_self) (hgoal n rfl)

open Schema in
/-- From `e ∧ b` and `e → c`, where `e` is one object `(∀x)(∀x)Fx`, both searches confirm `c`, in the
second round. -/
theorem solve_good_iff_plainConfirms_chain :
    let e := Object.boundAgain 1
    let premises := [Object.junction .conjunction [e, b.anew], .conditional e c.anew]
    (solve premises c.anew 2).kind = .good ∧ plainConfirms premises c.anew 2 = true := by
  intro e premises
  have hgood : (solve premises c.anew 2).kind = .good := by decide +kernel
  refine ⟨hgood, (solve_good_iff_plainConfirms _ _ _ ?_ ?_).mp hgood⟩
  · intro n hpos hn
    obtain rfl : n = 1 := by omega
    decide +kernel
  · intro n hn
    obtain rfl : n = 1 := by omega
    exact ⟨by decide, by decide +kernel⟩

open Schema in
/-- **The solver leaves out uses that reach the goal**, each time for one of the conditions alone: of
conjunction introduction for `¬¬(a ∧ b)` and of the rule for conditionals for `¬¬(a → b)`, since these
goals are negations; of modus tollens for `a`, since its consequent is negated; and of modus tollens in
the second round, when neither a conditional nor a negation is new. -/
theorem plainConfirms_unconfirmed :
    let conjuncts := [a.anew, b.anew]
    let conjoined := (neg (neg (conj a b))).anew
    let disjoined := [(disj [neg a, b]).anew]
    let implied := (neg (neg (cond a b))).anew
    let negated := [(cond (neg a) b).anew, (neg b).anew]
    let later := [(cond a (neg b)).anew, (conj b c).anew]
    (plainConfirms conjuncts conjoined 1 = true ∧ (solve conjuncts conjoined 1).kind ≠ .good) ∧
      (plainConfirms disjoined implied 1 = true ∧ (solve disjoined implied 1).kind ≠ .good) ∧
      (plainConfirms negated a.anew 1 = true ∧ (solve negated a.anew 1).kind ≠ .good) ∧
      plainConfirms later (neg a).anew 2 = true ∧ (solve later (neg a).anew 2).kind ≠ .good := by
  decide +kernel

end ProofSheet.Solver
