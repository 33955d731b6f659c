import ProofSheet.Proofs.Solver.Stages

/-!
# Depth

Searches of different depths from the same premises go through the same stages. They differ in the
last round, which tries only the rules whose consequent is a letter or of the kind of the goal.

* `Solver.Stage.Reaches.known_next`: what the last round reaches is known after a full round.
* `Solver.solve_good_mono`: **a deeper search confirms whatever a shallower one confirms.**
* `Solver.stage_frontier_nil`: a frontier that is once empty stays so.
* `Solver.search_exhausted`: how a search comes to be called exhausted.
* `Solver.frontier_nil_of_exhausted`: after an exhausted search nothing is on the frontier.
* `Solver.exhausted_at_any_depth`: **an exhausted search stays exhausted at any greater depth**, if
  the rules that its last round left out give nothing new.
* `Solver.exhausted_too_early`: a search that is called exhausted at one depth and confirms its goal
  at the next.
-/

namespace ProofSheet.Solver

variable {goal : Object} {s : Stage} {premises known fs : List Object} {m n depth : Nat}

/-! ## Deeper searches -/

/-- **What is reached from a stage is known at the next**, since a full round tries all the rules of a
last round. -/
theorem Stage.Reaches.known_next (h : s.Reaches goal) : knownAmong s.next.known goal = true := by
  refine knownAmong_next.mpr (h.imp_right fun h => ?_)
  refine knownAmong_mono h fun f hf => ?_
  obtain ⟨rule, hrule, hf⟩ := mem_discover.mp hf
  have hcandidate : rule ∈ candidates s.frontier := List.mem_of_mem_filter hrule
  exact mem_discover.mpr ⟨rule, hcandidate, hf⟩

/-- What is known at a stage is known at every later one. -/
theorem knownAmong_stage_mono (hmn : m ≤ n) (h : knownAmong (stage premises m).known goal = true) :
    knownAmong (stage premises n).known goal = true := by
  induction hmn with
  | refl => exact h
  | step _ ih =>
    rw [stage_succ]
    exact knownAmong_next.mpr (.inl ih)

/-- A goal is confirmed only if it is known at the stage after the last round. -/
theorem known_of_outcome_confirmed (h : outcome premises goal depth = .confirmed) :
    knownAmong (stage premises depth).known goal = true := by
  cases depth with
  | zero => exact outcome_zero_confirmed_iff.mp h
  | succ n =>
    rw [stage_succ]
    exact (outcome_confirmed_iff.mp h).known_next

/-- **A deeper search confirms whatever a shallower one confirms.** -/
theorem solve_good_mono (premises : List Object) (goal : Object) {depth depth' : Nat}
    (hdepth : depth ≤ depth') (h : (solve premises goal depth).kind = .good) :
    (solve premises goal depth').kind = .good := by
  rw [solve_good_iff] at h ⊢
  rcases Nat.eq_or_lt_of_le hdepth with rfl | hlt
  · exact h
  · -- the round after the shorter search is not beyond the last of the longer one
    obtain ⟨n, rfl⟩ : ∃ n, depth' = n + 1 := ⟨depth' - 1, by omega⟩
    have hknown := known_of_outcome_confirmed h
    exact outcome_confirmed_iff.mpr (.inl (knownAmong_stage_mono (by omega) hknown))

open Schema in
/-- From `a ∧ b` and `a → c` the solver confirms `c` in two rounds, and so in eight. From `(∀x)(∀x)Fx` it
confirms that same object without a round, and so in eight. -/
theorem solve_good_mono_chain :
    (2 ≤ 8 ∧ (solve ([conj a b, cond a c].map Formula.anew) c.anew 2).kind = .good ∧
      (solve ([conj a b, cond a c].map Formula.anew) c.anew 8).kind = .good) ∧
    0 ≤ 8 ∧ (solve [Object.boundAgain 1] (Object.boundAgain 1) 0).kind = .good ∧
      (solve [Object.boundAgain 1] (Object.boundAgain 1) 8).kind = .good := by
  have hdepth : 2 ≤ 8 := by decide
  have hgood : (solve ([conj a b, cond a c].map Formula.anew) c.anew 2).kind = .good := by decide
  have hnone : 0 ≤ 8 := by decide
  have hagain : (solve [Object.boundAgain 1] (Object.boundAgain 1) 0).kind = .good := by decide
  exact ⟨⟨hdepth, hgood, solve_good_mono _ _ hdepth hgood⟩, hnone, hagain,
    solve_good_mono _ _ hnone hagain⟩

/-! ## Empty frontiers -/

/-- No discovery is new if all are known. -/
theorem freshAmong_eq_nil (h : ∀ f ∈ fs, knownAmong known f = true) : freshAmong known fs = [] := by
  refine List.eq_nil_iff_forall_not_mem.mpr fun f hf => ?_
  exact not_known_of_mem_freshAmong hf (h f (freshAmong_subset known fs hf))

theorem Stage.next_frontier_nil (h : s.discovered = []) : s.next.frontier = [] := by
  rw [Stage.next, h]
  rfl

theorem Stage.discovered_nil (h : s.frontier = []) : s.discovered = [] := by
  rw [Stage.discovered, h]
  exact discover_nil _ _

theorem iterate_frontier_nil (h : s.frontier = []) (k : Nat) :
    (Stage.next^[k] s).frontier = [] := by
  induction k with
  | zero => exact h
  | succ k ih =>
    rw [Function.iterate_succ_apply']
    exact Stage.next_frontier_nil (Stage.discovered_nil ih)

/-- **A frontier that is once empty stays so.** -/
theorem stage_frontier_nil (hmn : m ≤ n) (h : (stage premises m).frontier = []) :
    (stage premises n).frontier = [] := by
  obtain ⟨k, rfl⟩ := Nat.exists_eq_add_of_le' hmn
  rw [stage, Function.iterate_add_apply]
  exact iterate_frontier_nil h k

/-- Once the frontier is empty, no more becomes known. -/
theorem known_of_frontier_nil (hmn : m ≤ n) (h : (stage premises m).frontier = [])
    (hgoal : knownAmong (stage premises n).known goal = true) :
    knownAmong (stage premises m).known goal = true := by
  induction hmn with
  | refl => exact hgoal
  | @step n hmn ih =>
    rw [stage_succ, knownAmong_next, Stage.discovered_nil (stage_frontier_nil hmn h)] at hgoal
    exact ih (hgoal.resolve_right (by simp [knownAmong]))

/-! ## Exhausted searches -/

/-- A search that does not confirm its goal is exhausted once its frontier is empty. -/
theorem search_eq_exhausted {rounds : Nat} (hgoal : search goal s.explored s.frontier rounds ≠ .confirmed)
    (hm : m < rounds) (h : (Stage.next^[m] s).frontier = []) :
    search goal s.explored s.frontier rounds = .exhausted := by
  induction rounds generalizing s m with
  | zero => omega
  | succ rounds ih =>
    cases rounds with
    | zero =>
      obtain rfl : m = 0 := by omega
      rw [Function.iterate_zero_apply] at h
      simp [search, h, discover_nil]
    | succ rounds =>
      have hdiscovered : discover (candidates s.frontier) s.frontier s.explored = s.discovered := rfl
      rw [search, hdiscovered] at hgoal ⊢
      split
      · rfl
      · rename_i hnonempty
        rw [if_neg hnonempty] at hgoal
        split
        · rename_i hknown
          exact absurd (if_pos hknown) hgoal
        · rename_i hknown
          rw [if_neg hknown] at hgoal
          cases m with
          | zero => exact absurd (Stage.discovered_nil h) (by simpa using hnonempty)
          | succ m =>
            rw [Function.iterate_succ_apply] at h
            exact ih (s := s.next) hgoal (by omega) h

/-- **How a search comes to be called exhausted**: a round before the last discovered nothing, so that
nothing is left to take, or the rules of the last round gave nothing. -/
theorem search_exhausted (h : search goal s.explored s.frontier (n + 1) = .exhausted) :
    (Stage.next^[n + 1] s).frontier = [] ∨
      discover (finalCandidates (Stage.next^[n] s).frontier goal) (Stage.next^[n] s).frontier
        (Stage.next^[n] s).explored = [] := by
  induction n generalizing s with
  | zero =>
    rw [search] at h
    split at h
    · rename_i hempty
      exact .inr (List.isEmpty_iff.mp hempty)
    · split at h <;> cases h
  | succ n ih =>
    rw [search] at h
    split at h
    · rename_i hempty
      left
      rw [Function.iterate_succ_apply]
      exact iterate_frontier_nil (Stage.next_frontier_nil (List.isEmpty_iff.mp hempty)) _
    · split at h
      · cases h
      · exact ih (s := s.next) h

/-- The rules that a last round leaves out for the kind of its goal give nothing new. -/
def Stage.LeavesOutNothing (s : Stage) (goal : Object) : Prop :=
  ∀ rule ∈ candidates s.frontier, rule ∉ finalCandidates s.frontier goal →
    ∀ f ∈ s.concluded rule, knownAmong s.known f = true

instance (s : Stage) (goal : Object) : Decidable (s.LeavesOutNothing goal) :=
  inferInstanceAs (Decidable (∀ rule ∈ candidates s.frontier, _))

/-- After a last round that gave nothing and left out nothing new, the frontier is empty. -/
theorem Stage.LeavesOutNothing.next_frontier_nil (h : s.LeavesOutNothing goal)
    (hfinal : discover (finalCandidates s.frontier goal) s.frontier s.explored = []) :
    s.next.frontier = [] := by
  refine freshAmong_eq_nil fun f hf => ?_
  obtain ⟨rule, hrule, hf⟩ := mem_discover.mp hf
  by_cases hmem : rule ∈ finalCandidates s.frontier goal
  · have hdiscovered := mem_discover.mpr ⟨rule, hmem, hf⟩
    rw [hfinal] at hdiscovered
    cases hdiscovered
  · exact h rule hrule hmem f hf

/-- An outcome other than a confirmation is that of the search. -/
theorem outcome_eq_search (h : outcome premises goal depth ≠ .confirmed) :
    outcome premises goal depth = search goal [] premises depth := by
  rw [outcome] at h ⊢
  split
  · rename_i hknown
    exact absurd (if_pos hknown) h
  · rfl

/-- The flag tells how the search ended. -/
theorem solve_exhausted_iff : solve premises goal depth = Outcome.exhausted.flag ↔
    premises ≠ [] ∧ outcome premises goal depth = .exhausted := by
  rw [solve]
  cases premises with
  | nil => simp [Outcome.flag, Flag.explained]
  | cons p premises =>
    rw [if_neg (by simp)]
    cases outcome (p :: premises) goal depth <;> simp [Outcome.flag, Flag.explained]

/-- A search of no rounds at all is not called exhausted. -/
theorem exists_rounds_of_exhausted (h : outcome premises goal depth = .exhausted) :
    ∃ n, depth = n + 1 := by
  cases depth with
  | zero =>
    rw [outcome_eq_search (by rw [h]; nofun)] at h
    cases h
  | succ n => exact ⟨n, rfl⟩

/-- **After an exhausted search nothing is on the frontier**, whichever way it was exhausted, if its last
round left out nothing new. -/
theorem frontier_nil_of_exhausted (h : outcome premises goal (n + 1) = .exhausted)
    (hleft : (stage premises n).LeavesOutNothing goal) : (stage premises (n + 1)).frontier = [] := by
  rw [outcome_eq_search (by rw [h]; nofun)] at h
  rcases search_exhausted (s := ⟨[], premises⟩) h with hempty | hfinal
  · exact hempty
  · rw [stage_succ]
    exact hleft.next_frontier_nil hfinal

/-- A goal that is not confirmed is not known once nothing is on the frontier, and so never. -/
theorem not_confirmed_of_frontier_nil (hgoal : outcome premises goal (n + 1) ≠ .confirmed)
    (hfrontier : (stage premises (n + 1)).frontier = []) (hdepth : n + 1 ≤ depth) :
    outcome premises goal depth ≠ .confirmed := by
  intro h
  have hknown := known_of_frontier_nil hdepth hfrontier (known_of_outcome_confirmed h)
  rw [Stage.known, hfrontier, List.append_nil, stage_succ] at hknown
  exact hgoal (outcome_confirmed_iff.mpr (.inl hknown))

/-- **An exhausted search stays exhausted at any greater depth**, and so confirms its goal at none, if
the rules that its last round left out for the kind of the goal give nothing new. -/
theorem exhausted_at_any_depth (premises : List Object) (goal : Object) (depth : Nat)
    (hexhausted : solve premises goal depth = Outcome.exhausted.flag)
    (hleft : ∀ n, n + 1 = depth → (stage premises n).LeavesOutNothing goal) :
    ∀ depth', depth ≤ depth' → solve premises goal depth' = Outcome.exhausted.flag ∧
      (solve premises goal depth').kind ≠ .good := by
  obtain ⟨hpremises, hexhausted⟩ := solve_exhausted_iff.mp hexhausted
  obtain ⟨n, rfl⟩ := exists_rounds_of_exhausted hexhausted
  have hfrontier := frontier_nil_of_exhausted hexhausted (hleft n rfl)
  intro depth' hdepth
  have hunconfirmed : outcome premises goal depth' ≠ .confirmed :=
    not_confirmed_of_frontier_nil (by rw [hexhausted]; nofun) hfrontier hdepth
  have hsame : solve premises goal depth' = Outcome.exhausted.flag := by
    refine solve_exhausted_iff.mpr ⟨hpremises, ?_⟩
    rcases Nat.eq_or_lt_of_le hdepth with rfl | hlt
    · exact hexhausted
    · have hsearch := outcome_eq_search hunconfirmed
      rw [hsearch] at hunconfirmed ⊢
      exact search_eq_exhausted (s := ⟨[], premises⟩) hunconfirmed hlt hfrontier
  exact ⟨hsame, by rw [hsame]; decide⟩

open Schema in
/-- From `¬¬(∀x)(∀x)Fx` nothing but the object behind the negations is discovered, which is known. So the
search for `a ∧ b` is exhausted after two rounds, and after eight. -/
theorem exhausted_at_any_depth_doubled :
    solve [.negation (.negation (Object.boundAgain 1))] (conj a b).anew 2 = Outcome.exhausted.flag ∧
      (∀ n, n + 1 = 2 →
        (stage [.negation (.negation (Object.boundAgain 1))] n).LeavesOutNothing (conj a b).anew) ∧
      solve [.negation (.negation (Object.boundAgain 1))] (conj a b).anew 8 =
        Outcome.exhausted.flag := by
  have hexhausted : solve [.negation (.negation (Object.boundAgain 1))] (conj a b).anew 2 =
      Outcome.exhausted.flag := by
    decide +kernel
  have hleft : ∀ n, n + 1 = 2 →
      (stage [.negation (.negation (Object.boundAgain 1))] n).LeavesOutNothing (conj a b).anew := by
    intro n hn
    obtain rfl : n = 1 := by omega
    decide +kernel
  exact ⟨hexhausted, hleft, (exhausted_at_any_depth _ _ _ hexhausted hleft 8 (by decide)).1⟩

open Schema in
/-- **A search may be called exhausted too early.** For the goal `¬b → ¬a` a last round leaves out the
rule that turns `a → b` into `¬a ∨ b`, as its consequent is no conditional. So a search of one round
discovers nothing, and one of two rounds confirms the goal. -/
theorem exhausted_too_early :
    solve [(cond a b).anew] (cond (neg b) (neg a)).anew 1 = Outcome.exhausted.flag ∧
      (solve [(cond a b).anew] (cond (neg b) (neg a)).anew 2).kind = .good := by
  decide +kernel

end ProofSheet.Solver
