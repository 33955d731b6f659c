import ProofSheet.Proofs.Solver.Stages

/-!
# More premises

A search from more premises, or from the same premises in another order, may know the same formulas in
other forms: of discoveries that are alike the first is kept, and a template does not look behind
pairs of negations. Where the forms that it knows hide nothing, it finds whatever the search from
fewer premises finds.

* `Solver.Stage.Covers`: what one search knows stands for all that the other knows.
* `Solver.Stage.Covers.next`, `Solver.covers_stage`: **one round, and any number of rounds, keep one
  search covered by the other.**
* `Solver.solve_good_of_more`: **more premises lose no confirmation**, where the search from them is
  open.
* `Solver.solve_depends_on_order`: an order of premises that loses a confirmation.
-/

namespace ProofSheet.Solver

open Object (Like)

variable {rule : Inference} {f g goal : Object} {s t : Stage} {ps qs : List Object}

/-! ## Formulas that stand for others -/

/-- Whether a formula hides nothing from the antecedents of the table. -/
def bareToTable (f : Object) : Bool :=
  table.all fun rule => bareToAll rule.antecedents f

/-- **A formula stands for another**: they are the same, or they are alike and the former hides
nothing from the table. -/
def StoodForBy (f g : Object) : Prop := f = g ∨ Like f g ∧ bareToTable g = true

theorem StoodForBy.standing (h : StoodForBy f g) (hrule : rule ∈ table) :
    ∀ a ∈ rule.antecedents, Standing a f g := by
  intro a ha
  refine h.imp_right fun ⟨hlike, hbare⟩ => ⟨hlike, ?_⟩
  exact bareToAll_iff.mp (List.all_eq_true.mp hbare rule hrule) a ha

theorem StoodForBy.like (h : StoodForBy f g) : Like f g := by
  rcases h with rfl | ⟨hlike, _⟩
  · exact .refl f
  · exact hlike

/-! ## One search covered by another -/

/-- **A stage covers another**: formulas known there, each taken once, stand for all that is known at
the other. -/
def Stage.Covers (t s : Stage) : Prop :=
  ∃ partners, List.Forall₂ StoodForBy s.known partners ∧ partners.Subperm t.known

theorem Stage.Covers.known (h : t.Covers s) (hgoal : knownAmong s.known goal = true) :
    knownAmong t.known goal = true := by
  obtain ⟨partners, hpartners, hsub⟩ := h
  obtain ⟨k, hk, hlike⟩ := knownAmong_like.mp hgoal
  obtain ⟨g, hg, hkg⟩ := Formula.exists_of_forall₂ hpartners hk
  exact knownAmong_like.mpr ⟨g, hsub.subset hg, hkg.like.symm.trans hlike⟩

/-- **What a rule gives at a stage is known at a stage that covers it, or the rule gives it there.** -/
theorem Stage.Covers.known_or_concluded (h : t.Covers s) (hsettled : t.Settled)
    (htollens : t.TollensTried) (hrule : rule ∈ table) (hf : f ∈ s.concluded rule) :
    knownAmong t.known f = true ∨
      rule ∈ candidates t.frontier ∧ knownAmong (t.concluded rule) f = true := by
  obtain ⟨partners, hpartners, hsub⟩ := h
  obtain ⟨x, used, _, hused, hgives⟩ := exists_gives_of_concluded hrule hf
  obtain ⟨used', hused', hsub'⟩ :=
    exists_partners (hused.subperm.trans List.perm_append_comm.subperm) hpartners
  obtain ⟨f', hgives', hlike⟩ := hgives.standing hrule
    (hused'.imp fun _ _ hstands => hstands.standing hrule)
  have hfound := Stage.known_or_concluded hsettled htollens hrule (hsub'.trans hsub) hgives'
  exact hfound.imp (knownAmong_of_like · hlike.symm)
    fun ⟨hcandidate, hconcluded⟩ => ⟨hcandidate, knownAmong_of_like hconcluded hlike.symm⟩

/-- A goal is reached from a stage that covers one from which it is reached. -/
theorem Stage.Covers.reaches (h : t.Covers s) (hsettled : t.Settled) (htollens : t.TollensTried)
    (hgoal : s.Reaches goal) : t.Reaches goal := by
  rcases hgoal with hgoal | hgoal
  · exact .inl (h.known hgoal)
  · obtain ⟨f, hf, hlike⟩ := knownAmong_like.mp hgoal
    obtain ⟨rule, hfinal, hf⟩ := mem_discover.mp hf
    have hcase := h.known_or_concluded hsettled htollens (finalCandidates_subset hfinal) hf
    refine hcase.imp (knownAmong_of_like · hlike) ?_
    rintro ⟨hcandidate, hconcluded⟩
    -- the further test of the last round is on the rule and the goal alone
    have hfinal' : rule ∈ finalCandidates t.frontier goal :=
      List.mem_filter.mpr ⟨hcandidate, (List.mem_filter.mp hfinal).2⟩
    exact knownAmong_discover hfinal' (knownAmong_of_like hconcluded hlike)

/-- **One round keeps a stage covered**, where the forms known afterwards hide nothing. -/
theorem Stage.Covers.next (h : t.Covers s) (hsettled : t.Settled) (htollens : t.TollensTried)
    (hbare : ∀ f ∈ t.next.known, bareToTable f = true) : t.next.Covers s.next := by
  have hfound : ∀ f ∈ freshAmong s.known s.discovered,
      ∃ g ∈ t.next.known, Like f g ∧ StoodForBy f g := by
    intro f hf
    obtain ⟨rule, hrule, hconcluded⟩ := mem_discover.mp (freshAmong_subset _ _ hf)
    have hfound := h.known_or_concluded hsettled htollens (candidates_subset hrule) hconcluded
    obtain ⟨g, hg, hgf⟩ := knownAmong_like.mp (knownAmong_next.mpr
      (hfound.imp_right fun ⟨hcandidate, h⟩ => knownAmong_discover hcandidate h))
    exact ⟨g, hg, hgf.symm, .inr ⟨hgf.symm, hbare g hg⟩⟩
  obtain ⟨partners, hpartners, hsub⟩ := h
  exact exists_partners_append StoodForBy.like
    ⟨partners, hpartners, hsub.trans (List.sublist_append_left _ _).subperm⟩ hfound
    (fun f hf => not_known_of_mem_freshAmong hf) pairwise_freshAmong

/-! ## Open searches -/

/-- **A stage is open**: what is known hides nothing from the table, and modus tollens is tried or
gives nothing new. -/
structure Stage.Open (s : Stage) : Prop where
  bare : ∀ f ∈ s.known, bareToTable f = true
  tollens : s.TollensTried

/-- A search of a number of rounds is open if each stage between two of its rounds is. -/
def OpenSearch (premises : List Object) (depth : Nat) : Prop :=
  ∀ n, 0 < n → n < depth → (stage premises n).Open

theorem OpenSearch.tollensTried {depth n : Nat} (h : OpenSearch qs depth) (hn : n < depth) :
    (stage qs n).TollensTried := by
  cases n with
  | zero => exact tollensTried_start
  | succ n => exact (h (n + 1) n.succ_pos hn).tollens

theorem OpenSearch.settled {depth n : Nat} (h : OpenSearch qs depth) (hn : n < depth) :
    (stage qs n).Settled :=
  settled_stage fun _ hm => h.tollensTried (hm.trans hn)

/-- **Any number of rounds keep a search covered** by one from more premises that is open. -/
theorem covers_stage (hsub : ps.Subperm qs) {depth n : Nat} (hopen : OpenSearch qs depth)
    (hn : n < depth) : (stage qs n).Covers (stage ps n) := by
  induction n with
  -- each premise stands for itself, whatever it hides
  | zero => exact ⟨ps, List.forall₂_same.mpr fun _ _ => .inl rfl, hsub⟩
  | succ n ih =>
    have hstage := hopen (n + 1) n.succ_pos hn
    have hbefore : n < depth := by omega
    rw [stage_succ] at hstage ⊢
    rw [stage_succ]
    exact (ih hbefore).next (hopen.settled hbefore) (hopen.tollensTried hbefore) hstage.bare

/-- A goal that is confirmed from premises is confirmed from more, if the search from these is open. -/
theorem outcome_confirmed_of_more {depth : Nat} (hsub : ps.Subperm qs) (hopen : OpenSearch qs depth)
    (h : outcome ps goal depth = .confirmed) : outcome qs goal depth = .confirmed := by
  cases depth with
  | zero =>
    rw [outcome_zero_confirmed_iff] at h ⊢
    exact knownAmong_mono h hsub.subset
  | succ n =>
    rw [outcome_confirmed_iff] at h ⊢
    have hlast := n.lt_succ_self
    exact (covers_stage hsub hopen hlast).reaches (hopen.settled hlast)
      (hopen.tollensTried hlast) h

/-- **More premises lose no confirmation**, if the search from them is open: a goal that the solver
confirms from some premises it confirms from more, in any order, and two orders of the premises with
open searches have one verdict. In one round every search is open. -/
theorem solve_good_of_more (ps qs : List Object) (goal : Object) (depth : Nat)
    (hopen : OpenSearch qs depth) :
    (ps.Subperm qs → (solve ps goal depth).kind = .good → (solve qs goal depth).kind = .good) ∧
      (ps.Perm qs → OpenSearch ps depth →
        ((solve ps goal depth).kind = .good ↔ (solve qs goal depth).kind = .good)) := by
  simp only [solve_good_iff]
  refine ⟨fun hsub => outcome_confirmed_of_more hsub hopen, fun hperm hopen' => ?_⟩
  exact ⟨outcome_confirmed_of_more hperm.subperm hopen,
    outcome_confirmed_of_more hperm.symm.subperm hopen'⟩

open Schema in
/-- From `e ∧ b` and `e → c`, where `e` is one object `(∀x)(∀x)Fx`, the solver confirms `c` in two
rounds, so it does with `b` besides and in another order. -/
theorem solve_good_of_more_chain :
    let e := Object.boundAgain 1
    let both := Object.junction .conjunction [e, b.anew]
    let implied := Object.conditional e c.anew
    (solve [both, implied] c.anew 2).kind = .good ∧
      (solve [implied, b.anew, both] c.anew 2).kind = .good := by
  intro e both implied
  have hgood : (solve [both, implied] c.anew 2).kind = .good := by decide +kernel
  have hopen : OpenSearch [implied, b.anew, both] 2 := by
    intro n hpos hn
    obtain rfl : n = 1 := by omega
    exact ⟨by decide +kernel, by decide +kernel⟩
  have hsub : [both, implied].Subperm [implied, b.anew, both] :=
    ⟨[implied, both], .swap .., by simp⟩
  exact ⟨hgood, (solve_good_of_more _ _ _ _ hopen).1 hsub hgood⟩

/-! ## Searches that are not open -/

/-- More premises lose the confirmation of a goal. -/
def Loses (ps qs : List Object) (goal : Object) (depth : Nat) : Prop :=
  ps.Subperm qs ∧ (solve ps goal depth).kind = .good ∧ (solve qs goal depth).kind ≠ .good

/-- A premise that gives `a → ¬¬(b → c)`. -/
def doubledPremise : Formula :=
  Schema.conj (Schema.cond Schema.a (.negation (.negation (Schema.cond Schema.b Schema.c))))
    (.letter 'd')

/-- A premise that gives `a → (b → c)`, which is alike. -/
def bluntPremise : Formula :=
  Schema.conj (Schema.cond Schema.a (Schema.cond Schema.b Schema.c)) (.letter 'e')

/-- A premise with a formula that follows from it. -/
def premisesFor (f : Formula) : List Formula := [.letter 'd', Schema.cond (.letter 'd') f]

open Schema in
/-- **The order of premises, or one premise more, may lose a confirmation**, each time for one of the
conditions of an open search alone. Of two alike formulas the first is kept, and a template takes a
junction or a conditional without a pair of negations only: as the consequent of a conditional, by
itself, or negated. In the last search nothing is hidden, but the frontier of the second round holds
neither a negation nor a conditional, so modus tollens is not tried. -/
theorem solve_depends_on_order :
    (let blunt := bluntPremise.anew
      let doubled := doubledPremise.anew
      [blunt, doubled].Perm [doubled, blunt] ∧
        Loses [blunt, doubled] [doubled, blunt] (disj [neg a, neg b, c]).anew 2 ∧
        (stage [doubled, blunt] 1).TollensTried) ∧
    (let f := conj a b
      let ps := premisesFor f
      let qs := ps ++ [neg (neg f)]
      Loses (ps.map Formula.anew) (qs.map Formula.anew) a.anew 2 ∧
        (stage (qs.map Formula.anew) 1).TollensTried) ∧
    (let f := neg (disj [a, b])
      let ps := premisesFor f
      let qs := ps ++ [neg (neg f)]
      Loses (ps.map Formula.anew) (qs.map Formula.anew) (conj (neg a) (neg b)).anew 2 ∧
        (stage (qs.map Formula.anew) 1).TollensTried) ∧
    (let f := cond a (neg b)
      let ps := premisesFor f ++ [conj b c]
      let qs := ps ++ [f]
      Loses (ps.map Formula.anew) (qs.map Formula.anew) (neg a).anew 2 ∧
        ∀ g ∈ (stage (qs.map Formula.anew) 1).known, bareToTable g = true) := by
  have hmore : ∀ (ps qs : List Formula),
      (ps.map Formula.anew).Subperm ((ps ++ qs).map Formula.anew) := fun ps qs =>
    ((List.sublist_append_left ps qs).map _).subperm
  refine ⟨⟨.swap .., ⟨(List.Perm.swap ..).subperm, ?_, ?_⟩, ?_⟩, ⟨⟨hmore _ _, ?_, ?_⟩, ?_⟩,
    ⟨⟨hmore _ _, ?_, ?_⟩, ?_⟩, ⟨hmore _ _, ?_, ?_⟩, ?_⟩
  all_goals decide +kernel

end ProofSheet.Solver
