import Mathlib.Data.List.Find
import ProofSheet.Proofs.Solver.Depth
import ProofSheet.Proofs.Solver.Hiding

/-!
# Pairs of negations in the premises

Two searches whose premises are alike one by one, and hide the same from the table, keep in step: what
one explores and has on its frontier is seen alike to what the other does, though perhaps in another
order. The discoveries of each round are alike, and of discoveries that are alike both searches keep
what the same rule gives.

* `Solver.PairedOff`: two lists hold the same, as the table sees it.
* `Solver.find_of_mem_freshAmong`: the first rule that gives something new.
* `Solver.Stage.InStep.next`, `Solver.inStep_stage`: **one round, and any number of rounds, keep two
  searches in step.**
* `Solver.solve_good_iff_of_alike`: **pairs of negations in the premises do not matter** where they
  hide the same.
* `Solver.Stage.known_of_doubleNegation`: double-negation elimination gives nothing new.
* `Solver.doubled_premise_unconfirmed`: pairs of negations that lose a confirmation.
-/

namespace ProofSheet.Solver

open Object (Like)

variable {rule : Inference} {f g goal : Object} {s t : Stage} {ps qs fs gs : List Object}

/-! ## Lists that hold the same -/

/-- Of lists that are alike one by one, both hold something alike to a formula or neither does. -/
theorem knownAmong_iff_of_forall₂ (h : List.Forall₂ Like fs gs) :
    knownAmong fs f = true ↔ knownAmong gs f = true := by
  induction h with
  | nil => rfl
  | cons hfg _ ih =>
    rw [knownAmong_cons, knownAmong_cons, ih]
    exact or_congr_left ⟨hfg.symm.trans, hfg.trans⟩

/-- **Two lists hold the same, as the table sees it**: their members pair off, each two seen alike. -/
def PairedOff (fs gs : List Object) : Prop :=
  ∃ partners, List.Forall₂ SeenAlike fs partners ∧ partners.Perm gs

namespace PairedOff

theorem symm (h : PairedOff fs gs) : PairedOff gs fs := by
  obtain ⟨partners, hpairs, hperm⟩ := h
  obtain ⟨partners', hpairs', hperm'⟩ := List.perm_comp_forall₂ hperm.symm hpairs.flip
  exact ⟨partners', hpairs'.imp fun _ _ hfg => hfg.symm, hperm'⟩

theorem append {fs' gs' : List Object} (h : PairedOff fs gs) (h' : PairedOff fs' gs') :
    PairedOff (fs ++ fs') (gs ++ gs') := by
  obtain ⟨partners, hpairs, hperm⟩ := h
  obtain ⟨partners', hpairs', hperm'⟩ := h'
  exact ⟨partners ++ partners', List.rel_append hpairs hpairs', hperm.append hperm'⟩

theorem exists_partner (h : PairedOff fs gs) (hf : f ∈ fs) : ∃ g ∈ gs, SeenAlike f g := by
  obtain ⟨partners, hpairs, hperm⟩ := h
  obtain ⟨g, hg, hfg⟩ := Formula.exists_of_forall₂ hpairs hf
  exact ⟨g, hperm.subset hg, hfg⟩

theorem openWithin (h : PairedOff fs gs) : ∀ f ∈ fs, openWithin f = true := by
  intro f hf
  obtain ⟨g, -, hfg⟩ := h.exists_partner hf
  exact hfg.left

theorem known_iff (h : PairedOff fs gs) : knownAmong fs f = true ↔ knownAmong gs f = true := by
  obtain ⟨partners, hpairs, hperm⟩ := h
  rw [knownAmong_iff_of_forall₂ (hpairs.imp fun _ _ hfg => hfg.like)]
  exact ⟨fun hf => knownAmong_mono hf hperm.subset, fun hf => knownAmong_mono hf hperm.symm.subset⟩

/-- What is taken from one list has partners that may be taken from the other. -/
theorem taken {taken : List Object} (h : PairedOff fs gs) (htaken : taken.Sublist fs) :
    ∃ partners, List.Forall₂ SeenAlike taken partners ∧ partners.Subperm gs := by
  obtain ⟨partners, hpairs, hperm⟩ := h
  obtain ⟨partners', hpairs', hsub⟩ := exists_partners htaken.subperm hpairs
  exact ⟨partners', hpairs', hsub.trans hperm.subperm⟩

end PairedOff

/-- Lists without alike members, whose members have partners in the other list, pair off. -/
theorem exists_perm_of_partners {R : Object → Object → Prop} (hR : ∀ {f g}, R f g → Like f g)
    (hfs : fs.Pairwise fun f g => ¬ Like f g) (hgs : gs.Pairwise fun f g => ¬ Like f g)
    (h : ∀ f ∈ fs, ∃ g ∈ gs, R f g) (h' : ∀ g ∈ gs, ∃ f ∈ fs, R f g) :
    ∃ partners, List.Forall₂ R fs partners ∧ partners.Perm gs := by
  have hpartners : ∀ {R : Object → Object → Prop} {fs gs : List Object},
      (∀ {f g}, R f g → Like f g) → (fs.Pairwise fun f g => ¬ Like f g) →
      (∀ f ∈ fs, ∃ g ∈ gs, R f g) →
      ∃ partners, List.Forall₂ R fs partners ∧ partners.Subperm gs := by
    intro R fs gs hR hfs h
    have hnone : ∃ partners, List.Forall₂ R [] partners ∧ partners.Subperm gs :=
      ⟨[], .nil, List.nil_subperm⟩
    exact exists_partners_append hR hnone
      (fun f hf => (h f hf).imp fun _ ⟨hg, hfg⟩ => ⟨hg, hR hfg, hfg⟩)
      (fun _ _ => by simp [knownAmong]) hfs
  obtain ⟨partners, hpairs, hsub⟩ := hpartners hR hfs h
  obtain ⟨partners', hpairs', hsub'⟩ := hpartners (R := flip R) (fun hfg => (hR hfg).symm) hgs h'
  -- there are as many on either side, so none is left over
  refine ⟨partners, hpairs, hsub.perm_of_length_le ?_⟩
  rw [hpairs'.length_eq, ← hpairs.length_eq]
  exact hsub'.length_le

/-! ## Where something new comes from -/

/-- What is new among more discoveries is new among the first, or alike to none of these. -/
theorem mem_freshAmong_append {known : List Object} (h : f ∈ freshAmong known (fs ++ gs)) :
    f ∈ fs ∨ ¬ knownAmong fs f = true ∧ ∃ known', f ∈ freshAmong known' gs := by
  induction fs generalizing known with
  | nil => exact .inr ⟨by simp [knownAmong], known, h⟩
  | cons f' fs ih =>
    have hrest : f ∈ freshAmong (f' :: known) (fs ++ gs) →
        f ∈ f' :: fs ∨ ¬ knownAmong (f' :: fs) f = true ∧ ∃ known', f ∈ freshAmong known' gs := by
      intro hmem
      have hnew := not_known_of_mem_freshAmong hmem
      rw [knownAmong_cons, not_or] at hnew
      rw [knownAmong_cons, not_or]
      exact (ih hmem).imp (List.mem_cons_of_mem f') (And.imp_left (And.intro hnew.1))
    rw [List.cons_append, freshAmong] at h
    split at h
    · exact hrest h
    · rcases List.mem_cons.mp h with rfl | h
      · exact .inl List.mem_cons_self
      · exact hrest h

/-- **Something new is kept as the first rule gives it** that gives anything alike. -/
theorem find_of_mem_freshAmong {known : List Object} {rules : List Inference}
    {given : Inference → List Object} (h : f ∈ freshAmong known (rules.flatMap given)) :
    ∃ rule, rules.find? (fun rule => knownAmong (given rule) f) = some rule ∧ f ∈ given rule := by
  induction rules generalizing known with
  | nil => cases h
  | cons rule rules ih =>
    rw [List.flatMap_cons] at h
    rcases mem_freshAmong_append h with hf | ⟨hf, known', hrest⟩
    · refine ⟨rule, List.find?_cons_of_pos ?_, hf⟩
      exact knownAmong_of_mem hf
    · obtain ⟨rule', hfind, hgiven⟩ := ih hrest
      refine ⟨rule', ?_, hgiven⟩
      rw [← hfind]
      exact List.find?_cons_of_neg hf

/-! ## Searches in step -/

/-- A rule is tried with a frontier that has formulas of the same kinds. -/
theorem candidates_of_kinds (h : ∀ f ∈ fs, ∃ g ∈ gs, f.kind = g.kind)
    (hrule : rule ∈ candidates fs) : rule ∈ candidates gs := by
  rw [mem_candidates] at hrule ⊢
  obtain ⟨hrule, a, ha, hletter | ⟨f, hf, hkind⟩⟩ := hrule
  · exact ⟨hrule, a, ha, .inl hletter⟩
  · obtain ⟨g, hg, hfg⟩ := h f hf
    exact ⟨hrule, a, ha, .inr ⟨g, hg, hkind.trans hfg⟩⟩

namespace Stage

/-- What a round that is not the last discovers by a rule: nothing, if it leaves the rule out. -/
def tried (s : Stage) (rule : Inference) : List Object :=
  if rule ∈ candidates s.frontier then s.concluded rule else []

theorem discovered_eq : s.discovered = table.flatMap s.tried := by
  refine (flatMap_filter_eq fun rule hrule => ?_).symm
  rw [tried]
  exact if_congr (by simp [candidates, hrule]) rfl rfl

theorem mem_tried : f ∈ s.tried rule ↔ rule ∈ candidates s.frontier ∧ f ∈ s.concluded rule := by
  rw [tried]
  exact List.mem_ite_nil_right

theorem knownAmong_tried_iff : knownAmong (s.tried rule) f = true ↔
    rule ∈ candidates s.frontier ∧ knownAmong (s.concluded rule) f = true := by
  simp only [knownAmong_like, mem_tried]
  tauto

theorem exists_gives_of_tried (hrule : rule ∈ table) (hf : f ∈ s.tried rule) :
    ∃ used, Gives rule used f ∧ used ⊆ s.known := by
  obtain ⟨x, used, -, hsub, hgives⟩ := exists_gives_of_concluded hrule (mem_tried.mp hf).2
  exact ⟨x :: used, hgives, fun y hy => List.perm_append_comm.subset (hsub.subset hy)⟩

/-- **Two stages are paired** if they have explored the same and have the same on their frontiers. -/
structure Paired (s t : Stage) : Prop where
  explored : PairedOff s.explored t.explored
  frontier : PairedOff s.frontier t.frontier

namespace Paired

theorem symm (h : s.Paired t) : t.Paired s := ⟨h.explored.symm, h.frontier.symm⟩

theorem known (h : s.Paired t) : PairedOff s.known t.known := h.explored.append h.frontier

/-- **What a rule gives at one stage, it gives at the other**, up to likeness. -/
theorem exists_concluded (h : s.Paired t) (hrule : rule ∈ table) (hf : f ∈ s.concluded rule) :
    ∃ g ∈ t.concluded rule, Like f g := by
  obtain ⟨fresh, old, hfresh, hold, hne, hgives⟩ := (mem_conclusions_iff hrule).mp hf
  obtain ⟨fresh', hpairs, ordered, hperm, hsub⟩ := h.frontier.taken hfresh
  obtain ⟨old', hpairs', ordered', hperm', hsub'⟩ := h.explored.taken hold
  obtain ⟨g, hg, hfg⟩ := hgives.seen hrule (List.rel_append hpairs hpairs')
  -- the partners, in the order in which the other stage holds them
  obtain ⟨g', hg', hgg'⟩ := hg.perm hrule (hperm.append hperm')
  have hne' : ordered ≠ [] := by
    rintro rfl
    rw [List.nil_perm] at hperm
    subst hperm
    exact hne (List.forall₂_nil_right_iff.mp hpairs)
  exact ⟨g', (mem_conclusions_iff hrule).mpr ⟨ordered, ordered', hsub, hsub', hne', hg'⟩,
    hfg.trans hgg'⟩

theorem knownAmong_concluded (h : s.Paired t) (hrule : rule ∈ table) :
    knownAmong (s.concluded rule) f = true ↔ knownAmong (t.concluded rule) f = true := by
  have hknown : ∀ {s t : Stage}, s.Paired t → knownAmong (s.concluded rule) f = true →
      knownAmong (t.concluded rule) f = true := by
    intro s t h hf
    obtain ⟨k, hk, hkf⟩ := knownAmong_like.mp hf
    obtain ⟨g, hg, hkg⟩ := h.exists_concluded hrule hk
    exact knownAmong_like.mpr ⟨g, hg, hkg.symm.trans hkf⟩
  exact ⟨hknown h, hknown h.symm⟩

end Paired

/-- **Two searches are in step** if their stages are paired, and both try a rule or neither does, unless
all that the rule gives is known. -/
structure InStep (s t : Stage) : Prop where
  paired : s.Paired t
  tried : ∀ rule ∈ table, (rule ∈ candidates s.frontier ↔ rule ∈ candidates t.frontier) ∨
    ∀ f, knownAmong (s.concluded rule) f = true → knownAmong s.known f = true

namespace InStep

theorem symm (h : s.InStep t) : t.InStep s where
  paired := h.paired.symm
  tried rule hrule := by
    refine (h.tried rule hrule).imp Iff.symm fun hknown f hf => ?_
    exact h.paired.known.known_iff.mp (hknown f ((h.paired.knownAmong_concluded hrule).mpr hf))

/-- Both searches discover something new by a rule, or neither does. -/
theorem knownAmong_tried (h : s.InStep t) (hrule : rule ∈ table)
    (hnew : ¬ knownAmong s.known f = true) :
    knownAmong (s.tried rule) f = true ↔ knownAmong (t.tried rule) f = true := by
  have hconcluded := h.paired.knownAmong_concluded (f := f) hrule
  rw [knownAmong_tried_iff, knownAmong_tried_iff]
  rcases h.tried rule hrule with hiff | hknown
  · exact and_congr hiff hconcluded
  · have hnone : ¬ knownAmong (s.concluded rule) f = true := mt (hknown f) hnew
    exact iff_of_false (fun hs => hnone hs.2) fun ht => hnone (hconcluded.mpr ht.2)

/-- What is new was found by a rule, the first that gives anything alike. -/
theorem exists_first (hf : f ∈ s.next.frontier) : ∃ rule ∈ table,
    table.find? (fun rule => knownAmong (s.tried rule) f) = some rule ∧ f ∈ s.tried rule := by
  rw [next, discovered_eq] at hf
  obtain ⟨rule, hfind, hgiven⟩ := find_of_mem_freshAmong hf
  exact ⟨rule, List.mem_of_find?_eq_some hfind, hfind, hgiven⟩

/-- **What one search discovers, the other discovers by the same rule**, so that it is seen alike and of
one kind. -/
theorem exists_discovery (h : s.InStep t) (hf : f ∈ s.next.frontier) :
    ∃ g ∈ t.next.frontier, SeenAlike f g ∧ f.kind = g.kind := by
  have hnew : ¬ knownAmong s.known f = true := not_known_of_mem_freshAmong hf
  have htried : ∀ rule ∈ table, knownAmong (s.tried rule) f = knownAmong (t.tried rule) f :=
    fun rule hrule => Bool.eq_iff_iff.mpr (h.knownAmong_tried hrule hnew)
  obtain ⟨rule, hrule, hfind, hgiven⟩ := exists_first hf
  -- the other search discovers something alike
  obtain ⟨g, hg, hgf⟩ : ∃ g ∈ t.next.frontier, Like g f := by
    have hknown : knownAmong (t.tried rule) f = true := by
      rw [← htried rule hrule]
      exact knownAmong_of_mem hgiven
    have hnext : knownAmong t.next.known f = true := by
      refine knownAmong_next.mpr (.inr (knownAmong_mono hknown fun k hk => ?_))
      rw [discovered_eq]
      exact List.mem_flatMap_of_mem hrule hk
    exact knownAmong_like.mp
      ((knownAmong_append.mp hnext).resolve_left (mt h.paired.known.known_iff.mpr hnew))
  obtain ⟨rule', hrule', hfind', hgiven'⟩ := exists_first hg
  -- it does so by the same rule
  obtain rfl : rule = rule' := by
    have hsame : ∀ rule ∈ table, knownAmong (t.tried rule) g = knownAmong (s.tried rule) f := by
      intro rule hrule
      rw [htried rule hrule, Bool.eq_iff_iff]
      exact ⟨fun hk => knownAmong_of_like hk hgf, fun hk => knownAmong_of_like hk hgf.symm⟩
    rw [List.find?_congr hsame, hfind] at hfind'
    exact Option.some.inj hfind'
  obtain ⟨used, hgives, hsub⟩ := exists_gives_of_tried hrule hgiven
  obtain ⟨used', hgives', hsub'⟩ := exists_gives_of_tried hrule hgiven'
  have hknown := h.paired.known
  exact ⟨g, hg, seenAlike_of_gives hrule hgives hgives' hgf.symm
    (fun x hx => hknown.openWithin x (hsub hx)) fun x hx => hknown.symm.openWithin x (hsub' hx)⟩

/-- **One round keeps two searches in step.** -/
theorem next (h : s.InStep t) : s.next.InStep t.next := by
  have hpartners : ∃ partners, List.Forall₂ SeenAlike s.next.frontier partners ∧
      partners.Perm t.next.frontier := by
    refine exists_perm_of_partners SeenAlike.like pairwise_freshAmong pairwise_freshAmong ?_ ?_
    · intro f hf
      obtain ⟨g, hg, hfg, -⟩ := h.exists_discovery hf
      exact ⟨g, hg, hfg⟩
    · intro g hg
      obtain ⟨f, hf, hgf, -⟩ := h.symm.exists_discovery hg
      exact ⟨f, hf, hgf.symm⟩
  have hkinds : ∀ {s t : Stage}, s.InStep t →
      ∀ f ∈ s.next.frontier, ∃ g ∈ t.next.frontier, f.kind = g.kind := by
    intro s t h f hf
    obtain ⟨g, hg, -, hkind⟩ := h.exists_discovery hf
    exact ⟨g, hg, hkind⟩
  exact ⟨⟨h.paired.known, hpartners⟩, fun rule _ =>
    .inl ⟨candidates_of_kinds (hkinds h), candidates_of_kinds (hkinds h.symm)⟩⟩

/-- **A goal is reached from both of two stages in step, or from neither.** -/
theorem reaches_iff (h : s.InStep t) : s.Reaches goal ↔ t.Reaches goal := by
  have hreaches : ∀ {s t : Stage}, s.InStep t → s.Reaches goal → t.Reaches goal := by
    intro s t h hgoal
    by_cases hnew : knownAmong s.known goal = true
    · exact .inl (h.paired.known.known_iff.mp hnew)
    · obtain ⟨f, hf, hlike⟩ := knownAmong_like.mp (hgoal.resolve_left hnew)
      obtain ⟨rule, hfinal, hf⟩ := mem_discover.mp hf
      obtain ⟨hcandidate, htest⟩ := List.mem_filter.mp hfinal
      have htried := (h.knownAmong_tried (finalCandidates_subset hfinal) hnew).mp
        (knownAmong_tried_iff.mpr ⟨hcandidate, knownAmong_like.mpr ⟨f, hf, hlike⟩⟩)
      obtain ⟨hcandidate', hconcluded⟩ := knownAmong_tried_iff.mp htried
      -- the further test of the last round is on the rule and the goal alone
      exact .inr (knownAmong_discover (List.mem_filter.mpr ⟨hcandidate', htest⟩) hconcluded)
  exact ⟨hreaches h, hreaches h.symm⟩

end InStep

end Stage

theorem inStep_start (h : List.Forall₂ SeenAlike ps qs) :
    (Stage.mk [] ps).InStep ⟨[], qs⟩ := by
  have hpaired : (Stage.mk [] ps).Paired ⟨[], qs⟩ :=
    ⟨⟨[], .nil, .refl _⟩, qs, h, .refl _⟩
  refine ⟨hpaired, fun rule hrule => ?_⟩
  -- where a search leaves a rule out, all that the rule gives is known
  have hskipped : ∀ {ps : List Object}, rule ∉ candidates ps → ∀ f,
      knownAmong ((Stage.mk [] ps).concluded rule) f = true →
        knownAmong (Stage.mk [] ps).known f = true := by
    intro ps hskipped f hf
    obtain ⟨k, hk, hkf⟩ := knownAmong_like.mp hf
    exact knownAmong_of_like (known_of_skipped tollensTried_start hrule hskipped hk) hkf
  by_cases hp : rule ∈ candidates ps
  · by_cases hq : rule ∈ candidates qs
    · exact .inl (iff_of_true hp hq)
    · refine .inr fun f hf => hpaired.known.known_iff.mpr (hskipped hq f ?_)
      exact (hpaired.knownAmong_concluded hrule).mp hf
  · exact .inr (hskipped hp)

/-- **Any number of rounds keep two searches in step.** -/
theorem inStep_stage (h : List.Forall₂ SeenAlike ps qs) (n : Nat) :
    (stage ps n).InStep (stage qs n) := by
  induction n with
  | zero => exact inStep_start h
  | succ n ih =>
    rw [stage_succ, stage_succ]
    exact ih.next

/-- **Pairs of negations in the premises do not matter**, where they hide the same: from premises that
are alike one by one the solver confirms the same goals, if of each two premises both or neither are
hidden, and no conditional that templates may come to inside them has a conditional for its consequent
behind a pair of negations. Without any rounds it is enough that they are alike. -/
theorem solve_good_iff_of_alike (ps qs : List Object) (goal : Object) (depth : Nat)
    (halike : List.Forall₂ (fun p q => Object.alike true p q = true) ps qs)
    (hhidden : 0 < depth → List.Forall₂ (fun p q =>
      hidden p = hidden q ∧ openWithin p = true ∧ openWithin q = true) ps qs) :
    (solve ps goal depth).kind = .good ↔ (solve qs goal depth).kind = .good := by
  rw [solve_good_iff, solve_good_iff]
  cases depth with
  | zero =>
    rw [outcome_zero_confirmed_iff, outcome_zero_confirmed_iff]
    exact knownAmong_iff_of_forall₂ halike
  | succ n =>
    have hseen : List.Forall₂ SeenAlike ps qs :=
      halike.mp (fun _ _ hlike ⟨hhidden, hp, hq⟩ => ⟨hlike, hhidden, hp, hq⟩) (hhidden n.succ_pos)
    rw [outcome_confirmed_iff, outcome_confirmed_iff]
    exact (inStep_stage hseen n).reaches_iff

open Schema in
/-- From `a ∧ b`, `a → c` and a conjunction behind a pair of negations that holds `(∀x)(∀x)Fx`, the solver
confirms `c` in two rounds, and so it does with further pairs of negations inside. -/
theorem solve_good_iff_of_alike_inside :
    let twice (f : Object) := Object.negation (.negation f)
    let e := Object.boundAgain 1
    let ps := [(conj a b).anew, (cond a c).anew, twice (.junction .conjunction [b.anew, e])]
    let qs := [(conj (neg (neg a)) b).anew, (cond (neg (neg a)) (neg (neg c))).anew,
      twice (twice (.junction .conjunction [twice e, b.anew]))]
    (solve ps c.anew 2).kind = .good ∧ (solve qs c.anew 2).kind = .good := by
  intro twice e ps qs
  have hgood : (solve ps c.anew 2).kind = .good := by decide +kernel
  refine ⟨hgood, (solve_good_iff_of_alike _ _ _ _ ?_ fun _ => ?_).mp hgood⟩
  · decide
  · decide

/-! ## What a pair of negations hides -/

/-- **Double-negation elimination gives nothing new**: what it takes off is taken off in comparisons
too. -/
theorem Stage.known_of_doubleNegation (hf : f ∈ s.concluded doubleNegation) :
    knownAmong s.known f = true := by
  have hrule : doubleNegation ∈ table := by simp [table, doubleNegation]
  obtain ⟨x, used, -, hsub, hgives⟩ := exists_gives_of_concluded hrule hf
  obtain ⟨k, hk, hkf⟩ := hgives.of_doubleNegation
  exact knownAmong_like.mpr ⟨k, List.perm_append_comm.subset (hsub.subset hk), hkf⟩

/-- Where double-negation elimination alone gives anything, nothing new is discovered. -/
theorem Stage.next_frontier_nil_of_doubleNegation
    (honly : ∀ rule ∈ table, rule ≠ doubleNegation → s.concluded rule = []) :
    s.next.frontier = [] := by
  refine freshAmong_eq_nil fun f hf => ?_
  obtain ⟨rule, hrule, hf⟩ := mem_discover.mp hf
  by_cases heq : rule = doubleNegation
  · subst heq
    exact known_of_doubleNegation hf
  · rw [honly rule (candidates_subset hrule) heq] at hf
    cases hf

/-- **Premises from which only a pair of negations can be taken off confirm nothing** but what is alike
to one of them, however many rounds there are. -/
theorem unconfirmed_of_doubleNegation
    (honly : ∀ rule ∈ table, rule ≠ doubleNegation → (stage ps 0).concluded rule = [])
    (hgoal : ¬ knownAmong ps goal = true) (depth : Nat) : (solve ps goal depth).kind ≠ .good := by
  intro hgood
  have hfrontier : (stage ps 1).frontier = [] := by
    rw [stage_succ]
    exact Stage.next_frontier_nil_of_doubleNegation honly
  have hknown := known_of_outcome_confirmed (solve_good_iff.mp hgood)
  have hlater := knownAmong_stage_mono (Nat.le_succ depth) hknown
  have hfirst := known_of_frontier_nil (Nat.le_add_left 1 depth) hfrontier hlater
  rw [Stage.known, hfrontier, List.append_nil] at hfirst
  exact hgoal hfirst

open Schema in
/-- **A pair of negations may lose a confirmation.** `¬¬(a ∧ b)` and `a ∧ b` are alike, and the latter
gives `a` in one round. From the former no number of rounds gives `a`: nothing but `a ∧ b` can be had
from it, which counts as known. A pair of negations before the consequent of `a → (b → c)` hides the
conditional there, though the premise itself is not hidden. -/
theorem doubled_premise_unconfirmed :
    let doubled := (neg (neg (conj a b))).anew
    let inside := (cond a (neg (neg (cond b c)))).anew
    let goal := (disj [neg a, neg b, c]).anew
    (Object.alike true doubled (conj a b).anew = true ∧
      (solve [(conj a b).anew] a.anew 1).kind = .good ∧
      ∀ depth, (solve [doubled] a.anew depth).kind ≠ .good) ∧
    (Object.alike true inside (cond a (cond b c)).anew = true ∧
      (solve [(cond a (cond b c)).anew] goal 1).kind = .good ∧
      (solve [inside] goal 1).kind ≠ .good) := by
  intro doubled inside goal
  -- no rule but double-negation elimination meets the doubled premise
  have honly : ∀ rule ∈ table, rule ≠ doubleNegation →
      (stage [doubled] 0).concluded rule = [] := by
    decide
  exact ⟨⟨by decide, by decide, unconfirmed_of_doubleNegation honly (by decide)⟩, by decide +kernel⟩

end ProofSheet.Solver
