import Mathlib.Logic.Function.Iterate
import ProofSheet.Proofs.Solver.Uses

/-!
# The stages of a search

Between two rounds a search is at a stage: it has explored some formulas and others are on its
frontier. Uses of rules that take explored formulas alone are not repeated. What they give is known
already, as long as no use was passed over when its formulas were on the frontier, and the rule that
may be passed over is modus tollens.

* `Solver.freshAmong_faithful`: **the choice of new discoveries** neither loses nor repeats one.
* `Solver.stage`: the stage of a search after some rounds.
* `Solver.outcome_confirmed_iff`: **a goal is confirmed** if it is known at the last stage or reached
  from there in the last round.
* `Solver.skipped_cases`: what a rule gives that is left out for the kinds of its antecedents.
* `Solver.Stage.Settled`, `Solver.settled_stage`: **what explored formulas give is known**, in every
  stage.
* `Solver.Stage.known_or_concluded`: whatever a rule gives is known, or is alike to something that
  the next round discovers.
-/

namespace ProofSheet.Solver

open Object (Like)

variable {rule : Inference} {f g goal : Object}

/-! ## New discoveries -/

section Fresh

variable {known fs : List Object}

theorem knownAmong_like : knownAmong known f = true ↔ ∃ k ∈ known, Like k f := knownAmong_iff

theorem knownAmong_of_like (h : knownAmong known f = true) (hfg : Like f g) :
    knownAmong known g = true := by
  obtain ⟨k, hk, hkf⟩ := knownAmong_like.mp h
  exact knownAmong_like.mpr ⟨k, hk, hkf.trans hfg⟩

theorem knownAmong_of_mem (h : f ∈ known) : knownAmong known f = true :=
  knownAmong_like.mpr ⟨f, h, .refl f⟩

theorem knownAmong_append {others : List Object} :
    knownAmong (known ++ others) f = true ↔
      knownAmong known f = true ∨ knownAmong others f = true := by
  rw [knownAmong, List.any_append, Bool.or_eq_true]
  rfl

theorem knownAmong_cons {k : Object} :
    knownAmong (k :: known) f = true ↔ Like k f ∨ knownAmong known f = true := by
  rw [knownAmong, List.any_cons, Bool.or_eq_true]
  rfl

theorem knownAmong_mono {others : List Object} (h : knownAmong known f = true)
    (hsub : known ⊆ others) : knownAmong others f = true := by
  obtain ⟨k, hk, hkf⟩ := knownAmong_like.mp h
  exact knownAmong_like.mpr ⟨k, hsub hk, hkf⟩

/-- Something known brings nothing new. -/
theorem knownAmong_cons_of_known (hf : knownAmong known f = true) :
    knownAmong (f :: known) g = true ↔ knownAmong known g = true := by
  rw [knownAmong_cons]
  exact ⟨fun h => h.elim (knownAmong_of_like hf) id, .inr⟩

/-- **Nothing is lost in the choice of new discoveries.** -/
theorem knownAmong_freshAmong : knownAmong (known ++ freshAmong known fs) g = true ↔
    knownAmong known g = true ∨ knownAmong fs g = true := by
  induction fs generalizing known with
  | nil => rw [freshAmong, List.append_nil]; simp [knownAmong]
  | cons f fs ih =>
    have hrest : knownAmong (f :: known ++ freshAmong (f :: known) fs) g = true ↔
        knownAmong known g = true ∨ knownAmong (f :: fs) g = true := by
      rw [ih, knownAmong_cons, knownAmong_cons, or_left_comm, or_assoc]
    rw [← hrest, freshAmong]
    split
    · rename_i hf
      exact (knownAmong_cons_of_known (knownAmong_append.mpr (.inl hf))).symm
    · rw [List.cons_append, knownAmong_cons, knownAmong_append, knownAmong_append, knownAmong_cons,
        or_left_comm]

/-- New discoveries are alike to nothing known. -/
theorem not_known_of_mem_freshAmong (h : f ∈ freshAmong known fs) : ¬ knownAmong known f = true := by
  induction fs generalizing known with
  | nil => cases h
  | cons f' fs ih =>
    have hrest : f ∈ freshAmong (f' :: known) fs → ¬ knownAmong known f = true := fun h hf =>
      ih h (knownAmong_cons.mpr (.inr hf))
    rw [freshAmong] at h
    split at h
    · exact hrest h
    · rcases List.mem_cons.mp h with rfl | h
      · assumption
      · exact hrest h

/-- New discoveries are not alike to one another. -/
theorem pairwise_freshAmong : (freshAmong known fs).Pairwise fun f g => ¬ Like f g := by
  induction fs generalizing known with
  | nil => exact .nil
  | cons f fs ih =>
    rw [freshAmong]
    split
    · exact ih
    · refine .cons (fun g hg hfg => ?_) ih
      exact not_known_of_mem_freshAmong hg (knownAmong_cons.mpr (.inl hfg))

/-- **The choice of new discoveries neither loses nor repeats one.** They are some of the discoveries, in
their order. No two of them are alike, and none is alike to anything known. Every discovery is one of
them, or it is alike to something known or to one of them. -/
theorem freshAmong_faithful (known fs : List Object) :
    (freshAmong known fs).Sublist fs ∧
      ((freshAmong known fs).Pairwise fun f g =>
        Object.alike true f g = false ∧ Object.alike true g f = false) ∧
      (∀ f ∈ freshAmong known fs, ∀ k ∈ known,
        Object.alike true k f = false ∧ Object.alike true f k = false) ∧
      ∀ f ∈ fs, f ∈ freshAmong known fs ∨
        ∃ g ∈ known ++ freshAmong known fs,
          Object.alike true g f = true ∧ Object.alike true f g = true := by
  have hneither : ∀ {f g : Object}, ¬ Like f g →
      Object.alike true f g = false ∧ Object.alike true g f = false := fun hfg =>
    ⟨Bool.eq_false_iff.mpr hfg, Bool.eq_false_iff.mpr fun hgf => hfg (Like.symm hgf)⟩
  refine ⟨freshAmong_sublist known fs, pairwise_freshAmong.imp hneither, ?_, ?_⟩
  · intro f hf k hk
    exact hneither fun hkf => not_known_of_mem_freshAmong hf (knownAmong_like.mpr ⟨k, hk, hkf⟩)
  · intro f hf
    have hknown : knownAmong (known ++ freshAmong known fs) f = true :=
      knownAmong_freshAmong.mpr (.inr (knownAmong_of_mem hf))
    obtain ⟨g, hg, hgf⟩ := knownAmong_like.mp hknown
    exact .inr ⟨g, hg, hgf, Like.symm hgf⟩

/-- Where `A` is known, `¬¬A` and `¬¬¬¬A` are passed over, the latter also for the former; `B ∧ C` stands
for `C ∧ ¬¬B`. A formula that binds a letter again is passed over where the same object is known, behind a
pair of negations or not, and a copy of it is kept. -/
theorem freshAmong_faithful_chain :
    let a := Object.letter 'A'
    let b := Object.letter 'B'
    let c := Object.letter 'C'
    let twice (f : Object) := Object.negation (.negation f)
    let bc := Object.junction .conjunction [b, c]
    let cb := Object.junction .conjunction [c, twice b]
    let again := Object.boundAgain 1
    let copy := Object.boundAgain 2
    let fs := [twice a, bc, again, twice (twice a), cb, twice again, copy]
    freshAmong [a] fs = [bc, again, copy] ∧
      (Object.alike true a bc = false ∧ Object.alike true bc a = false) ∧
      (cb ∈ freshAmong [a] fs ∨ ∃ g ∈ [a] ++ freshAmong [a] fs,
        Object.alike true g cb = true ∧ Object.alike true cb g = true) := by
  intro a b c twice bc cb again copy fs
  have hfresh : freshAmong [a] fs = [bc, again, copy] := by decide
  obtain ⟨-, -, hknown, hkept⟩ := freshAmong_faithful [a] fs
  refine ⟨hfresh, hknown bc (hfresh ▸ List.mem_cons_self) a List.mem_cons_self, hkept cb ?_⟩
  simp [fs]

/-- Which discoveries are new depends on what is known only up to likeness. -/
theorem freshAmong_congr {known' : List Object}
    (h : ∀ f, knownAmong known f = true ↔ knownAmong known' f = true) :
    freshAmong known fs = freshAmong known' fs := by
  induction fs generalizing known known' with
  | nil => rfl
  | cons f fs ih =>
    have hrest : freshAmong (f :: known) fs = freshAmong (f :: known') fs :=
      ih fun g => by rw [knownAmong_cons, knownAmong_cons, h]
    rw [freshAmong, freshAmong, Bool.eq_iff_iff.mpr (h f), hrest]

/-- Known formulas may be struck from the discoveries first. -/
theorem freshAmong_filter (keep : Object → Bool)
    (h : ∀ f ∈ fs, keep f = false → knownAmong known f = true) :
    freshAmong known (fs.filter keep) = freshAmong known fs := by
  induction fs generalizing known with
  | nil => rfl
  | cons f fs ih =>
    rw [List.forall_mem_cons] at h
    have hrest : freshAmong (f :: known) (fs.filter keep) = freshAmong (f :: known) fs :=
      ih fun g hg hkeep => knownAmong_cons.mpr (.inr (h.2 g hg hkeep))
    cases hkeep : keep f with
    | true => rw [List.filter_cons_of_pos hkeep, freshAmong, freshAmong, hrest]
    | false =>
      have hf := h.1 hkeep
      rw [List.filter_cons_of_neg (by simp [hkeep]), ih h.2, freshAmong, if_pos hf]
      exact freshAmong_congr fun g => (knownAmong_cons_of_known hf).symm

/-- Objects that are new, not alike to one another and alike to others there, have partners of their
own among them. -/
theorem exists_partners_append {R : Object → Object → Prop}
    (hR : ∀ {f g : Object}, R f g → Like f g) {known fresh others : List Object}
    (hknown : ∃ partners, List.Forall₂ R known partners ∧ partners.Subperm others)
    (hfresh : ∀ f ∈ fresh, ∃ g ∈ others, Like f g ∧ R f g)
    (hnew : ∀ f ∈ fresh, ¬ knownAmong known f = true)
    (hpairwise : fresh.Pairwise fun f g => ¬ Like f g) :
    ∃ partners, List.Forall₂ R (known ++ fresh) partners ∧ partners.Subperm others := by
  induction fresh generalizing known with
  | nil => rwa [List.append_nil]
  | cons f fresh ih =>
    rw [List.forall_mem_cons] at hfresh hnew
    obtain ⟨hf, hpairwise⟩ := List.pairwise_cons.mp hpairwise
    obtain ⟨partners, hpartners, hsub⟩ := hknown
    obtain ⟨g, hg, hfg, hrel⟩ := hfresh.1
    -- what `g` is the partner of already would be known and alike to `f`
    have hunused : g ∉ partners := by
      intro hmem
      obtain ⟨k, hk, hkg⟩ := Formula.exists_of_forall₂ hpartners.flip hmem
      exact hnew.1 (knownAmong_like.mpr ⟨k, hk, (hR hkg).trans hfg.symm⟩)
    rw [List.append_cons]
    refine ih ⟨partners ++ [g], ?_, ?_⟩ hfresh.2 (fun h hh hknown => ?_) hpairwise
    · exact List.rel_append hpartners (.cons hrel .nil)
    · exact (List.perm_append_singleton g partners).subperm.trans
        (List.cons_subperm_of_not_mem_of_mem hunused hg hsub)
    · rcases knownAmong_append.mp hknown with hknown | hknown
      · exact hnew.2 h hh hknown
      · obtain ⟨k, hk, hkh⟩ := knownAmong_like.mp hknown
        rw [List.mem_singleton] at hk
        exact hf h hh (hk ▸ hkh)

end Fresh

/-! ## Stages -/

/-- A stage of a search: what is explored and what is on the frontier. -/
structure Stage where
  explored : List Object
  frontier : List Object

namespace Stage

/-- All that is known at a stage. -/
def known (s : Stage) : List Object := s.explored ++ s.frontier

/-- What rules give at a stage when at least one formula is taken from the frontier. -/
def concluded (s : Stage) (rule : Inference) : List Object :=
  conclusions rule s.frontier.length (s.frontier ++ s.explored)

/-- What a round discovers that is not the last. -/
def discovered (s : Stage) : List Object := discover (candidates s.frontier) s.frontier s.explored

/-- The stage after one more round. -/
def next (s : Stage) : Stage := ⟨s.known, freshAmong s.known s.discovered⟩

/-- A goal is known at a stage, or it is reached from there in a last round. -/
def Reaches (s : Stage) (goal : Object) : Prop :=
  knownAmong s.known goal = true ∨
    knownAmong (discover (finalCandidates s.frontier goal) s.frontier s.explored) goal = true

end Stage

/-- The stage of a search from some premises after a number of rounds. -/
def stage (premises : List Object) (n : Nat) : Stage := Stage.next^[n] ⟨[], premises⟩

variable {s : Stage} {premises : List Object}

theorem stage_succ (n : Nat) : stage premises (n + 1) = (stage premises n).next :=
  Function.iterate_succ_apply' _ _ _

theorem mem_discover {rules : List Inference} :
    f ∈ discover rules s.frontier s.explored ↔ ∃ rule ∈ rules, f ∈ s.concluded rule :=
  List.mem_flatMap

/-- What the members of a list bring that pass a test. -/
theorem flatMap_filter_eq {α β : Type} {test : α → Bool} {all some : α → List β} :
    ∀ {as : List α}, (∀ a ∈ as, all a = if test a then some a else []) →
      as.flatMap all = (as.filter test).flatMap some
  | [], _ => rfl
  | a :: as, h => by
    rw [List.forall_mem_cons] at h
    rw [List.flatMap_cons, flatMap_filter_eq h.2, h.1]
    cases htest : test a <;> simp [htest]

/-- What a rule gives is discovered with the rules that are tried. -/
theorem knownAmong_discover {rules : List Inference} (hrule : rule ∈ rules)
    (h : knownAmong (s.concluded rule) g = true) :
    knownAmong (discover rules s.frontier s.explored) g = true :=
  knownAmong_mono h fun _ hf => mem_discover.mpr ⟨rule, hrule, hf⟩

theorem knownAmong_next : knownAmong s.next.known g = true ↔
    knownAmong s.known g = true ∨ knownAmong s.discovered g = true :=
  knownAmong_freshAmong

/-- Rules take nothing where nothing is on the frontier. -/
theorem discover_nil (rules : List Inference) (explored : List Object) :
    discover rules [] explored = [] := by
  refine List.flatMap_eq_nil_iff.mpr fun rule _ => ?_
  cases explored <;> rfl

/-- A search with an empty frontier confirms nothing. -/
theorem search_frontier_nil (explored : List Object) (rounds : Nat) :
    search goal explored [] rounds ≠ .confirmed := by
  match rounds with
  | 0 => simp [search]
  | 1 => simp [search, discover_nil]
  | rounds + 2 => simp [search, discover_nil]

theorem search_succ_confirmed_iff {rounds : Nat} :
    search goal s.explored s.frontier (rounds + 2) = .confirmed ↔
      knownAmong s.discovered goal = true ∨
        search goal s.next.explored s.next.frontier (rounds + 1) = .confirmed := by
  have hdiscovered : discover (candidates s.frontier) s.frontier s.explored = s.discovered := rfl
  rw [search, hdiscovered]
  split
  -- a round without discoveries leaves nothing on the frontier
  · rename_i hempty
    rw [List.isEmpty_iff] at hempty
    have hfrontier : s.next.frontier = [] := by rw [Stage.next, hempty]; rfl
    rw [hempty, hfrontier]
    simp [knownAmong, search_frontier_nil]
  · split
    · simp [*]
    · rename_i hgoal
      rw [or_iff_right hgoal]
      rfl

theorem search_one_confirmed_iff :
    search goal s.explored s.frontier 1 = .confirmed ↔
      knownAmong (discover (finalCandidates s.frontier goal) s.frontier s.explored) goal = true := by
  rw [search]
  split
  · rename_i hempty
    rw [List.isEmpty_iff.mp hempty]
    simp [knownAmong]
  · split <;> simp [*]

/-- A search confirms its goal by what it knows in the end. -/
theorem known_or_search_confirmed_iff {rounds : Nat} :
    knownAmong s.known goal = true ∨
        search goal s.explored s.frontier (rounds + 1) = .confirmed ↔
      (Stage.next^[rounds] s).Reaches goal := by
  induction rounds generalizing s with
  | zero => rw [search_one_confirmed_iff]; rfl
  | succ rounds ih =>
    rw [Function.iterate_succ_apply, ← ih, search_succ_confirmed_iff, ← or_assoc, knownAmong_next]

/-- **A goal is confirmed if it is known at the last stage, or reached from there in the last
round.** -/
theorem outcome_confirmed_iff {rounds : Nat} :
    outcome premises goal (rounds + 1) = .confirmed ↔ (stage premises rounds).Reaches goal := by
  rw [stage, ← known_or_search_confirmed_iff, Stage.known, List.nil_append, outcome]
  split <;> simp [*]

theorem outcome_zero_confirmed_iff :
    outcome premises goal 0 = .confirmed ↔ knownAmong premises goal = true := by
  rw [outcome]
  split <;> simp [*, search]

/-- The flag is good exactly for a confirmed goal. -/
theorem solve_good_iff {depth : Nat} :
    (solve premises goal depth).kind = .good ↔ outcome premises goal depth = .confirmed := by
  refine ⟨solve_good, fun h => ?_⟩
  cases premises with
  | nil =>
    rw [outcome, if_neg (by simp [knownAmong])] at h
    exact absurd h (search_frontier_nil [] depth)
  | cons p premises =>
    rw [solve, if_neg (by simp), h]
    rfl

/-! ## Rules that are left out -/

open Schema in
/-- Double-negation elimination, as it stands in the table. -/
def doubleNegation : Inference := ⟨[neg (neg a)], a, "double-negation elimination"⟩

open Schema in
/-- Modus tollens, as it stands in the table. -/
def modusTollens : Inference := ⟨[cond a b, neg b], neg a, "modus tollens"⟩

theorem like_opposite_opposite (f : Object) : Like (opposite (opposite f)) f := by
  cases f with
  | negation f p =>
    cases f with
    | negation f q =>
      rw [← Object.like_core_right, Object.core_doubled, Object.like_core_right]
      exact .refl f
    | _ => exact (Like.refl _).negation
  | _ => exact .refl _

/-- Double-negation elimination gives something alike to what it takes. -/
theorem Gives.of_doubleNegation {used : List Object} (h : Gives doubleNegation used f) :
    ∃ x ∈ used, Like x f := by
  cases h with
  | @one t x m ht hm =>
    cases ht
    rw [Schema.neg, Schema.neg, matchTemplate_negation, matchTemplate_negation] at hm
    obtain ⟨k, hk, rfl⟩ := mem_matchTemplate_letter hm
    have hletters : doubleNegation.letters = ['a'] := by decide
    rw [hletters] at hk ⊢
    cases hk
    refine ⟨x, List.mem_cons_self, ?_⟩
    exact (Object.like_core_left.mpr (like_opposite_opposite x)).symm
  | two ht => exact absurd ht.length_eq (by simp [doubleNegation])

/-- The first formula that a rule takes meets one of its antecedents. -/
theorem Gives.exists_match {x : Object} {used : List Object} (h : Gives rule (x :: used) f) :
    ∃ t ∈ rule.antecedents, ∃ m, m ∈ matchTemplate rule.letters t x := by
  cases h with
  | @one t _ m ht hm => exact ⟨t, by simp [ht], m, hm⟩
  | @two t _ _ _ _ ht hm =>
    obtain ⟨m, hm, _⟩ := Mapping.mem_joinAll.mp hm
    exact ⟨t, ht.symm.subset (by simp), m, hm⟩

/-- A template other than a letter meets formulas of its own kind, except that a negated template
meets any formula that its inside meets negated. -/
theorem kind_of_match {t : Formula} {letters : List Symbol} {m : Mapping Object}
    (hm : m ∈ matchTemplate letters t f) (hletter : t.kind ≠ .letter) (hkind : t.kind ≠ f.kind) :
    ∃ t', t = .negation t' ∧ m ∈ matchTemplate letters t' (.negation f) := by
  cases t with
  | letter => exact absurd rfl hletter
  | negation t =>
    refine ⟨t, rfl, ?_⟩
    cases f with
    | negation => exact absurd rfl hkind
    | _ => exact hm
  | junction =>
    obtain ⟨_, _, rfl, _⟩ := mem_matchTemplate_junction hm
    exact absurd rfl hkind
  | conditional =>
    obtain ⟨_, _, _, rfl, _⟩ := mem_matchTemplate_conditional hm
    exact absurd rfl hkind
  | biconditional =>
    obtain ⟨_, _, _, rfl, _⟩ := mem_matchTemplate_biconditional hm
    exact absurd rfl hkind
  | _ => exact absurd hm List.not_mem_nil

theorem mem_candidates {frontier : List Object} :
    rule ∈ candidates frontier ↔ rule ∈ table ∧
      ∃ t ∈ rule.antecedents, t.kind = .letter ∨ ∃ f ∈ frontier, t.kind = f.kind := by
  simp only [candidates, Inference.hasAntecedent, List.mem_filter, Bool.or_eq_true, List.any_eq_true,
    decide_eq_true_eq]
  constructor
  · rintro ⟨hrule, ⟨t, ht, hkind⟩ | ⟨f, hf, t, ht, hkind⟩⟩
    · exact ⟨hrule, t, ht, .inl hkind⟩
    · exact ⟨hrule, t, ht, .inr ⟨f, hf, hkind⟩⟩
  · rintro ⟨hrule, t, ht, hkind | ⟨f, hf, hkind⟩⟩
    · exact ⟨hrule, .inl ⟨t, ht, hkind⟩⟩
    · exact ⟨hrule, .inr ⟨f, hf, t, ht, hkind⟩⟩

theorem exists_gives_of_concluded (hrule : rule ∈ table) (hf : f ∈ s.concluded rule) :
    ∃ x used, x ∈ s.frontier ∧ (x :: used).Sublist (s.frontier ++ s.explored) ∧
      Gives rule (x :: used) f := by
  obtain ⟨fresh, old, hfresh, hold, hne, hgives⟩ := (mem_conclusions_iff hrule).mp hf
  obtain ⟨x, fresh, rfl⟩ := List.exists_cons_of_ne_nil hne
  exact ⟨x, fresh ++ old, hfresh.subset List.mem_cons_self, hfresh.append hold, hgives⟩

/-- **What a rule gives that is left out** is known, unless the rule is modus tollens. -/
theorem skipped_cases (hrule : rule ∈ table) (hskipped : rule ∉ candidates s.frontier)
    (hf : f ∈ s.concluded rule) : rule = modusTollens ∨ knownAmong s.known f = true := by
  obtain ⟨x, used, hx, hsub, hgives⟩ := exists_gives_of_concluded hrule hf
  obtain ⟨t, ht, m, hm⟩ := hgives.exists_match
  simp only [mem_candidates, hrule, true_and, not_exists, not_and, not_or] at hskipped
  obtain ⟨hletter, hkind⟩ := hskipped t ht
  obtain ⟨t', rfl, hinside⟩ := kind_of_match hm hletter fun h => hkind x hx h
  -- apart from the two rules, what stands negated in an antecedent is a junction
  have htable : ∀ rule ∈ table, rule = modusTollens ∨ rule = doubleNegation ∨
      ∀ t ∈ rule.antecedents, ∀ t', t = .negation t' → t'.kind = .junction := by
    simp [table, modusTollens, doubleNegation, Schema.a, Schema.b, Schema.c, Schema.neg, Schema.conj,
      Schema.disj, Schema.cond, Formula.kind]
  rcases htable rule hrule with htollens | rfl | hjunction
  · exact .inl htollens
  · obtain ⟨k, hk, hkf⟩ := hgives.of_doubleNegation
    exact .inr (knownAmong_like.mpr ⟨k, List.perm_append_comm.subset (hsub.subset hk), hkf⟩)
  · have hinner : t'.kind = .junction := hjunction _ ht t' rfl
    obtain ⟨_, rfl, _⟩ := kind_of_match hinside (by simp [hinner]) (by simp [hinner])
    cases hinner

/-- Modus tollens is tried, or it gives nothing that is not known. -/
def Stage.TollensTried (s : Stage) : Prop :=
  modusTollens ∈ candidates s.frontier ∨
    ∀ f ∈ s.concluded modusTollens, knownAmong s.known f = true

instance (s : Stage) : Decidable s.TollensTried := inferInstanceAs (Decidable (_ ∨ _))

/-- With nothing explored, modus tollens is tried wherever it gives something. -/
theorem tollensTried_start : (Stage.mk [] premises).TollensTried := by
  have hrule : modusTollens ∈ table := by simp [table, modusTollens]
  rw [Stage.TollensTried, or_iff_not_imp_left]
  intro hskipped f hf
  obtain ⟨x, used, _, hsub, hgives⟩ := exists_gives_of_concluded hrule hf
  rw [List.append_nil] at hsub
  simp only [mem_candidates, hrule, true_and, not_exists, not_and, not_or] at hskipped
  have hcond := (hskipped (Schema.cond Schema.a Schema.b) (by simp [modusTollens])).2
  -- whichever formula is taken for the conditional is a conditional on the frontier
  have hnone : ∀ x ∈ premises, ∀ m, m ∉ matchTemplate modusTollens.letters
      (Schema.cond Schema.a Schema.b) x := by
    intro x hx m hm
    obtain ⟨_, _, _, rfl, _⟩ := mem_matchTemplate_conditional hm
    exact hcond _ hx rfl
  cases hgives with
  | one ht => cases ht
  | @two _ _ x y _ ht hmn =>
    obtain ⟨m, hm, n, hn, _⟩ := Mapping.mem_joinAll.mp hmn
    rcases List.pair_perm.mp ht with heq | heq <;> cases heq
    · exact absurd hm (hnone x (hsub.subset (by simp)) m)
    · exact absurd hn (hnone y (hsub.subset (by simp)) n)

/-- **What a rule gives that is left out is known**, if modus tollens is tried or gives nothing new. -/
theorem known_of_skipped (htollens : s.TollensTried) (hrule : rule ∈ table)
    (hskipped : rule ∉ candidates s.frontier) (hf : f ∈ s.concluded rule) :
    knownAmong s.known f = true := by
  rcases skipped_cases hrule hskipped hf with rfl | hknown
  · exact htollens.resolve_left hskipped f hf
  · exact hknown

/-! ## What explored formulas give -/

/-- **What explored formulas give is known**, up to likeness. -/
def Stage.Settled (s : Stage) : Prop :=
  ∀ rule ∈ table, ∀ used f, used.Subperm s.explored → Gives rule used f → knownAmong s.known f = true

theorem settled_start : (Stage.mk [] premises).Settled := by
  intro rule _ used f hused hgives
  cases List.subperm_nil.mp hused
  cases hgives

/-- **Whatever a rule gives at a stage is known, or is alike to something that a round discovers**
which tries the rule. -/
theorem Stage.known_or_concluded (hsettled : s.Settled) (htollens : s.TollensTried)
    (hrule : rule ∈ table) {used : List Object} (hused : used.Subperm s.known)
    (hgives : Gives rule used f) :
    knownAmong s.known f = true ∨
      rule ∈ candidates s.frontier ∧ knownAmong (s.concluded rule) f = true := by
  -- the formulas used, in the order in which a round takes them
  obtain ⟨ordered, hperm, hsub⟩ := hused.trans List.perm_append_comm.subperm
  obtain ⟨fresh, old, rfl, hfresh, hold⟩ := List.sublist_append_iff.mp hsub
  obtain ⟨g, hgives, hfg⟩ := hgives.perm hrule hperm
  by_cases hne : fresh = []
  · subst hne
    exact .inl (knownAmong_of_like (hsettled rule hrule old g hold.subperm hgives) hfg.symm)
  · have hmem : g ∈ s.concluded rule :=
      (mem_conclusions_iff hrule).mpr ⟨fresh, old, hfresh, hold, hne, hgives⟩
    by_cases hcandidate : rule ∈ candidates s.frontier
    · exact .inr ⟨hcandidate, knownAmong_like.mpr ⟨g, hmem, hfg.symm⟩⟩
    · exact .inl (knownAmong_of_like (known_of_skipped htollens hrule hcandidate hmem) hfg.symm)

/-- One round keeps what explored formulas give known. -/
theorem Stage.Settled.next (hsettled : s.Settled) (htollens : s.TollensTried) :
    s.next.Settled := by
  intro rule hrule used f hused hgives
  have hfound := known_or_concluded hsettled htollens hrule hused hgives
  exact knownAmong_next.mpr (hfound.imp_right fun ⟨hcandidate, h⟩ => knownAmong_discover hcandidate h)

/-- **In every stage, what explored formulas give is known**, if modus tollens was tried in the
stages before. -/
theorem settled_stage {n : Nat} (htollens : ∀ m < n, (stage premises m).TollensTried) :
    (stage premises n).Settled := by
  induction n with
  | zero => exact settled_start
  | succ n ih =>
    rw [stage_succ]
    exact (ih fun m hm => htollens m (by omega)).next (htollens n (by omega))

end ProofSheet.Solver
