import Mathlib.Data.List.Permutation
import ProofSheet.Proofs.Mapping.Joining
import ProofSheet.Proofs.Solver.Soundness

/-!
# Uses of a rule

What a round discovers is what rules give when they take known formulas, at least one of them from
the frontier. The order in which a rule takes formulas, and the pairs of negations in them, show in
what it gives only up to likeness.

* `Solver.Gives`: a rule gives a formula when it takes others, in order.
* `Solver.mem_conclusions_iff`: **what a round discovers by a rule**, as uses of the rule.
* `Solver.bare`: a formula hides nothing from a template behind a pair of negations.
* `Solver.Gives.exists_contents`: what a rule gives is made of parts of what it takes.
* `Solver.forall_discover`, `Solver.Reached.forall_of_gives`: what each use of a rule keeps, a round keeps,
  and so does **a whole search**.
* `Solver.Gives.perm`, `Solver.Gives.standing`: **a rule gives something alike** when it takes
  formulas in another order, and when it takes formulas that are alike and hide nothing.
-/

namespace ProofSheet

/-- Members that are taken at most once each have partners that are taken at most once each. -/
theorem exists_partners {α β : Type} {R : α → β → Prop} {taken as : List α} {bs : List β}
    (h : taken.Subperm as) (hpairs : List.Forall₂ R as bs) :
    ∃ partners, List.Forall₂ R taken partners ∧ partners.Subperm bs := by
  obtain ⟨ordered, hperm, hsub⟩ := h
  have hpartners : ∃ partners, List.Forall₂ R ordered partners ∧ partners.Sublist bs := by
    clear hperm
    induction hsub generalizing bs with
    | slnil => exact ⟨[], .nil, List.nil_sublist _⟩
    | cons a _ ih =>
      cases hpairs with
      | cons _ hrest =>
        obtain ⟨partners, hpartners, hsub⟩ := ih hrest
        exact ⟨partners, hpartners, hsub.cons _⟩
    | cons_cons a _ ih =>
      cases hpairs with
      | cons hfirst hrest =>
        obtain ⟨partners, hpartners, hsub⟩ := ih hrest
        exact ⟨_ :: partners, .cons hfirst hpartners, hsub.cons_cons _⟩
  obtain ⟨partners, hpartners, hsub⟩ := hpartners
  obtain ⟨partners', hpartners', hperm'⟩ := List.perm_comp_forall₂ hperm.symm hpartners
  exact ⟨partners', hpartners', hperm'.subperm.trans hsub.subperm⟩

namespace Solver

open Formula (Schematic)
open Object (Like substitute)

variable {rule : Inference} {letters : List Symbol}

/-! ## The table -/

/-- A rule has one antecedent or two. -/
theorem antecedents_cases (hrule : rule ∈ table) :
    (∃ t, rule.antecedents = [t]) ∨ ∃ t u, rule.antecedents = [t, u] := by
  have hlength : ∀ rule ∈ table, rule.antecedents.length = 1 ∨ rule.antecedents.length = 2 := by
    decide
  exact (hlength rule hrule).imp List.length_eq_one_iff.mp List.length_eq_two.mp

/-- The templates of the table are built by negations, junctions and conditionals. -/
theorem table_schematic (hrule : rule ∈ table) :
    (∀ t ∈ rule.antecedents, Schematic t) ∧ Schematic rule.consequent := by
  have hall : ∀ rule ∈ table, (∀ t ∈ rule.antecedents, Schematic t) ∧
      Schematic rule.consequent := by
    simp [table, Schema.a, Schema.b, Schema.c, Schema.neg, Schema.conj, Schema.disj, Schema.cond,
      Formula.schematic_negation_iff, Formula.schematic_junction_iff,
      Formula.schematic_conditional_iff, Schematic.letter]
  exact hall rule hrule

/-! ## Matches of what is alike -/

/-- What the inside of a negated template is matched with: the inside of a negation, and otherwise
the formula with a negation supplied. -/
def opposite : Object → Object
  | .negation f _ => f
  | f => .negation f

theorem matchTemplate_negation (t : Formula) (f : Object) :
    matchTemplate letters (.negation t) f = matchTemplate letters t (opposite f) := by
  cases f <;> rfl

theorem like_opposite {f g : Object} (h : Like f g) : Like (opposite f) (opposite g) := by
  have hside : ∀ f g : Object, Like (.negation f) g ↔ Like (opposite f) g := by
    intro f g
    cases f with
    | negation f p => rw [← Object.like_core_left, Object.core_doubled, Object.like_core_left]; rfl
    | _ => rfl
  have hleft := (hside f (.negation g)).mp h.negation
  exact ((hside g _).mp hleft.symm).symm

mutual

/-- **Whether a formula hides nothing from a template**: where, without its outermost pairs of
negations, it is a junction or a conditional as the template asks for, it is one as it stands, and
so on inside. -/
def bare : Formula → Object → Bool
  | .negation t, f => bare t (opposite f)
  | .junction junctor ts, f =>
    match f.core with
    | .junction junctor' gs _ =>
      decide (junctor' ≠ junctor) || decide (f.core = f) && gs.all (bareToAll ts)
    | _ => true
  | .conditional p q, f =>
    match f.core with
    | .conditional p' q' _ => decide (f.core = f) && bare p p' && bare q q'
    | _ => true
  | _, _ => true

/-- Whether a formula hides nothing from any of some templates. -/
def bareToAll : List Formula → Object → Bool
  | [], _ => true
  | t :: ts, f => bare t f && bareToAll ts f

end

theorem bareToAll_iff {ts : List Formula} {f : Object} :
    bareToAll ts f = true ↔ ∀ t ∈ ts, bare t f = true := by
  induction ts with
  | nil => simp [bareToAll]
  | cons t ts ih => rw [bareToAll, Bool.and_eq_true, ih, List.forall_mem_cons]

theorem bare_junction {junctor : Junctor} {ts : List Formula} {gs : List Object} {r : Option Place}
    {f : Object} (h : bare (.junction junctor ts) f = true) (hcore : f.core = .junction junctor gs r) :
    f = .junction junctor gs r ∧ ∀ g ∈ gs, ∀ t ∈ ts, bare t g = true := by
  simp only [bare, hcore, ne_eq, not_true_eq_false, decide_false, Bool.false_or, Bool.and_eq_true,
    decide_eq_true_eq, List.all_eq_true, bareToAll_iff] at h
  exact ⟨h.1.symm, h.2⟩

theorem bare_conditional {p q : Formula} {p' q' f : Object} {r : Option Place}
    (h : bare (.conditional p q) f = true) (hcore : f.core = .conditional p' q' r) :
    f = .conditional p' q' r ∧ bare p p' = true ∧ bare q q' = true := by
  simp only [bare, hcore, Bool.and_eq_true, decide_eq_true_eq] at h
  exact ⟨h.1.1.symm, h.1.2, h.2⟩

/-- A formula and another that may be taken for it: the same one, or one that is alike and hides
nothing from a template. -/
def Standing (t : Formula) (f g : Object) : Prop := f = g ∨ Like f g ∧ bare t g = true

theorem exists_akin_picks {all ts : List Formula} {partners : List Object}
    {picks : List (Object × Mapping Object)}
    (hall : ts ⊆ all)
    (hpicks : List.Forall₂ (fun t pick => pick.2 ∈ matchTemplate letters t pick.1) ts picks)
    (hpartners : List.Forall₂ (fun f g => ∀ t ∈ all, Standing t f g) (picks.map Prod.fst) partners)
    (h : ∀ t ∈ all, ∀ {f g : Object} {m : Mapping Object}, Standing t f g →
      m ∈ matchTemplate letters t f → ∃ n ∈ matchTemplate letters t g, Mapping.Akin m n) :
    ∃ picks' : List (Object × Mapping Object), picks'.map Prod.fst = partners ∧
      List.Forall₂ (fun t pick => pick.2 ∈ matchTemplate letters t pick.1) ts picks' ∧
      List.Forall₂ Mapping.Akin (picks.map Prod.snd) (picks'.map Prod.snd) := by
  induction hpicks generalizing partners with
  | nil =>
    cases hpartners
    exact ⟨[], rfl, .nil, .nil⟩
  | @cons t pick ts picks hpick _ ih =>
    rw [List.cons_subset] at hall
    cases hpartners with
    | @cons _ g _ partners hg hpartners =>
      obtain ⟨n, hn, hakin⟩ := h t hall.1 (hg t hall.1) hpick
      obtain ⟨picks', hfst, hpicks', hsnd⟩ := ih hall.2 hpartners
      exact ⟨(g, n) :: picks', by simp [hfst], .cons hn hpicks', .cons hakin hsnd⟩

/-- **Each match has a match of what is alike that is akin to it.** -/
theorem exists_akin_match {t : Formula} (ht : Schematic t) : ∀ {f g : Object} {m : Mapping Object},
    Standing t f g → m ∈ matchTemplate letters t f →
      ∃ n ∈ matchTemplate letters t g, Mapping.Akin m n := by
  induction ht with
  | letter s =>
    intro f g m hfg hm
    obtain ⟨k, hk, rfl⟩ := mem_matchTemplate_letter hm
    have hakin : Object.Akin f.core g.core := by
      refine ⟨Object.core_core f, Object.core_core g, ?_⟩
      rw [Object.like_core_left, Object.like_core_right]
      rcases hfg with rfl | ⟨hlike, _⟩
      · exact .refl f
      · exact hlike
    refine ⟨_, ?_, Mapping.akin_filledAt hakin⟩
    rw [matchTemplate, hk]
    exact List.mem_singleton_self _
  | negation _ ih =>
    intro f g m hfg hm
    rw [matchTemplate_negation] at hm ⊢
    refine ih (hfg.imp (congrArg opposite) ?_) hm
    rintro ⟨hlike, hbare⟩
    rw [bare] at hbare
    exact ⟨like_opposite hlike, hbare⟩
  | @junction junctor ts _ ih =>
    intro f g m hfg hm
    obtain ⟨fs, r, rfl, hlength, hm⟩ := mem_matchTemplate_junction hm
    -- the juncts on the other side, in the order of those on this side
    obtain ⟨gs, paired, r', rfl, hperm, hpairs⟩ : ∃ gs paired r', g = .junction junctor gs r' ∧
        paired.Perm gs ∧ List.Forall₂ (fun f g => ∀ t ∈ ts, Standing t f g) fs paired := by
      rcases hfg with rfl | ⟨hlike, hbare⟩
      · exact ⟨fs, fs, r, rfl, .refl fs, List.forall₂_same.mpr fun _ _ _ _ => .inl rfl⟩
      · obtain ⟨gs, paired, r', hcore, hperm, hpairs⟩ := hlike.exists_junction
        obtain ⟨hg, hjuncts⟩ := bare_junction hbare hcore
        refine ⟨gs, paired, r', hg, hperm, (Formula.forall₂_of_mem ?_ hpairs.flip).flip⟩
        exact fun g hmem f hfg t ht => .inr ⟨hfg, hjuncts g (hperm.subset hmem) t ht⟩
    obtain ⟨first, hfirst, picks, hsub, hpicks, hjoins⟩ := Mapping.mem_assignments_iff.mp hm
    obtain ⟨partners, hpartners, hsub'⟩ := exists_partners hsub hpairs
    obtain ⟨picks', rfl, hpicks', hakin⟩ := exists_akin_picks (List.Subset.refl ts) hpicks hpartners
      fun t ht _ _ _ => ih t ht
    rw [List.mem_singleton.mp hfirst] at hjoins
    obtain ⟨n, hn, hmn⟩ := Mapping.joins?_akin (Mapping.akin_unfilled _) hakin hjoins
    refine ⟨n, ?_, hmn⟩
    have hlength' : ts.length = gs.length := by
      rw [hlength, hpairs.length_eq, hperm.length_eq]
    simp only [matchTemplate, hlength', beq_self_eq_true, decide_true, Bool.and_self, if_true,
      matchRows_eq]
    exact Mapping.mem_assignments_iff.mpr
      ⟨_, List.mem_singleton_self _, picks', hsub'.trans hperm.subperm, hpicks', hn⟩
  | conditional _ _ ihp ihq =>
    intro f g m hfg hm
    obtain ⟨p, q, r, rfl, hm⟩ := mem_matchTemplate_conditional hm
    obtain ⟨p', q', r', rfl, hp, hq⟩ : ∃ p' q' r', g = .conditional p' q' r' ∧ Standing _ p p' ∧
        Standing _ q q' := by
      rcases hfg with rfl | ⟨hlike, hbare⟩
      · exact ⟨p, q, r, rfl, .inl rfl, .inl rfl⟩
      · obtain ⟨p', q', r', hcore, hp, hq⟩ := hlike.exists_conditional
        obtain ⟨hg, hbarep, hbareq⟩ := bare_conditional hbare hcore
        exact ⟨p', q', r', hg, .inr ⟨hp, hbarep⟩, .inr ⟨hq, hbareq⟩⟩
    exact Mapping.exists_akin_joinAll (fun _ => ihp hp) (fun _ => ihq hq) hm

theorem akin_of_mem_matchTemplate {t : Formula} {f : Object} (ht : Schematic t) {m : Mapping Object}
    (hm : m ∈ matchTemplate letters t f) : Mapping.Akin m m :=
  let ⟨_, _, hakin⟩ := exists_akin_match ht (.inl rfl) hm
  hakin.left

/-! ## Uses -/

/-- **A rule gives a formula when it takes others**, in order: one for its one antecedent, or two for
its two antecedents, either way round. -/
inductive Gives (rule : Inference) : List Object → Object → Prop
  | one {t : Formula} {x : Object} {m : Mapping Object} : rule.antecedents = [t] →
      m ∈ matchTemplate rule.letters t x →
      Gives rule [x] (substitute rule.letters m rule.consequent)
  | two {t u : Formula} {x y : Object} {m : Mapping Object} : rule.antecedents.Perm [t, u] →
      m ∈ Mapping.joinAll (matchTemplate rule.letters t x) (matchTemplate rule.letters u y) →
      Gives rule [x, y] (substitute rule.letters m rule.consequent)

/-- One row takes one column. -/
theorem mem_assignments_row {base : List (Mapping Object)} {cell : Object → List (Mapping Object)}
    {later : List Object} {m : Mapping Object} :
    m ∈ Mapping.assignments base [later.map cell] ↔
      ∃ y ∈ later, m ∈ Mapping.joinAll base (cell y) := by
  have hmatrix : [later.map cell] = [()].map fun _ => later.map cell := rfl
  rw [hmatrix, Mapping.mem_assignments_iff]
  constructor
  · rintro ⟨first, hfirst, picks, hsub, hpicks, hjoins⟩
    obtain ⟨pick, _, hmem, hnil, rfl⟩ := List.forall₂_cons_left_iff.mp hpicks
    cases hnil
    obtain ⟨next, hjoin, hnext⟩ := Mapping.joins?_cons_eq_some.mp hjoins
    cases hnext
    exact ⟨pick.1, hsub.subset (by simp), Mapping.mem_joinAll.mpr ⟨first, hfirst, pick.2, hmem, hjoin⟩⟩
  · rintro ⟨y, hy, hm⟩
    obtain ⟨first, hfirst, x, hx, hjoin⟩ := Mapping.mem_joinAll.mp hm
    refine ⟨first, hfirst, [(y, x)], ?_, .cons hx .nil, ?_⟩
    · exact List.singleton_subperm_iff.mpr hy
    · exact Mapping.joins?_cons_eq_some.mpr ⟨m, hjoin, rfl⟩

theorem mem_conclusionsAt_iff (hrule : rule ∈ table) {first f : Object} {later : List Object} :
    f ∈ conclusionsAt rule first later ↔
      ∃ others, others.Sublist later ∧ Gives rule (first :: others) f := by
  -- no mapping extends an empty base, so the test for one is idle
  have hplace : ∀ (base : List (Mapping Object)) (matrix : Mapping.Matrix Object),
      (if base.isEmpty then [] else (Mapping.assignments base matrix).map
        (substitute rule.letters · rule.consequent)) =
      (Mapping.assignments base matrix).map (substitute rule.letters · rule.consequent) := by
    intro base matrix
    cases base with
    | nil => cases matrix <;> rfl
    | cons => rfl
  have hat : conclusionsAt rule first later = rule.antecedents.zipIdx.flatMap fun antecedent =>
      (Mapping.assignments (matchTemplate rule.letters antecedent.1 first)
        ((rule.antecedents.eraseIdx antecedent.2).map fun other =>
          later.map (matchTemplate rule.letters other))).map
        (substitute rule.letters · rule.consequent) :=
    List.flatMap_congr fun _ _ => hplace _ _
  rcases antecedents_cases hrule with ⟨t, ht⟩ | ⟨t, u, ht⟩
  · simp only [hat, ht, List.zipIdx_cons, List.zipIdx_nil, List.flatMap_cons, List.flatMap_nil,
      List.append_nil, List.eraseIdx_cons_zero, List.map_nil, Mapping.assignments,
      Mapping.assignFrom, List.mem_map]
    constructor
    · rintro ⟨m, hm, rfl⟩
      exact ⟨[], List.nil_sublist _, .one ht hm⟩
    · rintro ⟨others, _, hgives⟩
      cases hgives with
      | one ht' hm =>
        cases ht.symm.trans ht'
        exact ⟨_, hm, rfl⟩
      | two ht' _ => exact absurd (ht ▸ ht').length_eq (by simp)
  · simp only [hat, ht, List.zipIdx_cons, List.zipIdx_nil, List.flatMap_cons, List.flatMap_nil,
      List.append_nil, List.eraseIdx_cons_zero, List.eraseIdx_cons_succ, List.map_cons,
      List.map_nil, mem_assignments_row, List.mem_append, List.mem_map]
    constructor
    · rintro (⟨m, ⟨y, hy, hm⟩, rfl⟩ | ⟨m, ⟨y, hy, hm⟩, rfl⟩)
      · exact ⟨[y], List.singleton_sublist.mpr hy, .two (.of_eq ht) hm⟩
      · exact ⟨[y], List.singleton_sublist.mpr hy, .two (ht ▸ .swap u t []) hm⟩
    · rintro ⟨others, hothers, hgives⟩
      cases hgives with
      | one ht' _ => cases ht.symm.trans ht'
      | two ht' hm =>
        have hy := List.singleton_sublist.mp hothers
        rw [ht] at ht'
        rcases List.pair_perm.mp ht' with heq | heq <;> cases heq
        · exact .inl ⟨_, ⟨_, hy, hm⟩, rfl⟩
        · exact .inr ⟨_, ⟨_, hy, hm⟩, rfl⟩

/-- **What a round discovers by a rule**: what it gives when it takes at least one formula from the
frontier. -/
theorem mem_conclusions_iff (hrule : rule ∈ table) {f : Object} {frontier explored : List Object} :
    f ∈ conclusions rule frontier.length (frontier ++ explored) ↔
      ∃ fresh old, fresh.Sublist frontier ∧ old.Sublist explored ∧ fresh ≠ [] ∧
        Gives rule (fresh ++ old) f := by
  induction frontier with
  | nil =>
    have hnone : conclusions rule 0 explored = [] := by cases explored <;> rfl
    simp only [List.length_nil, List.nil_append, hnone, List.not_mem_nil, false_iff]
    rintro ⟨fresh, old, hfresh, _, hne, _⟩
    exact hne (List.sublist_nil.mp hfresh)
  | cons first frontier ih =>
    rw [List.length_cons, List.cons_append, conclusions, List.mem_append, ih,
      mem_conclusionsAt_iff hrule]
    constructor
    · rintro (⟨others, hothers, hgives⟩ | ⟨fresh, old, hfresh, hold, hne, hgives⟩)
      · obtain ⟨fresh, old, rfl, hfresh, hold⟩ := List.sublist_append_iff.mp hothers
        exact ⟨first :: fresh, old, hfresh.cons_cons first, hold, by simp, hgives⟩
      · exact ⟨fresh, old, hfresh.cons first, hold, hne, hgives⟩
    · rintro ⟨fresh, old, hfresh, hold, hne, hgives⟩
      cases hfresh with
      | cons _ hfresh => exact .inr ⟨fresh, old, hfresh, hold, hne, hgives⟩
      | cons_cons _ hfresh => exact .inl ⟨_, hfresh.append hold, hgives⟩

/-! ## What passes from formulas to what rules give -/

/-- **A condition passes to the parts that templates take**: to the formula without its outermost
pairs of negations or with a negation supplied, to juncts and to the sides of conditionals. -/
structure PassesToParts (P : Object → Prop) : Prop where
  core : ∀ {f}, P f → P f.core
  opposite : ∀ {f}, P f → P (opposite f)
  juncts : ∀ {junctor fs r}, P (.junction junctor fs r) → ∀ f ∈ fs, P f
  sides : ∀ {p q r}, P (.conditional p q r) → P p ∧ P q

variable {P : Object → Prop}

theorem PassesToParts.kept (hP : PassesToParts P) : Mapping.Kept fun _ (e : Object) => P e :=
  fun _ _ h => hP.core h

/-- What a formula meets, the contents of its matches meet. -/
theorem PassesToParts.agrees (hP : PassesToParts P) {t : Formula} (ht : Schematic t) :
    ∀ {f : Object}, P f → ∀ m ∈ matchTemplate letters t f, Mapping.Agrees (fun _ e => P e) m := by
  induction ht with
  | letter s =>
    intro f hf m hm
    obtain ⟨k, -, rfl⟩ := mem_matchTemplate_letter hm
    exact Mapping.agrees_filledAt_of (hP.core hf)
  | negation _ ih =>
    intro f hf m hm
    rw [matchTemplate_negation] at hm
    exact ih (hP.opposite hf) m hm
  | junction _ ih =>
    intro f hf m hm
    obtain ⟨fs, r, rfl, -, hm⟩ := mem_matchTemplate_junction hm
    refine Mapping.agrees_assignments hP.kept ?_
      (fun t ht g hg => ih t ht (hP.juncts hf g hg)) m hm
    simp [Mapping.agrees_unfilled]
  | conditional _ _ ihp ihq =>
    intro f hf m hm
    obtain ⟨p, q, r, rfl, hm⟩ := mem_matchTemplate_conditional hm
    obtain ⟨hp, hq⟩ := hP.sides hf
    exact Mapping.agrees_joinAll hP.kept (ihp hp) (ihq hq) m hm

/-- **What a rule gives is an instance of its consequent**, whose contents are cores and meet what the
formulas meet that it takes. -/
theorem Gives.exists_contents (hrule : rule ∈ table) (hP : PassesToParts P) {used : List Object}
    {f : Object} (h : Gives rule used f) (hused : ∀ x ∈ used, P x) :
    ∃ m, Mapping.Akin m m ∧ Mapping.Agrees (fun _ e => P e) m ∧
      f = substitute rule.letters m rule.consequent := by
  have hantecedents := (table_schematic hrule).1
  cases h with
  | one ht hm =>
    rw [ht, List.forall_mem_singleton] at hantecedents
    exact ⟨_, akin_of_mem_matchTemplate hantecedents hm,
      hP.agrees hantecedents (hused _ (by simp)) _ hm, rfl⟩
  | @two t u x y _ ht hm =>
    have htu : ∀ a ∈ [t, u], Schematic a := fun a ha => hantecedents a (ht.symm.subset ha)
    have hakin : ∀ a ∈ [t, u], ∀ x, ∀ m ∈ matchTemplate rule.letters a x,
        ∃ n ∈ matchTemplate rule.letters a x, Mapping.Akin m n :=
      fun a ha _ m hm => ⟨m, hm, akin_of_mem_matchTemplate (htu a ha) hm⟩
    obtain ⟨n, -, hmn⟩ := Mapping.exists_akin_joinAll (hakin t (by simp) x) (hakin u (by simp) y) hm
    exact ⟨_, hmn.left, Mapping.agrees_joinAll hP.kept
      (hP.agrees (htu t (by simp)) (hused _ (by simp)))
      (hP.agrees (htu u (by simp)) (hused _ (by simp))) _ hm, rfl⟩

section Rounds

variable {premises explored frontier : List Object}
  (hgives : ∀ rule ∈ table, ∀ used f, Gives rule used f → (∀ x ∈ used, P x) → P f)
include hgives

/-- **What each use of a rule keeps, a round keeps**, whichever rules of the table it tries. -/
theorem forall_discover {rules : List Inference} (hrules : rules ⊆ table)
    (hknown : ∀ g ∈ frontier ++ explored, P g) : ∀ f ∈ discover rules frontier explored, P f := by
  intro f hf
  obtain ⟨rule, hrule, hf⟩ := List.mem_flatMap.mp hf
  obtain ⟨fresh, old, hfresh, hold, -, hused⟩ := (mem_conclusions_iff (hrules hrule)).mp hf
  exact hgives rule (hrules hrule) _ f hused fun x hx => hknown x ((hfresh.append hold).subset hx)

/-- **What each use of a rule keeps, a search keeps.** -/
theorem Reached.forall_of_gives (h : Reached premises explored frontier)
    (hpremises : ∀ p ∈ premises, P p) : ∀ g ∈ frontier ++ explored, P g :=
  h.forall_known hpremises fun _ _ => forall_discover hgives candidates_subset

end Rounds

/-! ## Other orders and other forms -/

/-- What a rule gives by mappings that are akin is alike. -/
theorem like_consequent (hrule : rule ∈ table) {m m' : Mapping Object} (h : Mapping.Akin m m') :
    Like (substitute rule.letters m rule.consequent)
      (substitute rule.letters m' rule.consequent) :=
  (Object.like_substitute (Mapping.akin_replacementFor h) (table_schematic hrule).2).1

/-- **A rule gives something alike when it takes formulas in another order.** -/
theorem Gives.perm (hrule : rule ∈ table) {used used' : List Object} {f : Object}
    (h : Gives rule used f) (hperm : used'.Perm used) :
    ∃ g, Gives rule used' g ∧ Like f g := by
  have hschematic := (table_schematic hrule).1
  cases h with
  | one ht hm =>
    rw [List.perm_singleton] at hperm
    subst hperm
    exact ⟨_, .one ht hm, .refl _⟩
  | @two t u _ _ _ ht hm =>
    rcases List.perm_pair.mp hperm with rfl | rfl
    · exact ⟨_, .two ht hm, .refl _⟩
    · have hakin : ∀ a ∈ [t, u], ∀ x, ∀ m ∈ matchTemplate rule.letters a x, Mapping.Akin m m :=
        fun a ha _ _ => akin_of_mem_matchTemplate (hschematic a (ht.symm.subset ha))
      obtain ⟨n, hn, hmn⟩ := Mapping.exists_akin_joinAll_comm (hakin t (by simp) _)
        (hakin u (by simp) _) hm
      exact ⟨_, .two (ht.trans (.swap u t [])) hn, like_consequent hrule hmn⟩

/-- A rule gives something alike when it takes formulas that its antecedents match as they match
the others. -/
theorem Gives.matched (hrule : rule ∈ table) {used used' : List Object} {f : Object}
    (h : Gives rule used f)
    (hused : List.Forall₂ (fun x y => ∀ a ∈ rule.antecedents, ∀ m ∈ matchTemplate rule.letters a x,
      ∃ n ∈ matchTemplate rule.letters a y, Mapping.Akin m n) used used') :
    ∃ g, Gives rule used' g ∧ Like f g := by
  cases h with
  | one ht hm =>
    obtain ⟨x', _, hx, hnil, rfl⟩ := List.forall₂_cons_left_iff.mp hused
    cases hnil
    obtain ⟨n, hn, hmn⟩ := hx _ (by simp [ht]) _ hm
    exact ⟨_, .one ht hn, like_consequent hrule hmn⟩
  | two ht hm =>
    obtain ⟨x', _, hx, hrest, rfl⟩ := List.forall₂_cons_left_iff.mp hused
    obtain ⟨y', _, hy, hnil, rfl⟩ := List.forall₂_cons_left_iff.mp hrest
    cases hnil
    obtain ⟨n, hn, hmn⟩ := Mapping.exists_akin_joinAll (hx _ (ht.symm.subset (by simp)))
      (hy _ (ht.symm.subset (by simp))) hm
    exact ⟨_, .two ht hn, like_consequent hrule hmn⟩

/-- **A rule gives something alike when it takes formulas that are alike and hide nothing from
it.** -/
theorem Gives.standing (hrule : rule ∈ table) {used used' : List Object} {f : Object}
    (h : Gives rule used f)
    (hused : List.Forall₂ (fun x y => ∀ t ∈ rule.antecedents, Standing t x y) used used') :
    ∃ g, Gives rule used' g ∧ Like f g := by
  refine h.matched hrule (hused.imp fun x y hxy a ha m hm => ?_)
  exact exists_akin_match ((table_schematic hrule).1 a ha) (hxy a ha) hm

end Solver

end ProofSheet
