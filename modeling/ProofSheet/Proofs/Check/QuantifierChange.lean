import ProofSheet.Proofs.Check.Judgement
import ProofSheet.Proofs.Interpretation
import ProofSheet.Session

/-!
# Change of quantifier is an equivalence

CQ compares what is left of two formulas after a negation, runs of opposite quantifiers and a second
negation. A run of opposite quantifiers turns what it stands over, and its negation, into a formula and
its negation, so the two formulas are true together. Which of them is the line makes no difference.

* `Check.Passes`, `Check.Compares`: what CQ passes over, and what it compares.
* `Check.Changes.copy`: of sides that share no part only the formulas matter.
* `Interpretation.holds_quantify_opposite`: **opposite runs keep opposites opposite.**
* `Check.changeOfQuantifier_ok_iff`: the lines that CQ accepts.
* `Check.changeOfQuantifier_equivalence`: **a line that CQ accepts means the same as the cited line**,
  and CQ leads back.
-/

namespace ProofSheet

universe u

/-- The other quantifier. -/
def Quantifier.opposite : Quantifier → Quantifier
  | .universal => .existential
  | .existential => .universal

theorem Quantifier.eq_opposite : ∀ {q q' : Quantifier}, q ≠ q' → q' = q.opposite
  | .universal, .universal, h => absurd rfl h
  | .universal, .existential, _ => rfl
  | .existential, .universal, _ => rfl
  | .existential, .existential, h => absurd rfl h

theorem Quantifier.ne_opposite (q : Quantifier) : q ≠ q.opposite := by
  cases q <;> decide

/-- A run with each quantifier changed, over the same letters. -/
def oppositeRun (run : List (Quantifier × Symbol)) : List (Quantifier × Symbol) :=
  run.map fun binding => (binding.1.opposite, binding.2)

namespace Interpretation

open Formula (quantify)

variable {I : Interpretation.{u}}

/-- A quantification and the opposite quantification of a formula that is true when the other is not. -/
theorem holds_quantified_opposite {q : Quantifier} {x : Symbol} {f g : Formula}
    (h : ∀ τ : I.Assignment, holds τ f ↔ ¬ holds τ g) (σ : I.Assignment) :
    holds σ (.quantified q x f) ↔ ¬ holds σ (.quantified q.opposite x g) := by
  cases q with
  | universal =>
    show (∀ d, holds (Function.update σ x d) f) ↔ ¬ ∃ d, holds (Function.update σ x d) g
    rw [not_exists]
    exact forall_congr' fun d => h _
  | existential =>
    show (∃ d, holds (Function.update σ x d) f) ↔ ¬ ∀ d, holds (Function.update σ x d) g
    rw [not_forall]
    exact exists_congr fun d => h _

/-- **Opposite runs keep opposites opposite**: over formulas of which one is true when the other is not,
under every assignment, they are formulas of the same kind. -/
theorem holds_quantify_opposite {f g : Formula} (h : ∀ τ : I.Assignment, holds τ f ↔ ¬ holds τ g)
    (run : List (Quantifier × Symbol)) (σ : I.Assignment) :
    holds σ (quantify run f) ↔ ¬ holds σ (quantify (oppositeRun run) g) := by
  induction run generalizing σ with
  | nil => exact h σ
  | cons binding run ih => exact holds_quantified_opposite ih σ

end Interpretation

namespace Check

open Formula (quantify)
open Object (alike SharesNothing)
open Interpretation (holds)

/-! ## What is compared -/

/-- **What CQ passes over** of two objects: opposite quantifiers over one letter, as long as both begin
with a quantifier. -/
inductive Passes : Object → Object → Nat → Object → Object → Prop
  | stop {outer inner : Object}
      (h : ∀ q x o p q' x' i p', outer = .quantified q x o p → inner ≠ .quantified q' x' i p') :
      Passes outer inner 0 outer inner
  | pass {outer inner o i : Object} {n : Nat} (q : Quantifier) (x : Symbol) (p p' : Option Place)
      (h : Passes outer inner n o i) :
      Passes (.quantified q x outer p) (.quantified q.opposite x inner p') (n + 1) o i

theorem oppositeRuns_ok_iff {outer inner o i : Object} {n : Nat} :
    oppositeRuns outer inner = .ok (n, o, i) ↔ Passes outer inner n o i := by
  constructor
  · intro h
    induction outer, inner using oppositeRuns.induct generalizing n o i with
    | case1 x outer p q x' inner p' =>
      rw [oppositeRuns, if_pos rfl] at h
      cases h
    | case2 q x outer p q' x' inner p' hq hx =>
      rw [oppositeRuns, if_neg hq, if_pos hx] at h
      cases h
    | case3 q x outer p q' x' inner p' hq hx ih =>
      rw [oppositeRuns, if_neg hq, if_neg hx] at h
      obtain rfl := Quantifier.eq_opposite hq
      obtain rfl := Decidable.not_not.mp hx
      cases hrest : oppositeRuns outer inner with
      | error text => rw [hrest] at h; cases h
      | ok rest =>
        obtain ⟨m, o', i'⟩ := rest
        rw [hrest] at h
        cases h
        exact .pass _ _ _ _ (ih hrest)
    | case4 outer inner hno =>
      rw [oppositeRuns] at h
      · cases h
        exact .stop hno
      · exact hno
  · intro h
    induction h with
    | stop h =>
      rw [oppositeRuns]
      exact h
    | pass q x p p' _ ih =>
      rw [oppositeRuns, if_neg (Quantifier.ne_opposite q), if_neg (not_not.mpr rfl), ih]
      rfl

/-- **What is passed over are opposite runs** over the same letters. -/
theorem Passes.runs {outer inner o i : Object} {n : Nat} (h : Passes outer inner n o i) :
    ∃ run, run.length = n ∧ outer.formula = quantify run o.formula ∧
      inner.formula = quantify (oppositeRun run) i.formula := by
  induction h with
  | stop => exact ⟨[], rfl, rfl, rfl⟩
  | pass q x p p' _ ih =>
    obtain ⟨run, hlen, hout, hin⟩ := ih
    refine ⟨(q, x) :: run, by rw [List.length_cons, hlen], ?_, ?_⟩
    · rw [Object.formula_quantified, hout]
      rfl
    · rw [Object.formula_quantified, hin]
      rfl

/-- What is left of two objects are parts of them. -/
theorem Passes.places {outer inner o i : Object} {n : Nat} (h : Passes outer inner n o i) :
    o.places ⊆ outer.places ∧ i.places ⊆ inner.places := by
  induction h with
  | stop => exact ⟨List.Subset.refl _, List.Subset.refl _⟩
  | pass q x p p' _ ih =>
    exact ⟨List.subset_cons_of_subset _ ih.1, List.subset_cons_of_subset _ ih.2⟩

/-- Of two other objects with the same formulas as much is passed over, and the same formulas are
left. -/
theorem Passes.copy {outer inner o i : Object} {n : Nat} (h : Passes outer inner n o i)
    {outer' inner' : Object} (hout : outer'.formula = outer.formula)
    (hin : inner'.formula = inner.formula) :
    ∃ o' i', Passes outer' inner' n o' i' ∧ o'.formula = o.formula ∧ i'.formula = i.formula := by
  induction h generalizing outer' inner' with
  | stop h =>
    refine ⟨outer', inner', .stop ?_, hout, hin⟩
    rintro q x o p q' x' i p' rfl rfl
    obtain ⟨_, _, rfl, -⟩ := Object.formula_eq_quantified.mp hout.symm
    obtain ⟨_, _, rfl, -⟩ := Object.formula_eq_quantified.mp hin.symm
    exact h _ _ _ _ _ _ _ _ rfl rfl
  | pass q x p p' _ ih =>
    obtain ⟨outer', r, rfl, hunder⟩ := Object.formula_eq_quantified.mp hout
    obtain ⟨inner', r', rfl, hunder'⟩ := Object.formula_eq_quantified.mp hin
    obtain ⟨o', i', hpasses, hleft⟩ := ih hunder hunder'
    exact ⟨o', i', .pass q x r r' hpasses, hleft⟩

/-- **What CQ compares** of an outer and an inner side: past the negation of the outer side and opposite
runs, one more negation goes, from the inner side or else from the outer side. -/
inductive Compares : Object → Object → Object → Object → Prop
  | inner {under inner i o : Object} {n : Nat} (p q : Option Place)
      (h : Passes under inner (n + 1) o (.negation i q)) : Compares (.negation under p) inner i o
  | outer {under inner i o : Object} {n : Nat} (p q : Option Place)
      (h : Passes under inner (n + 1) (.negation o q) i) (hno : ∀ k r, i ≠ .negation k r) :
      Compares (.negation under p) inner i o

theorem changed_ok_iff {outer inner i o : Object} :
    changed outer inner = .ok (i, o) ↔ Compares outer inner i o := by
  constructor
  · intro h
    cases outer with
    | negation under p =>
      simp only [changed, Object.negated?] at h
      obtain ⟨⟨n, f, g⟩, hruns, hsides⟩ := bind_eq_ok h
      have hpasses := oppositeRuns_ok_iff.mp hruns
      simp only at hsides
      split at hsides
      · cases hsides
      · rename_i hn
        obtain ⟨m, rfl⟩ := Nat.exists_eq_succ_of_ne_zero hn
        split at hsides
        · cases hsides
          exact .inner p _ hpasses
        · rename_i hno
          cases hsides
          exact .outer p _ hpasses fun k r hi => hno k r hi
        · cases hsides
    | _ => cases h
  · intro h
    cases h with
    | inner p q h =>
      simp only [changed, Object.negated?, oppositeRuns_ok_iff.mpr h]
      rfl
    | outer p q h hno =>
      simp only [changed, Object.negated?, oppositeRuns_ok_iff.mpr h]
      cases i with
      | negation k r => exact absurd rfl (hno k r)
      | _ => rfl

/-- What is compared are, as formulas, those under a negation and a run on the outer side, and under the
opposite run on the inner side, less one more negation on either. -/
theorem Compares.runs {outer inner i o : Object} (h : Compares outer inner i o) :
    ∃ run f g, run ≠ [] ∧ outer.formula = .negation (quantify run f) ∧
      inner.formula = quantify (oppositeRun run) g ∧
      ((f = o.formula ∧ g = .negation i.formula) ∨ (f = .negation o.formula ∧ g = i.formula)) := by
  cases h with
  | inner p q h =>
    obtain ⟨run, hlen, hout, hin⟩ := h.runs
    exact ⟨run, _, _, List.ne_nil_of_length_eq_add_one hlen, congrArg Formula.negation hout, hin,
      .inl ⟨rfl, rfl⟩⟩
  | outer p q h =>
    obtain ⟨run, hlen, hout, hin⟩ := h.runs
    exact ⟨run, _, _, List.ne_nil_of_length_eq_add_one hlen, congrArg Formula.negation hout, hin,
      .inr ⟨rfl, rfl⟩⟩

/-- What is compared are parts of the two sides. -/
theorem Compares.places {outer inner i o : Object} (h : Compares outer inner i o) :
    i.places ⊆ inner.places ∧ o.places ⊆ outer.places := by
  cases h with
  | inner p q h =>
    exact ⟨List.Subset.trans (List.subset_cons_self _ _) h.places.2,
      List.subset_cons_of_subset _ h.places.1⟩
  | outer p q h =>
    exact ⟨h.places.2, List.subset_cons_of_subset _
      (List.Subset.trans (List.subset_cons_self _ _) h.places.1)⟩

/-- Of two other sides with the same formulas, the same formulas are compared. -/
theorem Compares.copy {outer inner i o : Object} (h : Compares outer inner i o)
    {outer' inner' : Object} (hout : outer'.formula = outer.formula)
    (hin : inner'.formula = inner.formula) :
    ∃ i' o', Compares outer' inner' i' o' ∧ i'.formula = i.formula ∧ o'.formula = o.formula := by
  cases h with
  | inner p q h =>
    obtain ⟨under', p', rfl, hunder⟩ := Object.formula_eq_negation.mp hout
    obtain ⟨o', ni', hpasses, ho, hni⟩ := h.copy hunder hin
    obtain ⟨i', q', rfl, hi⟩ := Object.formula_eq_negation.mp hni
    exact ⟨i', o', .inner p' q' hpasses, hi, ho⟩
  | outer p q h hno =>
    obtain ⟨under', p', rfl, hunder⟩ := Object.formula_eq_negation.mp hout
    obtain ⟨no', i', hpasses, hno', hi⟩ := h.copy hunder hin
    obtain ⟨o', q', rfl, ho⟩ := Object.formula_eq_negation.mp hno'
    refine ⟨i', o', .outer p' q' hpasses ?_, hi, ho⟩
    rintro k r rfl
    obtain ⟨k', r', rfl, -⟩ := Object.formula_eq_negation.mp hi.symm
    exact hno k' r' rfl

/-- **What CQ calls for**, of an outer and an inner side: what it compares is alike. -/
def Changes (outer inner : Object) : Prop :=
  ∃ i o, Compares outer inner i o ∧ alike false i o = true

/-- The outer side is a negation, and the inner side is not. -/
theorem Changes.negation {outer inner : Object} (h : Changes outer inner) :
    (∃ under, outer.formula = .negation under) ∧ ∀ under, inner.formula ≠ .negation under := by
  obtain ⟨i, o, hcompares, -⟩ := h
  obtain ⟨run, f, g, hrun, hout, hin, -⟩ := hcompares.runs
  refine ⟨⟨_, hout⟩, fun under heq => ?_⟩
  rw [hin] at heq
  cases run with
  | nil => exact hrun rfl
  | cons binding run => cases heq

/-- **The two sides are true together.** -/
theorem Changes.holds_iff {outer inner : Object} (h : Changes outer inner)
    {I : Interpretation.{u}} (σ : I.Assignment) : holds σ outer.formula ↔ holds σ inner.formula := by
  obtain ⟨i, o, hcompares, halike⟩ := h
  obtain ⟨run, f, g, -, hout, hin, hsides⟩ := hcompares.runs
  have hsame : ∀ τ : I.Assignment, holds τ i.formula ↔ holds τ o.formula := fun τ =>
    Interpretation.holds_alike halike
  -- whichever side the second negation stands on, under the runs are opposites
  have hopposite : ∀ τ : I.Assignment, holds τ f ↔ ¬ holds τ g := by
    intro τ
    rcases hsides with ⟨rfl, rfl⟩ | ⟨rfl, rfl⟩
    · show holds τ o.formula ↔ ¬ ¬ holds τ i.formula
      rw [not_not, hsame]
    · show (¬ holds τ o.formula) ↔ ¬ holds τ i.formula
      rw [hsame]
  rw [hout, hin]
  show (¬ holds σ (quantify run f)) ↔ holds σ (quantify (oppositeRun run) g)
  rw [Interpretation.holds_quantify_opposite hopposite run σ, not_not]

/-- **Of sides that share no part only the formulas matter**: what CQ calls for holds of any two objects
with these formulas. -/
theorem Changes.copy {outer inner : Object} (h : Changes outer inner)
    (hshare : SharesNothing inner outer) {outer' inner' : Object}
    (hout : outer'.formula = outer.formula) (hin : inner'.formula = inner.formula) :
    Changes outer' inner' := by
  obtain ⟨i, o, hcompares, halike⟩ := h
  obtain ⟨i', o', hcompares', hi, ho⟩ := hcompares.copy hout hin
  have hrest : SharesNothing i o := hshare.mono hcompares.places.1 hcompares.places.2
  have hformulas := Object.formulas_of_alike halike (.inr hrest)
  rw [← hi, ← ho] at hformulas
  exact ⟨i', o', hcompares', Object.alike_of_formulas hformulas⟩

/-! ## The lines that are accepted -/

variable {view : View} {line : LogicLine} {cited : Label}

/-- **The lines that CQ accepts**: with the premises of the cited line, and one of the two formulas the
outer side for the other. -/
theorem changeOfQuantifier_ok_iff :
    (∃ flag, changeOfQuantifier view line cited = .ok flag) ↔
      ∃ source, view.logic? cited = some source ∧ (∀ l, l ∈ line.deps ↔ l ∈ source.deps) ∧
        (Changes (view.object line) (view.object source) ∨
          Changes (view.object source) (view.object line)) := by
  constructor
  · rintro ⟨flag, h⟩
    obtain ⟨source, hsource, hrest⟩ := bind_eq_ok h
    obtain ⟨u, hdeps, hsides⟩ := bind_eq_ok hrest
    refine ⟨source, View.cited_ok hsource, Premises.check_ok hdeps, ?_⟩
    simp only at hsides
    split at hsides
    · cases hsides
    · rename_i i o hchanged
      obtain ⟨halike, -⟩ := of_ite_refuse hsides
      split at hchanged
      · exact .inl ⟨i, o, changed_ok_iff.mp hchanged, halike⟩
      · exact .inr ⟨i, o, changed_ok_iff.mp hchanged, halike⟩
  · rintro ⟨source, hsource, hdeps, hchanges⟩
    refine ⟨.good, ?_⟩
    rw [changeOfQuantifier, View.cited_bind_check hsource hdeps]
    rcases hchanges with hchanges | hchanges
    · obtain ⟨⟨under, hunder⟩, -⟩ := hchanges.negation
      rw [View.formula_object] at hunder
      obtain ⟨i, o, hcompares, halike⟩ := hchanges
      simp only [hunder, changed_ok_iff.mpr hcompares, halike, if_true]
      rfl
    · have hnot := hchanges.negation.2
      rw [View.formula_object] at hnot
      obtain ⟨i, o, hcompares, halike⟩ := hchanges
      cases hline : line.formula with
      | negation under => exact absurd hline (hnot under)
      | _ =>
        simp only [changed_ok_iff.mpr hcompares, halike, if_true]
        rfl

/-- **A line that CQ accepts means the same as the cited line**: the two formulas are true in the same
interpretations under the same assignments. And CQ leads back: with the two formulas exchanged, it
accepts any line that has the premises of the line it cites. The exchanged formulas are the same objects,
or lie anywhere if the line and the cited line share no part. -/
theorem changeOfQuantifier_equivalence (view : View) (line : LogicLine) (cited : Label) (flag : Flag)
    (h : changeOfQuantifier view line cited = .ok flag) :
    ∃ source, view.logic? cited = some source ∧
      (∀ (I : Interpretation.{u}) (σ : I.Assignment),
        holds σ line.formula ↔ holds σ source.formula) ∧
      ∀ (view' : View) (line' source' : LogicLine) (cited' : Label),
        view'.logic? cited' = some source' → (∀ l, l ∈ line'.deps ↔ l ∈ source'.deps) →
        (view'.object line' = view.object source ∧ view'.object source' = view.object line ∨
          line'.formula = source.formula ∧ source'.formula = line.formula ∧
            SharesNothing (view.object line) (view.object source)) →
        ∃ flag', changeOfQuantifier view' line' cited' = .ok flag' := by
  obtain ⟨source, hsource, -, hchanges⟩ := changeOfQuantifier_ok_iff.mp ⟨flag, h⟩
  refine ⟨source, hsource, fun I σ => ?_, ?_⟩
  · have hmeaning : holds σ (view.object line).formula ↔ holds σ (view.object source).formula :=
      hchanges.elim (Changes.holds_iff · σ) fun hchanges => (hchanges.holds_iff σ).symm
    rwa [View.formula_object, View.formula_object] at hmeaning
  · intro view' line' source' cited' hsource' hdeps' hexchanged
    refine changeOfQuantifier_ok_iff.mpr ⟨source', hsource', hdeps', ?_⟩
    rcases hexchanged with ⟨hline', hcited'⟩ | ⟨hline', hcited', hshare⟩
    · rw [hline', hcited']
      exact hchanges.symm
    · have hleft : (view'.object line').formula = (view.object source).formula := by simpa using hline'
      have hright : (view'.object source').formula = (view.object line).formula := by
        simpa using hcited'
      rcases hchanges with hchanges | hchanges
      · exact .inr (hchanges.copy hshare.symm hright hleft)
      · exact .inl (hchanges.copy hshare hleft hright)

/-- `(∀y)(∀y)Rxyz`, which binds a letter again. -/
def boundTwice : Formula :=
  quantify [(.universal, 'y'), (.universal, 'y')]
    (.predicate 'R' [.letter 'x', .letter 'y', .letter 'z'])

/-- `(∀x)(∃z)(∀y)(∀y)Rxyz`. -/
def eachWith : Formula :=
  quantify [(.universal, 'x'), (.existential, 'z')] boundTwice

/-- `¬(∃x)(∀z)¬(∀y)(∀y)Rxyz`. -/
def noneWithout : Formula :=
  .negation (quantify [(.existential, 'x'), (.universal, 'z')] (.negation boundTwice))

/-- The second formula from the first, and the first from it. -/
def backAndForthSheet : Document where
  lines :=
    [ .logic ⟨0, [0], eachWith, .premise⟩, .logic ⟨1, [0], noneWithout, .changeOfQuantifier 0⟩,
      .logic ⟨2, [0], eachWith, .changeOfQuantifier 1⟩ ]

/-- What binds a letter again is one object in all three lines, and the first and the last assert one
object. -/
def backAndForthMemory : Memory
  | 1 :: 0 :: 0 :: 0 :: 0 :: path => 0 :: 0 :: 0 :: path
  | 2 :: path => 0 :: path
  | place => place

/-- The sheet as the checkers see it. -/
def backAndForthView : View :=
  backAndForthSheet.view backAndForthMemory ⟨[0, 1, 2]⟩ .standard

/-- CQ leads from the first formula to the second, so they mean the same, and CQ leads back. -/
theorem changeOfQuantifier_equivalence_backAndForth :
    changeOfQuantifier backAndForthView ⟨1, [0], noneWithout, .changeOfQuantifier 0⟩ 0 = .ok .good ∧
    (∀ (I : Interpretation.{0}) (σ : I.Assignment), holds σ noneWithout ↔ holds σ eachWith) ∧
    ∃ flag, changeOfQuantifier backAndForthView ⟨2, [0], eachWith, .changeOfQuantifier 1⟩ 1 =
      .ok flag := by
  have haccepted : changeOfQuantifier backAndForthView
      ⟨1, [0], noneWithout, .changeOfQuantifier 0⟩ 0 = .ok .good := rfl
  obtain ⟨source, hsource, hmeaning, hback⟩ :=
    changeOfQuantifier_equivalence backAndForthView _ 0 .good haccepted
  obtain rfl := Option.some.inj hsource
  exact ⟨haccepted, hmeaning,
    hback backAndForthView _ _ 1 rfl (fun _ => Iff.rfl) (.inl ⟨rfl, rfl⟩)⟩

end Check

end ProofSheet
