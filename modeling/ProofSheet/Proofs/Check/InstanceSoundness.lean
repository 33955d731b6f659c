import ProofSheet.Proofs.Check.PropositionalSoundness
import ProofSheet.Proofs.Interpretation

/-!
# Soundness of existential instantiation

An instance is a premise of itself until it is discharged. So a line that depends on instances follows
from its premises with the instances among them, and what has to be shown of each instance is that its
letter can be given a value, whatever the premises before it say.

* `View.Sound`: **the invariant of a line**: it follows from its premises, and each instance among
  them is witnessed, given the premises before it.
* `View.Sound.premise`, `View.Sound.truthFunctional`, `View.Sound.instanceIntroduction`,
  `View.Sound.instanceElimination`: what each rule keeps.
* `Document.Instantial`: a sheet of these four rules, in which no instance's letter is captured and
  none is free in the line that eliminates it.
* `View.Accepted.sound`: the induction over such a sheet.
* `Session.instances_sound`: **every line of such a sheet with a good report is a first-order
  consequence of its premises.**
* `Session.good_beyond_consequence`: without the care that such a sheet takes, a good report does not
  say so.
-/

namespace ProofSheet

open Formula (FreeIn CaptureFree)
open Interpretation (holds holds_update holds_alike holds_linked agree_nil)

universe u

namespace View

variable {view : View}

namespace Accepted

variable {n l : Label} {line other : LogicLine}

theorem judged_label (h : view.Accepted) (hline : view.logic? n = some line) :
    ∃ flag, Check.judge view line = .ok flag := by
  obtain ⟨i, -, hi⟩ := logic?_eq_some.mp hline
  exact h.judged hi

/-- A reference is to no later label. -/
theorem reference_le (h : view.Accepted) (hline : view.logic? n = some line)
    (hl : l ∈ line.references) (hother : view.logic? l = some other) : l ≤ n := by
  obtain ⟨i, hi, hget⟩ := logic?_eq_some.mp hline
  obtain ⟨j, hj, -⟩ := logic?_eq_some.mp hother
  have hji : j ≤ i := h.backward hget hl hj
  exact Nat.le_of_not_lt fun hlt => Nat.not_lt.mpr hji ((h.label_lt hi hj).mp hlt)

theorem dep_le (h : view.Accepted) (hline : view.logic? n = some line) (hl : l ∈ line.deps) :
    l ≤ n := by
  obtain ⟨i, -, hget⟩ := logic?_eq_some.mp hline
  obtain ⟨other, hother⟩ := h.resolves hget l hl
  exact h.reference_le hline (List.mem_append_left _ hl) hother

end Accepted

/-- The lines with some labels hold. -/
def Hold {I : Interpretation.{u}} (view : View) (σ : I.Assignment) (labels : List Label) : Prop :=
  ∀ l ∈ labels, ∀ premise, view.logic? l = some premise → holds σ premise.formula

/-- What a line asserts holds where its formula does. -/
theorem valuation_holds {I : Interpretation.{u}} {σ : I.Assignment} {line : LogicLine} :
    (Interpretation.valuation σ).holds (view.object line) ↔ holds σ line.formula := by
  show holds σ (view.object line).formula ↔ _
  rw [formula_object]

theorem Hold.mono {I : Interpretation.{u}} {σ : I.Assignment} {ls ks : List Label}
    (h : view.Hold σ ls) (hsub : ∀ l ∈ ks, l ∈ ls) : view.Hold σ ks :=
  fun l hl => h l (hsub l hl)

/-- The premises of a line before a label. -/
def before (line : LogicLine) (e : Label) : List Label :=
  line.deps.filter fun l => decide (l < e)

theorem mem_before {line : LogicLine} {e l : Label} :
    l ∈ before line e ↔ l ∈ line.deps ∧ l < e := by
  simp [before]

/-- **The invariant of a line.** It follows from its premises; and for each instance among them, the
premises before the instance leave a value for its letter that makes it hold. -/
structure Sound (view : View) (line : LogicLine) : Prop where
  follows : ∀ (I : Interpretation.{u}) (σ : I.Assignment), view.Hold σ line.deps →
    holds σ line.formula
  witnessed : ∀ e ∈ line.deps, ∀ {introduction cited a}, view.logic? e = some introduction →
    introduction.rule = .instanceIntroduction cited a →
    ∀ (I : Interpretation.{u}) (σ : I.Assignment), view.Hold σ (before line e) →
      ∃ d, holds (Function.update σ a d) introduction.formula

namespace Sound

variable {line : LogicLine} {flag : Flag}

/-- A premise depends on itself alone, and is no instance. -/
theorem premise (hline : view.logic? line.label = some line)
    (hrule : line.rule = .premise) (hjudge : Check.premise line = .ok flag) :
    Sound.{u} view line where
  follows I σ hold := hold line.label ((Check.premise_ok hjudge _).mpr rfl) line hline
  witnessed e he introduction cited a hintroduction hrule' I σ _ := by
    rw [(Check.premise_ok hjudge e).mp he, hline] at hintroduction
    rw [← Option.some.inj hintroduction, hrule] at hrule'
    cases hrule'

/-- A truth-functional step has the premises of the lines it cites. -/
theorem truthFunctional {cited : List Label}
    (hjudge : Check.truthFunctional view line cited = .ok flag)
    (hcited : ∀ c ∈ cited, ∀ other, view.logic? c = some other → Sound.{u} view other) :
    Sound.{u} view line where
  follows I σ hold := by
    rw [← valuation_holds]
    refine Check.holds_of_truthFunctional hjudge fun c hc other hother => ?_
    rw [valuation_holds]
    obtain ⟨other', hother', hsub⟩ := Check.deps_of_truthFunctional hjudge hc
    obtain rfl : other = other' := Option.some.inj (hother.symm.trans hother')
    exact (hcited c hc other hother).follows I σ (hold.mono hsub)
  witnessed e he introduction from_ a hintroduction hrule I σ hold := by
    obtain ⟨lines, hlines, hdeps, -⟩ := Check.truthFunctional_ok hjudge
    obtain ⟨other, hother, heother⟩ := (hdeps e).mp he
    obtain ⟨c, hc, hlookup⟩ := Formula.exists_of_forall₂ hlines.flip hother
    refine (hcited c hc other hlookup).witnessed e heother hintroduction hrule I σ ?_
    refine hold.mono fun l hl => ?_
    obtain ⟨hl, hle⟩ := mem_before.mp hl
    exact mem_before.mpr ⟨(hdeps l).mpr ⟨other, hother, hl⟩, hle⟩

end Sound

/-! ## Instances -/

/-- **The letter of an instance has a value**: where the quantification holds, some value of the
letter makes its instance hold. The letter is fresh, so the value changes nothing in the
quantification. -/
theorem exists_instance {I : Interpretation.{u}} {σ : I.Assignment} {x a : Symbol} {body f : Formula}
    (hx : x ∉ Formula.binders body) (hcapture : CaptureFree [x] [a] [] body)
    (hfresh : ¬ FreeIn a (.quantified .existential x body))
    (halike : Formula.Alike false (body.substitute [x] [some (.letter a)]) f)
    (hsource : holds σ (.quantified .existential x body)) :
    ∃ d, holds (Function.update σ a d) f := by
  rw [holds] at hsource
  obtain ⟨d, hd⟩ := hsource
  have hne : ∀ s, FreeIn s body → s ≠ x → s ≠ a := by
    rintro s hs hsx rfl
    exact hfresh ⟨fun hxs => hsx hxs.symm, hs⟩
  refine ⟨d, ?_⟩
  rw [← holds_linked agree_nil halike, Interpretation.holds_substitute hx hcapture, Function.update_self]
  exact (Interpretation.holds_update_update hne d d).mpr hd

/-- What an accepted instance says, in terms of free letters. -/
theorem Accepted.instance_ok (h : view.Accepted) {line : LogicLine} {flag : Flag} {cited : Label}
    {a : Symbol} (hjudge : Check.instanceIntroduction view line cited a = .ok flag) :
    ∃ source x body, view.logic? cited = some source ∧
      (∀ l, l ∈ line.deps ↔ l ∈ source.deps ∨ l = line.label) ∧
      source.formula = .quantified .existential x body ∧ ¬ FreeIn a source.formula ∧
      x ∉ Formula.binders body ∧
      Formula.Alike false (body.substitute [x] [some (.letter a)]) line.formula := by
  obtain ⟨source, x, body, hsource, hdeps, hformula, hfresh, halike⟩ :=
    Check.instanceIntroduction_ok hjudge
  obtain ⟨i, -, hget⟩ := logic?_eq_some.mp hsource
  refine ⟨source, x, body, hsource, hdeps, hformula, ?_, ?_, halike⟩
  · have hmem : source ∈ view.lines.filterMap Line.logic? :=
      List.mem_filterMap.mpr ⟨.logic source, List.mem_of_getElem? hget, rfl⟩
    exact h.not_freeIn (h.logic?_label hget) (hfresh source hmem (Nat.le_refl _))
  · have hnone := Formula.rebindings_eq_nil (h.letters hget)
    rw [hformula, Formula.rebindings, List.append_eq_nil_iff] at hnone
    exact Formula.not_mem_binders List.mem_cons_self hnone.2

namespace Sound

variable {line : LogicLine} {flag : Flag}

/-- An instance has the premises of the quantification, and itself. -/
theorem instanceIntroduction (h : view.Accepted) {cited : Label} {a : Symbol}
    (hline : view.logic? line.label = some line) (hrule : line.rule = .instanceIntroduction cited a)
    (hjudge : Check.instanceIntroduction view line cited a = .ok flag)
    (hcited : ∀ other, view.logic? cited = some other → Sound.{u} view other) (hlt : cited < line.label)
    (hcapture : ∀ source x body, view.logic? cited = some source →
      source.formula = .quantified .existential x body → CaptureFree [x] [a] [] body) :
    Sound.{u} view line := by
  obtain ⟨source, x, body, hsource, hdeps, hformula, hfresh, hx, halike⟩ := h.instance_ok hjudge
  have hsound := hcited source hsource
  have hlabel : ∀ l ∈ source.deps, l < line.label := fun l hl =>
    Nat.lt_of_le_of_lt (h.dep_le hsource hl) hlt
  refine ⟨fun I σ hold => hold line.label ((hdeps _).mpr (Or.inr rfl)) line hline, ?_⟩
  intro e he introduction cited' b hintroduction hrule' I σ hold
  rcases (hdeps e).mp he with hesource | rfl
  · -- an instance that the quantification depends on
    refine hsound.witnessed e hesource hintroduction hrule' I σ (hold.mono fun l hl => ?_)
    obtain ⟨hl, hle⟩ := mem_before.mp hl
    exact mem_before.mpr ⟨(hdeps l).mpr (Or.inl hl), hle⟩
  · -- the instance itself, after all premises of the quantification
    obtain rfl : line = introduction := Option.some.inj (hline.symm.trans hintroduction)
    obtain ⟨rfl, rfl⟩ : cited = cited' ∧ a = b := by
      rw [hrule] at hrule'
      cases hrule'
      exact ⟨rfl, rfl⟩
    have hholds : holds σ source.formula := by
      refine hsound.follows I σ (hold.mono fun l hl => ?_)
      exact mem_before.mpr ⟨(hdeps l).mpr (Or.inl hl), hlabel l hl⟩
    rw [hformula] at hholds hfresh
    exact exists_instance hx (hcapture source x body hsource hformula) hfresh halike hholds

/-- A value for a letter that is free in no premise keeps the premises. -/
theorem hold_update (h : view.Accepted) {I : Interpretation.{u}} {σ : I.Assignment} {a : Symbol}
    {labels : List Label} (hfree : ∀ l ∈ labels, view.isFreeIn a l = false)
    (hold : view.Hold σ labels) (d : I.Domain) : view.Hold (Function.update σ a d) labels := by
  intro l hl premise hpremise
  exact (holds_update (h.not_freeIn hpremise (hfree l hl)) d).mpr (hold l hl premise hpremise)

/-- **An instance can be made to hold**: its letter is given a value, which lines without the letter do
not notice. -/
theorem exists_hold {source introduction : LogicLine} {discharged from_ : Label} {a : Symbol}
    (h : view.Accepted) (hsource : Sound.{u} view source) (hdischarged : discharged ∈ source.deps)
    (hintroduction : view.logic? discharged = some introduction)
    (hrule : introduction.rule = .instanceIntroduction from_ a) {I : Interpretation.{u}}
    {σ : I.Assignment} {labels : List Label} (hfree : ∀ l ∈ labels, view.isFreeIn a l = false)
    (hbefore : ∀ l ∈ before source discharged, l ∈ labels) (hold : view.Hold σ labels) :
    ∃ d, view.Hold (Function.update σ a d) (discharged :: labels) := by
  obtain ⟨d, hd⟩ := hsource.witnessed discharged hdischarged hintroduction hrule I σ
    (hold.mono hbefore)
  refine ⟨d, fun l hl premise hpremise => ?_⟩
  rcases List.mem_cons.mp hl with rfl | hl
  · rw [hintroduction] at hpremise
    rwa [← Option.some.inj hpremise]
  · exact hold_update h hfree hold d l hl premise hpremise

/-- An elimination has the premises of the cited line, less the instance. The letter of the instance
is given a value that makes the instance hold, which no premise and not the line itself notices. -/
theorem instanceElimination (h : view.Accepted) {cited discharged : Label}
    (hjudge : Check.instanceElimination view line cited discharged = .ok flag)
    (hcited : ∀ other, view.logic? cited = some other → Sound.{u} view other)
    (hgone : ∀ {introduction from_ a}, view.logic? discharged = some introduction →
      introduction.rule = .instanceIntroduction from_ a → ¬ FreeIn a line.formula) :
    Sound.{u} view line := by
  obtain ⟨source, introduction, from_, a, hsource, hintroduction, hrule, hdischarged, hdeps, hfree,
    halike⟩ := Check.instanceElimination_ok hjudge
  have hsound := hcited source hsource
  constructor
  · intro I σ hold
    have hbefore : ∀ l ∈ before source discharged, l ∈ line.deps := by
      intro l hl
      obtain ⟨hl, hlt⟩ := mem_before.mp hl
      exact (hdeps l).mpr ⟨hl, Nat.ne_of_lt hlt⟩
    obtain ⟨d, hd⟩ := exists_hold h hsound hdischarged hintroduction hrule hfree hbefore hold
    have hpremises : ∀ l ∈ source.deps, l ∈ discharged :: line.deps := by
      intro l hl
      by_cases hld : l = discharged
      · simp [hld]
      · exact List.mem_cons_of_mem _ ((hdeps l).mpr ⟨hl, hld⟩)
    have hholds := hsound.follows I _ (hd.mono hpremises)
    rw [← formula_object view, holds_alike halike, formula_object] at hholds
    exact (holds_update (hgone hintroduction hrule) d).mp hholds
  · intro e he introduction' cited' b hintroduction' hrule' I σ hold
    obtain ⟨hesource, -⟩ := (hdeps e).mp he
    by_cases hlt : discharged < e
    · -- the discharged instance is among the premises before `e`, and has to be made to hold first
      have hbefore : ∀ l ∈ before source discharged, l ∈ before line e := by
        intro l hl
        obtain ⟨hl, hld⟩ := mem_before.mp hl
        exact mem_before.mpr ⟨(hdeps l).mpr ⟨hl, Nat.ne_of_lt hld⟩, Nat.lt_trans hld hlt⟩
      have hfree' : ∀ l ∈ before line e, view.isFreeIn a l = false :=
        fun l hl => hfree l (mem_before.mp hl).1
      obtain ⟨d, hd⟩ := exists_hold h hsound hdischarged hintroduction hrule hfree' hbefore hold
      have hpremises : ∀ l ∈ before source e, l ∈ discharged :: before line e := by
        intro l hl
        obtain ⟨hl, hle⟩ := mem_before.mp hl
        by_cases hld : l = discharged
        · simp [hld]
        · exact List.mem_cons_of_mem _ (mem_before.mpr ⟨(hdeps l).mpr ⟨hl, hld⟩, hle⟩)
      obtain ⟨d', hd'⟩ :=
        hsound.witnessed e hesource hintroduction' hrule' I _ (hd.mono hpremises)
      -- the later instance is a premise of the line, so it does not have the letter
      have hne : ∀ s, FreeIn s introduction'.formula → s ≠ b → s ≠ a := by
        rintro s hs - rfl
        exact h.not_freeIn hintroduction' (hfree e he) hs
      exact ⟨d', (Interpretation.holds_update_update hne d d').mp hd'⟩
    · refine hsound.witnessed e hesource hintroduction' hrule' I σ (hold.mono fun l hl => ?_)
      obtain ⟨hl, hle⟩ := mem_before.mp hl
      refine mem_before.mpr ⟨(hdeps l).mpr ⟨hl, ?_⟩, hle⟩
      rintro rfl
      exact hlt hle

end Sound

end View

/-! ## Sheets of instances -/

/-- The rules of existential instantiation, with premises and truth-functional steps. -/
def Rule.isInstantial : Rule → Bool
  | .premise | .truthFunctional _ | .instanceIntroduction _ _ | .instanceElimination _ _ => true
  | _ => false

namespace Document

/-- **A sheet of existential instantiation** in which instances are used with care. -/
structure Instantial (document : Document) : Prop where
  /-- There are no other rules, and no line cites itself. -/
  rules : ∀ line ∈ document.logicLines,
    line.rule.isInstantial = true ∧ line.label ∉ line.rule.citations
  /-- The line that eliminates an instance no longer has its letter. -/
  eliminated : ∀ line ∈ document.logicLines, ∀ introduction ∈ document.logicLines,
    ∀ {cited from_ a}, line.rule = .instanceElimination cited introduction.label →
      introduction.rule = .instanceIntroduction from_ a → ¬ FreeIn a line.formula
  /-- No quantifier captures the letter of an instance. -/
  uncaptured : ∀ line ∈ document.logicLines, ∀ source ∈ document.logicLines,
    ∀ {a x body}, line.rule = .instanceIntroduction source.label a →
      source.formula = .quantified .existential x body → CaptureFree [x] [a] [] body

end Document

namespace View

open Document (mem_logicLines_of_logic?)

/-- **Every line of a sheet of instances without a problem is sound.** The induction is on labels,
which are in the order of the lines. -/
theorem Accepted.sound {fresh : Document} {memory : Memory} {index : LineIndex} {settings : Settings}
    (h : (fresh.view memory index settings).Accepted) (hsheet : fresh.Instantial) {n : Label}
    {line : LogicLine} (hline : (fresh.view memory index settings).logic? n = some line) :
    Sound.{u} (fresh.view memory index settings) line := by
  induction n using Nat.strongRecOn generalizing line with
  | _ n ih =>
    obtain rfl : line.label = n := h.label_eq hline
    have hmem := mem_logicLines_of_logic? hline
    obtain ⟨hrule, hself⟩ := hsheet.rules line hmem
    have hlt : ∀ c ∈ line.rule.citations, ∀ other,
        (fresh.view memory index settings).logic? c = some other → c < line.label := by
      intro c hc other hother
      refine Nat.lt_of_le_of_ne (h.reference_le hline (List.mem_append_right _ hc) hother) ?_
      rintro rfl
      exact hself hc
    have hcited : ∀ c ∈ line.rule.citations, ∀ other,
        (fresh.view memory index settings).logic? c = some other →
          Sound.{u} (fresh.view memory index settings) other :=
      fun c hc other hother => ih c (hlt c hc other hother) hother
    obtain ⟨flag, hjudge⟩ := h.judged_label hline
    unfold Check.judge at hjudge
    cases hr : line.rule with
    | premise =>
      rw [hr] at hjudge
      exact Sound.premise hline hr hjudge
    | truthFunctional cited =>
      rw [hr] at hjudge hcited
      exact Sound.truthFunctional hjudge hcited
    | instanceIntroduction cited a =>
      rw [hr] at hjudge hcited hlt
      obtain ⟨source, x, body, hsource, -⟩ := h.instance_ok hjudge
      have hmember : cited ∈ (Rule.instanceIntroduction cited a).citations := by
        simp [Rule.citations]
      refine Sound.instanceIntroduction h hline hr hjudge (hcited cited hmember)
        (hlt cited hmember source hsource) ?_
      intro source x body hsource hformula
      refine hsheet.uncaptured line hmem source (mem_logicLines_of_logic? hsource) ?_ hformula
      rw [hr, h.label_eq hsource]
    | instanceElimination cited discharged =>
      rw [hr] at hjudge hcited
      refine Sound.instanceElimination h hjudge (hcited cited (by simp [Rule.citations])) ?_
      intro introduction from_ a hintroduction hrule'
      have hline : line.rule = .instanceElimination cited introduction.label := by
        rw [hr, h.label_eq hintroduction]
      exact hsheet.eliminated line hmem introduction (mem_logicLines_of_logic? hintroduction) hline
        hrule'
    | _ => simp [hr, Rule.isInstantial] at hrule

end View

/-! ## The sheet as authored -/

theorem NewLabels.RuleRenamed.isInstantial {labels : NewLabels} {rule rule' : Rule}
    (h : labels.RuleRenamed rule rule') : rule'.isInstantial = rule.isInstantial := by
  cases h <;> rfl

namespace Document.Renumbered

variable {document fresh : Document} {labels : NewLabels} {index : LineIndex}

/-- A sheet of instances is one under new labels too. -/
theorem instantial (h : document.Renumbered labels fresh index) (hsheet : document.Instantial) :
    fresh.Instantial := by
  constructor
  · intro line' hmem'
    obtain ⟨line, hmem, hline⟩ := h.exists_source hmem'
    obtain ⟨hrule, hself⟩ := hsheet.rules line hmem
    refine ⟨by rw [hline.rule.isInstantial, hrule], fun hcites => ?_⟩
    obtain ⟨c, hc, hrename⟩ := hline.rule.citations _ hcites
    rw [h.injective hrename hline.label] at hc
    exact hself hc
  · intro line' hmem' introduction' hintroduction' cited' from' a hr' hr''
    obtain ⟨line, hmem, hline⟩ := h.exists_source hmem'
    obtain ⟨introduction, hintroduction, hrenamed⟩ := h.exists_source hintroduction'
    have hrule := hline.rule
    have hrule' := hrenamed.rule
    rw [hr'] at hrule
    rw [hr''] at hrule'
    generalize hr : line.rule = rule at hrule
    generalize hi : introduction.rule = rule' at hrule'
    cases hrule with
    | instanceElimination _ hdischarged =>
      cases hrule' with
      | instanceIntroduction _ _ =>
        rw [h.injective hdischarged hrenamed.label] at hr
        rw [hline.formula]
        exact hsheet.eliminated line hmem introduction hintroduction hr hi
  · intro line' hmem' source' hsource' a x body hr' hformula
    obtain ⟨line, hmem, hline⟩ := h.exists_source hmem'
    obtain ⟨source, hsource, hrenamed⟩ := h.exists_source hsource'
    have hrule := hline.rule
    rw [hr'] at hrule
    generalize hr : line.rule = rule at hrule
    cases hrule with
    | instanceIntroduction _ hcited =>
      rw [h.injective hcited hrenamed.label] at hr
      rw [hrenamed.formula] at hformula
      exact hsheet.uncaptured line hmem source hsource hr hformula

end Document.Renumbered

/-- **Soundness of existential instantiation.** If a check of a sheet of premises, truth-functional
steps, instances and eliminations gives a good report, no instance's letter being captured or left in
the line that eliminates it, then each line is a first-order consequence of the lines named as its
premises. -/
theorem Session.instances_sound (session : Session) (document : Document) (memory : Memory)
    (report : Report) (hsheet : document.Instantial)
    (hcheck : (session.check document memory).2 = .ok report)
    (hgood : report.verdict = .good) :
    ∀ line ∈ document.logicLines, ∀ (I : Interpretation.{u}) (σ : I.Assignment),
      (∀ p ∈ document.logicLines, p.label ∈ line.deps → holds σ p.formula) →
        holds σ line.formula := by
  intro line hmem I σ hpremises
  obtain ⟨labels, index, hren, hacc⟩ := Document.accepted_of_good (Session.check_ok hcheck) hgood
  obtain ⟨i, hi⟩ := Document.mem_logicLines.mp hmem
  obtain ⟨line', hi', hline⟩ := hren.getElem? hi
  have hsound := hacc.sound (hren.instantial hsheet) (hacc.logic?_label hi')
  rw [← hline.formula]
  exact hsound.follows I σ (hren.premises hline hpremises)

/-- From `(∃x)(Fx ∧ A)` and `(∃y)(Gy ∧ B)`, with an instance of each, `A ∧ B`. The instances are
eliminated in the order they came in. -/
def instancesSheet : Document where
  lines :=
    [ .logic ⟨10, [10], .quantified .existential 'x'
        (.junction .conjunction [.predicate 'F' [.letter 'x'], .letter 'A']), .premise⟩,
      .logic ⟨20, [20], .quantified .existential 'y'
        (.junction .conjunction [.predicate 'G' [.letter 'y'], .letter 'B']), .premise⟩,
      .logic ⟨5, [5, 10], .junction .conjunction [.predicate 'F' [.letter 'a'], .letter 'A'],
        .instanceIntroduction 10 'a'⟩,
      .logic ⟨6, [6, 20], .junction .conjunction [.predicate 'G' [.letter 'b'], .letter 'B'],
        .instanceIntroduction 20 'b'⟩,
      .logic ⟨7, [5, 6, 10, 20], .junction .conjunction [.letter 'A', .letter 'B'],
        .truthFunctional [5, 6]⟩,
      .text "The letters are gone.",
      .logic ⟨8, [6, 10, 20], .junction .conjunction [.letter 'A', .letter 'B'],
        .instanceElimination 7 5⟩,
      .logic ⟨9, [10, 20], .junction .conjunction [.letter 'A', .letter 'B'],
        .instanceElimination 8 6⟩ ]

theorem instancesSheet_instantial : instancesSheet.Instantial := by
  constructor
  · decide
  · simp only [instancesSheet, Document.logicLines, List.filterMap_cons, Line.logic?,
      List.filterMap_nil, List.forall_mem_cons]
    simp [FreeIn, Formula.FreeInSome]
  · simp only [instancesSheet, Document.logicLines, List.filterMap_cons, Line.logic?,
      List.filterMap_nil, List.forall_mem_cons]
    simp [CaptureFree, Formula.CaptureFreeAll]

/-- The sheet of two instances has a good report, so `A ∧ B` holds where its two premises do. -/
theorem Session.instances_sound_conjunction :
    ∃ report, ((({} : Session).check instancesSheet .apart).2 = .ok report ∧ report.verdict = .good) ∧
      ∀ (I : Interpretation.{0}) (σ : I.Assignment),
        (∀ p ∈ instancesSheet.logicLines, p.label ∈ [10, 20] → holds σ p.formula) →
        holds σ (.junction .conjunction [.letter 'A', .letter 'B']) := by
  have hverdict : ({} : Session).verdict? instancesSheet .apart = some .good := rfl
  obtain ⟨report, hcheck, hgood⟩ := Session.verdict?_eq_some hverdict
  refine ⟨report, ⟨hcheck, hgood⟩, fun I σ hpremises => ?_⟩
  refine Session.instances_sound {} instancesSheet .apart report instancesSheet_instantial hcheck hgood
    ⟨9, [10, 20], .junction .conjunction [.letter 'A', .letter 'B'], .instanceElimination 8 6⟩ ?_ I σ
    hpremises
  simp [instancesSheet, Document.logicLines, Line.logic?]

/-! ## Letters left over or captured -/

/-- `Fa`, an instance of `(∃x)Fx`, is kept when the instance is eliminated. -/
def leftoverSheet : Document where
  lines :=
    [ .logic ⟨1, [1], .quantified .existential 'x' (.predicate 'F' [.letter 'x']), .premise⟩,
      .logic ⟨2, [1, 2], .predicate 'F' [.letter 'a'], .instanceIntroduction 1 'a'⟩,
      .logic ⟨3, [1], .predicate 'F' [.letter 'a'], .instanceElimination 2 2⟩ ]

/-- `(∃a)Faa`, as an instance of `(∃x)(∃a)Fxa`. -/
def capturedSheet : Document where
  lines :=
    [ .logic ⟨1, [1], .quantified .existential 'x'
        (.quantified .existential 'a' (.predicate 'F' [.letter 'x', .letter 'a'])), .premise⟩,
      .logic ⟨2, [1, 2], .quantified .existential 'a' (.predicate 'F' [.letter 'a', .letter 'a']),
        .instanceIntroduction 1 'a'⟩,
      .logic ⟨3, [1], .quantified .existential 'a' (.predicate 'F' [.letter 'a', .letter 'a']),
        .instanceElimination 2 2⟩ ]

/-- Two elements. Only the first has a property, and it alone has a relation, to the second. -/
def twoElements : Interpretation.{0} where
  Domain := Bool
  other := false
  relation _ args := args = [true] ∨ args = [true, false]
  truths _ := False

/-- **A sheet with a good report and a line that does not follow**, though each line cites earlier
ones only and that line has no instance among its premises. -/
structure Document.Misjudged (document : Document) : Prop where
  rules : ∀ line ∈ document.logicLines, line.rule.isInstantial = true ∧
    ∀ c ∈ line.rule.citations, c < line.label
  good : ({} : Session).verdict? document .apart = some .good
  fails : ∃ line ∈ document.logicLines,
    (∀ p ∈ document.logicLines, p.label ∈ line.deps → p.rule = .premise) ∧
    ∃ (I : Interpretation.{0}) (σ : I.Assignment),
      (∀ p ∈ document.logicLines, p.label ∈ line.deps → holds σ p.formula) ∧ ¬ holds σ line.formula

/-- **Good reports on lines that do not follow**: one sheet keeps the letter of an instance that it
eliminates, in the other a quantifier captures the letter. -/
theorem Session.good_beyond_consequence : leftoverSheet.Misjudged ∧ capturedSheet.Misjudged := by
  refine ⟨⟨by decide, rfl, ?_⟩, ⟨by decide, rfl, ?_⟩⟩
  · refine ⟨⟨3, [1], .predicate 'F' [.letter 'a'], .instanceElimination 2 2⟩,
      by simp [leftoverSheet, Document.logicLines, Line.logic?], by decide,
      twoElements, fun _ => false, ?_, ?_⟩
    · simp [leftoverSheet, Document.logicLines, Line.logic?, holds, Interpretation.value,
        Formula.core, twoElements]
    · simp [holds, Interpretation.value, Formula.core, twoElements]
  · refine ⟨⟨3, [1], .quantified .existential 'a' (.predicate 'F' [.letter 'a', .letter 'a']),
      .instanceElimination 2 2⟩,
      by simp [capturedSheet, Document.logicLines, Line.logic?], by decide,
      twoElements, fun _ => false, ?_, ?_⟩
    · simp [capturedSheet, Document.logicLines, Line.logic?, holds, Interpretation.value,
        Formula.core, twoElements]
    · simp [holds, Interpretation.value, Formula.core, twoElements]

end ProofSheet
