import Mathlib.Data.Set.Function
import ProofSheet.Proofs.Check.Accepted
import ProofSheet.Proofs.Labels.Renumbering

/-!
# Other labels, the same check

An author's labels tell lines apart and do nothing else: the first stage of a check replaces them. So
two sheets that differ by a one-to-one renaming of labels, and in the order in which truth-functional
steps cite their lines, have the same report, or fail at the same line in the same way.

* `Document.Relabelled`: **a sheet under other labels.**
* `NewLabels.under`: the new labels of a sheet, by its other labels.
* `NewLabels.Together`: two relabellings that give one result or both miss a label.
* `NewLabels.relabelLine_together`, `NewLabels.relabelLines_together`, `assignLabels_together`: the two
  sheets, line by line.
* `Session.check_relabelled`: **the check of a sheet under other labels.**
-/

namespace ProofSheet

/-! ## Sheets under other labels -/

namespace Rule

/-- A rule with its labels renamed. -/
def mapLabels (ρ : Label → Label) : Rule → Rule
  | .premise => .premise
  | .discharge cited discharged => .discharge (ρ cited) (ρ discharged)
  | .truthFunctional cited => .truthFunctional (cited.map ρ)
  | .changeOfQuantifier cited => .changeOfQuantifier (ρ cited)
  | .universalInstantiation cited => .universalInstantiation (ρ cited)
  | .universalGeneralization cited => .universalGeneralization (ρ cited)
  | .existentialGeneralization cited => .existentialGeneralization (ρ cited)
  | .instanceIntroduction cited instantial => .instanceIntroduction (ρ cited) instantial
  | .instanceElimination cited discharged => .instanceElimination (ρ cited) (ρ discharged)
  | .unrecognized name => .unrecognized name

/-- The same rule, but a truth-functional step may cite its lines in another order. -/
inductive Reordered : Rule → Rule → Prop
  | same (rule : Rule) : Reordered rule rule
  | truthFunctional {cited cited' : List Label} : cited'.Perm cited →
      Reordered (.truthFunctional cited) (.truthFunctional cited')

end Rule

/-- A logic line under other labels. Premises are a set, and may stand in any order. -/
structure LogicLine.Relabelled (ρ : Label → Label) (line line' : LogicLine) : Prop where
  label : line'.label = ρ line.label
  deps : ∀ l, l ∈ line'.deps ↔ l ∈ line.deps.map ρ
  formula : line'.formula = line.formula
  rule : (line.rule.mapLabels ρ).Reordered line'.rule

/-- A line under other labels; text stays as it is. -/
inductive Line.Relabelled (ρ : Label → Label) : Line → Line → Prop
  | logic {line line' : LogicLine} : line.Relabelled ρ line' → Relabelled ρ (.logic line) (.logic line')
  | text (content : String) : Relabelled ρ (.text content) (.text content)

/-- **A sheet under other labels.** -/
def Document.Relabelled (ρ : Label → Label) (document document' : Document) : Prop :=
  List.Forall₂ (Line.Relabelled ρ) document.lines document'.lines

/-- A label occurs in a logic line: as its own, among its premises or in its rule. -/
def LogicLine.Mentions (line : LogicLine) (l : Label) : Prop :=
  l = line.label ∨ l ∈ line.deps ∨ line.rule.Names l

/-- A label occurs in a sheet. -/
def Document.Mentions (document : Document) (l : Label) : Prop :=
  ∃ line, Line.logic line ∈ document.lines ∧ line.Mentions l

/-- Two errors of one kind about the lines at one position. -/
def LabelError.SameFault : LabelError → LabelError → Prop
  | .outOfRange position _, .outOfRange position' _
  | .duplicate position _, .duplicate position' _
  | .missing position _, .missing position' _ => position = position'
  | _, _ => False

/-! ## Lines -/

namespace NewLabels

/-- The new labels of a sheet, by the other labels of the sheet. -/
def under (ρ : Label → Label) (labels : NewLabels) : NewLabels :=
  labels.map fun pair => (ρ pair.1, pair.2)

/-- A label is renamed as before, if its other label is that of no other label. -/
theorem renamed?_under {ρ : Label → Label} {labels : NewLabels} {l : Label}
    (hinj : ∀ pair ∈ labels, ρ pair.1 = ρ l → pair.1 = l) :
    (labels.under ρ).renamed? (ρ l) = labels.renamed? l := by
  induction labels with
  | nil => rfl
  | cons pair labels ih =>
    obtain ⟨old, fresh⟩ := pair
    have hrest := ih fun pair hpair => hinj pair (List.mem_cons_of_mem _ hpair)
    have hunder : under ρ ((old, fresh) :: labels) = (ρ old, fresh) :: under ρ labels := rfl
    rw [hunder, renamed?_cons, renamed?_cons, hrest]
    by_cases hold : old = l
    · rw [if_pos hold, if_pos (by rw [hold])]
    · have hne : ρ old ≠ ρ l := fun h => hold (hinj (old, fresh) List.mem_cons_self h)
      rw [if_neg hold, if_neg hne]

/-- **Two relabellings go together**: both find all labels, and give one result, or both miss one. -/
def Together {α : Type} (x y : α × Option Label) : Prop :=
  (x.2 = none ∧ y = x) ∨ (x.2.isSome = true ∧ y.2.isSome = true)

theorem relabel_found {labels : NewLabels} {olds : List Label}
    (h : ∀ l ∈ olds, (labels.renamed? l).isSome = true) :
    labels.relabel olds = (olds.filterMap labels.renamed?, none) := by
  induction olds with
  | nil => rfl
  | cons old olds ih =>
    obtain ⟨fresh, hfresh⟩ := Option.isSome_iff_exists.mp (h old List.mem_cons_self)
    have hrest := ih fun l hl => h l (List.mem_cons_of_mem old hl)
    rw [relabel, hfresh, hrest, List.filterMap_cons_some hfresh]

theorem relabel_missing {labels : NewLabels} {olds : List Label} {l : Label} (hl : l ∈ olds)
    (hnone : labels.renamed? l = none) : ∃ done missing, labels.relabel olds = (done, some missing) := by
  induction olds with
  | nil => simp at hl
  | cons old olds ih =>
    cases hold : labels.renamed? old with
    | none => exact ⟨old :: olds, old, by simp [relabel, hold]⟩
    | some fresh =>
      have htail : l ∈ olds := by
        rcases List.mem_cons.mp hl with rfl | hl
        · rw [hnone] at hold
          cases hold
        · exact hl
      obtain ⟨done, missing, hrest⟩ := ih htail
      exact ⟨fresh :: done, missing, by simp [relabel, hold, hrest]⟩

section Lines

variable {labels labels' : NewLabels} {ρ : Label → Label}

theorem relabelOne_together {c : Label} (hc : labels'.renamed? (ρ c) = labels.renamed? c)
    (rule : Label → Rule) : Together (labels.relabelOne c rule) (labels'.relabelOne (ρ c) rule) := by
  unfold relabelOne
  rw [hc]
  cases labels.renamed? c with
  | none => exact Or.inr ⟨rfl, rfl⟩
  | some fresh => exact Or.inl ⟨rfl, rfl⟩

theorem relabelTwo_together {c d : Label} (hc : labels'.renamed? (ρ c) = labels.renamed? c)
    (hd : labels'.renamed? (ρ d) = labels.renamed? d) (rule : Label → Label → Rule) :
    Together (labels.relabelTwo c d rule) (labels'.relabelTwo (ρ c) (ρ d) rule) := by
  unfold relabelTwo
  rw [hc]
  cases labels.renamed? c with
  | none => exact Or.inr ⟨rfl, rfl⟩
  | some fresh => exact relabelOne_together hd (rule fresh)

/-- Labels that are cited in any order are found together, and in one order after sorting. -/
theorem relabelStep_together {cited cited' : List Label} (hperm : cited'.Perm (cited.map ρ))
    (h : ∀ c ∈ cited, labels'.renamed? (ρ c) = labels.renamed? c) :
    Together (labels.relabelRule (.truthFunctional cited))
      (labels'.relabelRule (.truthFunctional cited')) := by
  by_cases hall : ∀ c ∈ cited, (labels.renamed? c).isSome = true
  · have hall' : ∀ c ∈ cited', (labels'.renamed? c).isSome = true := by
      intro c' hc'
      obtain ⟨c, hc, rfl⟩ := List.mem_map.mp (hperm.mem_iff.mp hc')
      rw [h c hc]
      exact hall c hc
    have hnew : (cited'.filterMap labels'.renamed?).Perm (cited.filterMap labels.renamed?) := by
      have hmap : (cited.map ρ).filterMap labels'.renamed? = cited.filterMap labels.renamed? := by
        rw [List.filterMap_map]
        exact List.filterMap_congr h
      exact hmap ▸ hperm.filterMap labels'.renamed?
    refine Or.inl ?_
    simp [relabelRule, relabel_found hall, relabel_found hall', Ascending.sort_eq_of_perm hnew]
  · push Not at hall
    obtain ⟨c, hc, hnone⟩ := hall
    have hnone : labels.renamed? c = none := by simpa using hnone
    have hmem : ρ c ∈ cited' := hperm.mem_iff.mpr (List.mem_map_of_mem hc)
    obtain ⟨done, missing, hdone⟩ := relabel_missing hc hnone
    obtain ⟨done', missing', hdone'⟩ := relabel_missing hmem ((h c hc).trans hnone)
    exact Or.inr ⟨by simp [relabelRule, hdone], by simp [relabelRule, hdone']⟩

/-- **A rule and the rule under other labels go together.** -/
theorem relabelRule_together {rule rule' : Rule} (hrule : (rule.mapLabels ρ).Reordered rule')
    (h : ∀ c, rule.Names c → labels'.renamed? (ρ c) = labels.renamed? c) :
    Together (labels.relabelRule rule) (labels'.relabelRule rule') := by
  have hcited : ∀ c ∈ rule.citations, labels'.renamed? (ρ c) = labels.renamed? c :=
    fun c hc => h c (Or.inl hc)
  cases rule with
  | premise | unrecognized name =>
    cases hrule
    exact Or.inl ⟨rfl, rfl⟩
  | truthFunctional cited =>
    cases hrule with
    | same => exact relabelStep_together (.refl _) hcited
    | truthFunctional hperm => exact relabelStep_together hperm hcited
  | discharge c d | instanceElimination c d =>
    cases hrule
    exact relabelTwo_together (hcited c List.mem_cons_self) (h d (Or.inr rfl)) _
  | changeOfQuantifier c | universalInstantiation c | universalGeneralization c
  | existentialGeneralization c | instanceIntroduction c =>
    cases hrule
    exact relabelOne_together (hcited c List.mem_cons_self) _

/-- **A logic line and the line under other labels go together.** -/
theorem relabelLine_together {line line' : LogicLine} (hline : line.Relabelled ρ line')
    (h : ∀ l, line.Mentions l → labels'.renamed? (ρ l) = labels.renamed? l) :
    Together (labels.relabelLine line) (labels'.relabelLine line') := by
  have hlabel : labels'.renamed? line'.label = labels.renamed? line.label := by
    rw [hline.label]
    exact h line.label (Or.inl rfl)
  have hdeps : ∀ l ∈ line.deps, labels'.renamed? (ρ l) = labels.renamed? l :=
    fun l hl => h l (Or.inr (Or.inl hl))
  have hrule := relabelRule_together hline.rule fun c hc => h c (Or.inr (Or.inr hc))
  unfold relabelLine
  rw [hlabel]
  cases labels.renamed? line.label with
  | none => exact Or.inr ⟨rfl, rfl⟩
  | some label =>
    by_cases hall : ∀ l ∈ line.deps, (labels.renamed? l).isSome = true
    · have hall' : ∀ l ∈ line'.deps, (labels'.renamed? l).isSome = true := by
        intro l' hl'
        obtain ⟨l, hl, rfl⟩ := List.mem_map.mp ((hline.deps l').mp hl')
        rw [hdeps l hl]
        exact hall l hl
      -- the premises have one set of new labels, hence one ascending list
      have hset : Ascending.ofList (line'.deps.filterMap labels'.renamed?) =
          Ascending.ofList (line.deps.filterMap labels.renamed?) := by
        apply Ascending.eq_of_mem_iff (Ascending.ofList_ascending _) (Ascending.ofList_ascending _)
        intro n
        simp only [Ascending.mem_ofList, List.mem_filterMap, hline.deps, List.mem_map]
        constructor
        · rintro ⟨_, ⟨l, hl, rfl⟩, hn⟩
          exact ⟨l, hl, (hdeps l hl) ▸ hn⟩
        · rintro ⟨l, hl, hn⟩
          exact ⟨ρ l, ⟨l, hl, rfl⟩, (hdeps l hl).trans hn⟩
      simp only [relabel_found hall, relabel_found hall', hset, hline.formula]
      rcases hrule with ⟨hnone, hsame⟩ | ⟨hsome, hsome'⟩
      · exact Or.inl ⟨hnone, by rw [hsame]⟩
      · exact Or.inr ⟨hsome, hsome'⟩
    · push Not at hall
      obtain ⟨l, hl, hnone⟩ := hall
      have hnone : labels.renamed? l = none := by simpa using hnone
      have hmem : ρ l ∈ line'.deps := (hline.deps _).mpr (List.mem_map_of_mem hl)
      obtain ⟨done, missing, hdone⟩ := relabel_missing hl hnone
      obtain ⟨done', missing', hdone'⟩ := relabel_missing hmem ((hdeps l hl).trans hnone)
      exact Or.inr ⟨by simp [hdone], by simp [hdone']⟩

/-- **The lines of two sheets go together**: they are relabelled to the same lines, or the first
missing label is at one position. -/
theorem relabelLines_together {lines lines' : List Line}
    (hlines : List.Forall₂ (Line.Relabelled ρ) lines lines')
    (h : ∀ line, Line.logic line ∈ lines → ∀ l, line.Mentions l →
      labels'.renamed? (ρ l) = labels.renamed? l) :
    ∀ position, (∃ positions, (labels.relabelLines position lines).2 = .ok positions ∧
        labels'.relabelLines position lines' = labels.relabelLines position lines) ∨
      ∃ at_ l l', (labels.relabelLines position lines).2 = .error (.missing at_ l) ∧
        (labels'.relabelLines position lines').2 = .error (.missing at_ l') := by
  induction hlines with
  | nil => exact fun position => Or.inl ⟨[], rfl, rfl⟩
  | @cons line line' lines lines' hline _ ih =>
    intro position
    have hrest := ih (fun line hline => h line (List.mem_cons_of_mem _ hline)) (position + 1)
    cases hline with
    | @logic line line' hline =>
      have htogether := relabelLine_together hline (h line List.mem_cons_self)
      simp only [relabelLines]
      rcases htogether with ⟨hnone, hsame⟩ | ⟨hsome, hsome'⟩
      · -- this line is relabelled, and the others decide
        have hpair : labels.relabelLine line = ((labels.relabelLine line).1, none) :=
          Prod.ext rfl hnone
        rw [hsame, hpair]
        rcases hrest with ⟨positions, hok, heq⟩ | ⟨at_, l, l', herror, herror'⟩
        · exact Or.inl ⟨position :: positions, by simp [hok, Except.map], by simp [heq]⟩
        · exact Or.inr ⟨at_, l, l', by simp [herror, Except.map], by simp [herror', Except.map]⟩
      · obtain ⟨l, hl⟩ := Option.isSome_iff_exists.mp hsome
        obtain ⟨l', hl'⟩ := Option.isSome_iff_exists.mp hsome'
        have hpair : labels.relabelLine line = ((labels.relabelLine line).1, some l) :=
          Prod.ext rfl hl
        have hpair' : labels'.relabelLine line' = ((labels'.relabelLine line').1, some l') :=
          Prod.ext rfl hl'
        rw [hpair, hpair']
        exact Or.inr ⟨position, l, l', rfl, rfl⟩
    | text content =>
      simp only [relabelLines]
      rcases hrest with ⟨positions, hok, heq⟩ | ⟨at_, l, l', herror, herror'⟩
      · refine Or.inl ?_
        by_cases hblank : Text.isBlank content = true
        · exact ⟨position :: positions, by simp [hblank, hok, Except.map], by simp [heq]⟩
        · exact ⟨positions, by simp [hblank, hok], by simp [heq]⟩
      · refine Or.inr ⟨at_, l, l', ?_, ?_⟩
        · by_cases hblank : Text.isBlank content = true <;> simp [hblank, herror, Except.map]
        · by_cases hblank : Text.isBlank content = true <;> simp [hblank, herror', Except.map]

end Lines

end NewLabels

/-! ## New labels -/

/-- **The labels of two sheets go together**: they are given the same numbers, or the first repeated
label is at one position. -/
theorem assignLabels_together {ρ : Label → Label} {limit : Label} {M : Set Label}
    (hinj : Set.InjOn ρ M) {lines lines' : List Line}
    (hlines : List.Forall₂ (Line.Relabelled ρ) lines lines')
    (hmem : ∀ line, Line.logic line ∈ lines → line.label ∈ M)
    (hlimit : ∀ line, Line.logic line ∈ lines → line.label ≤ limit ∧ ρ line.label ≤ limit) :
    ∀ (position next : Nat) (known : NewLabels), (∀ pair ∈ known, pair.1 ∈ M) →
      (∃ labels : NewLabels, (∀ pair ∈ labels, pair.1 ∈ M) ∧
        assignLabels limit position next known lines = .ok labels ∧
        assignLabels limit position next (known.under ρ) lines' = .ok (labels.under ρ)) ∨
      ∃ at_ l l', assignLabels limit position next known lines = .error (.duplicate at_ l) ∧
        assignLabels limit position next (known.under ρ) lines' = .error (.duplicate at_ l') := by
  induction hlines with
  | nil => exact fun position next known hknown => Or.inl ⟨known, hknown, rfl, rfl⟩
  | @cons line line' lines lines' hline _ ih =>
    intro position next known hknown
    have ih := ih (fun line hline => hmem line (List.mem_cons_of_mem _ hline))
      fun line hline => hlimit line (List.mem_cons_of_mem _ hline)
    cases hline with
    | text content => exact ih (position + 1) _ known hknown
    | @logic line line' hline =>
      have hM : line.label ∈ M := hmem line List.mem_cons_self
      obtain ⟨hle, hle'⟩ := hlimit line List.mem_cons_self
      have hsame : (known.under ρ).renamed? (ρ line.label) = known.renamed? line.label :=
        NewLabels.renamed?_under fun pair hpair heq => hinj (hknown pair hpair) hM heq
      simp only [assignLabels, hline.label, Nat.not_lt.mpr hle, Nat.not_lt.mpr hle', if_false, hsame]
      by_cases hdup : (known.renamed? line.label).isSome = true
      · simp only [hdup, if_true]
        exact Or.inr ⟨position, line.label, ρ line.label, rfl, rfl⟩
      · simp only [hdup, if_false, Bool.false_eq_true]
        refine ih (position + 1) (next + 1) ((line.label, next) :: known) ?_
        intro pair hpair
        rcases List.mem_cons.mp hpair with rfl | hpair
        · exact hM
        · exact hknown pair hpair

/-! ## Sheets -/

namespace Document

variable {ρ : Label → Label} {document document' : Document} {limit : Label}

/-- **Renumbering forgets the labels**: two sheets that differ in them are renumbered to one sheet with
one index, or are refused for faults of one kind at one position. -/
theorem renumber_relabelled (hinj : Set.InjOn ρ {l | document.Mentions l})
    (hlimit : ∀ line, Line.logic line ∈ document.lines → line.label ≤ limit ∧ ρ line.label ≤ limit)
    (h : document.Relabelled ρ document') :
    (∃ index, (document.renumber limit).outcome = .ok index ∧
      document'.renumber limit = document.renumber limit) ∨
    ∃ e e', (document.renumber limit).outcome = .error e ∧
      (document'.renumber limit).outcome = .error e' ∧ e.SameFault e' := by
  have hmem : ∀ line, Line.logic line ∈ document.lines → document.Mentions line.label :=
    fun line hline => ⟨line, hline, Or.inl rfl⟩
  rcases assignLabels_together hinj h hmem hlimit 0 0 [] (by simp) with
    ⟨labels, hknown, hok, hok'⟩ | ⟨at_, l, l', herror, herror'⟩
  · have hsame : ∀ line, Line.logic line ∈ document.lines → ∀ l, line.Mentions l →
        (labels.under ρ).renamed? (ρ l) = labels.renamed? l := by
      intro line hline l hl
      exact NewLabels.renamed?_under fun pair hpair heq =>
        hinj (hknown pair hpair) ⟨line, hline, hl⟩ heq
    have hlabels : document.newLabels limit = .ok labels := hok
    have hlabels' : document'.newLabels limit = .ok (labels.under ρ) := hok'
    simp only [renumber, hlabels, hlabels']
    rcases NewLabels.relabelLines_together h hsame 0 with
      ⟨positions, hpositions, heq⟩ | ⟨at_, l, l', herror, herror'⟩
    · exact Or.inl ⟨⟨positions⟩, by simp [hpositions, Except.map], by rw [heq]⟩
    · refine Or.inr ⟨.missing at_ l, .missing at_ l', ?_, ?_, rfl⟩
      · simp [herror, Except.map]
      · simp [herror', Except.map]
  · have hlabels : document.newLabels limit = .error (.duplicate at_ l) := herror
    have hlabels' : document'.newLabels limit = .error (.duplicate at_ l') := herror'
    simp only [renumber, hlabels, hlabels']
    exact Or.inr ⟨_, _, rfl, rfl, rfl⟩

end Document

/-- **A check depends on labels only up to a one-to-one renaming.** A sheet and the sheet under other
labels, truth-functional steps citing their lines in any order, are checked to the same report, or are
refused for faults of one kind at one position. -/
theorem Session.check_relabelled (session : Session) (document document' : Document)
    (memory : Memory) (ρ : Label → Label) (hinj : Set.InjOn ρ {l | document.Mentions l})
    (hlimit : ∀ line, Line.logic line ∈ document.lines →
      line.label ≤ session.settings.labelLimit.value ∧
        ρ line.label ≤ session.settings.labelLimit.value)
    (h : document.Relabelled ρ document') :
    (∃ report, (session.check document memory).2 = .ok report ∧
      session.check document' memory = session.check document memory) ∨
    ∃ e e', session.check document memory = (session, .error e) ∧
      session.check document' memory = (session, .error e') ∧ e.SameFault e' := by
  rcases Document.renumber_relabelled hinj hlimit h with ⟨index, hok, heq⟩ | ⟨e, e', herror, herror', hsame⟩
  · refine Or.inl ⟨(document.renumber session.settings.labelLimit.value).document.reportOn memory index
      session.settings, ?_, ?_⟩
    · simp [Session.check, Document.check, hok, Except.map]
    · simp [Session.check, Document.check, heq]
  · refine Or.inr ⟨e, e', ?_, ?_, hsame⟩
    · simp [Session.check, Document.check, herror, Except.map]
    · simp [Session.check, Document.check, herror', Except.map]

/-- `A ∧ B` from two premises. -/
def conjunctionSheet : Document where
  lines :=
    [ .logic ⟨7, [7], .letter 'A', .premise⟩,
      .text "and",
      .logic ⟨3, [3], .letter 'B', .premise⟩,
      .logic ⟨5, [3, 7], .junction .conjunction [.letter 'A', .letter 'B'],
        .truthFunctional [7, 3]⟩ ]

/-- The same, with the labels of the two premises exchanged. The step cites the labels in the order in
which it cited them, and so the lines in the other order. -/
def exchangedSheet : Document where
  lines :=
    [ .logic ⟨3, [3], .letter 'A', .premise⟩,
      .text "and",
      .logic ⟨7, [7], .letter 'B', .premise⟩,
      .logic ⟨5, [3, 7], .junction .conjunction [.letter 'A', .letter 'B'],
        .truthFunctional [7, 3]⟩ ]

/-- The two sheets have one good report. -/
theorem Session.check_relabelled_exchanged :
    ({} : Session).check exchangedSheet .apart = ({} : Session).check conjunctionSheet .apart ∧
      ∃ report, (({} : Session).check conjunctionSheet .apart).2 = .ok report ∧
        report.verdict = .good := by
  have hmentions : ∀ l : Nat, conjunctionSheet.Mentions l → l = 3 ∨ l = 5 ∨ l = 7 := by
    rintro l ⟨line, hline, hl⟩
    simp only [conjunctionSheet, List.mem_cons, Line.logic.injEq, reduceCtorEq, List.not_mem_nil,
      or_false, false_or] at hline
    rcases hline with rfl | rfl | rfl <;>
      simp [LogicLine.Mentions, Rule.Names, Rule.citations, Rule.discharged?] at hl <;> tauto
  have hinj : Set.InjOn (fun l => 10 - l) {l | conjunctionSheet.Mentions l} := by
    have hreflect : ∀ a b : Nat, (a = 3 ∨ a = 5 ∨ a = 7) → (b = 3 ∨ b = 5 ∨ b = 7) →
        10 - a = 10 - b → a = b := by omega
    exact fun a ha b hb hab => hreflect a b (hmentions a ha) (hmentions b hb) hab
  have hlimit : ∀ line, Line.logic line ∈ conjunctionSheet.lines →
      line.label ≤ ({} : Session).settings.labelLimit.value ∧
        10 - line.label ≤ ({} : Session).settings.labelLimit.value := by
    intro line hline
    have hlabel := hmentions line.label ⟨line, hline, Or.inl rfl⟩
    have hvalue : ({} : Session).settings.labelLimit.value = 65536 := rfl
    have hbound : ∀ n : Nat, n = 3 ∨ n = 5 ∨ n = 7 → n ≤ 65536 ∧ 10 - n ≤ 65536 := by omega
    rw [hvalue]
    exact hbound _ hlabel
  have hsheet : conjunctionSheet.Relabelled (fun l => 10 - l) exchangedSheet := by
    refine .cons (.logic ⟨rfl, by simp, rfl, .same _⟩) (.cons (.text _) (.cons
      (.logic ⟨rfl, by simp, rfl, .same _⟩) (.cons (.logic ⟨rfl, ?_, rfl, ?_⟩) .nil)))
    · simp [or_comm]
    · exact .truthFunctional (.swap _ _ _)
  have hverdict : ({} : Session).verdict? conjunctionSheet .apart = some .good := rfl
  obtain ⟨report, hok, hgood⟩ := Session.verdict?_eq_some hverdict
  rcases Session.check_relabelled {} conjunctionSheet exchangedSheet .apart (fun l => 10 - l) hinj
      hlimit hsheet with ⟨-, -, hsame⟩ | ⟨e, e', herror, -⟩
  · exact ⟨hsame, report, hok, hgood⟩
  · rw [herror] at hok
    cases hok

end ProofSheet
