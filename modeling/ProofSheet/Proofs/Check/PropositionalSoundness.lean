import ProofSheet.Proofs.Check.Accepted
import ProofSheet.Proofs.Object.Counting
import ProofSheet.Proofs.Solver.Soundness

/-!
# Soundness of premises, discharge and truth-functional steps

In a sheet without a problem that uses no other rules, each line holds in every valuation in which its
premises hold. The induction is over the positions of lines: a line cites earlier lines only, and the
premises of what it cites are its own, less the one that it discharges.

* `View.PremisesHold`: the premises of a line hold.
* `Check.holds_of_truthFunctional`, `Check.holds_of_discharge`: the two steps.
* `View.Accepted.holds`: the induction.
* `Session.propositional_sound`: **what a good report on such a sheet says of the sheet as
  authored.**
-/

namespace ProofSheet

/-- The premises of a line hold. -/
def View.PremisesHold (view : View) (v : Object.Valuation) (line : LogicLine) : Prop :=
  ∀ l ∈ line.deps, ∀ premise, view.logic? l = some premise → v.holds (view.object premise)

namespace Check

variable {view : View} {line : LogicLine} {flag : Flag} {v : Object.Valuation}

/-- A line that follows truth-functionally holds where the cited lines do. -/
theorem holds_of_truthFunctional {cited : List Label}
    (h : truthFunctional view line cited = .ok flag)
    (hcited : ∀ c ∈ cited, ∀ other, view.logic? c = some other →
      v.holds (view.object other)) :
    v.holds (view.object line) := by
  obtain ⟨lines, hlines, -, hsolve⟩ := truthFunctional_ok h
  refine Solver.holds_of_solve_good hsolve ?_
  intro p hp
  obtain ⟨other, hother, rfl⟩ := List.mem_map.mp hp
  obtain ⟨c, hc, hlookup⟩ := Formula.exists_of_forall₂ hlines.flip hother
  exact hcited c hc other hlookup

/-- The premises of each cited line are premises of a truth-functional step. -/
theorem deps_of_truthFunctional {cited : List Label}
    (h : truthFunctional view line cited = .ok flag) {c : Label} (hc : c ∈ cited) :
    ∃ other, view.logic? c = some other ∧ other.deps ⊆ line.deps := by
  obtain ⟨lines, hlines, hdeps, -⟩ := truthFunctional_ok h
  obtain ⟨other, hother, hlookup⟩ := Formula.exists_of_forall₂ hlines hc
  exact ⟨other, hlookup, fun l hl => (hdeps l).mpr ⟨other, hother, hl⟩⟩

/-- A conditional that discharges a premise holds, if the cited line holds wherever its own premises
do, and no letter is bound again. -/
theorem holds_of_discharge {cited discharged : Label}
    (h : discharge view line cited discharged = .ok flag)
    (hfresh : Formula.rebindings [] line.formula = []) (hpremises : view.PremisesHold v line)
    (hcited : ∀ other, view.logic? cited = some other → view.PremisesHold v other →
      v.holds (view.object other)) :
    v.holds (view.object line) := by
  obtain ⟨consequent, antecedent, hconsequent, hantecedent, -, hdeps, halike⟩ := discharge_ok h
  have hlike := Object.alike_passing (.inl (by rwa [View.formula_object]))
    (Object.alike_symm halike)
  rw [v.holds_like hlike, v.conditional]
  intro hholds
  -- of the premises of the consequent, only the discharged one is not at hand
  refine hcited consequent hconsequent fun l hl premise hpremise => ?_
  by_cases hld : l = discharged
  · rw [hld, hantecedent] at hpremise
    rwa [← Option.some.inj hpremise]
  · exact hpremises l ((hdeps l).mpr ⟨hl, hld⟩) premise hpremise

end Check

namespace Rule

/-- The rules that do not look inside quantifiers. -/
def isPropositional : Rule → Bool
  | .premise | .discharge _ _ | .truthFunctional _ => true
  | _ => false

/-- Whether a rule is a truth-functional step that cites the line with a label. -/
def stepCites (rule : Rule) (label : Label) : Bool :=
  match rule with
  | .truthFunctional cited => cited.contains label
  | _ => false

end Rule

namespace View.Accepted

variable {view : View}

/-- **A line cites earlier lines only**, unless it is a truth-functional step that cites itself. -/
theorem cited_lt (h : view.Accepted) {i : Nat} {line : LogicLine}
    (hi : view.lines[i]? = some (.logic line)) {c : Label} (hc : c ∈ line.rule.citations)
    (hne : c ≠ line.label) {other : LogicLine} (hother : view.logic? c = some other) :
    ∃ j < i, view.lines[j]? = some (.logic other) := by
  obtain ⟨j, hj, hget⟩ := View.logic?_eq_some.mp hother
  have hle : j ≤ i := h.backward hi (List.mem_append_right _ hc) hj
  refine ⟨j, Nat.lt_of_le_of_ne hle ?_, hget⟩
  rintro rfl
  have hsame : other = line := by simpa using hget.symm.trans hi
  exact hne ((h.label_eq hother).symm.trans (by rw [hsame]))

/-- A discharge does not cite its own line: a conditional is not like its consequent. -/
theorem discharge_ne (h : view.Accepted) {line : LogicLine} {flag : Flag} {i : Nat}
    (hi : view.lines[i]? = some (.logic line)) {cited discharged : Label}
    (hj : Check.discharge view line cited discharged = .ok flag) : cited ≠ line.label := by
  rintro rfl
  obtain ⟨consequent, antecedent, hconsequent, -, -, -, halike⟩ := Check.discharge_ok hj
  rw [h.logic?_label hi] at hconsequent
  obtain rfl : line = consequent := Option.some.inj hconsequent
  rw [Object.not_alike_consequent rfl] at halike
  cases halike

/-- What a line asserts holds where its formula does, since no letter of it is bound again. -/
theorem ofObjects_holds (h : view.Accepted) {v : Valuation} {l : Label} {line : LogicLine}
    (hline : view.logic? l = some line) :
    v.ofObjects.holds (view.object line) ↔ v.holds line.formula := by
  obtain ⟨i, -, hi⟩ := View.logic?_eq_some.mp hline
  have hfresh := Formula.rebindings_eq_nil (h.letters hi)
  rw [v.ofObjects_holds (by rwa [View.formula_object]), View.formula_object]

/-- **Each line holds where its premises do.** -/
theorem holds (h : view.Accepted)
    (hrules : ∀ {i : Nat} {line : LogicLine}, view.lines[i]? = some (.logic line) →
      line.rule.isPropositional = true ∧ line.rule.stepCites line.label = false)
    {v : Object.Valuation} {i : Nat} {line : LogicLine}
    (hi : view.lines[i]? = some (.logic line)) (hpremises : view.PremisesHold v line) :
    v.holds (view.object line) := by
  -- on the position, for all lines at once: what a line cites stands before it
  induction i using Nat.strongRecOn generalizing line with
  | _ i ih =>
    obtain ⟨flag, hjudge⟩ := h.judged hi
    obtain ⟨hrule, hself⟩ := hrules hi
    unfold Check.judge at hjudge
    cases hr : line.rule with
    | premise =>
      rw [hr] at hjudge
      exact hpremises line.label ((Check.premise_ok hjudge _).mpr rfl) line (h.logic?_label hi)
    | discharge cited discharged =>
      rw [hr] at hjudge
      have hfresh := Formula.rebindings_eq_nil (h.letters hi)
      refine Check.holds_of_discharge hjudge hfresh hpremises fun other hother hholds => ?_
      obtain ⟨j, hji, hj⟩ := h.cited_lt hi (c := cited) (by simp [hr, Rule.citations])
        (h.discharge_ne hi hjudge) hother
      exact ih j hji hj hholds
    | truthFunctional cited =>
      rw [hr] at hjudge
      refine Check.holds_of_truthFunctional hjudge fun c hc other hother => ?_
      have hne : c ≠ line.label := by
        rintro rfl
        simp [hr, Rule.stepCites, hc] at hself
      obtain ⟨j, hji, hj⟩ := h.cited_lt hi (by simpa [hr, Rule.citations] using hc) hne hother
      refine ih j hji hj fun l hl premise hpremise => ?_
      obtain ⟨other', hother', hsub⟩ := Check.deps_of_truthFunctional hjudge hc
      rw [hother] at hother'
      rw [← Option.some.inj hother'] at hsub
      exact hpremises l (hsub hl) premise hpremise
    | _ => simp [hr, Rule.isPropositional] at hrule

end View.Accepted

/-! ## The sheet as authored -/

namespace Document.Renumbered

variable {document fresh : Document} {labels : NewLabels} {index : LineIndex}

/-- A sheet keeps to these rules under new labels too. -/
theorem isPropositional (h : document.Renumbered labels fresh index)
    (hrules : ∀ line ∈ document.logicLines,
      line.rule.isPropositional = true ∧ line.rule.stepCites line.label = false)
    {i : Nat} {line' : LogicLine} (hi : fresh.lines[i]? = some (.logic line')) :
    line'.rule.isPropositional = true ∧ line'.rule.stepCites line'.label = false := by
  obtain ⟨line, hi', hline⟩ := h.getElem?_symm hi
  obtain ⟨hrule, hself⟩ := hrules line (mem_logicLines.mpr ⟨i, hi'⟩)
  have hrenamed := hline.rule
  generalize line.rule = rule at hrule hself hrenamed
  generalize line'.rule = rule' at hrenamed
  cases hrenamed with
  | @truthFunctional cited cited' hcited =>
    refine ⟨rfl, ?_⟩
    simp only [Rule.stepCites, List.contains_eq_mem, decide_eq_false_iff_not] at hself ⊢
    intro hmem
    obtain ⟨old, hold, hrename⟩ := hcited.2 _ hmem
    rw [h.injective hrename hline.label] at hold
    exact hself hold
  | _ => exact ⟨hrule, rfl⟩

/-- What is so of the premises of a line as authored is so of them under new labels. -/
theorem premises (h : document.Renumbered labels fresh index) {memory : Memory}
    {settings : Settings} {P : Formula → Prop} {line line' : LogicLine}
    (hline : labels.LogicRenamed line line')
    (hpremises : ∀ p ∈ document.logicLines, p.label ∈ line.deps → P p.formula) :
    ∀ l ∈ line'.deps, ∀ premise', (fresh.view memory index settings).logic? l = some premise' →
      P premise'.formula := by
  intro l hl premise' hpremise'
  obtain ⟨old, hold, hrename⟩ := hline.deps.2 l hl
  obtain ⟨premise, hmem, rfl, hrenamed⟩ := h.referenced hrename hpremise'
  rw [hrenamed.formula]
  exact hpremises premise hmem hold

end Document.Renumbered

/-- **Soundness of the propositional rules.** If a check of a sheet whose lines are premises,
discharges and truth-functional steps, none of them citing itself, gives a good report, then each line
holds in every valuation in which all lines named as its premises hold. -/
theorem Session.propositional_sound (session : Session) (document : Document) (memory : Memory)
    (report : Report)
    (hrules : ∀ line ∈ document.logicLines,
      line.rule.isPropositional = true ∧ line.rule.stepCites line.label = false)
    (hcheck : (session.check document memory).2 = .ok report) (hgood : report.verdict = .good) :
    ∀ line ∈ document.logicLines, ∀ v : Valuation,
      (∀ p ∈ document.logicLines, p.label ∈ line.deps → v.holds p.formula) →
        v.holds line.formula := by
  intro line hmem v hpremises
  obtain ⟨labels, index, hren, hacc⟩ := Document.accepted_of_good (Session.check_ok hcheck) hgood
  obtain ⟨i, hi⟩ := Document.mem_logicLines.mp hmem
  obtain ⟨line', hi', hline⟩ := hren.getElem? hi
  rw [← hline.formula, ← hacc.ofObjects_holds (hacc.logic?_label hi')]
  refine hacc.holds (hren.isPropositional hrules) hi' fun l hl premise hpremise => ?_
  exact (hacc.ofObjects_holds hpremise).mpr (hren.premises hline hpremises l hl premise hpremise)

/-- From `A → B` and `B → C`, with `A` assumed and discharged, the conditional `A → C`. The labels are
in no order, and a comment and a blank line stand between the lines. -/
def transitivitySheet : Document where
  lines :=
    [ .text "Transitivity",
      .logic ⟨40, [40], .conditional (.letter 'A') (.letter 'B'), .premise⟩,
      .logic ⟨7, [7], .conditional (.letter 'B') (.letter 'C'), .premise⟩,
      .text " ",
      .logic ⟨9, [9], .letter 'A', .premise⟩,
      .logic ⟨3, [9, 40], .letter 'B', .truthFunctional [9, 40]⟩,
      .logic ⟨12, [7, 9, 40], .letter 'C', .truthFunctional [3, 7]⟩,
      .logic ⟨5, [7, 40], .conditional (.letter 'A') (.letter 'C'), .discharge 12 9⟩ ]

/-- The sheet of transitivity has a good report, so `A → C` holds where `A → B` and `B → C` do. -/
theorem Session.propositional_sound_transitivity :
    ∃ report,
      ((({} : Session).check transitivitySheet .apart).2 = .ok report ∧ report.verdict = .good) ∧
      ∀ v : Valuation, v.holds (.conditional (.letter 'A') (.letter 'B')) →
        v.holds (.conditional (.letter 'B') (.letter 'C')) →
        v.holds (.conditional (.letter 'A') (.letter 'C')) := by
  have hverdict : ({} : Session).verdict? transitivitySheet .apart = some .good := rfl
  obtain ⟨report, hcheck, hgood⟩ := Session.verdict?_eq_some hverdict
  refine ⟨report, ⟨hcheck, hgood⟩, fun v hab hbc => ?_⟩
  have hrules : ∀ line ∈ transitivitySheet.logicLines,
      line.rule.isPropositional = true ∧ line.rule.stepCites line.label = false := by
    decide
  refine Session.propositional_sound {} transitivitySheet .apart report hrules hcheck hgood
    ⟨5, [7, 40], .conditional (.letter 'A') (.letter 'C'), .discharge 12 9⟩ ?_ v ?_
  · simp [transitivitySheet, Document.logicLines, Line.logic?]
  · simp only [transitivitySheet, Document.logicLines, List.filterMap_cons, Line.logic?,
      List.filterMap_nil, List.forall_mem_cons]
    simp [hab, hbc]

end ProofSheet
