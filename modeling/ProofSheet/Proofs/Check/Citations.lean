import Mathlib.Logic.Relation
import Mathlib.Order.WellFounded
import ProofSheet.Proofs.Check.InstanceSoundness
import ProofSheet.Proofs.Check.Instances
import ProofSheet.Proofs.Formula.Binders

/-!
# What a line cites

A reference to a later line is flagged, but one of a line to itself is passed over. Whether a line may
cite itself is up to its rule, and each rule but one excludes it on grounds of its own: what it calls
for is not what the line says, or not what it depends on. A truth-functional step may cite itself, and
then confirms itself.

* `Rule.assumes`: the rules whose line is a premise of its own.
* `Check.mem_deps_of_judge`: **the premises of an accepted line**, for all rules at once.
* `Check.step_of_self`: an accepted line that cites itself is a truth-functional step.
* `Session.citations_backward`: **in a sheet with a good report every citation leads to an earlier
  line**, save those of truth-functional steps to themselves.
* `Session.good_circular`: a sheet of one such step has a good report.
-/

namespace ProofSheet

/-- Whether the line of a rule is a premise of its own. -/
def Rule.assumes : Rule → Bool
  | .premise | .instanceIntroduction _ _ => true
  | _ => false

namespace Check

variable {view : View} {line : LogicLine} {flag : Flag}

/-! ## The premises of an accepted line -/

/-- The premises that the rule of a line calls for: the line itself, if its rule makes it a premise,
and the premises of the lines it cites, less the one that its rule discharges. -/
def CallsFor (view : View) (line : LogicLine) (l : Label) : Prop :=
  (line.rule.assumes = true ∧ l = line.label) ∨
    ∃ c ∈ line.rule.citations, ∃ source, view.logic? c = some source ∧ l ∈ source.deps ∧
      line.rule.discharged? ≠ some l

/-- A checker that first compares the premises of the line with those of the cited line. -/
theorem deps_of_bind {cited : Label} {next : LogicLine → Unit → Judgement}
    (h : (view.cited cited >>= fun source => Premises.check source.deps line.deps >>= next source) =
      .ok flag) :
    ∃ source, view.logic? cited = some source ∧ ∀ l, l ∈ line.deps ↔ l ∈ source.deps := by
  obtain ⟨source, hsource, h⟩ := bind_eq_ok h
  obtain ⟨u, hdeps, -⟩ := bind_eq_ok h
  exact ⟨source, View.cited_ok hsource, Premises.check_ok hdeps⟩

/-- **The premises of an accepted line** are those that its rule calls for. -/
theorem mem_deps_of_judge (h : judge view line = .ok flag) (l : Label) :
    l ∈ line.deps ↔ CallsFor view line l := by
  unfold judge at h
  unfold CallsFor
  cases hr : line.rule with
  | premise =>
    rw [hr] at h
    simp [Rule.assumes, Rule.citations, premise_ok h l]
  | discharge cited discharged =>
    rw [hr] at h
    obtain ⟨consequent, antecedent, hconsequent, -, -, hdeps, -⟩ := discharge_ok h
    simp [Rule.assumes, Rule.citations, Rule.discharged?, hconsequent, hdeps l, eq_comm]
  | truthFunctional cited =>
    rw [hr] at h
    obtain ⟨lines, hlines, hdeps, -⟩ := truthFunctional_ok h
    simp only [Rule.assumes, Rule.citations, Rule.discharged?, Bool.false_eq_true, false_and, false_or,
      ne_eq, reduceCtorEq, not_false_eq_true, and_true]
    rw [hdeps l]
    -- the cited lines, by their place in the list or by their label
    constructor
    · rintro ⟨source, hmem, hl⟩
      obtain ⟨c, hc, hsource⟩ := Formula.exists_of_forall₂ hlines.flip hmem
      exact ⟨c, hc, source, hsource, hl⟩
    · rintro ⟨c, hc, source, hsource, hl⟩
      obtain ⟨source', hmem, hsource'⟩ := Formula.exists_of_forall₂ hlines hc
      obtain rfl : source = source' := Option.some.inj (hsource.symm.trans hsource')
      exact ⟨source, hmem, hl⟩
  | changeOfQuantifier cited | universalInstantiation cited | universalGeneralization cited
  | existentialGeneralization cited =>
    rw [hr] at h
    obtain ⟨source, hsource, hdeps⟩ := deps_of_bind h
    simp [Rule.assumes, Rule.citations, Rule.discharged?, hsource, hdeps l]
  | instanceIntroduction cited instantial =>
    rw [hr] at h
    obtain ⟨source, bound, body, hsource, hdeps, -⟩ := instanceIntroduction_ok h
    simp [Rule.assumes, Rule.citations, Rule.discharged?, hsource, hdeps l, or_comm]
  | instanceElimination cited discharged =>
    rw [hr] at h
    obtain ⟨source, introduction, from_, instantial, hsource, -, -, -, hdeps, -⟩ :=
      instanceElimination_ok h
    simp [Rule.assumes, Rule.citations, Rule.discharged?, hsource, hdeps l, eq_comm]
  | unrecognized name =>
    rw [hr] at h
    cases h

/-- What a rule discharges is a premise of a line it cites. -/
theorem discharged_mem_deps (h : judge view line = .ok flag) {d : Label}
    (hd : line.rule.discharged? = some d) :
    ∃ c ∈ line.rule.citations, ∃ source, view.logic? c = some source ∧ d ∈ source.deps := by
  unfold judge at h
  cases hr : line.rule with
  | discharge cited discharged =>
    rw [hr] at h hd
    obtain rfl : discharged = d := Option.some.inj hd
    obtain ⟨consequent, antecedent, hconsequent, -, hmem, -⟩ := discharge_ok h
    exact ⟨cited, List.mem_singleton_self cited, consequent, hconsequent, hmem⟩
  | instanceElimination cited discharged =>
    rw [hr] at h hd
    obtain rfl : discharged = d := Option.some.inj hd
    obtain ⟨source, introduction, from_, instantial, hsource, -, -, hmem, -⟩ :=
      instanceElimination_ok h
    exact ⟨cited, List.mem_singleton_self cited, source, hsource, hmem⟩
  | _ => simp [hr, Rule.discharged?] at hd

/-! ## Lines that cite themselves -/

/-- No run of quantifiers is taken off a formula that stops at its own first letter. -/
theorem not_stripped_self {quantifier : Quantifier} {f body : Formula} {letters : List Symbol} :
    ¬ Stripped quantifier f f letters body := by
  rintro ⟨hrun, -, hne⟩
  apply hne
  cases f with
  | quantified q x inner =>
    by_cases hq : q = quantifier
    · simp [stripRun, headBinder, Formula.quantifiedBy?, hq] at hrun
      exact hrun.1
    · simp [stripRun, hq] at hrun
      exact hrun.1
  | _ => simp [stripRun] at hrun; exact hrun.1

/-- No formula is changed into itself: after the negation in front, only one side is a
quantification. -/
theorem changed_self (f : Object) (sides : Object × Object) : changed f f ≠ .ok sides := by
  intro h
  cases f with
  | negation inner p => cases inner <;> cases h
  | _ => cases h

/-- **An accepted line that cites itself is a truth-functional step.** Each of the other rules calls
for something that the line is not. -/
theorem step_of_self (h : judge view line = .ok flag) (hself : view.logic? line.label = some line)
    (hcites : line.label ∈ line.rule.citations) : line.rule.stepCites line.label = true := by
  unfold judge at h
  have hsame : ∀ {cited source}, line.label ∈ [cited] → view.logic? cited = some source →
      source = line := by
    intro cited source hmem hsource
    rw [← List.mem_singleton.mp hmem, hself] at hsource
    exact (Option.some.inj hsource).symm
  cases hr : line.rule with
  | premise => simp [hr, Rule.citations] at hcites
  | discharge cited discharged =>
    rw [hr] at h hcites
    obtain ⟨consequent, antecedent, hconsequent, -, -, -, halike⟩ := discharge_ok h
    rw [hsame hcites hconsequent] at halike
    rw [Object.not_alike_consequent rfl] at halike
    cases halike
  | truthFunctional cited =>
    rw [hr] at hcites
    simpa [Rule.stepCites, Rule.citations] using hcites
  | changeOfQuantifier cited =>
    rw [hr] at h hcites
    obtain ⟨source, hsource, h⟩ := bind_eq_ok h
    obtain ⟨u, -, h⟩ := bind_eq_ok h
    rw [hsame hcites (View.cited_ok hsource)] at h
    simp only at h
    split at h
    · cases h
    · rename_i sides hsides
      split at hsides
      · exact absurd hsides (changed_self _ _)
      · exact absurd hsides (changed_self _ _)
  | universalInstantiation cited =>
    rw [hr] at h hcites
    obtain ⟨source, targets, body, letters, hsource, hstripped, -⟩ := universalInstantiation_ok h
    rw [hsame hcites hsource] at hstripped
    exact absurd hstripped not_stripped_self
  | universalGeneralization cited =>
    rw [hr] at h hcites
    obtain ⟨source, targets, body, letters, hsource, hstripped, -⟩ := universalGeneralization_ok h
    rw [hsame hcites hsource] at hstripped
    exact absurd hstripped not_stripped_self
  | existentialGeneralization cited =>
    rw [hr] at h hcites
    obtain ⟨source, targets, body, letters, hsource, hstripped, -⟩ := existentialGeneralization_ok h
    rw [hsame hcites hsource] at hstripped
    exact absurd hstripped not_stripped_self
  | instanceIntroduction cited instantial =>
    rw [hr] at h hcites
    obtain ⟨source, bound, body, hsource, -, hformula, -, halike⟩ := instanceIntroduction_ok h
    rw [hsame hcites hsource] at hformula
    rw [hformula] at halike
    exact absurd halike Object.not_alike_instance
  | instanceElimination cited discharged =>
    rw [hr] at h hcites
    obtain ⟨source, introduction, from_, instantial, hsource, -, -, hmem, hdeps, -⟩ :=
      instanceElimination_ok h
    -- the premise would be both discharged and kept
    rw [hsame hcites hsource] at hmem
    exact absurd rfl ((hdeps discharged).mp hmem).2
  | unrecognized name =>
    rw [hr] at h
    cases h

end Check

namespace View.Accepted

variable {view : View}

/-- **What a rule names stands before the line**, unless the line is a truth-functional step that names
itself. -/
theorem named_lt (h : view.Accepted) {i j : Nat} {line : LogicLine}
    (hi : view.lines[i]? = some (.logic line)) {c : Label} (hc : line.rule.Names c)
    (hj : view.index.position? c = some j) :
    j < i ∨ (j = i ∧ line.rule.stepCites line.label = true) := by
  obtain ⟨flag, hjudge⟩ := h.judged hi
  have hcited : ∀ {c k}, c ∈ line.rule.citations → view.index.position? c = some k →
      k < i ∨ (k = i ∧ line.rule.stepCites line.label = true) := by
    intro c k hc hk
    have hle : k ≤ i := h.backward hi (List.mem_append_right _ hc) hk
    by_cases hki : k = i
    · -- the two labels lead to one line, so they are one label
      subst hki
      have hc' : c = line.label := (h.label_eq (logic?_eq_some.mpr ⟨k, hk, hi⟩)).symm
      rw [hc'] at hc
      exact Or.inr ⟨rfl, Check.step_of_self hjudge (h.logic?_label hi) hc⟩
    · exact Or.inl (by omega)
  rcases hc with hc | hd
  · exact hcited hc hj
  · -- what is discharged is a premise of the cited line, and does not stand after that
    obtain ⟨k, hk, source, hsource, hmem⟩ := Check.discharged_mem_deps hjudge hd
    obtain ⟨p, hp, hget⟩ := logic?_eq_some.mp hsource
    have hle : j ≤ p := h.backward hget (List.mem_append_left _ hmem) hj
    rcases hcited hk hp with hlt | ⟨-, hstep⟩
    · exact Or.inl (by omega)
    · cases hr : line.rule <;> simp [hr, Rule.stepCites, Rule.discharged?] at hstep hd

end View.Accepted

/-! ## The sheet as authored -/

namespace Document

/-- The rule of the line at one position names the line at another. -/
def Cites (document : Document) (i j : Nat) : Prop :=
  ∃ line c, document.lines[i]? = some (.logic line) ∧ line.rule.Names c ∧ document.Designates c j

/-- The line at a position is a truth-functional step that cites itself. -/
def StepCitesItself (document : Document) (i : Nat) : Prop :=
  ∃ line, document.lines[i]? = some (.logic line) ∧ line.rule.stepCites line.label = true

theorem StepCitesItself.cites {document : Document} {i : Nat} (h : document.StepCitesItself i) :
    document.Cites i i := by
  obtain ⟨line, hi, hstep⟩ := h
  refine ⟨line, line.label, hi, Or.inl ?_, line, hi, rfl⟩
  cases hr : line.rule with
  | truthFunctional cited => simpa [hr, Rule.stepCites, Rule.citations] using hstep
  | _ => simp [hr, Rule.stepCites] at hstep

namespace Renumbered

variable {document fresh : Document} {labels : NewLabels} {index : LineIndex}

/-- A truth-functional step that cites itself under new labels did so before. -/
theorem stepCites (h : document.Renumbered labels fresh index) {line line' : LogicLine}
    (hline : labels.LogicRenamed line line') (hstep : line'.rule.stepCites line'.label = true) :
    line.rule.stepCites line.label = true := by
  have hrenamed := hline.rule
  generalize line'.rule = rule' at hstep hrenamed
  generalize line.rule = rule at hrenamed ⊢
  cases hrenamed with
  | truthFunctional hcited =>
    simp only [Rule.stepCites, List.contains_iff_mem] at hstep ⊢
    obtain ⟨old, hold, hrename⟩ := hcited.2 _ hstep
    rwa [h.injective hrename hline.label] at hold
  | _ => simp [Rule.stepCites] at hstep

/-- A label of the old sheet is of one line only, to which its new label leads. -/
theorem designates_iff (h : document.Renumbered labels fresh index) {c n : Label} {j : Nat}
    (hc : labels.renamed? c = some n) : document.Designates c j ↔ index.position? n = some j := by
  obtain ⟨i, line, line', hi, hlabel, hpos, -⟩ := h.lookup hc
  constructor
  · rintro ⟨other, hj, rfl⟩
    obtain ⟨m, hm, hposition⟩ := h.position hj
    rwa [Option.some.inj (hm.symm.trans hc)] at hposition
  · intro hj
    rw [← Option.some.inj (hpos.symm.trans hj)]
    exact ⟨line, hi, hlabel⟩

end Renumbered

/-- **What a line of an accepted sheet names stands before it**, unless it is a truth-functional step
that cites itself. -/
theorem Renumbered.cites_lt {document fresh : Document} {labels : NewLabels} {memory : Memory}
    {index : LineIndex} {settings : Settings} (h : document.Renumbered labels fresh index)
    (hacc : (fresh.view memory index settings).Accepted) {i j : Nat} (hij : document.Cites i j) :
    j < i ∨ (j = i ∧ document.StepCitesItself i) := by
  obtain ⟨line, c, hi, hc, hj⟩ := hij
  obtain ⟨line', hi', hline⟩ := h.getElem? hi
  obtain ⟨c', hrename, hc'⟩ := hline.rule.names hc
  have hj' := (h.designates_iff hrename).mp hj
  rcases hacc.named_lt hi' hc' hj' with hlt | ⟨heq, hstep⟩
  · exact Or.inl hlt
  · exact Or.inr ⟨heq, line, hi, h.stepCites hline hstep⟩

/-- Paths that never go forward come back only along a step that stays. -/
theorem self_of_transGen {R : Nat → Nat → Prop} (hR : ∀ {i j}, R i j → j ≤ i) {i : Nat}
    (h : Relation.TransGen R i i) : R i i := by
  have hpath : ∀ {i j}, Relation.TransGen R i j → j ≤ i := by
    intro i j hij
    induction hij with
    | single hstep => exact hR hstep
    | tail _ hstep ih => exact Nat.le_trans (hR hstep) ih
  obtain ⟨j, hij, hji⟩ := Relation.TransGen.head'_iff.mp h
  have hle : j ≤ i := hR hij
  have hge : i ≤ j := by
    rcases Relation.reflTransGen_iff_eq_or_transGen.mp hji with heq | htrans
    · omega
    · exact hpath htrans
  rwa [Nat.le_antisymm hle hge] at hij

end Document

/-- **Citations lead backward.** In a sheet with a good report every label that a rule cites or
discharges is of exactly one line. That line stands before the line that names it, unless a
truth-functional step cites itself. So citations of other lines are well founded, and a line takes part
in its own justification exactly if it is such a step. -/
theorem Session.citations_backward (session : Session) (document : Document) (memory : Memory)
    (report : Report) (hcheck : (session.check document memory).2 = .ok report)
    (hgood : report.verdict = .good) :
    (∀ (i : Nat) (line : LogicLine), document.lines[i]? = some (.logic line) →
      ∀ c, line.rule.Names c → ∃! j, document.Designates c j) ∧
    (∀ i j, document.Cites i j → j < i ∨ (j = i ∧ document.StepCitesItself i)) ∧
    WellFounded (fun j i => document.Cites i j ∧ j ≠ i) ∧
    ∀ i, Relation.TransGen document.Cites i i ↔ document.StepCitesItself i := by
  obtain ⟨labels, index, hren, hacc⟩ := Document.accepted_of_good (Session.check_ok hcheck) hgood
  refine ⟨?_, fun i j => hren.cites_lt hacc, ?_, fun i => ⟨fun h => ?_, fun h => .single h.cites⟩⟩
  · intro i line hi c hc
    obtain ⟨line', hi', hline⟩ := hren.getElem? hi
    obtain ⟨c', hrename, -⟩ := hline.rule.names hc
    obtain ⟨j, other, other', -, -, hpos, -⟩ := hren.lookup hrename
    refine ⟨j, (hren.designates_iff hrename).mpr hpos, fun k hk => ?_⟩
    have hk' := (hren.designates_iff hrename).mp hk
    exact Option.some.inj (hk'.symm.trans hpos)
  · refine Subrelation.wf ?_ Nat.lt_wfRel.wf
    rintro j i ⟨hcites, hne⟩
    rcases hren.cites_lt hacc hcites with hlt | ⟨heq, -⟩
    · exact hlt
    · exact absurd heq hne
  · have hle : ∀ {i j}, document.Cites i j → j ≤ i := by
      intro i j hij
      rcases hren.cites_lt hacc hij with hlt | ⟨heq, -⟩ <;> omega
    rcases hren.cites_lt hacc (Document.self_of_transGen hle h) with hlt | ⟨-, hstep⟩
    · omega
    · exact hstep

/-- From `(∀x)(Fx → A)` and `(∃x)Fx`, with an instance that is eliminated, `(∃x)Fx → A`; and from
`(∀y)Gy` some of what follows by the other rules. Each rule is used, and the labels are in no order. -/
def nineRulesSheet : Document where
  lines :=
    [ .logic ⟨4, [4], .quantified .universal 'x'
        (.conditional (.predicate 'F' [.letter 'x']) (.letter 'A')), .premise⟩,
      .logic ⟨9, [9], .quantified .existential 'x' (.predicate 'F' [.letter 'x']), .premise⟩,
      .logic ⟨2, [2, 9], .predicate 'F' [.letter 'a'], .instanceIntroduction 9 'a'⟩,
      .logic ⟨7, [4], .conditional (.predicate 'F' [.letter 'a']) (.letter 'A'),
        .universalInstantiation 4⟩,
      .logic ⟨1, [2, 4, 9], .letter 'A', .truthFunctional [2, 7]⟩,
      .text "The instance is no longer needed.",
      .logic ⟨8, [4, 9], .letter 'A', .instanceElimination 1 2⟩,
      .logic ⟨3, [4], .conditional
        (.quantified .existential 'x' (.predicate 'F' [.letter 'x'])) (.letter 'A'),
        .discharge 8 9⟩,
      .logic ⟨20, [20], .quantified .universal 'y' (.predicate 'G' [.letter 'y']), .premise⟩,
      .logic ⟨16, [20], .negation (.quantified .existential 'y'
        (.negation (.predicate 'G' [.letter 'y']))), .changeOfQuantifier 20⟩,
      .logic ⟨15, [20], .predicate 'G' [.letter 'b'], .universalInstantiation 20⟩,
      .logic ⟨13, [20], .quantified .universal 'z' (.predicate 'G' [.letter 'z']),
        .universalGeneralization 15⟩,
      .logic ⟨14, [20], .quantified .existential 'z' (.predicate 'G' [.letter 'z']),
        .existentialGeneralization 15⟩ ]

theorem nineRulesSheet_good : ({} : Session).verdict? nineRulesSheet .apart = some .good := rfl

/-- The sheet of nine rules has a good report, so its citations of other lines are well founded, and no
line of it takes part in its own justification. -/
theorem Session.citations_backward_nineRules :
    ({} : Session).verdict? nineRulesSheet .apart = some .good ∧ nineRulesSheet.Cites 7 6 ∧
      WellFounded (fun j i => nineRulesSheet.Cites i j ∧ j ≠ i) ∧
      ∀ i, ¬ Relation.TransGen nineRulesSheet.Cites i i := by
  obtain ⟨report, hcheck, hgood⟩ := Session.verdict?_eq_some nineRulesSheet_good
  obtain ⟨-, -, hwf, hself⟩ := Session.citations_backward {} nineRulesSheet .apart report hcheck hgood
  refine ⟨nineRulesSheet_good, ⟨_, 8, rfl, Or.inl (by decide), _, rfl, rfl⟩, hwf, fun i h => ?_⟩
  obtain ⟨line, hi, hstep⟩ := (hself i).mp h
  have hnone : ∀ line ∈ nineRulesSheet.logicLines, line.rule.stepCites line.label = false := by
    decide
  rw [hnone line (Document.mem_logicLines.mpr ⟨i, hi⟩)] at hstep
  cases hstep

/-- `A`, from no premises, by a truth-functional step that cites itself. -/
def circularSheet : Document where
  lines := [ .logic ⟨1, [], .letter 'A', .truthFunctional [1]⟩ ]

/-- **A good report on a circular justification**: a truth-functional step may be confirmed by
itself. -/
theorem Session.good_circular :
    ({} : Session).verdict? circularSheet .apart = some .good ∧ circularSheet.Cites 0 0 ∧
      ¬ WellFounded fun j i => circularSheet.Cites i j := by
  have hself : circularSheet.Cites 0 0 := ⟨_, 1, rfl, Or.inl (by decide), _, rfl, rfl⟩
  exact ⟨rfl, hself, fun hwf => hwf.irrefl.irrefl 0 hself⟩

end ProofSheet
