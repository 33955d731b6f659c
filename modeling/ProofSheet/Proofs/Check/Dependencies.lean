import ProofSheet.Proofs.Check.Citations

/-!
# Dependencies are the undischarged premises

What a line depends on is written down by the author and compared, line by line, with the dependencies
of the lines it cites. So in a sheet without a problem it is what the derivation of the line leaves
undischarged, and can be found from the rules alone.

* `Document.Undischarged`: **the premises that a derivation leaves undischarged**, from rules and
  labels only.
* `Document.Renumbered.mem_deps_iff`: the premises of a line, from those of the lines it cites, as
  authored.
* `Session.deps_undischarged`: **the dependencies of each line of a sheet with a good report are its
  undischarged premises**, and they are premises or instances that do not stand after it.
-/

namespace ProofSheet

/-- **An undischarged premise of a line.** The line itself, if its rule makes it a premise; and an
undischarged premise of a line it cites, unless its rule discharges that premise. -/
inductive Document.Undischarged (document : Document) : LogicLine → Label → Prop
  | own {line : LogicLine} : line.rule.assumes = true → Undischarged document line line.label
  | cited {line source : LogicLine} {l : Label} : source ∈ document.logicLines →
      source.label ∈ line.rule.citations → Undischarged document source l →
      line.rule.discharged? ≠ some l → Undischarged document line l

/-! ## Premises as authored -/

theorem NewLabels.RuleRenamed.assumes_eq {labels : NewLabels} {rule rule' : Rule}
    (h : labels.RuleRenamed rule rule') : rule'.assumes = rule.assumes := by
  cases h <;> rfl

namespace Document.Renumbered

variable {document fresh : Document} {labels : NewLabels} {memory : Memory} {index : LineIndex}
  {settings : Settings}

/-- A label is a premise exactly if its new label is one. -/
theorem mem_deps (h : document.Renumbered labels fresh index) {line line' : LogicLine}
    (hline : labels.LogicRenamed line line') {l n : Label} (hl : labels.renamed? l = some n) :
    n ∈ line'.deps ↔ l ∈ line.deps := by
  constructor
  · intro hn
    obtain ⟨old, hold, hrename⟩ := hline.deps.2 n hn
    rwa [h.injective hrename hl] at hold
  · intro hmem
    obtain ⟨fresh', hfresh, hrename⟩ := hline.deps.1 l hmem
    rwa [Option.some.inj (hrename.symm.trans hl)] at hfresh

/-- A label is discharged exactly if its new label is. -/
theorem discharged_iff (h : document.Renumbered labels fresh index) {rule rule' : Rule}
    (hrule : labels.RuleRenamed rule rule') {l n : Label} (hl : labels.renamed? l = some n) :
    rule'.discharged? = some n ↔ rule.discharged? = some l := by
  rcases hrule.discharged with ⟨hnone, hnone'⟩ | ⟨d, d', hd, hd', hrename⟩
  · simp [hnone, hnone']
  · rw [hd, hd', Option.some.injEq, Option.some.injEq]
    constructor
    · rintro rfl
      exact h.injective hrename hl
    · rintro rfl
      exact Option.some.inj (hrename.symm.trans hl)

/-- A logic line is found under the new label. -/
theorem logic?_of_mem (h : document.Renumbered labels fresh index) (settings : Settings)
    {source : LogicLine} (hsource : source ∈ document.logicLines) {n : Label}
    (hn : labels.renamed? source.label = some n) :
    ∃ source', (fresh.view memory index settings).logic? n = some source' ∧
      labels.LogicRenamed source source' := by
  obtain ⟨i, hi⟩ := mem_logicLines.mp hsource
  obtain ⟨source', hi', hline⟩ := h.getElem? hi
  obtain ⟨m, hm, hpos⟩ := h.position hi
  rw [Option.some.inj (hm.symm.trans hn)] at hpos
  exact ⟨source', View.logic?_eq_some.mpr ⟨i, hpos, hi'⟩, hline⟩

/-- **The premises of a line as authored**: itself, if its rule makes it a premise, and the premises of
the lines it cites, less the one that its rule discharges. -/
theorem mem_deps_iff (h : document.Renumbered labels fresh index)
    (hacc : (fresh.view memory index settings).Accepted) {line : LogicLine}
    (hmem : line ∈ document.logicLines) (l : Label) :
    l ∈ line.deps ↔ (line.rule.assumes = true ∧ l = line.label) ∨
      ∃ source ∈ document.logicLines, source.label ∈ line.rule.citations ∧ l ∈ source.deps ∧
        line.rule.discharged? ≠ some l := by
  obtain ⟨i, hi⟩ := mem_logicLines.mp hmem
  obtain ⟨line', hi', hline⟩ := h.getElem? hi
  obtain ⟨flag, hjudge⟩ := hacc.judged hi'
  have hcalls := Check.mem_deps_of_judge hjudge
  constructor
  · intro hl
    obtain ⟨n, hn, hrename⟩ := hline.deps.1 l hl
    rcases (hcalls n).mp hn with ⟨hassumes, rfl⟩ | ⟨c', hc', source', hsource', hn', hdischarged⟩
    · rw [hline.rule.assumes_eq] at hassumes
      exact Or.inl ⟨hassumes, h.injective hrename hline.label⟩
    · obtain ⟨c, hc, hrename'⟩ := hline.rule.citations c' hc'
      obtain ⟨source, hsource, rfl, hrenamed⟩ := h.referenced hrename' hsource'
      refine Or.inr ⟨source, hsource, hc, (h.mem_deps hrenamed hrename).mp hn', ?_⟩
      rwa [ne_eq, h.discharged_iff hline.rule hrename] at hdischarged
  · rintro (⟨hassumes, rfl⟩ | ⟨source, hsource, hc, hl, hdischarged⟩)
    · rw [← hline.rule.assumes_eq] at hassumes
      exact (h.mem_deps hline hline.label).mp ((hcalls _).mpr (Or.inl ⟨hassumes, rfl⟩))
    · obtain ⟨c', hc', hrename'⟩ := hline.rule.cites hc
      obtain ⟨source', hsource', hrenamed⟩ := h.logic?_of_mem settings hsource hrename'
      obtain ⟨n, hn, hrename⟩ := hrenamed.deps.1 l hl
      refine (h.mem_deps hline hrename).mp ((hcalls n).mpr (Or.inr ⟨c', hc', source', hsource', hn, ?_⟩))
      rwa [ne_eq, h.discharged_iff hline.rule hrename]

/-! ## The derivation -/

/-- What a derivation leaves undischarged, its last line depends on. -/
theorem mem_deps_of_undischarged (h : document.Renumbered labels fresh index)
    (hacc : (fresh.view memory index settings).Accepted) {line : LogicLine} {l : Label}
    (hl : document.Undischarged line l) (hmem : line ∈ document.logicLines) : l ∈ line.deps := by
  induction hl with
  | own hassumes => exact (h.mem_deps_iff hacc hmem _).mpr (Or.inl ⟨hassumes, rfl⟩)
  | cited hsource hc _ hdischarged ih =>
    exact (h.mem_deps_iff hacc hmem _).mpr (Or.inr ⟨_, hsource, hc, ih hsource, hdischarged⟩)

/-- What a line depends on, its derivation leaves undischarged. The induction is on positions: without
steps that cite themselves, what a line cites stands before it. -/
theorem undischarged_of_mem_deps (h : document.Renumbered labels fresh index)
    (hacc : (fresh.view memory index settings).Accepted)
    (hsteps : ∀ line ∈ document.logicLines, line.rule.stepCites line.label = false) {i : Nat}
    {line : LogicLine} (hi : document.lines[i]? = some (.logic line)) {l : Label}
    (hl : l ∈ line.deps) : document.Undischarged line l := by
  induction i using Nat.strongRecOn generalizing line with
  | _ i ih =>
    have hmem := mem_logicLines.mpr ⟨i, hi⟩
    rcases (h.mem_deps_iff hacc hmem l).mp hl with ⟨hassumes, rfl⟩ | ⟨source, hsource, hc, hl, hd⟩
    · exact .own hassumes
    · obtain ⟨j, hj⟩ := mem_logicLines.mp hsource
      have hlt : j < i := by
        have hcites : document.Cites i j := ⟨line, source.label, hi, Or.inl hc, source, hj, rfl⟩
        rcases h.cites_lt hacc hcites with hlt | ⟨-, other, hother, hstep⟩
        · exact hlt
        · rw [hsteps other (mem_logicLines.mpr ⟨i, hother⟩)] at hstep
          cases hstep
      exact .cited hsource hc (ih j hlt hj hl) hd

/-- An undischarged premise of a line is a premise or an instance that does not stand after it. -/
theorem exists_premise (h : document.Renumbered labels fresh index)
    (hacc : (fresh.view memory index settings).Accepted) {line : LogicLine} {l : Label}
    (hl : document.Undischarged line l) : ∀ {i : Nat}, document.lines[i]? = some (.logic line) →
      ∃ j ≤ i, ∃ premise, document.lines[j]? = some (.logic premise) ∧ premise.label = l ∧
        premise.rule.assumes = true := by
  induction hl with
  | @own line hassumes => exact fun {i} hi => ⟨i, Nat.le_refl i, line, hi, rfl, hassumes⟩
  | @cited line source l hsource hc _ _ ih =>
    intro i hi
    obtain ⟨k, hk⟩ := mem_logicLines.mp hsource
    obtain ⟨j, hjk, premise, hj, hlabel, hassumes⟩ := ih hk
    have hki : k ≤ i := by
      have hcites : document.Cites i k := ⟨line, source.label, hi, Or.inl hc, source, hk, rfl⟩
      rcases h.cites_lt hacc hcites with hlt | ⟨heq, -⟩ <;> omega
    exact ⟨j, by omega, premise, hj, hlabel, hassumes⟩

end Document.Renumbered

/-- **Dependencies are the undischarged premises.** In a sheet with a good report in which no
truth-functional step cites itself, the dependencies of each line are what its derivation leaves
undischarged, and each of them is a premise or an instance that does not stand after the line. -/
theorem Session.deps_undischarged (session : Session) (document : Document) (memory : Memory)
    (report : Report)
    (hsteps : ∀ line ∈ document.logicLines, line.rule.stepCites line.label = false)
    (hcheck : (session.check document memory).2 = .ok report) (hgood : report.verdict = .good) :
    ∀ (i : Nat) (line : LogicLine), document.lines[i]? = some (.logic line) →
      (∀ l, l ∈ line.deps ↔ document.Undischarged line l) ∧
      ∀ l ∈ line.deps, ∃ j ≤ i, ∃ premise, document.lines[j]? = some (.logic premise) ∧
        premise.label = l ∧ premise.rule.assumes = true := by
  obtain ⟨labels, index, hren, hacc⟩ := Document.accepted_of_good (Session.check_ok hcheck) hgood
  intro i line hi
  have hmem := Document.mem_logicLines.mpr ⟨i, hi⟩
  have hdeps : ∀ l, l ∈ line.deps → document.Undischarged line l := fun l hl =>
    hren.undischarged_of_mem_deps hacc hsteps hi hl
  refine ⟨fun l => ⟨hdeps l, fun hl => hren.mem_deps_of_undischarged hacc hl hmem⟩, fun l hl => ?_⟩
  exact hren.exists_premise hacc (hdeps l hl) hi

/-- In the sheet of nine rules `(∃x)Fx → A` rests on `(∀x)(Fx → A)` alone: the instance and the premise
`(∃x)Fx` are discharged on the way to it. -/
theorem Session.deps_undischarged_nineRules :
    ({} : Session).verdict? nineRulesSheet .apart = some .good ∧
      ∀ line, nineRulesSheet.lines[7]? = some (.logic line) →
        ∀ l, nineRulesSheet.Undischarged line l ↔ l = 4 := by
  obtain ⟨report, hcheck, hgood⟩ := Session.verdict?_eq_some nineRulesSheet_good
  have hsteps : ∀ line ∈ nineRulesSheet.logicLines, line.rule.stepCites line.label = false := by
    decide
  refine ⟨nineRulesSheet_good, fun line hline l => ?_⟩
  obtain ⟨hdeps, -⟩ := Session.deps_undischarged {} nineRulesSheet .apart report hsteps hcheck hgood 7 line
    hline
  have hdeps' : line.deps = [4] := by
    have heq : line = _ := (Line.logic.inj (Option.some.inj hline)).symm
    rw [heq]
  rw [← hdeps l, hdeps', List.mem_singleton]

end ProofSheet
