import ProofSheet.Proofs.Check.Judgement
import ProofSheet.Proofs.Formula.FreeLetters
import ProofSheet.Proofs.Labels.Renumbering
import ProofSheet.Proofs.Reach.Trails
import ProofSheet.Session

/-!
# Sheets without a problem

A report is good when no line has a problem. What that says of the sheet is collected once, for all
that is proved of good sheets.

* `Reach.forward_mem`: every reference to a later line is flagged.
* `View.Accepted`: **a sheet without a problem**: labels lead to their lines, no reference leads
  forward, no formula has a letter in conflict, and each line is accepted by its rule.
* `Document.accepted_of_good`: a good report is a report on such a sheet.
-/

namespace ProofSheet

/-! ## References to later lines -/

namespace Reach

variable {index : LineIndex}

/-- Some flags tell of every reference of a line to a later one. -/
def Flagged (index : LineIndex) (line : Line) (position : Nat) (flags : List Flag) : Prop :=
  ∀ logic, line = .logic logic → ∀ label ∈ logic.references, ∀ {referenced},
    index.position? label = some referenced → position < referenced →
      forwardFlag logic label ∈ flags

/-- **Every reference to a later line is flagged.** -/
theorem forward_mem {document : Document} :
    List.Forall₂ (fun (line : Line × Nat) flags => Flagged index line.1 line.2 flags)
      document.lines.zipIdx (document.reach index).flags := by
  rw [flags_reach, List.forall₂_map_right_iff, List.forall₂_same]
  rintro ⟨_, i⟩ - logic rfl label hlabel referenced hr hlt
  exact List.mem_map_of_mem (List.mem_filter.mpr ⟨hlabel, by simpa [hr] using hlt⟩)

end Reach

/-! ## Reports without a problem -/

theorem Report.good_iff {report : Report} :
    report.verdict = .good ↔ ∀ flags ∈ report.flags, ∀ flag ∈ flags, flag.isProblem = false := by
  unfold Report.verdict
  split
  · rename_i h
    simp only [List.any_eq_true] at h
    obtain ⟨flags, hflags, flag, hflag, hproblem⟩ := h
    simp only [reduceCtorEq, false_iff]
    intro hall
    rw [hall flags hflags flag hflag] at hproblem
    exact absurd hproblem (by simp)
  · rename_i h
    simpa using h

/-- Every flag of a scope is a conflict of letters. -/
theorem Formula.scope_flags_kind {f : Formula} :
    ∀ flag ∈ f.scope.flags, flag.kind = .letterConflict := by
  intro flag hflag
  simp only [Formula.scope, Scope.gather_flags, List.nil_append, List.mem_append,
    List.mem_map] at hflag
  rcases hflag with ⟨s, -, rfl⟩ | ⟨s, -, rfl⟩
  · rfl
  · rfl

theorem Formula.scope_flags_isProblem {f : Formula} :
    ∀ flag ∈ f.scope.flags, flag.isProblem = true := by
  intro flag hflag
  simp only [Flag.isProblem, Formula.scope_flags_kind flag hflag]

namespace Document

variable {document : Document} {memory : Memory} {index : LineIndex} {settings : Settings}

/-- The flags of a logic line in a good report: none of any stage is a problem. -/
theorem flags_of_good (h : (document.reportOn memory index settings).verdict = .good) {i : Nat}
    {line : LogicLine} (hi : document.lines[i]? = some (.logic line)) :
    ∃ references, Reach.Flagged index (.logic line) i references ∧
      ∀ flag ∈ references ++ line.formula.scope.flags ++
        Check.line (document.view memory index settings) line, flag.isProblem = false := by
  rw [Report.good_iff] at h
  have hall := @Reach.forward_mem index document
  have hlt : i < document.lines.length := (List.getElem?_eq_some_iff.mp hi).1
  have hlen : i < (document.reach index).flags.length := by
    rw [← hall.length_eq]
    simpa using hlt
  have hline : document.lines[i] = .logic line := (List.getElem?_eq_some_iff.mp hi).2
  refine ⟨(document.reach index).flags[i], ?_, h _ ?_⟩
  · have hget := (List.forall₂_iff_get.mp hall).2 i (by simpa using hlt) hlen
    simpa [hline] using hget
  · refine List.mem_iff_getElem?.mpr ⟨i, ?_⟩
    simp [Document.reportOn, List.getElem?_zipWith, hi, List.getElem?_eq_getElem hlen,
      View.lineFlags]

theorem judge_ok_of_good (h : (document.reportOn memory index settings).verdict = .good) {i : Nat}
    {line : LogicLine} (hi : document.lines[i]? = some (.logic line)) :
    ∃ flag, Check.judge (document.view memory index settings) line = .ok flag := by
  obtain ⟨references, -, hflags⟩ := flags_of_good h hi
  cases hj : Check.judge (document.view memory index settings) line with
  | ok flag => exact ⟨flag, rfl⟩
  | error flags =>
    have hends := @Check.judge_ends (document.view memory index settings) line
    rw [hj] at hends
    obtain ⟨hne, hproblems⟩ := hends
    obtain ⟨flag, hflag⟩ := List.exists_mem_of_ne_nil flags hne
    have hproblem := hproblems flag hflag
    have hfine := hflags flag (by simp [Check.line, hj, hflag])
    rw [hproblem] at hfine
    exact absurd hfine (by simp)

theorem scope_flags_of_good (h : (document.reportOn memory index settings).verdict = .good) {i : Nat}
    {line : LogicLine} (hi : document.lines[i]? = some (.logic line)) :
    line.formula.scope.flags = [] := by
  obtain ⟨references, -, hflags⟩ := flags_of_good h hi
  refine List.eq_nil_iff_forall_not_mem.mpr fun flag hflag => ?_
  have hfine := hflags flag (by simp [hflag])
  rw [Formula.scope_flags_isProblem flag hflag] at hfine
  exact absurd hfine (by simp)

theorem backward_of_good (h : (document.reportOn memory index settings).verdict = .good) {i j : Nat}
    {line : LogicLine} (hi : document.lines[i]? = some (.logic line)) {label : Label}
    (hlabel : label ∈ line.references) (hj : index.position? label = some j) : j ≤ i := by
  obtain ⟨references, hforward, hflags⟩ := flags_of_good h hi
  -- a reference forward would have its flag
  by_contra hlt
  have hmem := hforward line rfl label hlabel hj (by omega)
  have hfine := hflags _ (by simp only [List.mem_append]; exact Or.inl (Or.inl hmem))
  exact absurd hfine (by simp [Reach.forwardFlag, Flag.explained, Flag.isProblem])

end Document

/-! ## Accepted sheets -/

namespace View

/-- The logic line with a label, by its position. -/
theorem logic?_eq_some {view : View} {l : Label} {line : LogicLine} :
    view.logic? l = some line ↔
      ∃ i, view.index.position? l = some i ∧ view.lines[i]? = some (.logic line) := by
  have hlogic : ∀ {line' : Line}, line'.logic? = some line ↔ line' = .logic line := by
    intro line'
    cases line' <;> simp [Line.logic?]
  unfold View.logic?
  cases hl : view.index.position? l with
  | none => simp
  | some i => simp [Option.bind_eq_some_iff, hlogic]

/-- The scope of the line with a label is that of its formula. -/
theorem scope?_eq {view : View}
    (hscopes : view.scopes = view.lines.map fun line => line.logic?.map fun logic => logic.formula.scope)
    (l : Label) : view.scope? l = (view.logic? l).map fun line => line.formula.scope := by
  unfold View.scope? View.logic?
  cases view.index.position? l with
  | none => rfl
  | some i =>
    simp only [hscopes, List.getElem?_map]
    cases view.lines[i]? <;> rfl

/-- **A sheet without a problem**, as the checkers see it. -/
structure Accepted (view : View) : Prop where
  ascending : view.index.positions.Pairwise (· < ·)
  /-- The label of a line leads to it. -/
  position : ∀ {i : Nat} {line : LogicLine}, view.lines[i]? = some (.logic line) →
    view.index.position? line.label = some i
  /-- Premises are lines. -/
  resolves : ∀ {i : Nat} {line : LogicLine}, view.lines[i]? = some (.logic line) →
    ∀ l ∈ line.deps, ∃ other, view.logic? l = some other
  /-- No reference leads forward. -/
  backward : ∀ {i j : Nat} {line : LogicLine}, view.lines[i]? = some (.logic line) →
    ∀ {l}, l ∈ line.references → view.index.position? l = some j → j ≤ i
  scopes : view.scopes = view.lines.map fun line => line.logic?.map fun logic => logic.formula.scope
  /-- No letter is bound twice, or both bound and free. -/
  letters : ∀ {i : Nat} {line : LogicLine}, view.lines[i]? = some (.logic line) →
    line.formula.scope.flags = []
  /-- Each line is accepted by its rule. -/
  judged : ∀ {i : Nat} {line : LogicLine}, view.lines[i]? = some (.logic line) →
    ∃ flag, Check.judge view line = .ok flag

namespace Accepted

variable {view : View} (h : view.Accepted) {i j : Nat} {line other : LogicLine} {l : Label}
include h

/-- Labels are in the order of their lines. -/
theorem label_lt (hi : view.index.position? l = some i) {k : Label}
    (hj : view.index.position? k = some j) : l < k ↔ i < j := by
  obtain ⟨hl, rfl⟩ := List.getElem?_eq_some_iff.mp hi
  obtain ⟨hk, rfl⟩ := List.getElem?_eq_some_iff.mp hj
  have hlt := List.pairwise_iff_getElem.mp h.ascending
  rcases Nat.lt_trichotomy l k with hlk | rfl | hkl
  · exact ⟨fun _ => hlt l k hl hk hlk, fun _ => hlk⟩
  · simp
  · have hback := hlt k l hk hl hkl
    exact ⟨fun hlk => absurd hlk (Nat.lt_asymm hkl), fun hij => absurd hij (Nat.lt_asymm hback)⟩

/-- The line that a label leads to has that label. -/
theorem label_eq (hline : view.logic? l = some line) : line.label = l := by
  obtain ⟨i, hi, hget⟩ := logic?_eq_some.mp hline
  -- both labels lead to one position, and labels are in the order of positions
  have hpos := h.position hget
  apply Nat.le_antisymm
  · exact Nat.le_of_not_lt fun hlt => Nat.lt_irrefl i ((h.label_lt hi hpos).mp hlt)
  · exact Nat.le_of_not_lt fun hlt => Nat.lt_irrefl i ((h.label_lt hpos hi).mp hlt)

/-- The label of a line leads to it. -/
theorem logic?_label (hi : view.lines[i]? = some (.logic line)) :
    view.logic? line.label = some line :=
  logic?_eq_some.mpr ⟨i, h.position hi, hi⟩

/-- A letter is seen in a line when it is free in its formula. -/
theorem isFreeIn_iff {s : Symbol} (hline : view.logic? l = some line) :
    view.isFreeIn s l = true ↔ Formula.FreeIn s line.formula := by
  have hscope := scope?_eq h.scopes l
  rw [hline, Option.map_some] at hscope
  rw [View.isFreeIn, hscope]
  exact Formula.scope_isFree

theorem not_freeIn {s : Symbol} (hline : view.logic? l = some line)
    (hs : view.isFreeIn s l = false) : ¬ Formula.FreeIn s line.formula := by
  rw [← h.isFreeIn_iff hline, hs]
  simp

end Accepted

end View

theorem forall₂_getElem? {α β : Type} {R : α → β → Prop} {ls : List α} {rs : List β}
    (h : List.Forall₂ R ls rs) {i : Nat} {l : α} (hl : ls[i]? = some l) :
    ∃ r, rs[i]? = some r ∧ R l r := by
  obtain ⟨hi, rfl⟩ := List.getElem?_eq_some_iff.mp hl
  have hi' : i < rs.length := h.length_eq ▸ hi
  exact ⟨rs[i], List.getElem?_eq_getElem hi', (List.forall₂_iff_get.mp h).2 i hi hi'⟩

namespace Document

variable {document fresh : Document} {labels : NewLabels} {index : LineIndex}

/-- The line of the new sheet at the place of a logic line. -/
theorem Renumbered.getElem? (h : document.Renumbered labels fresh index) {i : Nat}
    {line : LogicLine} (hi : document.lines[i]? = some (.logic line)) :
    ∃ line', fresh.lines[i]? = some (.logic line') ∧ labels.LogicRenamed line line' := by
  obtain ⟨r, hr, hline⟩ := forall₂_getElem? h.lines hi
  cases hline with
  | logic hline => exact ⟨_, hr, hline⟩

/-- The line of the old sheet at the place of a logic line. -/
theorem Renumbered.getElem?_symm (h : document.Renumbered labels fresh index) {i : Nat}
    {line' : LogicLine} (hi : fresh.lines[i]? = some (.logic line')) :
    ∃ line, document.lines[i]? = some (.logic line) ∧ labels.LogicRenamed line line' := by
  obtain ⟨r, hr, hline⟩ := forall₂_getElem? h.lines.flip hi
  cases hline with
  | logic hline => exact ⟨_, hr, hline⟩

/-- A new label leads to the line that its old label is of. -/
theorem Renumbered.lookup (h : document.Renumbered labels fresh index) {l n : Label}
    (hl : labels.renamed? l = some n) :
    ∃ (i : Nat) (line line' : LogicLine), document.lines[i]? = some (.logic line) ∧
      line.label = l ∧ index.position? n = some i ∧ fresh.lines[i]? = some (.logic line') ∧
      labels.LogicRenamed line line' := by
  obtain ⟨i, line, hi, rfl⟩ := h.source hl
  obtain ⟨n', hn', hpos⟩ := h.position hi
  have hnn : n' = n := Option.some.inj (hn'.symm.trans hl)
  subst hnn
  obtain ⟨line', hi', hline⟩ := h.getElem? hi
  exact ⟨i, line, line', hi, rfl, hpos, hi', hline⟩

theorem mem_logicLines {line : LogicLine} :
    line ∈ document.logicLines ↔ ∃ i : Nat, document.lines[i]? = some (.logic line) := by
  rw [logicLines, List.mem_filterMap]
  simp only [List.mem_iff_getElem?]
  constructor
  · rintro ⟨line', ⟨i, hi⟩, hline⟩
    cases line' with
    | logic other => exact ⟨i, by rw [hi, Option.some.inj hline]⟩
    | text content => simp [Line.logic?] at hline
  · rintro ⟨i, hi⟩
    exact ⟨.logic line, ⟨i, hi⟩, rfl⟩

theorem mem_logicLines_of_logic? {memory : Memory} {settings : Settings} {l : Label} {line : LogicLine}
    (h : (fresh.view memory index settings).logic? l = some line) : line ∈ fresh.logicLines := by
  obtain ⟨i, -, hget⟩ := View.logic?_eq_some.mp h
  exact mem_logicLines.mpr ⟨i, hget⟩

/-- Each logic line of the new sheet was one of the old. -/
theorem Renumbered.exists_source (h : document.Renumbered labels fresh index) {line' : LogicLine}
    (hmem : line' ∈ fresh.logicLines) :
    ∃ line ∈ document.logicLines, labels.LogicRenamed line line' := by
  obtain ⟨i, hi⟩ := mem_logicLines.mp hmem
  obtain ⟨line, hi', hline⟩ := h.getElem?_symm hi
  exact ⟨line, mem_logicLines.mpr ⟨i, hi'⟩, hline⟩

/-- **A reference leads to the line it led to** before renumbering. -/
theorem Renumbered.referenced (h : document.Renumbered labels fresh index) {memory : Memory}
    {settings : Settings} {l n : Label} (hl : labels.renamed? l = some n) {other' : LogicLine}
    (hother : (fresh.view memory index settings).logic? n = some other') :
    ∃ other ∈ document.logicLines, other.label = l ∧ labels.LogicRenamed other other' := by
  obtain ⟨i, line, line', hi, hlabel, hpos, hi', hline⟩ := h.lookup hl
  obtain ⟨j, hj, hget⟩ := View.logic?_eq_some.mp hother
  obtain rfl : i = j := Option.some.inj (hpos.symm.trans hj)
  obtain rfl : line' = other' := by simpa using hi'.symm.trans hget
  exact ⟨line, mem_logicLines.mpr ⟨i, hi⟩, hlabel, hline⟩

/-- **A good report is a report on a sheet without a problem**, which is the given sheet renumbered. -/
theorem accepted_of_good {memory : Memory} {settings : Settings} {report : Report}
    (hcheck : document.check memory settings = .ok report) (hgood : report.verdict = .good) :
    ∃ labels index, document.Renumbered labels report.document index ∧
      (report.document.view memory index settings).Accepted := by
  unfold Document.check at hcheck
  simp only at hcheck
  obtain ⟨index, hindex, rfl⟩ := exists_of_map_eq_ok hcheck
  obtain ⟨labels, hren⟩ := renumber_ok hindex
  refine ⟨labels, index, hren, ⟨hren.ascending, ?_, ?_, ?_, rfl, ?_, ?_⟩⟩
  · intro i line' hi
    obtain ⟨line, hi', hline⟩ := hren.getElem?_symm hi
    obtain ⟨n, hn, hpos⟩ := hren.position hi'
    rw [hline.label] at hn
    rw [Option.some.inj hn]
    exact hpos
  · intro i line' hi l hl
    obtain ⟨line, hi', hline⟩ := hren.getElem?_symm hi
    obtain ⟨old, -, hold⟩ := hline.deps.2 l hl
    obtain ⟨j, _, other, -, -, hj, hother, -⟩ := hren.lookup hold
    exact ⟨other, View.logic?_eq_some.mpr ⟨j, hj, hother⟩⟩
  · intro i j line hi l hl hj
    exact backward_of_good hgood hi hl hj
  · intro i line hi
    exact scope_flags_of_good hgood hi
  · intro i line hi
    exact judge_ok_of_good hgood hi

end Document

/-- The verdict of a check, if there is a report. -/
def Session.verdict? (session : Session) (document : Document) (memory : Memory) : Option Verdict :=
  (session.check document memory).2.toOption.map Report.verdict

theorem Session.verdict?_eq_some {session : Session} {document : Document} {memory : Memory}
    {verdict : Verdict} (h : session.verdict? document memory = some verdict) :
    ∃ report, (session.check document memory).2 = .ok report ∧ report.verdict = verdict := by
  unfold Session.verdict? at h
  cases hc : (session.check document memory).2 with
  | error error => simp [hc, Except.toOption] at h
  | ok report => exact ⟨report, rfl, by simpa [hc, Except.toOption] using h⟩

theorem Session.check_ok {session : Session} {document : Document} {memory : Memory}
    {report : Report} (h : (session.check document memory).2 = .ok report) :
    document.check memory session.settings = .ok report := by
  unfold Session.check at h
  split at h
  · simp at h
  · rename_i found hfound
    rw [hfound]
    exact h

end ProofSheet
