import ProofSheet.Proofs.Check.Accepted

/-!
# The accounts of a report

A report tells of problems in three ways: by the flags of its lines, by its summary with the positions
of the lines that have a problem, and by its counts. The three are found by separate passes, and they
agree.

* `Line.Flagged`: **the flags that a line may have**, stage by stage.
* `Document.flagged_reportOn`: each line of a report has such flags.
* `Tally.Balanced`: each logic line is counted as good or as a problem, and no line is counted twice.
* `Document.check_accounts`: **every check that succeeds gives a report whose accounts agree.**
-/

namespace ProofSheet

/-! ## The flags of references -/

namespace Reach

/-- **The flags of references**: none but those of references forward, and none at all for text. -/
def OnlyForward (line : Line) (flags : List Flag) : Prop :=
  (∀ flag ∈ flags, flag.kind = .forwardDependency) ∧ ∀ content, line = .text content → flags = []

theorem onlyForward_reach (document : Document) (index : LineIndex) :
    List.Forall₂ OnlyForward document.lines (document.reach index).flags := by
  have hlines : document.lines = document.lines.zipIdx.map Prod.fst :=
    (List.zipIdx_map_fst 0 document.lines).symm
  rw [flags_reach, hlines, List.forall₂_map_left_iff, ← hlines, List.forall₂_map_right_iff,
    List.forall₂_same]
  rintro ⟨line, i⟩ -
  cases line with
  | text content => exact ⟨List.forall_mem_nil _, fun _ _ => rfl⟩
  | logic logic =>
    refine ⟨fun flag hflag => ?_, nofun⟩
    obtain ⟨label, -, rfl⟩ := List.mem_map.mp hflag
    rfl

end Reach

/-! ## The flags of a line -/

theorem Flag.isProblem_iff {flag : Flag} :
    flag.isProblem = true ↔ flag.kind ≠ .good ∧ flag.kind ≠ .comment := by
  unfold Flag.isProblem
  cases flag.kind <;> simp

/-- **The flags that a line may have.** A text line has the one flag of a comment. A logic line has
flags for references forward, then flags for letters in conflict, and then one flag `good`, or flags
that say what is wrong. -/
inductive Line.Flagged : Line → List Flag → Prop
  | text (content : String) : Flagged (.text content) [.comment]
  | accepted {line : LogicLine} {forward conflicts : List Flag} {flag : Flag} :
      (∀ f ∈ forward, f.kind = .forwardDependency) → (∀ f ∈ conflicts, f.kind = .letterConflict) →
      flag.kind = .good → Flagged (.logic line) (forward ++ conflicts ++ [flag])
  | refused {line : LogicLine} {forward conflicts found : List Flag} :
      (∀ f ∈ forward, f.kind = .forwardDependency) → (∀ f ∈ conflicts, f.kind = .letterConflict) →
      found ≠ [] → (∀ f ∈ found, f.kind ≠ .good ∧ f.kind ≠ .comment) →
      Flagged (.logic line) (forward ++ conflicts ++ found)

/-- A line has the flags it may have after all stages. -/
theorem View.flagged_lineFlags (view : View) {line : Line} {references : List Flag}
    (h : Reach.OnlyForward line references) : line.Flagged (view.lineFlags line references) := by
  cases line with
  | text content =>
    have hreferences : references = [] := h.2 content rfl
    subst hreferences
    exact .text content
  | logic logic =>
    have hconflicts := @Formula.scope_flags_kind logic.formula
    have hends := @Check.judge_ends view logic
    rw [View.lineFlags, Check.line]
    cases hjudge : Check.judge view logic with
    | ok flag =>
      rw [hjudge] at hends
      exact .accepted h.1 hconflicts hends
    | error found =>
      rw [hjudge] at hends
      exact .refused h.1 hconflicts hends.1 fun f hf => Flag.isProblem_iff.mp (hends.2 f hf)

/-- A line has the flags of its kind whatever its labels are. -/
theorem Line.Flagged.of_renamed {labels : NewLabels} {line fresh : Line} {flags : List Flag}
    (hline : labels.LineRenamed line fresh) (h : fresh.Flagged flags) : line.Flagged flags := by
  cases hline with
  | text content => exact h
  | logic _ =>
    cases h with
    | accepted hforward hconflicts hflag => exact .accepted hforward hconflicts hflag
    | refused hforward hconflicts hne hfound => exact .refused hforward hconflicts hne hfound

theorem forall₂_zipWith {α β : Type} {R S : α → β → Prop} {f : α → β → β} {as : List α}
    {bs : List β} (hf : ∀ {a b}, R a b → S a (f a b)) (h : List.Forall₂ R as bs) :
    List.Forall₂ S as (List.zipWith f as bs) := by
  induction h with
  | nil => exact .nil
  | cons hab _ ih => exact .cons (hf hab) ih

/-! ## Counts -/

namespace Tally

/-- **Counts that balance**: each logic line is good or has a problem, and is one of the lines; a
truth-functional step is one of the logic lines. -/
structure Balanced (tally : Tally) : Prop where
  judged : tally.good + tally.problems = tally.logicLines
  logicLines_le : tally.logicLines ≤ tally.lines
  truthFunctional_le : tally.truthFunctional ≤ tally.logicLines

theorem balanced_ofLine (line : Line) (flags : List Flag) : (ofLine line flags).Balanced := by
  cases line with
  | text content => exact ⟨rfl, Nat.zero_le _, Nat.le_refl _⟩
  | logic logic =>
    refine ⟨?_, Nat.le_refl _, ?_⟩
    · unfold ofLine
      simp only
      split <;> rfl
    · unfold ofLine
      simp only
      split
      · exact Nat.le_refl _
      · exact Nat.zero_le _

theorem Balanced.add {a b : Tally} (ha : a.Balanced) (hb : b.Balanced) : (a + b).Balanced := by
  obtain ⟨hjudged, hlogic, htf⟩ := ha
  obtain ⟨hjudged', hlogic', htf'⟩ := hb
  refine ⟨?_, ?_, ?_⟩
  · show a.good + b.good + (a.problems + b.problems) = a.logicLines + b.logicLines
    omega
  · show a.logicLines + b.logicLines ≤ a.lines + b.lines
    omega
  · show a.truthFunctional + b.truthFunctional ≤ a.logicLines + b.logicLines
    omega

theorem balanced_foldl {ts : List Tally} (h : ∀ t ∈ ts, t.Balanced) : ∀ {t : Tally}, t.Balanced →
    (ts.foldl (· + ·) t).Balanced := by
  induction ts with
  | nil => exact fun ht => ht
  | cons a ts ih =>
    intro t ht
    have ha := h a List.mem_cons_self
    exact ih (fun b hb => h b (List.mem_cons_of_mem a hb)) (ht.add ha)

/-- What is counted of some lines with their flags, on top of what was counted before. -/
theorem foldl_ofLine {lines : List Line} {flags : List (List Flag)}
    (h : List.Forall₂ Line.Flagged lines flags) : ∀ t : Tally,
    ((List.zipWith ofLine lines flags).foldl (· + ·) t).lines = t.lines + lines.length ∧
    ((List.zipWith ofLine lines flags).foldl (· + ·) t).logicLines =
      t.logicLines + (lines.filterMap Line.logic?).length ∧
    ((List.zipWith ofLine lines flags).foldl (· + ·) t).problems =
      t.problems + flags.countP (List.any · Flag.isProblem) := by
  induction h with
  | nil => intro t; exact ⟨rfl, rfl, rfl⟩
  | @cons line found lines flags hline _ ih =>
    intro t
    obtain ⟨hlines, hlogic, hproblems⟩ := ih (t + ofLine line found)
    rw [List.zipWith_cons_cons, List.foldl_cons, hlines, hlogic, hproblems]
    have hadd : (t + ofLine line found).lines = t.lines + (ofLine line found).lines := rfl
    have haddLogic : (t + ofLine line found).logicLines =
      t.logicLines + (ofLine line found).logicLines := rfl
    have haddProblems : (t + ofLine line found).problems =
      t.problems + (ofLine line found).problems := rfl
    rw [hadd, haddLogic, haddProblems, List.countP_cons, List.length_cons]
    cases line with
    | text content =>
      cases hline
      -- the flag of a comment is no problem
      have hcomment : ([.comment] : List Flag).any Flag.isProblem = false := rfl
      simp only [ofLine, List.filterMap_cons, Line.logic?, hcomment, Bool.false_eq_true, if_false]
      omega
    | logic logic =>
      simp only [ofLine, List.filterMap_cons, Line.logic?, List.length_cons]
      omega

end Tally

/-! ## Reports -/

namespace Report

variable {report : Report}

theorem length_positions (flags : List (List Flag)) : ∀ n : Nat,
    ((flags.zipIdx n).filterMap fun (flags, position) =>
      if flags.any Flag.isProblem then some position else none).length =
        flags.countP (List.any · Flag.isProblem) := by
  induction flags with
  | nil => intro n; rfl
  | cons found flags ih =>
    intro n
    have hrest := ih (n + 1)
    rw [List.zipIdx_cons, List.filterMap_cons, List.countP_cons]
    split <;> simp_all

/-- There is a position for each line with a problem. -/
theorem length_problemPositions :
    report.problemPositions.length = report.flags.countP (List.any · Flag.isProblem) :=
  length_positions report.flags 0

theorem verdict_good_iff : report.verdict = .good ↔ report.problemPositions = [] := by
  rw [← List.length_eq_zero_iff, length_problemPositions, List.countP_eq_zero, good_iff]
  simp

/-- **The accounts of a report agree**: the flags of its lines, its summary, the positions it gives, and
its counts. -/
structure Accounts (report : Report) (document : Document) : Prop where
  /-- Each line of the sheet has flags that it may have. -/
  flagged : List.Forall₂ Line.Flagged document.lines report.flags
  good_iff_positions : report.verdict = .good ↔ report.problemPositions = []
  good_iff_problems : report.verdict = .good ↔ report.tally.problems = 0
  problems : report.tally.problems = report.problemPositions.length
  balanced : report.tally.Balanced
  /-- Every line is counted, and so is every logic line. -/
  lines : report.tally.lines = document.length
  logicLines : report.tally.logicLines = document.logicLines.length

end Report

namespace Document

variable (document : Document) (memory : Memory) (index : LineIndex) (settings : Settings)

theorem length_flags_reportOn :
    (document.reportOn memory index settings).flags.length = document.length := by
  have hreferences := (Reach.length_reach document index).2
  simp [reportOn, hreferences, length]

theorem tally_reportOn : (document.reportOn memory index settings).tally =
    (List.zipWith Tally.ofLine document.lines (document.reportOn memory index settings).flags).foldl
      (· + ·) {} :=
  rfl

/-- **Each line of a report has flags that it may have.** -/
theorem flagged_reportOn :
    List.Forall₂ Line.Flagged document.lines (document.reportOn memory index settings).flags :=
  forall₂_zipWith (fun h => (document.view memory index settings).flagged_lineFlags h)
    (Reach.onlyForward_reach document index)

/-- Every line is counted. -/
theorem lines_tally_reportOn :
    (document.reportOn memory index settings).tally.lines = document.length := by
  have hcounts := (Tally.foldl_ofLine (document.flagged_reportOn memory index settings) {}).1
  rw [Nat.zero_add] at hcounts
  exact hcounts

/-- The accounts of a report on a sheet agree. -/
theorem accounts_reportOn : (document.reportOn memory index settings).Accounts document := by
  have hflagged := document.flagged_reportOn memory index settings
  obtain ⟨-, hlogic, hproblems⟩ := Tally.foldl_ofLine hflagged {}
  rw [← tally_reportOn, Nat.zero_add] at hlogic hproblems
  rw [← Report.length_problemPositions] at hproblems
  refine ⟨hflagged, Report.verdict_good_iff, ?_, hproblems, ?_,
    document.lines_tally_reportOn memory index settings, hlogic⟩
  · rw [hproblems, Report.verdict_good_iff, List.length_eq_zero_iff]
  · rw [tally_reportOn]
    refine Tally.balanced_foldl (fun t ht => ?_) ⟨rfl, Nat.le_refl _, Nat.le_refl _⟩
    rw [← List.map_uncurry_zip_eq_zipWith] at ht
    obtain ⟨⟨line, flags⟩, -, rfl⟩ := List.mem_map.mp ht
    exact Tally.balanced_ofLine line flags

end Document

/-- Renumbering keeps the logic lines. -/
theorem NewLabels.length_logic {labels : NewLabels} {lines fresh : List Line}
    (h : List.Forall₂ labels.LineRenamed lines fresh) :
    (lines.filterMap Line.logic?).length = (fresh.filterMap Line.logic?).length := by
  induction h with
  | nil => rfl
  | cons hline _ ih =>
    cases hline with
    | text content => exact ih
    | logic _ => simpa [Line.logic?] using ih

/-- Lines under other labels have the flags that those lines may have. -/
theorem NewLabels.flagged {labels : NewLabels} {lines fresh : List Line} {flags : List (List Flag)}
    (h : List.Forall₂ labels.LineRenamed lines fresh) (hflags : List.Forall₂ Line.Flagged fresh flags) :
    List.Forall₂ Line.Flagged lines flags := by
  induction h generalizing flags with
  | nil => exact hflags
  | cons hline _ ih =>
    cases hflags with
    | cons hfound hrest => exact .cons (hfound.of_renamed hline) (ih hrest)

/-- **A check that succeeds gives a report whose accounts agree.** -/
theorem Document.check_accounts {document : Document} {memory : Memory} {settings : Settings}
    {report : Report} (h : document.check memory settings = .ok report) : report.Accounts document := by
  unfold Document.check at h
  obtain ⟨index, hindex, rfl⟩ := exists_of_map_eq_ok h
  obtain ⟨labels, hren⟩ := renumber_ok hindex
  obtain ⟨hflagged, hpositions, hproblems, hcount, hbalanced, hlines, hlogic⟩ :=
    accounts_reportOn (document.renumber settings.labelLimit.value).document memory index settings
  exact ⟨NewLabels.flagged hren.lines hflagged, hpositions, hproblems, hcount, hbalanced,
    hlines.trans hren.lines.length_eq.symm, hlogic.trans (NewLabels.length_logic hren.lines).symm⟩

end ProofSheet
