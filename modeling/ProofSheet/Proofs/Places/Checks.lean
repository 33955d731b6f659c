import ProofSheet.Proofs.Check.Resolved
import ProofSheet.Proofs.Places.Search
import ProofSheet.Proofs.Places.Sheet
import ProofSheet.Proofs.Report.Accounts

/-!
# Checks that need no guard

A check guards itself against labels that lead nowhere, and against assignments of letters without a
candidate. Neither occurs once a sheet is renumbered, and no list is read or written out of range.

* `Places.InRange`: **the routines of a check keep to their lists.**
* `Document.Guarded`: **the guards of a check are not met.**
* `Document.check_guarded`: both hold for every check of a sheet that can be renumbered.
-/

namespace ProofSheet

namespace Places

/-- **The routines of a check keep to their lists**, whatever they are given: run by place, with every
access checked, each of them gives what it gives. -/
structure InRange : Prop where
  /-- The two cursors of a comparison of premises, and the rests behind them. -/
  premises : ∀ expected actual : List Label,
    difference? expected actual = some (Premises.difference expected actual)
  /-- The places around a ring of juncts, and the marks of those that are claimed. -/
  partners : ∀ (dn : Bool) (bound : BoundPairs) (ls rs : List Object),
    claims? dn bound rs (List.replicate rs.length false) 0 ls =
      some (Object.claimEach dn bound ls (rs.map some))
  /-- The slot of a designated letter. -/
  slots : ∀ {α : Type} {letters : List Symbol} {letter : Symbol} {index : Nat},
    letters.idxOf? letter = some index → ∀ content : α,
      put? (Mapping.unfilled letters.length) index (some content) =
        some (Mapping.filledAt letters.length index content)
  /-- The rows and the marks of columns, for the juncts of two formulas with letters to assign. -/
  juncts : ∀ (targets : List Symbol) (bound : BoundPairs) (ts is : List Formula)
    (base : List LetterMapping),
    assignments? base (LetterMapping.alignRows targets bound ts is) =
      some (Mapping.assignments base (LetterMapping.alignRows targets bound ts is))
  /-- The same for the juncts of a template of the solver. -/
  templates : ∀ (letters : List Symbol) (ts : List Formula) (fs : List Object)
    (base : List (Mapping Object)),
    assignments? base (Solver.matchRows letters ts fs) =
      some (Mapping.assignments base (Solver.matchRows letters ts fs))
  /-- The shelf of a kind, the rules of the table, the slices of known formulas, and the rows and marks for
  the antecedents of a rule, in all rounds of a search. -/
  searches : ∀ (goal : Object) (explored frontier : List Object) (rounds : Nat),
    search? goal explored frontier rounds = some (Solver.search goal explored frontier rounds)

theorem inRange : InRange where
  premises := difference?_eq
  partners := claims?_eq
  slots := put?_unfilled
  juncts := assignments?_alignRows
  templates := assignments?_matchRows
  searches := search?_eq

end Places

namespace Document

/-- **The guards of a check are not met.** -/
structure Guarded (document : Document) (memory : Memory) (index : LineIndex)
    (settings : Settings) : Prop where
  /-- Every label that a line has or names leads to a logic line. -/
  leads : ∀ line, Line.logic line ∈ document.lines → ∀ l ∈ line.label :: line.named,
    (document.view memory index settings).Leads l
  /-- No reference is skipped, and every closure that is added is there. -/
  reach : Places.reach? document index = some (document.reach index)
  /-- The flags of each line are there at its position. -/
  report : Places.report? document memory index settings =
    some (document.reportOn memory index settings)
  /-- No line is refused for a label. -/
  resolved : ∀ flags ∈ (document.reportOn memory index settings).flags, ∀ flag ∈ flags, ∀ label,
    flag ≠ Check.unresolved label
  /-- What would be done for want of a candidate is done for no line, in UG and in EG. -/
  universal : ∀ (other : Judgement) (line : LogicLine) (cited : Label),
    Check.universalGeneralizationOr other (document.view memory index settings) line cited =
      Check.universalGeneralization (document.view memory index settings) line cited
  existential : ∀ (other : Judgement) (line : LogicLine) (cited : Label),
    Check.existentialGeneralizationOr other (document.view memory index settings) line cited =
      Check.existentialGeneralization (document.view memory index settings) line cited

variable {document : Document} {index : LineIndex} {settings : Settings}

/-- A line whose labels lead to lines has no flag for a label, from any stage. -/
theorem ne_unresolved_of_mem_lineFlags {view : View} {line : Line} {references : List Flag}
    (hleads : ∀ logic, line = .logic logic → ∀ l ∈ logic.named, view.Leads l)
    (hreferences : Reach.OnlyForward line references) {flag : Flag}
    (hflag : flag ∈ view.lineFlags line references) (label : Label) : flag ≠ Check.unresolved label := by
  have hforward : ∀ flag ∈ references, flag.kind ≠ .incorrect := by
    intro flag hflag
    rw [hreferences.1 flag hflag]
    decide
  cases line with
  | text content =>
    apply Check.ne_unresolved_of_kind
    rcases List.mem_append.mp hflag with hflag | hflag
    · exact hforward flag hflag
    · rw [List.mem_singleton.mp hflag]
      decide
  | logic logic =>
    rcases List.mem_append.mp hflag with hflag | hflag
    · apply Check.ne_unresolved_of_kind
      rcases List.mem_append.mp hflag with hflag | hflag
      · exact hforward flag hflag
      · rw [Formula.scope_flags_kind flag hflag]
        decide
    · -- the flags of a judgement are its one good flag, or those of a refusal
      have hends := @Check.judge_ends view logic
      have hresolves : Check.Resolves (Check.judge view logic) := by
        apply Check.judge_resolves
        · intro l hl
          exact hleads logic rfl l (LogicLine.mem_named.mpr (Or.inr (List.mem_append_left _ hl)))
        · intro l hl
          refine hleads logic rfl l (LogicLine.mem_named.mpr (Or.inr (List.mem_append_right _ ?_)))
          exact Option.mem_toList.mpr hl
      rw [Check.line] at hflag
      cases hjudge : Check.judge view logic with
      | ok accepted =>
        rw [hjudge] at hflag hends
        rw [List.mem_singleton.mp hflag]
        apply Check.ne_unresolved_of_kind
        rw [hends]
        decide
      | error found =>
        rw [hjudge] at hflag hresolves
        exact hresolves flag hflag label

/-- **The guards of a check of a renumbered sheet are not met.** -/
theorem guarded_renumber (memory : Memory)
    (h : (document.renumber settings.labelLimit.value).outcome = .ok index) :
    (document.renumber settings.labelLimit.value).document.Guarded memory index settings := by
  have hleads : ∀ line, Line.logic line ∈ (document.renumber settings.labelLimit.value).document.lines →
      ∀ l ∈ line.named,
        ((document.renumber settings.labelLimit.value).document.view memory index settings).Leads l :=
    fun line hline l hl => leads_of_named h settings hline hl
  have hreferring : ∀ line ∈ (document.renumber settings.labelLimit.value).document.lines,
      Places.Referring index line := by
    rintro line hline logic rfl l hl
    have hnamed : l ∈ logic.named := List.mem_append_left _ hl
    obtain ⟨position, -, hposition, -⟩ := hleads logic hline l hnamed
    exact ⟨position, hposition⟩
  refine ⟨?_, Places.reach?_eq hreferring, Places.report?_eq memory settings hreferring, ?_,
    fun other line cited => Check.universalGeneralizationOr_eq other cited,
    fun other line cited => Check.existentialGeneralizationOr_eq other cited⟩
  · intro line hline l hl
    rcases List.mem_cons.mp hl with rfl | hl
    · obtain ⟨position, hposition⟩ := List.mem_iff_getElem?.mp hline
      exact leads_of_designates h settings ⟨line, hposition, rfl⟩
    · exact hleads line hline l hl
  · intro flags hflags flag hflag label
    rw [reportOn, ← List.map_uncurry_zip_eq_zipWith] at hflags
    obtain ⟨⟨line, references⟩, hzip, rfl⟩ := List.mem_map.mp hflags
    have hline : line ∈ (document.renumber settings.labelLimit.value).document.lines :=
      (List.of_mem_zip hzip).1
    have hforward : Reach.OnlyForward line references :=
      List.forall₂_zip (Reach.onlyForward_reach _ _) hzip
    refine ne_unresolved_of_mem_lineFlags ?_ hforward hflag label
    rintro logic rfl
    exact hleads logic hline

/-- **A check of a sheet that can be renumbered meets none of its guards**, under any settings, and none of
its routines leaves its lists. -/
theorem check_guarded (memory : Memory)
    (h : (document.renumber settings.labelLimit.value).outcome = .ok index) :
    document.check memory settings =
        .ok ((document.renumber settings.labelLimit.value).document.reportOn memory index settings) ∧
      (document.renumber settings.labelLimit.value).document.Guarded memory index settings ∧
      Places.InRange := by
  refine ⟨?_, guarded_renumber memory h, Places.inRange⟩
  rw [check, h]
  rfl

/-- A generalization over a letter that its premise has, past a blank line, and the discharge of that
premise. -/
def spacedSheet : Document where
  lines :=
    [ .logic ⟨7, [7], .predicate 'F' [.letter 'a'], .premise⟩,
      .text "",
      .logic ⟨3, [7], .quantified .universal 'x' (.predicate 'F' [.letter 'x']),
        .universalGeneralization 7⟩,
      .logic ⟨5, [], .conditional (.predicate 'F' [.letter 'a'])
        (.quantified .universal 'x' (.predicate 'F' [.letter 'x'])), .discharge 3 7⟩ ]

/-- The blank line takes a number, and no label leads to it. -/
theorem check_guarded_spaced :
    (spacedSheet.renumber Settings.standard.labelLimit.value).outcome = .ok ⟨[0, 1, 2, 3]⟩ ∧
      (spacedSheet.renumber Settings.standard.labelLimit.value).document.Guarded .apart
        ⟨[0, 1, 2, 3]⟩ Settings.standard :=
  ⟨rfl, (check_guarded .apart rfl).2.1⟩

end Document

end ProofSheet
