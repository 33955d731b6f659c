import ProofSheet.Document.Exchange
import ProofSheet.Proofs.Draft.NormalForm

/-!
# Reading back what was written

A sheet is written as the JSON text of its draft, and reading undoes each step.

* `Document.read_pretty`: what is read from the text of a draft.
* `Document.read_write`: **a well-formed sheet is read back as it was written**, as long as its text
  does not nest too deep.
* `Document.read_write_of_read`: **a sheet that was read is written so that it is read back exactly
  if its text does not nest too deep**, and this is so when each quantifier of what was read binds
  at most one symbol. A quantifier over many symbols is read as many quantifiers, one inside the
  other, and is written so.
-/

namespace ProofSheet.Document

open Draft (Fault)

theorem inRange_draft {document : Document} (h : document.InRange) : document.draft.InRange := by
  intro line hline
  obtain ⟨source, hsource, rfl⟩ := List.mem_map.mp hline
  cases source with
  | text content => trivial
  | logic logic =>
    have hmentions : ∀ l, logic.Mentions l → l < Word.bound := fun l hl => h l ⟨logic, hsource, hl⟩
    refine ⟨hmentions _ (.inl rfl), fun dep hdep => hmentions dep (.inr (.inl hdep)), ?_⟩
    have hnames : ∀ l, logic.rule.Names l → l < Word.bound := fun l hl => hmentions l (.inr (.inr hl))
    refine ⟨fun l hl => hnames l ?_, fun ls hls l hl => hnames l ?_, fun l hl => hnames l ?_⟩
    all_goals cases hrule : logic.rule
    all_goals simp_all [Rule.draft, Rule.Names, Rule.citations, Rule.discharged?]

/-- What is parsed from the text of a draft. -/
theorem parse?_draft {draft : Draft.Document} (h : draft.InRange) :
    Json.parse? demand draft.toValue.pretty.toUTF8.toList =
      if draft.toValue.nesting ≤ nestingLimit then some draft.toValue else none := by
  have hwanted : draft.toValue.Wanted demand := by
    intro member hmember
    cases List.mem_singleton.mp hmember
    rfl
  exact Json.parse?_pretty (Draft.isExact_document h) hwanted

/-- What is read from the text of a draft. -/
theorem read_pretty {draft : Draft.Document} (h : draft.InRange) :
    read draft.toValue.pretty.toUTF8.toList =
      if draft.toValue.nesting ≤ nestingLimit then draft.accept.mapError ReadError.faulty
      else .error .malformed := by
  rw [read, parse?_draft h]
  by_cases hnesting : draft.toValue.nesting ≤ nestingLimit
  · rw [if_pos hnesting, if_pos hnesting]
    simp only [ofValue, Draft.document?_toValue h]
    cases draft.accept <;> rfl
  · rw [if_neg hnesting, if_neg hnesting]

/-- **A well-formed sheet is read back as it was written.** It is accepted from its draft however
deep it nests; through its text, as long as the text nests no deeper than is read. -/
theorem read_write {document : Document} (h : document.WellFormed) :
    document.draft.accept = .ok document ∧
      (document.InRange → document.draft.toValue.nesting ≤ nestingLimit →
        read document.write.toUTF8.toList = .ok document) := by
  have haccept := Draft.accept_document_draft h
  refine ⟨haccept, fun hrange hnesting => ?_⟩
  rw [write, read_pretty (inRange_draft hrange), if_pos hnesting, haccept]
  rfl

/-- A sheet with a text, a rule of its own name and the largest label there is. -/
def largestLabelSheet : Document where
  lines := [
    .logic
      { label := 18446744073709551615
        deps := [7, 18446744073709551615]
        formula := .junction .disjunction
          [.junction .conjunction [.letter 'A', .letter 'B'],
            .quantified .universal 'x' (.predicate 'F' [.letter 'x'])]
        rule := .instanceElimination 7 18446744073709551615 },
    .text "\"∀\" \n",
    .logic { label := 7, deps := [], formula := .negation (.letter 'é'), rule := .unrecognized "MP" }]

theorem read_write_largestLabel :
    largestLabelSheet.WellFormed ∧ largestLabelSheet.InRange ∧
      largestLabelSheet.draft.toValue.nesting ≤ nestingLimit ∧
      read largestLabelSheet.write.toUTF8.toList = .ok largestLabelSheet := by
  have hlines : ∀ line, Line.logic line ∈ largestLabelSheet.lines → line.WellFormed ∧
      ∀ l, line.Mentions l → l < Word.bound := by
    intro line hline
    simp only [largestLabelSheet, List.mem_cons, Line.logic.injEq, reduceCtorEq, List.not_mem_nil,
      or_false, false_or] at hline
    rcases hline with rfl | rfl
    · refine ⟨⟨by simp [Formula.IsNormal, Formula.AllNormal], by decide, trivial⟩, ?_⟩
      intro l hl
      simp only [LogicLine.Mentions, Rule.Names, Rule.citations, Rule.discharged?, List.mem_cons,
        List.not_mem_nil, or_false, Option.some.injEq] at hl
      rcases hl with rfl | (rfl | rfl) | rfl | rfl <;> decide
    · refine ⟨⟨trivial, by decide, by simp [Rule.IsNamed, Rule.names]⟩, ?_⟩
      simp [LogicLine.Mentions, Rule.Names, Rule.citations, Rule.discharged?, Word.bound]
  have hwellFormed : largestLabelSheet.WellFormed := fun line hline => (hlines line hline).1
  have hrange : largestLabelSheet.InRange := by
    rintro l ⟨line, hline, hl⟩
    exact (hlines line hline).2 l hl
  have hnesting : largestLabelSheet.draft.toValue.nesting ≤ nestingLimit := by decide
  exact ⟨hwellFormed, hrange, hnesting, (read_write hwellFormed).2 hrange hnesting⟩

/-- What was read was accepted from a draft. -/
theorem exists_draft_of_read {bytes : List UInt8} {document : Document}
    (h : read bytes = .ok document) :
    ∃ value draft, Json.parse? demand bytes = some value ∧ Draft.document? value = some draft ∧
      draft.accept = .ok document := by
  unfold read at h
  split at h
  · cases h
  · rename_i value hvalue
    unfold ofValue at h
    split at h
    · cases h
    · rename_i draft hdraft
      split at h
      · cases h
      · cases h
        exact ⟨value, draft, hvalue, hdraft, by assumption⟩

/-- **A sheet that was read is read back from what is written of it exactly if this does not nest too
deep**, which it does not if each quantifier of what was read binds at most one symbol. -/
theorem read_write_of_read {bytes : List UInt8} {document : Document}
    (h : read bytes = .ok document) :
    read document.write.toUTF8.toList =
        (if document.draft.toValue.nesting ≤ nestingLimit then .ok document
        else .error .malformed) ∧
      ∀ value draft, Json.parse? demand bytes = some value → Draft.document? value = some draft →
        draft.BindsSingly → read document.write.toUTF8.toList = .ok document := by
  obtain ⟨value, draft, hvalue, hdraft, haccept⟩ := exists_draft_of_read h
  obtain ⟨hnesting, hrange⟩ := Draft.document?_bounded hdraft
  obtain ⟨hwellFormed, hkept⟩ := Draft.document_of_accept haccept
  have hback : read document.write.toUTF8.toList =
      if document.draft.toValue.nesting ≤ nestingLimit then .ok document
      else .error .malformed := by
    rw [write, read_pretty (hkept hrange), Draft.accept_document_draft hwellFormed]
    rfl
  refine ⟨hback, fun value' draft' hvalue' hdraft' hsingly => ?_⟩
  have hsame : draft' = draft := by
    rw [hvalue, Option.some.injEq] at hvalue'
    rw [← hvalue', hdraft, Option.some.injEq] at hdraft'
    exact hdraft'.symm
  -- written no deeper than the draft, which is no deeper than what was read
  have hlimit : document.draft.toValue.nesting ≤ nestingLimit :=
    (Draft.nesting_of_accept (hsame ▸ hsingly) haccept).trans
      (hnesting.trans (Json.nesting_le_of_parse? hvalue))
  rw [hback, if_pos hlimit]

/-- A draft whose one line has a quantifier over many symbols. -/
def wideDraft (n : Nat) : Draft.Document where
  lines := [.logic 1 [1] (.quantified (List.replicate n ⟨"forall", "x"⟩) (.letter "A"))
    { name := "P" }]

/-- The sheet it says. -/
def deepSheet (n : Nat) : Document where
  lines := [.logic
    { label := 1
      deps := [1]
      formula := Formula.quantify (List.replicate n (.universal, 'x')) (.letter 'A')
      rule := .premise }]

theorem accept_wideDraft (n : Nat) : (wideDraft n).accept = .ok (deepSheet n) := by
  have hbindings : Draft.acceptBindings (List.replicate n ⟨"forall", "x"⟩) =
      .ok (List.replicate n (.universal, 'x')) := by
    induction n with
    | zero => rfl
    | succ n ih =>
      rw [List.replicate_succ, Draft.acceptBindings, ih]
      rfl
  have hformula : (Draft.Formula.quantified (List.replicate n ⟨"forall", "x"⟩) (.letter "A")).accept =
      .ok (Formula.quantify (List.replicate n (.universal, 'x')) (.letter 'A')) := by
    rw [Draft.Formula.accept, hbindings]
    rfl
  simp only [wideDraft, Draft.Document.accept, Draft.acceptLines, Draft.Line.accept, hformula]
  rfl

theorem inRange_wideDraft (n : Nat) : (wideDraft n).InRange := by
  intro line hline
  cases List.mem_singleton.mp hline
  exact ⟨by decide, by decide, nofun, nofun, nofun⟩

/-- However many symbols the quantifier binds, they stand side by side in the draft. -/
theorem nesting_wideDraft_le (n : Nat) : (wideDraft n).toValue.nesting ≤ 6 := by
  have hbindings : Json.Value.itemsNesting
      ((List.replicate n ⟨"forall", "x"⟩).map Draft.Binding.toValue) ≤ 1 := by
    refine Json.Value.itemsNesting_le.mpr fun item hitem => ?_
    obtain ⟨binding, _, rfl⟩ := List.mem_map.mp hitem
    exact Nat.le_refl 1
  have hformula := Draft.nesting_quantified (.letter "A") (List.replicate n ⟨"forall", "x"⟩)
  have hrule : (Draft.Rule.toValue { name := "P" }).nesting = 1 := rfl
  simp only [wideDraft, Draft.Document.toValue, List.map_cons, List.map_nil, Json.Value.nesting,
    Json.Value.membersNesting, Json.Value.itemsNesting, Draft.nesting_logic, hformula, hrule,
    Draft.nesting_letter]
  omega

theorem read_wideDraft (n : Nat) :
    read (wideDraft n).toValue.pretty.toUTF8.toList = .ok (deepSheet n) := by
  have hnesting : (wideDraft n).toValue.nesting ≤ nestingLimit :=
    (nesting_wideDraft_le n).trans (by decide)
  rw [read_pretty (inRange_wideDraft n), accept_wideDraft, if_pos hnesting]
  rfl

theorem read_write_of_read_single :
    (wideDraft 1).BindsSingly ∧
      read (wideDraft 1).toValue.pretty.toUTF8.toList = .ok (deepSheet 1) ∧
      read (deepSheet 1).write.toUTF8.toList = .ok (deepSheet 1) := by
  have hsingly : (wideDraft 1).BindsSingly := by
    intro label deps formula rule hline
    cases List.mem_singleton.mp hline
    exact ⟨by decide, trivial⟩
  have hparse := parse?_draft (inRange_wideDraft 1)
  rw [if_pos ((nesting_wideDraft_le 1).trans (by decide))] at hparse
  exact ⟨hsingly, read_wideDraft 1, (read_write_of_read (read_wideDraft 1)).2 _ _ hparse
    (Draft.document?_toValue (inRange_wideDraft 1)) hsingly⟩

/-- Each symbol of the quantifier takes a level in the text that is written. -/
theorem nesting_deepSheet (n : Nat) (h : 0 < n) : (deepSheet n).draft.toValue.nesting = n + 5 := by
  have hdepth : Draft.depth (Formula.quantify (List.replicate n (.universal, 'x')) (.letter 'A')) =
      n + 2 := by
    induction n with
    | zero => cases h
    | succ n ih =>
      have hquantified : ∀ body, Draft.depth (.quantified .universal 'x' body) =
          max 2 (Draft.depth body) + 1 := fun body => Draft.nesting_quantified body.draft _
      rw [List.replicate_succ]
      show Draft.depth (.quantified .universal 'x' (Formula.quantify _ _)) = _
      rw [hquantified]
      cases n with
      | zero => rfl
      | succ n =>
        rw [ih (Nat.succ_pos n)]
        omega
  have hline : ∀ f : Formula, (Document.mk [.logic ⟨1, [1], f, .premise⟩]).draft.toValue.nesting =
      max (Draft.depth f) 1 + 3 := by
    intro f
    have hlogic := Draft.nesting_logic 1 [1] f.draft { name := "P" }
    simp only [draft, List.map_cons, List.map_nil, Draft.Document.toValue, Json.Value.nesting,
      Json.Value.membersNesting, Json.Value.itemsNesting, Line.draft, Rule.draft, Rule.name, hlogic]
    rfl
  rw [deepSheet, hline, hdepth]
  omega

/-- **What is written of a sheet that was read is not always read back.** A quantifier over 123
symbols is read, and written as 123 quantifiers. -/
theorem deepSheet_not_read_back :
    read (wideDraft 123).toValue.pretty.toUTF8.toList = .ok (deepSheet 123) ∧
      read (deepSheet 123).write.toUTF8.toList = .error .malformed := by
  have hrange : (deepSheet 123).draft.InRange :=
    (Draft.document_of_accept (accept_wideDraft 123)).2 (inRange_wideDraft 123)
  refine ⟨read_wideDraft 123, ?_⟩
  rw [write, read_pretty hrange, nesting_deepSheet 123 (by decide), if_neg (by decide)]

end ProofSheet.Document
