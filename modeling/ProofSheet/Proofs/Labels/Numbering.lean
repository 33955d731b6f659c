import ProofSheet.Proofs.Labels.Relabelling

/-!
# The numbers of a sheet

Renumbering goes over a sheet twice. The first pass gives a number to each label and stops at the first
that cannot be used; the second puts the numbers for the labels and stops at the first label that no
line has. What each pass finds is said here by the sheet alone.

* `Document.number`: the number of the line with a label.
* `Document.Refused`: the positions whose label cannot be used.
* `newLabels_cases`: **the first pass stops at the first such position**, or numbers every label.
* `Line.under`: a line with its labels renamed, premises and citations in order.
* `NewLabels.relabelLine_missing`, `NewLabels.relabelLine_under`: a line is relabelled up to the first
  label that has no new one, or altogether.
* `NewLabels.relabelLines_cases`: **the second pass stops at the first line with such a label**, or
  relabels every line.
* `Document.renumber_cases`: **the three ends of renumbering.**
-/

namespace ProofSheet

/-! ## The lines that labels are of -/

namespace Line

/-- Whether a line is the logic line with a label. -/
def isLabelled (l : Label) : Line → Bool
  | .logic line => line.label == l
  | .text _ => false

theorem isLabelled_iff {l : Label} {line : Line} :
    line.isLabelled l = true ↔ ∃ logic, line = .logic logic ∧ logic.label = l := by
  cases line with
  | logic logic => simp [isLabelled]
  | text content => simp [isLabelled]

end Line

namespace Document

variable {document : Document} {limit : Label}

/-- No label is of two lines. -/
def Distinct (document : Document) : Prop :=
  ∀ l i j, document.Designates l i → document.Designates l j → i = j

/-- A label is of some line. -/
def Has (document : Document) (l : Label) : Prop :=
  ∃ j, document.Designates l j

/-- **The number of the line with a label**: how many lines before it take one. -/
def number (document : Document) (l : Label) : Label :=
  Line.numberAt document.lines (document.lines.findIdx (Line.isLabelled l))

theorem number_eq (hdistinct : document.Distinct) {l : Label} {j : Nat}
    (h : document.Designates l j) : document.number l = Line.numberAt document.lines j := by
  obtain ⟨line, hj, hlabel⟩ := h
  have hlt : document.lines.findIdx (Line.isLabelled l) < document.lines.length :=
    List.findIdx_lt_length_of_exists
      ⟨_, List.mem_of_getElem? hj, Line.isLabelled_iff.mpr ⟨line, rfl, hlabel⟩⟩
  -- the first line with the label is the only one
  obtain ⟨first, hfirst, hlabel'⟩ := Line.isLabelled_iff.mp (List.findIdx_getElem (w := hlt))
  have hget := List.getElem?_eq_some_iff.mpr ⟨hlt, hfirst⟩
  rw [number, hdistinct l _ j ⟨first, hget, hlabel'⟩ ⟨line, hj, hlabel⟩]

/-- The label of the line at a position cannot be used: it is over the limit, or an earlier line has
it. -/
def Refused (document : Document) (limit : Label) (i : Nat) : Prop :=
  ∃ line, document.lines[i]? = some (.logic line) ∧
    (limit < line.label ∨ ∃ j < i, document.Designates line.label j)

/-- The error for a label that cannot be used. -/
def refusal (limit : Label) (position : Nat) (label : Label) : LabelError :=
  if limit < label then .outOfRange position label else .duplicate position label

theorem distinct_of_not_refused (h : ∀ i, ¬ document.Refused limit i) : document.Distinct := by
  have hlt : ∀ {l i j}, document.Designates l i → document.Designates l j → ¬ i < j := by
    rintro l i j hi ⟨line, hj, rfl⟩ hij
    exact h j ⟨line, hj, Or.inr ⟨i, hij, hi⟩⟩
  intro l i j hi hj
  exact Nat.le_antisymm (Nat.le_of_not_lt (hlt hj hi)) (Nat.le_of_not_lt (hlt hi hj))

end Document

/-! ## Numbering the labels -/

section AssignLabels

variable {document : Document} {limit : Label}

/-- One more line adds its own label to those of the lines before it. -/
theorem exists_lt_succ_designates {i : Nat} {line : Line} (hi : document.lines[i]? = some line)
    (l : Label) : (∃ j < i + 1, document.Designates l j) ↔
      line.isLabelled l = true ∨ ∃ j < i, document.Designates l j := by
  constructor
  · rintro ⟨j, hj, logic, hget, hlabel⟩
    rcases Nat.lt_succ_iff_lt_or_eq.mp hj with hlt | rfl
    · exact Or.inr ⟨j, hlt, logic, hget, hlabel⟩
    · exact Or.inl (Line.isLabelled_iff.mpr ⟨logic, Option.some.inj (hi.symm.trans hget), hlabel⟩)
  · rintro (hline | ⟨j, hj, hdesignates⟩)
    · obtain ⟨logic, rfl, hlabel⟩ := Line.isLabelled_iff.mp hline
      exact ⟨i, Nat.lt_succ_self i, logic, hi, hlabel⟩
    · exact ⟨j, Nat.lt_succ_of_lt hj, hdesignates⟩

/-- A label over the limit is refused, and so is a known one that is not. -/
theorem assignLabels_refused {i next : Nat} {known : NewLabels} {line : LogicLine} (lines : List Line)
    (h : limit < line.label ∨ (known.renamed? line.label).isSome = true) :
    assignLabels limit i next known (.logic line :: lines) =
      .error (Document.refusal limit i line.label) := by
  rw [assignLabels, Document.refusal]
  by_cases hlimit : limit < line.label
  · rw [if_pos hlimit, if_pos hlimit]
  · rw [if_neg hlimit, if_neg hlimit, if_pos (h.resolve_left hlimit)]

/-- **The labels of the lines from a position on are numbered, or the first that cannot be used is
found.** The lines before it have the labels that are known, and none of them was refused. -/
theorem assignLabels_cases {lines : List Line} : ∀ {i next : Nat} {known : NewLabels},
    document.lines.drop i = lines →
    (∀ l, (known.renamed? l).isSome = true ↔ ∃ j < i, document.Designates l j) →
    (∀ j < i, ¬ document.Refused limit j) →
    (∃ labels, assignLabels limit i next known lines = .ok labels ∧
        ∀ j, ¬ document.Refused limit j) ∨
      ∃ p line, document.lines[p]? = some (.logic line) ∧ document.Refused limit p ∧
        (∀ j < p, ¬ document.Refused limit j) ∧
        assignLabels limit i next known lines = .error (Document.refusal limit p line.label) := by
  induction lines with
  | nil =>
    intro i next known hdrop _ hbefore
    refine Or.inl ⟨known, rfl, fun j hrefused => ?_⟩
    have hlt : j < document.lines.length := by
      obtain ⟨line, hj, -⟩ := hrefused
      exact (List.getElem?_eq_some_iff.mp hj).1
    have hlength := List.drop_eq_nil_iff.mp hdrop
    exact hbefore j (Nat.lt_of_lt_of_le hlt hlength) hrefused
  | cons line lines ih =>
    intro i next known hdrop hknown hbefore
    have hi : document.lines[i]? = some line := by
      have hhead : (document.lines.drop i)[0]? = some line := by rw [hdrop]; rfl
      rwa [List.getElem?_drop] at hhead
    have hrest : document.lines.drop (i + 1) = lines := by
      rw [← List.drop_drop, hdrop, List.drop_one, List.tail_cons]
    have hlabels := exists_lt_succ_designates hi
    cases line with
    | text content =>
      have htext : ¬ document.Refused limit i := by
        rintro ⟨logic, hget, -⟩
        rw [hi] at hget
        cases hget
      refine ih hrest (fun l => ?_) (Nat.forall_lt_succ_right.mpr ⟨hbefore, htext⟩)
      rw [hlabels, hknown]
      simp [Line.isLabelled]
    | logic line =>
      by_cases hrefused : document.Refused limit i
      · refine Or.inr ⟨i, line, hi, hrefused, hbefore, assignLabels_refused lines ?_⟩
        obtain ⟨logic, hget, hcannot⟩ := hrefused
        obtain rfl : line = logic := by simpa using hi.symm.trans hget
        exact hcannot.imp_right (hknown _).mpr
      · have hfree : ¬ limit < line.label ∧ ¬ (known.renamed? line.label).isSome = true :=
          ⟨fun hlimit => hrefused ⟨line, hi, Or.inl hlimit⟩,
            fun hdup => hrefused ⟨line, hi, Or.inr ((hknown _).mp hdup)⟩⟩
        rw [assignLabels, if_neg hfree.1, if_neg hfree.2]
        refine ih hrest (fun l => ?_) (Nat.forall_lt_succ_right.mpr ⟨hbefore, hrefused⟩)
        rw [hlabels, ← hknown, NewLabels.renamed?_cons]
        by_cases hl : line.label = l <;> simp [hl, Line.isLabelled]

/-- **The first pass numbers every label, or stops at the first that cannot be used.** -/
theorem newLabels_cases (document : Document) (limit : Label) :
    (∃ labels, document.newLabels limit = .ok labels ∧ ∀ i, ¬ document.Refused limit i) ∨
      ∃ p line, document.lines[p]? = some (.logic line) ∧ document.Refused limit p ∧
        (∀ i < p, ¬ document.Refused limit i) ∧
        document.newLabels limit = .error (Document.refusal limit p line.label) :=
  assignLabels_cases rfl (by simp [NewLabels.renamed?]) (by simp)

/-- **Each label of the sheet has the number of its line for its new label**, and no other has one. -/
theorem renamed?_newLabels {labels : NewLabels} (hdistinct : document.Distinct)
    (h : document.newLabels limit = .ok labels) {l n : Label} :
    labels.renamed? l = some n ↔ document.Has l ∧ n = document.number l := by
  have hnumber : ∀ {j}, document.Designates l j → labels.renamed? l = some (document.number l) := by
    rintro j ⟨line, hj, rfl⟩
    rw [assignLabels_logic h hj, Nat.zero_add, Document.number_eq hdistinct ⟨line, hj, rfl⟩]
  constructor
  · intro hl
    rcases assignLabels_source h hl with hnone | ⟨j, line, hj, hlabel⟩
    · simp [NewLabels.renamed?] at hnone
    · rw [hnumber ⟨line, hj, hlabel⟩] at hl
      exact ⟨⟨j, line, hj, hlabel⟩, (Option.some.inj hl).symm⟩
  · rintro ⟨⟨j, hj⟩, rfl⟩
    exact hnumber hj

end AssignLabels

/-! ## Putting numbers for labels -/

namespace Rule

/-- The labels of a rule, the discharged one last. -/
def labels (rule : Rule) : List Label :=
  rule.citations ++ rule.discharged?.toList

/-- A rule whose lines are cited in ascending order. -/
def sorted : Rule → Rule
  | .truthFunctional cited => .truthFunctional (Ascending.sort cited)
  | rule => rule

/-- Two rules that differ in nothing but labels. -/
def SameButLabels (rule rule' : Rule) : Prop :=
  rule'.mapLabels (fun _ => 0) = rule.mapLabels fun _ => 0

end Rule

namespace LogicLine

/-- Every label a line refers to: premises, citations and the discharged label, in that order. -/
def named (line : LogicLine) : List Label :=
  line.references ++ line.rule.discharged?.toList

theorem named_eq (line : LogicLine) : line.named = line.deps ++ line.rule.labels := by
  rw [named, references, Rule.labels, List.append_assoc]

/-- A line with its labels renamed: premises as an ascending set, citations in ascending order. -/
def under (ν : Label → Label) (line : LogicLine) : LogicLine where
  label := ν line.label
  deps := Ascending.ofList (line.deps.map ν)
  formula := line.formula
  rule := (line.rule.mapLabels ν).sorted

end LogicLine

/-- **A line with its labels renamed**; text stays as it is. -/
def Line.under (ν : Label → Label) : Line → Line
  | .logic line => .logic (line.under ν)
  | .text content => .text content

namespace NewLabels

variable {labels : NewLabels} {ν : Label → Label}

/-- The first of some labels that has no new one. -/
def firstMissing (labels : NewLabels) (olds : List Label) : Option Label :=
  olds.find? fun l => (labels.renamed? l).isNone

theorem firstMissing_append (as bs : List Label) :
    labels.firstMissing (as ++ bs) = (labels.firstMissing as).or (labels.firstMissing bs) :=
  List.find?_append

theorem firstMissing_cons_some {old fresh : Label} (h : labels.renamed? old = some fresh)
    (olds : List Label) : labels.firstMissing (old :: olds) = labels.firstMissing olds := by
  simp [firstMissing, h]

theorem firstMissing_cons_none {old : Label} (h : labels.renamed? old = none) (olds : List Label) :
    labels.firstMissing (old :: olds) = some old := by
  simp [firstMissing, h]

theorem relabel_missing_eq (olds : List Label) :
    (labels.relabel olds).2 = labels.firstMissing olds ∧
      (labels.relabel olds).1.length = olds.length := by
  induction olds with
  | nil => exact ⟨rfl, rfl⟩
  | cons old olds ih =>
    rw [relabel]
    cases h : labels.renamed? old with
    | none => exact ⟨(firstMissing_cons_none h olds).symm, rfl⟩
    | some fresh => exact ⟨by rw [firstMissing_cons_some h, ← ih.1], by simp [ih.2]⟩

/-- Labels that all have new ones are replaced by these. -/
theorem relabel_map (hν : ∀ {l n}, labels.renamed? l = some n → n = ν l) {olds : List Label}
    (h : labels.firstMissing olds = none) : labels.relabel olds = (olds.map ν, none) := by
  induction olds with
  | nil => rfl
  | cons old olds ih =>
    cases hold : labels.renamed? old with
    | none =>
      rw [firstMissing_cons_none hold] at h
      cases h
    | some fresh =>
      rw [firstMissing_cons_some hold] at h
      rw [relabel, hold, ih h, hν hold, List.map_cons]

section Rules

theorem relabelOne_missing (cited : Label) (rule : Label → Rule) :
    (labels.relabelOne cited rule).2 = labels.firstMissing [cited] := by
  unfold relabelOne
  cases h : labels.renamed? cited with
  | none => exact (firstMissing_cons_none h []).symm
  | some fresh => exact (firstMissing_cons_some h []).symm

theorem relabelTwo_missing (cited discharged : Label) (rule : Label → Label → Rule) :
    (labels.relabelTwo cited discharged rule).2 = labels.firstMissing [cited, discharged] := by
  unfold relabelTwo
  cases h : labels.renamed? cited with
  | none => exact (firstMissing_cons_none h _).symm
  | some fresh => rw [firstMissing_cons_some h, relabelOne_missing]

theorem relabelStep_missing (cited : List Label) :
    (labels.relabelRule (.truthFunctional cited)).2 = labels.firstMissing cited := by
  rw [relabelRule, ← (relabel_missing_eq cited).1]
  split <;> simp_all

/-- **A rule is relabelled up to its first label that has no new one.** -/
theorem relabelRule_missing (rule : Rule) :
    (labels.relabelRule rule).2 = labels.firstMissing rule.labels := by
  cases rule with
  | premise | unrecognized name => rfl
  | truthFunctional cited =>
    rw [relabelStep_missing]
    simp [Rule.labels, Rule.citations, Rule.discharged?]
  | discharge cited discharged | instanceElimination cited discharged =>
    exact relabelTwo_missing cited discharged _
  | changeOfQuantifier cited | universalInstantiation cited | universalGeneralization cited
  | existentialGeneralization cited | instanceIntroduction cited =>
    exact relabelOne_missing cited _

/-- A rule that is relabelled, altogether or not, stays the rule it is. -/
theorem relabelRule_sameButLabels (rule : Rule) :
    rule.SameButLabels (labels.relabelRule rule).1 := by
  cases rule with
  | premise | unrecognized name => rfl
  | truthFunctional cited =>
    have hlength := (@relabel_missing_eq labels cited).2
    rw [relabelRule, Rule.SameButLabels]
    split <;>
      simp_all [Rule.mapLabels, List.map_const', (Ascending.perm_sort _).length_eq]
  | discharge cited discharged | instanceElimination cited discharged =>
    simp only [relabelRule, relabelTwo, relabelOne]
    split
    · rfl
    · split <;> rfl
  | changeOfQuantifier cited | universalInstantiation cited | universalGeneralization cited
  | existentialGeneralization cited | instanceIntroduction cited =>
    simp only [relabelRule, relabelOne]
    split <;> rfl

theorem relabelOne_under (hν : ∀ {l n}, labels.renamed? l = some n → n = ν l) {cited : Label}
    {rule : Label → Rule} (h : labels.firstMissing [cited] = none) :
    labels.relabelOne cited rule = (rule (ν cited), none) := by
  unfold relabelOne
  cases hcited : labels.renamed? cited with
  | none =>
    rw [firstMissing_cons_none hcited] at h
    cases h
  | some fresh => rw [hν hcited]

theorem relabelTwo_under (hν : ∀ {l n}, labels.renamed? l = some n → n = ν l)
    {cited discharged : Label} {rule : Label → Label → Rule}
    (h : labels.firstMissing [cited, discharged] = none) :
    labels.relabelTwo cited discharged rule = (rule (ν cited) (ν discharged), none) := by
  unfold relabelTwo
  cases hcited : labels.renamed? cited with
  | none =>
    rw [firstMissing_cons_none hcited] at h
    cases h
  | some fresh =>
    rw [firstMissing_cons_some hcited] at h
    simp only [relabelOne_under hν h, hν hcited]

/-- A rule whose labels all have new ones is renamed altogether. -/
theorem relabelRule_under (hν : ∀ {l n}, labels.renamed? l = some n → n = ν l) {rule : Rule}
    (h : labels.firstMissing rule.labels = none) :
    labels.relabelRule rule = ((rule.mapLabels ν).sorted, none) := by
  cases rule with
  | premise | unrecognized name => rfl
  | truthFunctional cited =>
    simp only [Rule.labels, Rule.citations, Rule.discharged?, Option.toList, List.append_nil] at h
    rw [relabelRule, relabel_map hν h]
    rfl
  | discharge cited discharged | instanceElimination cited discharged =>
    exact relabelTwo_under hν h
  | changeOfQuantifier cited | universalInstantiation cited | universalGeneralization cited
  | existentialGeneralization cited | instanceIntroduction cited =>
    rw [relabelRule, relabelOne_under hν h]
    rfl

end Rules

/-- **A line is relabelled up to the first label that has no new one**: its own, those of its
premises, those of its rule. -/
theorem relabelLine_missing (line : LogicLine) :
    (labels.relabelLine line).2 = labels.firstMissing (line.label :: line.named) := by
  unfold relabelLine
  cases hlabel : labels.renamed? line.label with
  | none => exact (firstMissing_cons_none hlabel _).symm
  | some label =>
    rw [firstMissing_cons_some hlabel, LogicLine.named_eq, firstMissing_append,
      ← (relabel_missing_eq line.deps).1, ← relabelRule_missing]
    rcases labels.relabel line.deps with ⟨deps, missing⟩
    cases missing <;> rfl

/-- A line that is relabelled, altogether or not, asserts what it did by the rule it did. -/
theorem relabelLine_keeps (line : LogicLine) :
    (labels.relabelLine line).1.formula = line.formula ∧
      line.rule.SameButLabels (labels.relabelLine line).1.rule := by
  unfold relabelLine
  split
  · exact ⟨rfl, rfl⟩
  · split
    · exact ⟨rfl, rfl⟩
    · exact ⟨rfl, relabelRule_sameButLabels line.rule⟩

/-- **A line whose labels all have new ones is renamed altogether.** -/
theorem relabelLine_under (hν : ∀ {l n}, labels.renamed? l = some n → n = ν l) {line : LogicLine}
    (h : labels.firstMissing (line.label :: line.named) = none) :
    labels.relabelLine line = (line.under ν, none) := by
  cases hlabel : labels.renamed? line.label with
  | none =>
    rw [firstMissing_cons_none hlabel] at h
    cases h
  | some label =>
    rw [firstMissing_cons_some hlabel, LogicLine.named_eq, firstMissing_append,
      Option.or_eq_none_iff] at h
    simp only [relabelLine, hlabel, relabel_map hν h.1, relabelRule_under hν h.2, hν hlabel]
    rfl

/-- The first label of a line that has no new one. -/
def missingIn (labels : NewLabels) : Line → Option Label
  | .logic line => labels.firstMissing (line.label :: line.named)
  | .text _ => none

theorem relabelLines_cons (hν : ∀ {l n}, labels.renamed? l = some n → n = ν l) (position : Nat)
    {first : Line} (h : labels.missingIn first = none) (lines : List Line) :
    labels.relabelLines position (first :: lines) =
      (first.under ν :: (labels.relabelLines (position + 1) lines).1,
        (labels.relabelLines (position + 1) lines).2.map fun positions =>
          if first.takesNumber then position :: positions else positions) := by
  cases first with
  | logic line =>
    rw [relabelLines, relabelLine_under hν h]
    rfl
  | text content =>
    rw [relabelLines]
    by_cases hblank : Text.isBlank content = true
    · simp [Line.takesNumber, Line.under, hblank]
    · cases hrest : (labels.relabelLines (position + 1) lines).2 <;>
        simp [Line.takesNumber, Line.under, hblank, hrest, Except.map]

/-- **The second pass renames every line, or stops at the first with a label that has no new one.** The
lines after that are left as they are. -/
theorem relabelLines_cases (hν : ∀ {l n}, labels.renamed? l = some n → n = ν l)
    (lines : List Line) : ∀ position : Nat,
    (labels.relabelLines position lines =
        (lines.map (Line.under ν), .ok (Line.numbered position lines)) ∧
      ∀ line ∈ lines, labels.missingIn line = none) ∨
    ∃ (p : Nat) (line : LogicLine) (l : Label), lines[p]? = some (.logic line) ∧
      labels.missingIn (.logic line) = some l ∧
      (∀ earlier ∈ lines.take p, labels.missingIn earlier = none) ∧
      labels.relabelLines position lines =
        ((lines.take p).map (Line.under ν) ++
            .logic (labels.relabelLine line).1 :: lines.drop (p + 1),
          .error (.missing (position + p) l)) := by
  induction lines with
  | nil => exact fun position => Or.inl ⟨rfl, by simp⟩
  | cons first lines ih =>
    intro position
    cases hfirst : labels.missingIn first with
    | none =>
      rw [relabelLines_cons hν position hfirst]
      rcases ih (position + 1) with ⟨hrest, hnone⟩ | ⟨p, line, l, hp, hmissing, hearlier, hrest⟩
      · refine Or.inl ⟨?_, List.forall_mem_cons.mpr ⟨hfirst, hnone⟩⟩
        rw [hrest, Line.numbered]
        rfl
      · refine Or.inr ⟨p + 1, line, l, hp, hmissing, ?_, ?_⟩
        · rw [List.take_succ_cons]
          exact List.forall_mem_cons.mpr ⟨hfirst, hearlier⟩
        · rw [hrest, Nat.add_assoc position 1 p, Nat.add_comm 1 p]
          rfl
    | some l =>
      cases first with
      | text content => cases hfirst
      | logic line =>
        refine Or.inr ⟨0, line, l, rfl, hfirst, by simp, ?_⟩
        have hmissing : labels.relabelLine line = ((labels.relabelLine line).1, some l) :=
          Prod.ext rfl ((relabelLine_missing line).trans hfirst)
        rw [relabelLines, hmissing]
        rfl

end NewLabels

/-! ## Renumbering a sheet -/

namespace Document

variable {document : Document} {limit : Label} {labels : NewLabels}

/-- The first label that a line refers to and no line has. -/
def FirstMissing (document : Document) (line : LogicLine) (l : Label) : Prop :=
  ¬ document.Has l ∧
    ∃ before after, line.named = before ++ l :: after ∧ ∀ k ∈ before, document.Has k

theorem isNone_renamed? (hdistinct : document.Distinct)
    (h : document.newLabels limit = .ok labels) {l : Label} :
    (labels.renamed? l).isNone = true ↔ ¬ document.Has l := by
  rw [Option.isNone_iff_eq_none, Option.eq_none_iff_forall_ne_some]
  simp only [ne_eq, renamed?_newLabels hdistinct h, not_and]
  exact ⟨fun hall hhas => hall _ hhas rfl, fun hnot n hhas => absurd hhas hnot⟩

/-- The label of a line is no missing one. -/
theorem missingIn_eq (hdistinct : document.Distinct) (h : document.newLabels limit = .ok labels)
    {line : LogicLine} (hmem : Line.logic line ∈ document.lines) :
    labels.missingIn (.logic line) = labels.firstMissing line.named := by
  obtain ⟨i, hi⟩ := List.mem_iff_getElem?.mp hmem
  exact NewLabels.firstMissing_cons_some
    ((renamed?_newLabels hdistinct h).mpr ⟨⟨i, line, hi, rfl⟩, rfl⟩) _

theorem missingIn_eq_none (hdistinct : document.Distinct)
    (h : document.newLabels limit = .ok labels) {line : LogicLine}
    (hmem : Line.logic line ∈ document.lines) :
    labels.missingIn (.logic line) = none ↔ ∀ l ∈ line.named, document.Has l := by
  rw [missingIn_eq hdistinct h hmem, NewLabels.firstMissing, List.find?_eq_none]
  simp only [isNone_renamed? hdistinct h, not_not]

theorem firstMissing_of_missingIn (hdistinct : document.Distinct)
    (h : document.newLabels limit = .ok labels) {line : LogicLine}
    (hmem : Line.logic line ∈ document.lines) {l : Label}
    (hl : labels.missingIn (.logic line) = some l) : document.FirstMissing line l := by
  rw [missingIn_eq hdistinct h hmem, NewLabels.firstMissing,
    List.find?_eq_some_iff_append] at hl
  obtain ⟨hmissing, before, after, hnamed, hbefore⟩ := hl
  refine ⟨(isNone_renamed? hdistinct h).mp hmissing, before, after, hnamed, fun k hk => ?_⟩
  by_contra hnot
  have hfound := hbefore k hk
  rw [(isNone_renamed? hdistinct h).mpr hnot] at hfound
  cases hfound

/-- **Renumbering comes to one of three ends.** A label cannot be used, and the sheet is left as it was;
or every line is renamed; or a line refers to a label that no line has, and the sheet is left as far as
it was renamed. -/
theorem renumber_cases (document : Document) (limit : Label) :
    (∃ p line, document.lines[p]? = some (.logic line) ∧ document.Refused limit p ∧
      (∀ i < p, ¬ document.Refused limit i) ∧
      document.renumber limit = ⟨document, .error (refusal limit p line.label)⟩) ∨
    ((∀ i, ¬ document.Refused limit i) ∧
      (∀ line, Line.logic line ∈ document.lines → ∀ l ∈ line.named, document.Has l) ∧
      document.renumber limit =
        ⟨⟨document.lines.map (Line.under document.number)⟩, .ok ⟨Line.numbered 0 document.lines⟩⟩) ∨
    ((∀ i, ¬ document.Refused limit i) ∧
      ∃ p line l, document.lines[p]? = some (.logic line) ∧ document.FirstMissing line l ∧
        (∀ earlier, Line.logic earlier ∈ document.lines.take p →
          ∀ k ∈ earlier.named, document.Has k) ∧
        ∃ line' : LogicLine, line'.formula = line.formula ∧ line.rule.SameButLabels line'.rule ∧
          document.renumber limit =
            ⟨⟨(document.lines.take p).map (Line.under document.number) ++
                .logic line' :: document.lines.drop (p + 1)⟩, .error (.missing p l)⟩) := by
  rcases newLabels_cases document limit with ⟨labels, hok, hfree⟩ | ⟨p, line, hp, hrefused, hfirst, herror⟩
  · have hdistinct := distinct_of_not_refused hfree
    have hν : ∀ {l n}, labels.renamed? l = some n → n = document.number l :=
      fun hl => ((renamed?_newLabels hdistinct hok).mp hl).2
    have hnone : ∀ {line}, Line.logic line ∈ document.lines →
        labels.missingIn (.logic line) = none → ∀ l ∈ line.named, document.Has l :=
      fun hmem h => (missingIn_eq_none hdistinct hok hmem).mp h
    have hrun : document.renumber limit =
        ⟨⟨(labels.relabelLines 0 document.lines).1⟩,
          (labels.relabelLines 0 document.lines).2.map fun positions => ⟨positions⟩⟩ := by
      rw [renumber, hok]
    rcases NewLabels.relabelLines_cases hν document.lines 0 with
      ⟨hlines, hall⟩ | ⟨p, line, l, hp, hmissing, hearlier, hlines⟩
    · refine Or.inr (Or.inl ⟨hfree, fun line hmem => hnone hmem (hall _ hmem), ?_⟩)
      rw [hrun, hlines]
      rfl
    · have hmem : ∀ {earlier}, Line.logic earlier ∈ document.lines.take p →
          Line.logic earlier ∈ document.lines := List.mem_of_mem_take
      refine Or.inr (Or.inr ⟨hfree, p, line, l, hp,
        firstMissing_of_missingIn hdistinct hok (List.mem_of_getElem? hp) hmissing,
        fun earlier htake => hnone (hmem htake) (hearlier _ htake),
        (labels.relabelLine line).1, (NewLabels.relabelLine_keeps line).1,
        (NewLabels.relabelLine_keeps line).2, ?_⟩)
      rw [hrun, hlines, Nat.zero_add]
      rfl
  · refine Or.inl ⟨p, line, hp, hrefused, hfirst, ?_⟩
    rw [renumber, herror]

end Document

end ProofSheet
