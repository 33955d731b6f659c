import ProofSheet.Proofs.Labels.Numbering

/-!
# Well-labelled sheets and their canonical form

Renumbering succeeds for the sheets in which every label leads to one line. The numbers then lead where
the labels led, and nothing else has changed; so a sheet that is renumbered stays as it is from then on.

* `Document.WellLabelled`: labels within a limit, none of two lines, and every reference to some line.
* `Document.Canonical`: **a sheet renumbered, with its index**, said by the sheet alone.
* `Document.canonical_numbered`: the lines under their numbers are that.
* `Document.renumber_numbered`: they are renumbered to themselves.
* `Document.renumber_canonical`: **renumbering succeeds exactly for well-labelled sheets**, gives their
  canonical form, and is idempotent.
-/

namespace ProofSheet

/-! ## Lines under their numbers -/

namespace Line

variable {ν : Label → Label}

theorem takesNumber_under (line : Line) : (line.under ν).takesNumber = line.takesNumber := by
  cases line <;> rfl

theorem numberAt_under (lines : List Line) (i : Nat) :
    numberAt (lines.map (under ν)) i = numberAt lines i := by
  rw [numberAt, numberAt, ← List.map_take, List.countP_map]
  exact List.countP_congr fun line _ => by rw [Function.comp_apply, takesNumber_under]

theorem numbered_under (lines : List Line) : ∀ position,
    numbered position (lines.map (under ν)) = numbered position lines := by
  induction lines with
  | nil => exact fun _ => rfl
  | cons line lines ih =>
    intro position
    rw [List.map_cons, numbered, numbered, takesNumber_under, ih]

theorem length_numbered (lines : List Line) : ∀ position,
    (numbered position lines).length = lines.countP takesNumber := by
  induction lines with
  | nil => exact fun _ => rfl
  | cons line lines ih =>
    intro position
    rw [numbered, List.countP_cons]
    split
    · rw [List.length_cons, ih]
    · rw [ih, Nat.add_zero]

/-- The positions that are numbered are those of the lines that take a number. -/
theorem mem_numbered {lines : List Line} : ∀ {position i : Nat},
    i ∈ numbered position lines ↔
      ∃ k line, i = position + k ∧ lines[k]? = some line ∧ line.takesNumber = true := by
  induction lines with
  | nil => simp [numbered]
  | cons first lines ih =>
    intro position i
    have hrest : i ∈ numbered (position + 1) lines ↔
        ∃ k line, i = position + (k + 1) ∧ lines[k]? = some line ∧ line.takesNumber = true := by
      rw [ih]
      simp only [Nat.add_assoc, Nat.add_comm 1]
    constructor
    · intro hi
      rw [numbered] at hi
      split at hi
      · rename_i hfirst
        rcases List.mem_cons.mp hi with rfl | hi
        · exact ⟨0, first, rfl, rfl, hfirst⟩
        · obtain ⟨k, line, hik, hk⟩ := hrest.mp hi
          exact ⟨k + 1, line, hik, hk⟩
      · obtain ⟨k, line, hik, hk⟩ := hrest.mp hi
        exact ⟨k + 1, line, hik, hk⟩
    · rintro ⟨k, line, hik, hk, htakes⟩
      rw [numbered]
      cases k with
      | zero =>
        obtain rfl : first = line := by simpa using hk
        rw [if_pos htakes, hik]
        exact List.mem_cons_self
      | succ k =>
        have hmem := hrest.mpr ⟨k, line, hik, hk, htakes⟩
        split
        · exact List.mem_cons_of_mem _ hmem
        · exact hmem

/-- Two logic lines with one number are one line. -/
theorem numberAt_injective {lines : List Line} {i j : Nat} {line other : LogicLine}
    (hi : lines[i]? = some (.logic line)) (hj : lines[j]? = some (.logic other))
    (h : numberAt lines i = numberAt lines j) : i = j := by
  have hposition := @numbered_numberAt lines 0 i _ hi rfl
  have hposition' := @numbered_numberAt lines 0 j _ hj rfl
  rw [h, hposition'] at hposition
  simpa using hposition.symm

end Line

theorem map_eq_self {ν : Label → Label} {ls : List Label} (h : ∀ l ∈ ls, ν l = l) :
    ls.map ν = ls :=
  (List.map_congr_left h).trans (List.map_id ls)

namespace Rule

variable {ν : Label → Label}

/-- The labels of a rule that was renamed are its labels renamed. -/
theorem mem_labels_under {rule : Rule} {n : Label} :
    n ∈ (rule.mapLabels ν).sorted.labels ↔ n ∈ rule.labels.map ν := by
  cases rule with
  | truthFunctional cited =>
    simp [labels, citations, discharged?, mapLabels, sorted, (Ascending.perm_sort _).mem_iff]
  | _ => simp [labels, citations, discharged?, mapLabels, sorted]

theorem reordered_sorted (rule : Rule) : rule.Reordered rule.sorted := by
  cases rule with
  | truthFunctional cited => exact .truthFunctional (Ascending.perm_sort cited)
  | _ => exact .same _

theorem sorted_sorted (rule : Rule) : rule.sorted.sorted = rule.sorted := by
  cases rule with
  | truthFunctional cited =>
    exact congrArg Rule.truthFunctional (Ascending.sort_eq_of_perm (Ascending.perm_sort cited))
  | _ => rfl

theorem mapLabels_eq_self {rule : Rule} (h : ∀ l ∈ rule.labels, ν l = l) :
    rule.mapLabels ν = rule := by
  cases rule with
  | truthFunctional cited =>
    have hcited : cited.map ν = cited := map_eq_self fun l hl => h l (List.mem_append_left _ hl)
    rw [mapLabels, hcited]
  | _ => simp_all [mapLabels, labels, citations, discharged?]

end Rule

namespace LogicLine

variable {ν : Label → Label}

theorem mem_named {line : LogicLine} {l : Label} :
    l ∈ line.named ↔ l ∈ line.deps ∨ l ∈ line.rule.labels := by
  rw [named_eq, List.mem_append]

/-- What a renamed line refers to is what the line refers to, renamed. -/
theorem mem_named_under {line : LogicLine} {n : Label} :
    n ∈ (line.under ν).named ↔ n ∈ line.named.map ν := by
  rw [mem_named, under, Ascending.mem_ofList, Rule.mem_labels_under, named_eq, List.map_append,
    List.mem_append]

theorem relabelled_under (line : LogicLine) : line.Relabelled ν (line.under ν) :=
  ⟨rfl, fun _ => Ascending.mem_ofList, rfl, Rule.reordered_sorted _⟩

/-- A renamed line stays as it is when its labels keep their names. -/
theorem under_under {ν' : Label → Label} {line : LogicLine} (hlabel : ν' (ν line.label) = ν line.label)
    (hnamed : ∀ l ∈ line.named, ν' (ν l) = ν l) : (line.under ν).under ν' = line.under ν := by
  have hfix : ∀ n ∈ (line.under ν).named, ν' n = n := by
    intro n hn
    obtain ⟨l, hl, rfl⟩ := List.mem_map.mp (mem_named_under.mp hn)
    exact hnamed l hl
  have hrule : (line.under ν).rule.mapLabels ν' = (line.under ν).rule :=
    Rule.mapLabels_eq_self fun n hn => hfix n (mem_named.mpr (Or.inr hn))
  have hdeps : (line.under ν).deps.map ν' = (line.under ν).deps :=
    map_eq_self fun n hn => hfix n (mem_named.mpr (Or.inl hn))
  have hsorted : Ascending.ofList (line.under ν).deps = (line.under ν).deps :=
    Ascending.eq_of_mem_iff (Ascending.ofList_ascending _) (Ascending.ofList_ascending _)
      fun _ => Ascending.mem_ofList
  have hlabel : ν' (line.under ν).label = (line.under ν).label := hlabel
  have hcited : (line.under ν).rule.sorted = (line.under ν).rule := Rule.sorted_sorted _
  rw [under, hlabel, hdeps, hsorted, hrule, hcited]

end LogicLine

namespace Document

variable {document : Document} {limit : Label}

/-! ## Sheets that can be renumbered -/

/-- **The sheets in which every label leads to one line**: logic lines have labels within a limit, no two
of them have one label, and every premise, citation and discharged label is the label of a logic line. -/
structure WellLabelled (document : Document) (limit : Label) : Prop where
  within : ∀ line, Line.logic line ∈ document.lines → line.label ≤ limit
  distinct : document.Distinct
  resolved : ∀ line, Line.logic line ∈ document.lines → ∀ l ∈ line.named, document.Has l

/-- A sheet is well labelled when no pass of renumbering finds a fault in it. -/
theorem wellLabelled_iff : document.WellLabelled limit ↔
    (∀ i, ¬ document.Refused limit i) ∧
      ∀ line, Line.logic line ∈ document.lines → ∀ l ∈ line.named, document.Has l := by
  constructor
  · rintro ⟨hwithin, hdistinct, hresolved⟩
    refine ⟨?_, hresolved⟩
    rintro i ⟨line, hi, hlimit | ⟨j, hlt, hj⟩⟩
    · exact absurd (hwithin line (List.mem_of_getElem? hi)) (Nat.not_le_of_lt hlimit)
    · exact absurd (hdistinct _ _ _ hj ⟨line, hi, rfl⟩) (Nat.ne_of_lt hlt)
  · rintro ⟨hfree, hresolved⟩
    refine ⟨fun line hmem => ?_, distinct_of_not_refused hfree, hresolved⟩
    obtain ⟨i, hi⟩ := List.mem_iff_getElem?.mp hmem
    exact Nat.le_of_not_lt fun hlimit => hfree i ⟨line, hi, Or.inl hlimit⟩

/-- **Well-labelled sheets are renumbered**: every line is put under the numbers. -/
theorem WellLabelled.renumber (h : document.WellLabelled limit) : document.renumber limit =
    ⟨⟨document.lines.map (Line.under document.number)⟩, .ok ⟨Line.numbered 0 document.lines⟩⟩ := by
  obtain ⟨hfree, hresolved⟩ := wellLabelled_iff.mp h
  rcases document.renumber_cases limit with
    ⟨p, -, -, hrefused, -⟩ | ⟨-, -, hrun⟩ | ⟨-, p, line, l, hp, ⟨hmissing, before, after, hnamed, -⟩, -⟩
  · exact absurd hrefused (hfree p)
  · exact hrun
  · exact absurd (hresolved line (List.mem_of_getElem? hp) l (by simp [hnamed])) hmissing

/-- Only well-labelled sheets are renumbered. -/
theorem wellLabelled_of_renumber {index : LineIndex} (h : (document.renumber limit).outcome = .ok index) :
    document.WellLabelled limit := by
  rcases document.renumber_cases limit with
    ⟨p, line, -, -, -, hrun⟩ | ⟨hfree, hresolved, -⟩ | ⟨-, p, line, l, -, -, -, line', -, -, hrun⟩
  · rw [hrun] at h
    cases h
  · exact wellLabelled_iff.mpr ⟨hfree, hresolved⟩
  · rw [hrun] at h
    cases h

/-! ## The canonical form -/

/-- The lines of a sheet under their numbers. -/
def numbered (document : Document) : Document :=
  ⟨document.lines.map (Line.under document.number)⟩

/-- The lines that take a number, in order. -/
def numberedIndex (document : Document) : LineIndex :=
  ⟨Line.numbered 0 document.lines⟩

/-- **A sheet renumbered, with its index.** -/
structure Canonical (document fresh : Document) (index : LineIndex) : Prop where
  /-- The lines are those of the sheet, in order. Each label is replaced by the number of its line, and
  nothing else is changed but the order of premises and citations. -/
  relabelled : document.Relabelled document.number fresh
  /-- A line is labelled with the number of logic and blank lines before it. -/
  label : ∀ {i line}, fresh.lines[i]? = some (.logic line) →
    line.label = Line.numberAt document.lines i
  /-- Premises are in ascending order, each once. -/
  deps : ∀ line, Line.logic line ∈ fresh.lines → line.deps.Pairwise (· < ·)
  /-- Truth-functional steps cite in ascending order. -/
  cited : ∀ line, Line.logic line ∈ fresh.lines → ∀ cited, line.rule = .truthFunctional cited →
    cited.Pairwise (· ≤ ·)
  /-- Every premise, citation and discharged label is of the line it was of. -/
  designates : ∀ line, Line.logic line ∈ document.lines → ∀ l ∈ line.named, ∀ j,
    fresh.Designates (document.number l) j ↔ document.Designates l j
  /-- The index has an entry for each logic or blank line. -/
  entries : ∀ i, i ∈ index.positions ↔
    ∃ line, document.lines[i]? = some line ∧ line.takesNumber = true
  length : index.length = document.lines.countP Line.takesNumber
  ascending : index.positions.Pairwise (· < ·)
  /-- The label of a line leads to its position. -/
  position : ∀ {i line}, fresh.lines[i]? = some (.logic line) → index.position? line.label = some i

section Numbered

variable (hdistinct : document.Distinct)
include hdistinct

/-- A logic line of the numbered sheet is one of the sheet, under its number. -/
theorem numbered_getElem? {i : Nat} {line' : LogicLine}
    (h : document.numbered.lines[i]? = some (.logic line')) :
    ∃ line, document.lines[i]? = some (.logic line) ∧ line' = line.under document.number ∧
      line'.label = Line.numberAt document.lines i := by
  rw [numbered, List.getElem?_map, Option.map_eq_some_iff] at h
  obtain ⟨line, hi, hline⟩ := h
  cases line with
  | text content => cases hline
  | logic line =>
    cases hline
    exact ⟨line, hi, rfl, number_eq hdistinct ⟨line, hi, rfl⟩⟩

/-- The number of a label is of the line that the label is of. -/
theorem designates_number {l : Label} (hl : document.Has l) {j : Nat} :
    document.numbered.Designates (document.number l) j ↔ document.Designates l j := by
  constructor
  · rintro ⟨line', hj, hlabel⟩
    obtain ⟨line, hget, -, hnumber⟩ := numbered_getElem? hdistinct hj
    obtain ⟨k, other, hk, rfl⟩ := hl
    rw [hlabel, number_eq hdistinct ⟨other, hk, rfl⟩] at hnumber
    rw [← Line.numberAt_injective hk hget hnumber]
    exact ⟨other, hk, rfl⟩
  · rintro ⟨line, hj, rfl⟩
    exact ⟨line.under document.number, by simp [numbered, hj, Line.under], rfl⟩

theorem numbered_distinct : document.numbered.Distinct := by
  rintro n i j ⟨line, hi, rfl⟩ ⟨other, hj, hlabel⟩
  obtain ⟨line', hi', -, hnumber⟩ := numbered_getElem? hdistinct hi
  obtain ⟨other', hj', -, hnumber'⟩ := numbered_getElem? hdistinct hj
  exact Line.numberAt_injective hi' hj' (hnumber.symm.trans (hlabel.symm.trans hnumber'))

/-- In the numbered sheet each line has its number for its label. -/
theorem number_number {l : Label} (hl : document.Has l) :
    document.numbered.number (document.number l) = document.number l := by
  obtain ⟨j, hj⟩ := hl
  rw [number_eq (numbered_distinct hdistinct) ((designates_number hdistinct ⟨j, hj⟩).mpr hj),
    number_eq hdistinct hj]
  exact Line.numberAt_under document.lines j

end Numbered

/-- **The lines of a well-labelled sheet under their numbers are its canonical form.** -/
theorem canonical_numbered (h : document.WellLabelled limit) :
    document.Canonical document.numbered document.numberedIndex := by
  have hmem : ∀ {line'}, Line.logic line' ∈ document.numbered.lines →
      ∃ line : LogicLine, line' = line.under document.number := by
    intro line' hline'
    obtain ⟨i, hi⟩ := List.mem_iff_getElem?.mp hline'
    obtain ⟨line, -, hline, -⟩ := numbered_getElem? h.distinct hi
    exact ⟨line, hline⟩
  refine ⟨?_, ?_, ?_, ?_, ?_, ?_, Line.length_numbered _ 0, Line.numbered_ascending _ 0, ?_⟩
  · refine List.forall₂_map_right_iff.mpr (List.forall₂_same.mpr fun line _ => ?_)
    cases line with
    | logic line => exact .logic line.relabelled_under
    | text content => exact .text content
  · intro i line hi
    obtain ⟨-, -, -, hlabel⟩ := numbered_getElem? h.distinct hi
    exact hlabel
  · intro line hline
    obtain ⟨source, rfl⟩ := hmem hline
    exact (Ascending.ofList_ascending _).imp of_decide_eq_true
  · intro line hline cited hcited
    obtain ⟨source, rfl⟩ := hmem hline
    cases hrule : source.rule with
    | truthFunctional olds =>
      rw [LogicLine.under, hrule] at hcited
      cases hcited
      exact (Ascending.sort_sorted _).imp fun hab => Nat.le_of_not_lt (of_decide_eq_false hab)
    | _ =>
      rw [LogicLine.under, hrule] at hcited
      cases hcited
  · exact fun line hline l hl j => designates_number h.distinct (h.resolved line hline l hl)
  · intro i
    simp [numberedIndex, Line.mem_numbered]
  · intro i line hi
    obtain ⟨source, hget, -, hlabel⟩ := numbered_getElem? h.distinct hi
    have hposition := @Line.numbered_numberAt document.lines 0 i _ hget rfl
    rw [Nat.zero_add] at hposition
    rw [hlabel]
    exact hposition

/-- **A numbered sheet is renumbered to itself**, within a limit that is no less than its length. -/
theorem renumber_numbered (h : document.WellLabelled limit) {limit' : Label}
    (hlimit : document.length ≤ limit') :
    document.numbered.renumber limit' = ⟨document.numbered, .ok document.numberedIndex⟩ := by
  have hnumber := @number_number document h.distinct
  have hhas : ∀ {l}, document.Has l → document.numbered.Has (document.number l) :=
    fun ⟨j, hj⟩ => ⟨j, (designates_number h.distinct ⟨j, hj⟩).mpr hj⟩
  have hwell : document.numbered.WellLabelled limit' := by
    refine ⟨fun line' hline' => ?_, numbered_distinct h.distinct, fun line' hline' n hn => ?_⟩
    · obtain ⟨i, hi⟩ := List.mem_iff_getElem?.mp hline'
      obtain ⟨line, hget, -, hlabel⟩ := numbered_getElem? h.distinct hi
      have hcount : Line.numberAt document.lines i ≤ document.lines.length :=
        Nat.le_trans List.countP_le_length (List.length_take_le' _ _)
      rw [hlabel]
      exact Nat.le_trans hcount hlimit
    · obtain ⟨i, hi⟩ := List.mem_iff_getElem?.mp hline'
      obtain ⟨line, hget, rfl, -⟩ := numbered_getElem? h.distinct hi
      obtain ⟨l, hl, rfl⟩ := List.mem_map.mp (LogicLine.mem_named_under.mp hn)
      exact hhas (h.resolved line (List.mem_of_getElem? hget) l hl)
  have hlines : document.numbered.lines.map (Line.under document.numbered.number) =
      document.numbered.lines := by
    rw [numbered, List.map_map]
    refine List.map_congr_left fun line hline => ?_
    cases line with
    | text content => rfl
    | logic line =>
      obtain ⟨i, hi⟩ := List.mem_iff_getElem?.mp hline
      exact congrArg Line.logic (LogicLine.under_under (hnumber ⟨i, line, hi, rfl⟩)
        fun l hl => hnumber (h.resolved line hline l hl))
  have hpositions : Line.numbered 0 document.numbered.lines = Line.numbered 0 document.lines :=
    Line.numbered_under document.lines 0
  rw [hwell.renumber, hlines, hpositions, numberedIndex]

/-- **Renumbering succeeds exactly for well-labelled sheets.** It gives the sheet in canonical form with
its index, and renumbering that again changes nothing. -/
theorem renumber_canonical (document : Document) (limit : Label) :
    ((∃ index, (document.renumber limit).outcome = .ok index) ↔ document.WellLabelled limit) ∧
    ∀ index, (document.renumber limit).outcome = .ok index →
      document.Canonical (document.renumber limit).document index ∧
      ∀ limit', document.length ≤ limit' →
        (document.renumber limit).document.renumber limit' =
          ⟨(document.renumber limit).document, .ok index⟩ := by
  refine ⟨⟨fun ⟨index, hindex⟩ => wellLabelled_of_renumber hindex,
    fun h => ⟨_, congrArg Renumbering.outcome h.renumber⟩⟩, fun index hindex => ?_⟩
  have hwell := wellLabelled_of_renumber hindex
  rw [hwell.renumber] at hindex ⊢
  obtain rfl : document.numberedIndex = index := Except.ok.inj hindex
  exact ⟨canonical_numbered hwell, fun limit' hlimit => renumber_numbered hwell hlimit⟩

/-- `A → A ∧ B` from `B`, with a comment and a blank line, under labels in no order. -/
def sparseSheet : Document where
  lines :=
    [ .text "Two premises, and a step to come.",
      .logic ⟨7, [7], .letter 'A', .premise⟩,
      .text "  ",
      .logic ⟨3, [3], .letter 'B', .premise⟩,
      .logic ⟨90, [7, 3], .junction .conjunction [.letter 'A', .letter 'B'],
        .truthFunctional [7, 3, 7]⟩,
      .logic ⟨4, [3], .conditional (.letter 'A')
        (.junction .conjunction [.letter 'A', .letter 'B']), .discharge 90 7⟩ ]

/-- Its lines have the labels 0, 2, 3 and 4, at positions 1, 3, 4 and 5. -/
theorem renumber_canonical_sparse :
    (sparseSheet.renumber 90).outcome = .ok ⟨[1, 2, 3, 4, 5]⟩ ∧
      (sparseSheet.renumber 90).document.lines[4]? =
        some (.logic ⟨3, [0, 2], .junction .conjunction [.letter 'A', .letter 'B'],
          .truthFunctional [0, 0, 2]⟩) ∧
      sparseSheet.WellLabelled 90 ∧
      sparseSheet.Canonical (sparseSheet.renumber 90).document ⟨[1, 2, 3, 4, 5]⟩ ∧
      (sparseSheet.renumber 90).document.renumber 6 =
        ⟨(sparseSheet.renumber 90).document, .ok ⟨[1, 2, 3, 4, 5]⟩⟩ := by
  have hok : (sparseSheet.renumber 90).outcome = .ok ⟨[1, 2, 3, 4, 5]⟩ := rfl
  obtain ⟨hiff, hcanonical⟩ := sparseSheet.renumber_canonical 90
  obtain ⟨hsheet, hagain⟩ := hcanonical _ hok
  exact ⟨hok, rfl, hiff.mp ⟨_, hok⟩, hsheet, hagain 6 (Nat.le_refl 6)⟩

end Document

end ProofSheet
