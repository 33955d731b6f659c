import Mathlib.Data.List.Forall2
import ProofSheet.Ascending.Lemmas
import ProofSheet.Labels.Renumber

/-!
# What renumbering keeps

Renumbering that succeeds changes labels and nothing else: each logic line has the formula it had,
its premises and citations lead to the lines they led to, and its new label finds it.

* `Line.takesNumber`, `Line.numbered`: the lines that take a number, and their positions.
* `Document.Designates`: the line that a label is of.
* `NewLabels.LineRenamed`: a line under new labels.
* `Document.Renumbered`: **a sheet renumbered**, with its new labels and its index.
* `Document.renumber_ok`: renumbering that succeeds gives such a sheet.
* `Document.Renumbered.injective`: no two labels are given the same new one.
-/

namespace ProofSheet

namespace Ascending

theorem mem_place {x z : Label} {ys : List Label} : z ∈ place x ys ↔ z = x ∨ z ∈ ys := by
  induction ys with
  | nil => simp [place]
  | cons y ys ih =>
    unfold place
    split
    · simp only [List.mem_cons, ih]
      tauto
    · simp

/-- Sorting keeps the members of a list. -/
theorem mem_sort {z : Label} {xs : List Label} : z ∈ sort xs ↔ z ∈ xs := by
  have hfold : ∀ (xs sorted : List Label),
      z ∈ xs.foldl (fun sorted x => place x sorted) sorted ↔ z ∈ xs ∨ z ∈ sorted := by
    intro xs
    induction xs with
    | nil => simp
    | cons x xs ih =>
      intro sorted
      rw [List.foldl_cons, ih, mem_place, List.mem_cons]
      tauto
  simpa [sort] using hfold xs []

end Ascending

/-! ## The lines that take a number -/

namespace Line

/-- Whether a line takes a number. -/
def takesNumber : Line → Bool
  | .logic _ => true
  | .text content => Text.isBlank content

/-- The positions of the lines that take a number, the first line being at `position`. -/
def numbered (position : Nat) : List Line → List Nat
  | [] => []
  | line :: lines =>
    if line.takesNumber then position :: numbered (position + 1) lines
    else numbered (position + 1) lines

/-- The number of the line at a place: how many lines before it take one. -/
def numberAt (lines : List Line) (i : Nat) : Nat :=
  (lines.take i).countP takesNumber

theorem numberAt_succ (line : Line) (lines : List Line) (i : Nat) :
    numberAt (line :: lines) (i + 1) =
      numberAt lines i + if line.takesNumber then 1 else 0 := by
  simp [numberAt, List.countP_cons]

theorem position_le_of_mem_numbered {lines : List Line} : ∀ {position k : Nat},
    k ∈ numbered position lines → position ≤ k := by
  induction lines with
  | nil => intro position k h; simp [numbered] at h
  | cons line lines ih =>
    intro position k h
    unfold numbered at h
    split at h
    · rcases List.mem_cons.mp h with rfl | h
      · exact Nat.le_refl k
      · exact Nat.le_of_succ_le (ih h)
    · exact Nat.le_of_succ_le (ih h)

theorem numbered_ascending (lines : List Line) : ∀ position,
    (numbered position lines).Pairwise (· < ·) := by
  induction lines with
  | nil => intro position; simp [numbered]
  | cons line lines ih =>
    intro position
    unfold numbered
    split
    · refine List.pairwise_cons.mpr ⟨fun k hk => ?_, ih (position + 1)⟩
      exact position_le_of_mem_numbered hk
    · exact ih (position + 1)

/-- **The number of a line leads to its position.** -/
theorem numbered_numberAt {lines : List Line} : ∀ {position i : Nat} {line : Line},
    lines[i]? = some line → line.takesNumber = true →
      (numbered position lines)[numberAt lines i]? = some (position + i) := by
  induction lines with
  | nil => intro position i line h; simp at h
  | cons first lines ih =>
    intro position i line h htakes
    cases i with
    | zero =>
      have hfirst : first = line := by simpa using h
      subst hfirst
      simp [numbered, numberAt, htakes]
    | succ i =>
      have hrest := @ih (position + 1) i line (by simpa using h) htakes
      -- the first line shifts the number of the others when it takes one itself
      rw [numberAt_succ, numbered]
      split
      · rw [List.getElem?_cons_succ, hrest]
        congr 1
        omega
      · rw [Nat.add_zero (Line.numberAt lines i), hrest]
        congr 1
        omega

end Line

/-- The line at a position has a label. -/
def Document.Designates (document : Document) (c : Label) (j : Nat) : Prop :=
  ∃ line, document.lines[j]? = some (.logic line) ∧ line.label = c

/-! ## New labels -/

theorem NewLabels.renamed?_cons {labels : NewLabels} {old fresh l : Label} :
    NewLabels.renamed? ((old, fresh) :: labels) l =
      if old = l then some fresh else labels.renamed? l := by
  unfold NewLabels.renamed?
  by_cases h : old = l <;> simp [h]

section AssignLabels

variable {limit : Label} {lines : List Line} {labels : NewLabels}

/-- A logic line is given the next number, if its label has none yet. -/
theorem assignLabels_cons_logic {position next : Nat} {known : NewLabels} {line : LogicLine}
    (h : assignLabels limit position next known (.logic line :: lines) = .ok labels) :
    known.renamed? line.label = none ∧
      assignLabels limit (position + 1) (next + 1) ((line.label, next) :: known) lines = .ok labels := by
  rw [assignLabels] at h
  split at h
  · simp at h
  · split at h
    · simp at h
    · rename_i hnew
      exact ⟨by simpa using hnew, h⟩

/-- Labels that have a new one keep it. -/
theorem assignLabels_known : ∀ {position next : Nat} {known : NewLabels},
    assignLabels limit position next known lines = .ok labels →
    ∀ {l n}, known.renamed? l = some n → labels.renamed? l = some n := by
  induction lines with
  | nil =>
    intro position next known h l n hl
    simp only [assignLabels, Except.ok.injEq] at h
    exact h ▸ hl
  | cons line lines ih =>
    intro position next known h l n hl
    cases line with
    | logic line =>
      obtain ⟨hnew, h⟩ := assignLabels_cons_logic h
      refine ih h ?_
      have hne : line.label ≠ l := by
        rintro rfl
        simp [hl] at hnew
      rw [NewLabels.renamed?_cons, if_neg hne, hl]
    | text content => exact ih (by rw [assignLabels] at h; exact h) hl

/-- **Each logic line is given the number of its place.** -/
theorem assignLabels_logic : ∀ {position next : Nat} {known : NewLabels},
    assignLabels limit position next known lines = .ok labels →
    ∀ {i : Nat} {line : LogicLine}, lines[i]? = some (.logic line) →
      labels.renamed? line.label = some (next + Line.numberAt lines i) := by
  induction lines with
  | nil => intro position next known h i line hi; simp at hi
  | cons first lines ih =>
    intro position next known h i line hi
    have hcount := Line.numberAt_succ first lines
    cases first with
    | logic first =>
      obtain ⟨-, h⟩ := assignLabels_cons_logic h
      cases i with
      | zero =>
        have hfirst : first = line := by simpa using hi
        subst hfirst
        refine assignLabels_known h ?_
        rw [NewLabels.renamed?_cons, if_pos rfl]
        simp [Line.numberAt]
      | succ i =>
        rw [ih h (by simpa using hi), hcount]
        simp only [Line.takesNumber, if_true]
        congr 1
        omega
    | text content =>
      rw [assignLabels] at h
      cases i with
      | zero => simp at hi
      | succ i =>
        rw [ih h (by simpa using hi), hcount]
        simp only [Line.takesNumber]
        congr 1
        split
        · simp_all
          omega
        · simp_all

/-- Only the labels of logic lines are given new ones. -/
theorem assignLabels_source : ∀ {position next : Nat} {known : NewLabels},
    assignLabels limit position next known lines = .ok labels →
    ∀ {l n}, labels.renamed? l = some n → known.renamed? l = some n ∨
      ∃ (i : Nat) (line : LogicLine), lines[i]? = some (.logic line) ∧ line.label = l := by
  induction lines with
  | nil =>
    intro position next known h l n hl
    simp only [assignLabels, Except.ok.injEq] at h
    exact Or.inl (h ▸ hl)
  | cons first lines ih =>
    intro position next known h l n hl
    cases first with
    | logic first =>
      obtain ⟨-, h⟩ := assignLabels_cons_logic h
      rcases ih h hl with hknown | ⟨i, line, hi, hlabel⟩
      · -- the label was known, or it is that of this line
        rw [NewLabels.renamed?_cons] at hknown
        by_cases hfirst : first.label = l
        · exact Or.inr ⟨0, first, by simp, hfirst⟩
        · rw [if_neg hfirst] at hknown
          exact Or.inl hknown
      · exact Or.inr ⟨i + 1, line, by simpa using hi, hlabel⟩
    | text content =>
      rw [assignLabels] at h
      rcases ih h hl with hknown | ⟨i, line, hi, hlabel⟩
      · exact Or.inl hknown
      · exact Or.inr ⟨i + 1, line, by simpa using hi, hlabel⟩

end AssignLabels

/-! ## Lines under new labels -/

namespace Rule

/-- The premise that a rule discharges. -/
def discharged? : Rule → Option Label
  | .discharge _ discharged | .instanceElimination _ discharged => some discharged
  | _ => none

/-- A rule names a label: it cites the line with that label, or discharges it. -/
def Names (rule : Rule) (label : Label) : Prop :=
  label ∈ rule.citations ∨ rule.discharged? = some label

end Rule

theorem exists_of_map_eq_ok {ε α β : Type} {f : α → β} {x : Except ε α} {b : β}
    (h : x.map f = .ok b) : ∃ a, x = .ok a ∧ f a = b := by
  cases x with
  | error e => simp [Except.map] at h
  | ok a => exact ⟨a, rfl, by simpa [Except.map] using h⟩

namespace NewLabels

variable {labels : NewLabels}

theorem relabel_ok : ∀ {olds news : List Label}, labels.relabel olds = (news, none) →
    List.Forall₂ (fun old fresh => labels.renamed? old = some fresh) olds news
  | [], news, h => by
    simp only [relabel, Prod.mk.injEq, and_true] at h
    subst h
    exact .nil
  | old :: olds, news, h => by
    rw [relabel] at h
    cases hold : labels.renamed? old with
    | none => simp [hold] at h
    | some fresh =>
      simp only [hold, Prod.mk.injEq] at h
      obtain ⟨rfl, hmissing⟩ := h
      exact .cons hold (relabel_ok (Prod.ext rfl hmissing))

/-- The new labels of some labels, as a set. -/
def Renames (labels : NewLabels) (olds news : List Label) : Prop :=
  (∀ old ∈ olds, ∃ fresh ∈ news, labels.renamed? old = some fresh) ∧
    ∀ fresh ∈ news, ∃ old ∈ olds, labels.renamed? old = some fresh

theorem renames_of_relabel {olds news news' : List Label} (h : labels.relabel olds = (news, none))
    (hmem : ∀ l, l ∈ news' ↔ l ∈ news) : labels.Renames olds news' := by
  have hpairs := relabel_ok h
  clear h
  simp only [Renames, hmem]
  clear hmem
  induction hpairs with
  | nil => simp
  | @cons old fresh olds news hold _ ih =>
    constructor
    · intro l hl
      rcases List.mem_cons.mp hl with rfl | hl
      · exact ⟨fresh, List.mem_cons_self, hold⟩
      · obtain ⟨n, hn, h⟩ := ih.1 l hl
        exact ⟨n, List.mem_cons_of_mem fresh hn, h⟩
    · intro n hn
      rcases List.mem_cons.mp hn with rfl | hn
      · exact ⟨old, List.mem_cons_self, hold⟩
      · obtain ⟨l, hl, h⟩ := ih.2 n hn
        exact ⟨l, List.mem_cons_of_mem old hl, h⟩

/-- **A rule under new labels** is the same rule, applied to the same lines. -/
inductive RuleRenamed (labels : NewLabels) : Rule → Rule → Prop
  | premise : RuleRenamed labels .premise .premise
  | discharge {c d c' d' : Label} : labels.renamed? c = some c' → labels.renamed? d = some d' →
      RuleRenamed labels (.discharge c d) (.discharge c' d')
  | truthFunctional {cs cs' : List Label} : labels.Renames cs cs' →
      RuleRenamed labels (.truthFunctional cs) (.truthFunctional cs')
  | changeOfQuantifier {c c' : Label} : labels.renamed? c = some c' →
      RuleRenamed labels (.changeOfQuantifier c) (.changeOfQuantifier c')
  | universalInstantiation {c c' : Label} : labels.renamed? c = some c' →
      RuleRenamed labels (.universalInstantiation c) (.universalInstantiation c')
  | universalGeneralization {c c' : Label} : labels.renamed? c = some c' →
      RuleRenamed labels (.universalGeneralization c) (.universalGeneralization c')
  | existentialGeneralization {c c' : Label} : labels.renamed? c = some c' →
      RuleRenamed labels (.existentialGeneralization c) (.existentialGeneralization c')
  | instanceIntroduction {c c' : Label} (a : Symbol) : labels.renamed? c = some c' →
      RuleRenamed labels (.instanceIntroduction c a) (.instanceIntroduction c' a)
  | instanceElimination {c d c' d' : Label} : labels.renamed? c = some c' →
      labels.renamed? d = some d' →
      RuleRenamed labels (.instanceElimination c d) (.instanceElimination c' d')
  | unrecognized (name : String) :
      RuleRenamed labels (.unrecognized name) (.unrecognized name)

/-- What a rule cites under new labels are the lines it cited. -/
theorem RuleRenamed.citations {rule rule' : Rule} (h : labels.RuleRenamed rule rule') :
    ∀ c' ∈ rule'.citations, ∃ c ∈ rule.citations, labels.renamed? c = some c' := by
  cases h with
  | truthFunctional h => exact h.2
  | _ => simp_all [Rule.citations]

/-- What a rule cites, it cites under its new label. -/
theorem RuleRenamed.cites {rule rule' : Rule} (h : labels.RuleRenamed rule rule') {c : Label}
    (hc : c ∈ rule.citations) : ∃ c' ∈ rule'.citations, labels.renamed? c = some c' := by
  cases h with
  | truthFunctional h => exact h.1 c hc
  | _ => simp_all [Rule.citations]

/-- A rule discharges under new labels what it discharged before. -/
theorem RuleRenamed.discharged {rule rule' : Rule} (h : labels.RuleRenamed rule rule') :
    (rule.discharged? = none ∧ rule'.discharged? = none) ∨
      ∃ d d', rule.discharged? = some d ∧ rule'.discharged? = some d' ∧
        labels.renamed? d = some d' := by
  cases h with
  | discharge _ hdischarged | instanceElimination _ hdischarged =>
    exact Or.inr ⟨_, _, rfl, rfl, hdischarged⟩
  | _ => exact Or.inl ⟨rfl, rfl⟩

/-- What a rule names, it names under its new label. -/
theorem RuleRenamed.names {rule rule' : Rule} (h : labels.RuleRenamed rule rule') {c : Label}
    (hc : rule.Names c) : ∃ c', labels.renamed? c = some c' ∧ rule'.Names c' := by
  rcases hc with hc | hd
  · obtain ⟨c', hc', hrename⟩ := h.cites hc
    exact ⟨c', hrename, Or.inl hc'⟩
  · rcases h.discharged with ⟨hnone, -⟩ | ⟨d, d', hd', hd'', hrename⟩
    · rw [hnone] at hd
      cases hd
    · rw [hd'] at hd
      rw [← Option.some.inj hd]
      exact ⟨d', hrename, Or.inr hd''⟩

theorem relabelOne_ok {cited : Label} {rule : Label → Rule} {fresh : Rule}
    (h : labels.relabelOne cited rule = (fresh, none)) :
    ∃ c, labels.renamed? cited = some c ∧ fresh = rule c := by
  unfold relabelOne at h
  cases hc : labels.renamed? cited with
  | none => simp [hc] at h
  | some c =>
    simp only [hc, Prod.mk.injEq, and_true] at h
    exact ⟨c, rfl, h.symm⟩

theorem relabelTwo_ok {cited discharged : Label} {rule : Label → Label → Rule} {fresh : Rule}
    (h : labels.relabelTwo cited discharged rule = (fresh, none)) :
    ∃ c d, labels.renamed? cited = some c ∧ labels.renamed? discharged = some d ∧
      fresh = rule c d := by
  unfold relabelTwo at h
  cases hc : labels.renamed? cited with
  | none => simp [hc] at h
  | some c =>
    simp only [hc] at h
    obtain ⟨d, hd, rfl⟩ := relabelOne_ok h
    exact ⟨c, d, rfl, hd, rfl⟩

theorem relabelRule_ok {rule fresh : Rule} (h : labels.relabelRule rule = (fresh, none)) :
    labels.RuleRenamed rule fresh := by
  cases rule with
  | premise =>
    obtain rfl : Rule.premise = fresh := by simpa [relabelRule] using h
    exact .premise
  | unrecognized name =>
    obtain rfl : Rule.unrecognized name = fresh := by simpa [relabelRule] using h
    exact .unrecognized name
  | truthFunctional cited =>
    rw [relabelRule] at h
    split at h
    · rename_i cited' hcited
      obtain rfl : Rule.truthFunctional (Ascending.sort cited') = fresh := by simpa using h
      exact .truthFunctional (renames_of_relabel hcited fun _ => Ascending.mem_sort)
    · simp at h
  | discharge cited discharged =>
    obtain ⟨c, d, hc, hd, rfl⟩ := relabelTwo_ok h
    exact .discharge hc hd
  | instanceElimination cited discharged =>
    obtain ⟨c, d, hc, hd, rfl⟩ := relabelTwo_ok h
    exact .instanceElimination hc hd
  | changeOfQuantifier cited =>
    obtain ⟨c, hc, rfl⟩ := relabelOne_ok h
    exact .changeOfQuantifier hc
  | universalInstantiation cited =>
    obtain ⟨c, hc, rfl⟩ := relabelOne_ok h
    exact .universalInstantiation hc
  | universalGeneralization cited =>
    obtain ⟨c, hc, rfl⟩ := relabelOne_ok h
    exact .universalGeneralization hc
  | existentialGeneralization cited =>
    obtain ⟨c, hc, rfl⟩ := relabelOne_ok h
    exact .existentialGeneralization hc
  | instanceIntroduction cited instantial =>
    rw [relabelRule] at h
    obtain ⟨c, hc, rfl⟩ := relabelOne_ok h
    exact .instanceIntroduction instantial hc

/-- **A logic line under new labels.** -/
structure LogicRenamed (labels : NewLabels) (line fresh : LogicLine) : Prop where
  label : labels.renamed? line.label = some fresh.label
  deps : labels.Renames line.deps fresh.deps
  formula : fresh.formula = line.formula
  rule : labels.RuleRenamed line.rule fresh.rule

theorem relabelLine_ok {line fresh : LogicLine} (h : labels.relabelLine line = (fresh, none)) :
    labels.LogicRenamed line fresh := by
  unfold relabelLine at h
  cases hlabel : labels.renamed? line.label with
  | none => simp [hlabel] at h
  | some label =>
    simp only [hlabel] at h
    split at h
    · simp at h
    · rename_i deps hdeps
      simp only [Prod.mk.injEq] at h
      obtain ⟨rfl, hmissing⟩ := h
      exact ⟨hlabel, renames_of_relabel hdeps fun _ => Ascending.mem_ofList, rfl,
        relabelRule_ok (Prod.ext rfl hmissing)⟩

/-- A line under new labels; text stays as it is. -/
inductive LineRenamed (labels : NewLabels) : Line → Line → Prop
  | logic {line fresh : LogicLine} : labels.LogicRenamed line fresh →
      LineRenamed labels (.logic line) (.logic fresh)
  | text (content : String) : LineRenamed labels (.text content) (.text content)

theorem relabelLines_ok {lines : List Line} : ∀ {position : Nat} {fresh : List Line}
    {positions : List Nat}, labels.relabelLines position lines = (fresh, .ok positions) →
      List.Forall₂ labels.LineRenamed lines fresh ∧ positions = Line.numbered position lines := by
  induction lines with
  | nil =>
    intro position fresh positions h
    simp only [relabelLines, Prod.mk.injEq, Except.ok.injEq] at h
    obtain ⟨rfl, rfl⟩ := h
    exact ⟨.nil, rfl⟩
  | cons line lines ih =>
    intro position fresh positions h
    cases line with
    | logic line =>
      rw [relabelLines] at h
      split at h
      · simp at h
      · rename_i line' hline
        simp only [Prod.mk.injEq] at h
        obtain ⟨rfl, hpositions⟩ := h
        obtain ⟨tail, htail, rfl⟩ := exists_of_map_eq_ok hpositions
        obtain ⟨hlines, rfl⟩ := ih (Prod.ext rfl htail)
        exact ⟨.cons (.logic (relabelLine_ok hline)) hlines, rfl⟩
    | text content =>
      simp only [relabelLines, Prod.mk.injEq] at h
      obtain ⟨rfl, hpositions⟩ := h
      rw [Line.numbered, Line.takesNumber]
      split at hpositions
      · rename_i hblank
        obtain ⟨tail, htail, rfl⟩ := exists_of_map_eq_ok hpositions
        obtain ⟨hlines, rfl⟩ := ih (Prod.ext rfl htail)
        exact ⟨.cons (.text content) hlines, by rw [if_pos hblank]⟩
      · rename_i hblank
        obtain ⟨hlines, rfl⟩ := ih (Prod.ext rfl hpositions)
        exact ⟨.cons (.text content) hlines, by rw [if_neg hblank]⟩

end NewLabels

namespace Document

/-- **A sheet renumbered.** Its lines are under new labels, which belong to the logic lines of the
old sheet, and the index leads from each new label to the position of its line. -/
structure Renumbered (document : Document) (labels : NewLabels) (fresh : Document)
    (index : LineIndex) : Prop where
  lines : List.Forall₂ labels.LineRenamed document.lines fresh.lines
  position : ∀ {i : Nat} {line : LogicLine}, document.lines[i]? = some (.logic line) →
    ∃ n, labels.renamed? line.label = some n ∧ index.position? n = some i
  source : ∀ {l n : Label}, labels.renamed? l = some n →
    ∃ (i : Nat) (line : LogicLine), document.lines[i]? = some (.logic line) ∧ line.label = l
  ascending : index.positions.Pairwise (· < ·)

/-- **Renumbering that succeeds gives the sheet under new labels**, with its index. -/
theorem renumber_ok {document : Document} {limit : Label} {index : LineIndex}
    (h : (document.renumber limit).outcome = .ok index) :
    ∃ labels, document.Renumbered labels (document.renumber limit).document index := by
  unfold renumber at h ⊢
  cases hlabels : document.newLabels limit with
  | error error => simp [hlabels] at h
  | ok labels =>
    simp only [hlabels] at h ⊢
    obtain ⟨positions, hpositions, rfl⟩ := exists_of_map_eq_ok h
    obtain ⟨hlines, rfl⟩ := NewLabels.relabelLines_ok (Prod.ext rfl hpositions)
    refine ⟨labels, hlines, ?_, ?_, Line.numbered_ascending _ _⟩
    · intro i line hi
      refine ⟨_, assignLabels_logic hlabels hi, ?_⟩
      have hnumber := @Line.numbered_numberAt document.lines 0 i _ hi rfl
      simpa [LineIndex.position?] using hnumber
    · intro l n hl
      rcases assignLabels_source hlabels hl with hnone | hsome
      · simp [NewLabels.renamed?] at hnone
      · exact hsome

variable {document fresh : Document} {labels : NewLabels} {index : LineIndex}

/-- **No two labels are given the same new one.** -/
theorem Renumbered.injective (h : document.Renumbered labels fresh index) {a b n : Label}
    (ha : labels.renamed? a = some n) (hb : labels.renamed? b = some n) : a = b := by
  -- both are labels of lines, and the new label leads to the position of each
  obtain ⟨i, line, hi, rfl⟩ := h.source ha
  obtain ⟨j, line', hj, rfl⟩ := h.source hb
  obtain ⟨n₁, hn₁, hpos₁⟩ := h.position hi
  obtain ⟨n₂, hn₂, hpos₂⟩ := h.position hj
  have hn : n₁ = n₂ := Option.some.inj (hn₁.symm.trans (ha.trans (hb.symm.trans hn₂)))
  subst hn
  have hij : i = j := Option.some.inj (hpos₁.symm.trans hpos₂)
  subst hij
  have hline : line = line' := by simpa using hi.symm.trans hj
  rw [hline]

end Document

end ProofSheet
