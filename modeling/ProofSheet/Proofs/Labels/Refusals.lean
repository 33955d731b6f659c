import ProofSheet.Proofs.Labels.Canonical

/-!
# Sheets that are not renumbered

A sheet that is not well labelled is refused for its first fault. A label that cannot be used is found
before anything is changed. A reference that leads nowhere is found when its line is reached: the lines
before it have been renamed by then, and those after it have not.

* `Document.RefusedFirst`: the error for the first label that cannot be used.
* `Document.bareFrom`: a sheet whose lines refer to nothing from a position on.
* `Document.StoppedAt`: **a sheet left where a reference leads nowhere**, its lines before that as if
  nothing were referred to from there on.
* `Document.renumber_refusal`: **why a sheet is not renumbered, and what is left of it.**
-/

namespace ProofSheet

/-! ## Lines that refer to nothing -/

/-- A line with its label and formula, referring to nothing; text stays as it is. -/
def Line.bare : Line → Line
  | .logic line => .logic { line with deps := [], rule := .premise }
  | .text content => .text content

namespace Document

variable {document : Document} {limit : Label} {p : Nat}

/-- A sheet whose lines refer to nothing from a position on. -/
def bareFrom (document : Document) (p : Nat) : Document :=
  ⟨document.lines.mapIdx fun i line => if i < p then line else line.bare⟩

theorem bareFrom_getElem? (i : Nat) : (document.bareFrom p).lines[i]? =
    document.lines[i]?.map fun line => if i < p then line else line.bare :=
  List.getElem?_mapIdx

/-- What is asked of each line and does not depend on its references has the same answers. -/
theorem map_bareFrom {α : Type} {f : Line → α} (hf : ∀ line : Line, f line.bare = f line) :
    (document.bareFrom p).lines.map f = document.lines.map f := by
  refine List.ext_getElem? fun i => ?_
  rw [List.getElem?_map, List.getElem?_map, bareFrom_getElem?, Option.map_map]
  congr 1
  funext line
  rw [Function.comp_apply]
  split
  · rfl
  · exact hf line

/-- Labels are numbered by the labels and the blank lines alone. -/
theorem number_bareFrom : (document.bareFrom p).number = document.number := by
  funext l
  have hlabelled := @map_bareFrom document p _ (Line.isLabelled l) fun line => by cases line <;> rfl
  have htakes := @map_bareFrom document p _ Line.takesNumber fun line => by cases line <;> rfl
  have hfind : ∀ lines : List Line, lines.findIdx (Line.isLabelled l) =
      (lines.map (Line.isLabelled l)).findIdx id := fun lines => by
    rw [List.findIdx_map]
    rfl
  have hcount : ∀ (lines : List Line) i, Line.numberAt lines i =
      ((lines.map Line.takesNumber).take i).countP id := fun lines i => by
    rw [Line.numberAt, ← List.map_take, List.countP_map]
    rfl
  rw [number, number, hfind, hfind, hcount, hcount, hlabelled, htakes]

theorem designates_bareFrom {l : Label} {i : Nat} :
    (document.bareFrom p).Designates l i ↔ document.Designates l i := by
  have hlabelled := @map_bareFrom document p _ (Line.isLabelled l) fun line => by cases line <;> rfl
  have hiff : ∀ d : Document, d.Designates l i ↔ (d.lines.map (Line.isLabelled l))[i]? = some true := by
    intro d
    simp only [List.getElem?_map, Option.map_eq_some_iff, Line.isLabelled_iff]
    constructor
    · rintro ⟨line, hi, hlabel⟩
      exact ⟨_, hi, line, rfl, hlabel⟩
    · rintro ⟨_, hi, line, rfl, hlabel⟩
      exact ⟨line, hi, hlabel⟩
  rw [hiff, hiff, hlabelled]

/-- Lines before the position are those of the sheet. -/
theorem take_bareFrom : (document.bareFrom p).lines.take p = document.lines.take p := by
  refine List.ext_getElem? fun i => ?_
  by_cases hi : i < p
  · rw [List.getElem?_take_of_lt hi, List.getElem?_take_of_lt hi, bareFrom_getElem?]
    simp [hi]
  · rw [List.getElem?_take_eq_none (Nat.le_of_not_lt hi),
      List.getElem?_take_eq_none (Nat.le_of_not_lt hi)]

/-- **A sheet is well labelled if it is so but for references from a position on**, once these are
taken away. -/
theorem wellLabelled_bareFrom (hfree : ∀ i, ¬ document.Refused limit i)
    (hearlier : ∀ line, Line.logic line ∈ document.lines.take p →
      ∀ l ∈ line.named, document.Has l) : (document.bareFrom p).WellLabelled limit := by
  have hsource : ∀ {i line}, (document.bareFrom p).lines[i]? = some (.logic line) →
      (i < p ∧ document.lines[i]? = some (.logic line)) ∨
        (line.named = [] ∧ ∃ source, document.lines[i]? = some (.logic source) ∧
          source.label = line.label) := by
    intro i line hi
    rw [bareFrom_getElem?, Option.map_eq_some_iff] at hi
    obtain ⟨source, hget, hline⟩ := hi
    split at hline
    · exact Or.inl ⟨‹_›, hline ▸ hget⟩
    · cases source with
      | text content => cases hline
      | logic source =>
        cases hline
        exact Or.inr ⟨rfl, source, hget, rfl⟩
  refine wellLabelled_iff.mpr ⟨?_, ?_⟩
  · rintro i ⟨line, hi, hcannot⟩
    simp only [designates_bareFrom] at hcannot
    rcases hsource hi with ⟨-, hget⟩ | ⟨-, source, hget, hlabel⟩
    · exact hfree i ⟨line, hget, hcannot⟩
    · exact hfree i ⟨source, hget, by rwa [hlabel]⟩
  · intro line hline l hl
    obtain ⟨i, hi⟩ := List.mem_iff_getElem?.mp hline
    rcases hsource hi with ⟨hlt, hget⟩ | ⟨hnone, -⟩
    · have hmem : Line.logic line ∈ document.lines.take p :=
        List.mem_iff_getElem?.mpr ⟨i, by rw [List.getElem?_take_of_lt hlt, hget]⟩
      obtain ⟨j, hj⟩ := hearlier line hmem l hl
      exact ⟨j, designates_bareFrom.mpr hj⟩
    · rw [hnone] at hl
      cases hl

/-! ## Refusals -/

/-- **The error for the first label that cannot be used.** Being over the limit comes before being used
by an earlier line. -/
def RefusedFirst (document : Document) (limit : Label) (error : LabelError) : Prop :=
  ∃ p line, document.lines[p]? = some (.logic line) ∧ document.Refused limit p ∧
    (∀ i < p, ¬ document.Refused limit i) ∧
    ((limit < line.label ∧ error = .outOfRange p line.label) ∨
      (line.label ≤ limit ∧ error = .duplicate p line.label))

/-- **A sheet left where a reference leads nowhere**: at the line at `p`, whose first label of no line
is `l`. -/
structure StoppedAt (document : Document) (limit : Label) (left : Document) (p : Nat) (l : Label) :
    Prop where
  /-- No earlier line refers to a label of no line. -/
  earlier : ∀ i < p, ∀ line, document.lines[i]? = some (.logic line) →
    ∀ k ∈ line.named, document.Has k
  /-- The line may have some of its labels renamed, and nothing else. -/
  line : ∃ line line' : LogicLine, document.lines[p]? = some (.logic line) ∧
    document.FirstMissing line l ∧ left.lines[p]? = some (.logic line') ∧
    line'.formula = line.formula ∧ line.rule.SameButLabels line'.rule
  /-- The lines before it are as renumbering gives them when it does not have to stop. -/
  renumbers : ∃ index, ((document.bareFrom p).renumber limit).outcome = .ok index
  before : left.lines.take p = ((document.bareFrom p).renumber limit).document.lines.take p
  /-- The lines after it are as they were. -/
  after : left.lines.drop (p + 1) = document.lines.drop (p + 1)

theorem refusedFirst_of_refusal {line : LogicLine} (hp : document.lines[p]? = some (.logic line))
    (hrefused : document.Refused limit p) (hfirst : ∀ i < p, ¬ document.Refused limit i) :
    document.RefusedFirst limit (refusal limit p line.label) := by
  refine ⟨p, line, hp, hrefused, hfirst, ?_⟩
  unfold refusal
  by_cases hlimit : limit < line.label
  · exact Or.inl ⟨hlimit, if_pos hlimit⟩
  · exact Or.inr ⟨Nat.le_of_not_lt hlimit, if_neg hlimit⟩

theorem stoppedAt_of_missing {line line' : LogicLine} {l : Label}
    (hfree : ∀ i, ¬ document.Refused limit i) (hp : document.lines[p]? = some (.logic line))
    (hmissing : document.FirstMissing line l)
    (hearlier : ∀ earlier, Line.logic earlier ∈ document.lines.take p →
      ∀ k ∈ earlier.named, document.Has k)
    (hformula : line'.formula = line.formula) (hrule : line.rule.SameButLabels line'.rule) :
    document.StoppedAt limit ⟨(document.lines.take p).map (Line.under document.number) ++
      .logic line' :: document.lines.drop (p + 1)⟩ p l := by
  have hlt : p < document.lines.length := (List.getElem?_eq_some_iff.mp hp).1
  have hwell := wellLabelled_bareFrom hfree hearlier
  have hlength : ((document.lines.take p).map (Line.under document.number)).length = p := by
    rw [List.length_map, List.length_take, Nat.min_eq_left (Nat.le_of_lt hlt)]
  refine ⟨?_, ⟨line, line', hp, hmissing, ?_, hformula, hrule⟩, ?_, ?_, ?_⟩
  · intro i hi earlier hget
    refine hearlier earlier (List.mem_iff_getElem?.mpr ⟨i, ?_⟩)
    rw [List.getElem?_take_of_lt hi, hget]
  · rw [List.getElem?_append_right (Nat.le_of_eq hlength), hlength, Nat.sub_self]
    rfl
  · rw [hwell.renumber]
    exact ⟨_, rfl⟩
  · rw [hwell.renumber, number_bareFrom, ← List.map_take, take_bareFrom,
      List.take_left' hlength]
  · rw [List.drop_append, hlength, List.drop_eq_nil_of_le (by omega)]
    simp

/-- **Why a sheet is not renumbered, and what is left of it.** If some label cannot be used, the error is
for the first such line, and the sheet is as it was. If none is refused, the error is for the first line
that refers to a label of no line, and names the first such label; the lines before it are renamed as in
a renumbering that succeeds, the lines after it are as they were, and the line itself differs in
labels only. -/
theorem renumber_refusal (document : Document) (limit : Label) (error : LabelError)
    (h : (document.renumber limit).outcome = .error error) :
    ((∃ i, document.Refused limit i) →
      document.RefusedFirst limit error ∧ (document.renumber limit).document = document) ∧
    ((¬ ∃ i, document.Refused limit i) →
      ∃ p l, error = .missing p l ∧
        document.StoppedAt limit (document.renumber limit).document p l) := by
  rcases document.renumber_cases limit with
    ⟨p, line, hp, hrefused, hfirst, hrun⟩ | ⟨-, -, hrun⟩ |
      ⟨hfree, p, line, l, hp, hmissing, hearlier, line', hformula, hrule, hrun⟩
  · rw [hrun] at h ⊢
    obtain rfl : refusal limit p line.label = error := Except.error.inj h
    exact ⟨fun _ => ⟨refusedFirst_of_refusal hp hrefused hfirst, rfl⟩,
      fun hnone => absurd ⟨p, hrefused⟩ hnone⟩
  · rw [hrun] at h
    cases h
  · rw [hrun] at h ⊢
    obtain rfl : LabelError.missing p l = error := Except.error.inj h
    exact ⟨fun ⟨i, hi⟩ => absurd hi (hfree i),
      fun _ => ⟨p, l, rfl, stoppedAt_of_missing hfree hp hmissing hearlier hformula hrule⟩⟩

/-- A sheet whose step cites two lines that there are and one that there is not, and after it a line that
refers to another such label. -/
def danglingSheet : Document where
  lines :=
    [ .logic ⟨20, [20], .letter 'A', .premise⟩,
      .logic ⟨10, [20], .letter 'A', .truthFunctional [20, 20]⟩,
      .text "",
      .logic ⟨30, [20, 10], .letter 'A', .truthFunctional [10, 99, 20]⟩,
      .logic ⟨40, [98], .letter 'A', .discharge 10 20⟩ ]

/-- The step is left with its label, its premises and one citation renamed, and the last line as it was.
Within a lower limit the label of the last line is found before any of that. -/
theorem renumber_refusal_dangling :
    (danglingSheet.renumber 40).outcome = .error (.missing 3 99) ∧
      (danglingSheet.renumber 40).document.lines =
        [ .logic ⟨0, [0], .letter 'A', .premise⟩,
          .logic ⟨1, [0], .letter 'A', .truthFunctional [0, 0]⟩,
          .text "",
          .logic ⟨3, [0, 1], .letter 'A', .truthFunctional [1, 99, 20]⟩,
          .logic ⟨40, [98], .letter 'A', .discharge 10 20⟩ ] ∧
      danglingSheet.StoppedAt 40 (danglingSheet.renumber 40).document 3 99 ∧
      danglingSheet.RefusedFirst 30 (.outOfRange 4 40) ∧
      (danglingSheet.renumber 30).document = danglingSheet := by
  have herror : (danglingSheet.renumber 40).outcome = .error (.missing 3 99) := rfl
  have hlimit : (danglingSheet.renumber 30).outcome = .error (.outOfRange 4 40) := rfl
  obtain ⟨hrefused, hstopped⟩ := danglingSheet.renumber_refusal 40 _ herror
  obtain ⟨hfirst, hleft⟩ := (danglingSheet.renumber_refusal 30 _ hlimit).1
    ⟨4, _, rfl, Or.inl (by decide)⟩
  refine ⟨herror, rfl, ?_, hfirst, hleft⟩
  -- were a label refused, the error would be another
  have hnone : ¬ ∃ i, danglingSheet.Refused 40 i := by
    intro hsome
    obtain ⟨⟨_, _, -, -, -, ⟨-, hother⟩ | ⟨-, hother⟩⟩, -⟩ := hrefused hsome <;> cases hother
  obtain ⟨p, l, hmissing, hleft⟩ := hstopped hnone
  cases hmissing
  exact hleft

end Document

end ProofSheet
