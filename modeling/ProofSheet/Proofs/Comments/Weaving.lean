import Mathlib.Order.Monotone.Basic
import ProofSheet.Proofs.Labels.Renumbering

/-!
# Sheets with more comments

Comments may be put between the lines of a sheet in any number and at any place. The lines move down,
each past the comments before it, and keep their order. Renumbering sees none of this: it gives the
lines the labels it gave them, and the index leads to where the lines have moved.

* `Comments`: comments to be put into a sheet.
* `Comments.moved`: **where a line moves.**
* `weave`: a list with a block put before each of its members and one at its end.
* `Document.annotated`: **the sheet with the comments.**
* `getElem?_weave`: what stood at a position stands where the position moves.
* `Comments.renumber_annotated`: renumbering the sheet with the comments.
-/

namespace ProofSheet

/-- Comments to be put into a sheet: some before the line at each position and, at the end of the sheet,
those before the position after the last line. A blank text is not a comment. -/
structure Comments where
  before : Nat → List String
  nonblank : ∀ i, ∀ content ∈ before i, Text.isBlank content = false

/-! ## Positions -/

namespace Comments

variable (comments : Comments)

/-- Where the comments before the line at a position begin. -/
def start : Nat → Nat
  | 0 => 0
  | i + 1 => start i + (comments.before i).length + 1

/-- **Where the line at a position moves**: past the comments before it. -/
def moved (i : Nat) : Nat :=
  comments.start i + (comments.before i).length

theorem start_succ (i : Nat) : comments.start (i + 1) = comments.moved i + 1 := rfl

/-- Lines keep their order. -/
theorem moved_strictMono : StrictMono comments.moved := by
  refine strictMono_nat_of_lt_succ fun i => ?_
  have hstart := comments.start_succ i
  unfold moved at hstart ⊢
  omega

theorem moved_lt_start {k i : Nat} (h : k < i) : comments.moved k < comments.start i := by
  obtain ⟨j, rfl⟩ : ∃ j, i = j + 1 := ⟨i - 1, by omega⟩
  have hle : comments.moved k ≤ comments.moved j := comments.moved_strictMono.monotone (by omega)
  rw [start_succ]
  omega

theorem start_le_moved (i k : Nat) : comments.start i ≤ comments.moved (i + k) := by
  have hle : comments.moved i ≤ comments.moved (i + k) :=
    comments.moved_strictMono.monotone (Nat.le_add_right i k)
  have hstart : comments.start i ≤ comments.moved i := Nat.le_add_right _ _
  omega

end Comments

/-! ## Weaving -/

/-- A list with a block put before each of its members, and one at its end. The first member is at the
given position. -/
def weave {α : Type} (block : Nat → List α) : Nat → List α → List α
  | i, [] => block i
  | i, a :: as => block i ++ a :: weave block (i + 1) as

section Weave

variable {α β γ : Type} {comments : Comments} {block : Nat → List α} {block' : Nat → List β}

/-- **What stood at a position stands where the position moves**, if there is one member for each comment
in the blocks. -/
theorem getElem?_weave_of_start (hblock : ∀ i, (block i).length = (comments.before i).length)
    (as : List α) : ∀ {i j k : Nat}, comments.start i + j = comments.moved (i + k) →
      (weave block i as)[j]? = as[k]? := by
  induction as with
  | nil =>
    intro i j k hj
    have hle := comments.moved_strictMono.monotone (Nat.le_add_right i k)
    -- the position is not before the end of the list, and moves past the last block
    have hlength : (block i).length ≤ j := by
      have hi : comments.moved i = comments.start i + (comments.before i).length := rfl
      have hlen := hblock i
      omega
    simpa [weave] using List.getElem?_eq_none hlength
  | cons a as ih =>
    intro i j k hj
    have hlen := hblock i
    have hi : comments.moved i = comments.start i + (comments.before i).length := rfl
    cases k with
    | zero =>
      have hj' : j = (block i).length := by
        rw [Nat.add_zero] at hj
        omega
      subst hj'
      simp [weave]
    | succ k =>
      have hsucc := comments.start_succ i
      have hshift : i + (k + 1) = i + 1 + k := by omega
      rw [hshift] at hj
      have hle := comments.start_le_moved (i + 1) k
      -- past the block and the first member
      obtain ⟨m, rfl⟩ : ∃ m, j = (block i).length + (m + 1) :=
        ⟨j - (block i).length - 1, by omega⟩
      have hrest : (weave block (i + 1) as)[m]? = as[k]? := ih (by omega)
      rw [weave, List.getElem?_append_right (by omega), Nat.add_sub_cancel_left,
        List.getElem?_cons_succ, hrest, List.getElem?_cons_succ]

theorem getElem?_weave (hblock : ∀ i, (block i).length = (comments.before i).length) (as : List α)
    (k : Nat) : (weave block 0 as)[comments.moved k]? = as[k]? := by
  refine getElem?_weave_of_start hblock as ?_
  rw [Nat.zero_add]
  exact Nat.zero_add _

theorem zipWith_weave (f : α → β → γ) (hblock : ∀ i, (block i).length = (block' i).length) :
    ∀ {as : List α} {bs : List β} (i : Nat), as.length = bs.length →
      List.zipWith f (weave block i as) (weave block' i bs) =
        weave (fun i => List.zipWith f (block i) (block' i)) i (List.zipWith f as bs)
  | [], [], i, _ => rfl
  | a :: as, b :: bs, i, hlen => by
    have htail : as.length = bs.length := by simpa using hlen
    rw [weave, weave, List.zipWith_append (hblock i), List.zipWith_cons_cons,
      zipWith_weave f hblock (i + 1) htail]
    rfl

/-- Members of which a test says nothing may be left out. -/
theorem any_weave {p : α → Bool} (hblock : ∀ i, ∀ a ∈ block i, p a = false) (as : List α) :
    ∀ i, (weave block i as).any p = as.any p := by
  have hnone : ∀ i, (block i).any p = false := fun i => by simpa using hblock i
  induction as with
  | nil => exact hnone
  | cons a as ih =>
    intro i
    rw [weave, List.any_append, hnone i, Bool.false_or, List.any_cons, List.any_cons, ih (i + 1)]

theorem filterMap_weave {f : α → Option γ} (hblock : ∀ i, ∀ a ∈ block i, f a = none)
    (as : List α) : ∀ i, (weave block i as).filterMap f = as.filterMap f := by
  have hnone : ∀ i, (block i).filterMap f = [] := fun i =>
    List.filterMap_eq_nil_iff.mpr (hblock i)
  induction as with
  | nil => exact hnone
  | cons a as ih =>
    intro i
    rw [weave, List.filterMap_append, hnone i, List.nil_append, List.filterMap_cons,
      List.filterMap_cons, ih (i + 1)]

end Weave

/-! ## The sheet with the comments -/

/-- The comments before a position, as lines. -/
def Comments.texts (comments : Comments) (i : Nat) : List Line :=
  (comments.before i).map .text

/-- **The sheet with the comments.** -/
def Document.annotated (document : Document) (comments : Comments) : Document :=
  ⟨weave comments.texts 0 document.lines⟩

/-! ## Renumbering -/

theorem assignLabels_texts {limit : Label} {contents : List String}
    (hcontents : ∀ content ∈ contents, Text.isBlank content = false) {lines : List Line} :
    ∀ (position next : Nat) (known : NewLabels),
      assignLabels limit position next known (contents.map .text ++ lines) =
        assignLabels limit (position + contents.length) next known lines := by
  induction contents with
  | nil => intro position next known; rfl
  | cons content contents ih =>
    intro position next known
    have hblank := hcontents content List.mem_cons_self
    have hrest := ih (fun content h => hcontents content (List.mem_cons_of_mem _ h))
      (position + 1) next known
    have hlength : position + (content :: contents).length = position + 1 + contents.length := by
      rw [List.length_cons]
      omega
    rw [List.map_cons, List.cons_append, assignLabels, hblank, hlength, ← hrest]
    rfl

namespace NewLabels

theorem relabelLines_texts {labels : NewLabels} {contents : List String}
    (hcontents : ∀ content ∈ contents, Text.isBlank content = false) {lines : List Line} :
    ∀ position, labels.relabelLines position (contents.map .text ++ lines) =
      (contents.map .text ++ (labels.relabelLines (position + contents.length) lines).1,
        (labels.relabelLines (position + contents.length) lines).2) := by
  induction contents with
  | nil => intro position; rfl
  | cons content contents ih =>
    intro position
    have hblank := hcontents content List.mem_cons_self
    have hrest := ih (fun content h => hcontents content (List.mem_cons_of_mem _ h)) (position + 1)
    have hlength : position + (content :: contents).length = position + 1 + contents.length := by
      rw [List.length_cons]
      omega
    rw [List.map_cons, List.cons_append, relabelLines, hrest, hblank, hlength]
    rfl

end NewLabels

namespace Comments

variable (comments : Comments) {limit : Label} {labels : NewLabels}

/-- **The lines are given the labels they were given.** -/
theorem assignLabels_weave {lines : List Line} : ∀ {i next : Nat} {known : NewLabels},
    assignLabels limit i next known lines = .ok labels →
      assignLabels limit (comments.start i) next known (weave comments.texts i lines) =
        .ok labels := by
  induction lines with
  | nil =>
    intro i next known h
    rw [weave, texts, ← List.append_nil (List.map _ _), assignLabels_texts (comments.nonblank i)]
    exact h
  | cons line lines ih =>
    intro i next known h
    -- positions are told in errors only, and there is none
    rw [weave, texts, assignLabels_texts (comments.nonblank i)]
    cases line with
    | logic line =>
      rw [assignLabels] at h ⊢
      by_cases hlimit : limit < line.label
      · rw [if_pos hlimit] at h
        cases h
      · rw [if_neg hlimit] at h ⊢
        by_cases hknown : (known.renamed? line.label).isSome = true
        · rw [if_pos hknown] at h
          cases h
        · rw [if_neg hknown] at h ⊢
          exact ih h
    | text content =>
      rw [assignLabels] at h ⊢
      exact ih h

/-- **The lines are relabelled as they were**, and those that take a number are where they moved. -/
theorem relabelLines_weave {lines : List Line} : ∀ {i : Nat} {fresh : List Line}
    {positions : List Nat}, labels.relabelLines i lines = (fresh, .ok positions) →
      labels.relabelLines (comments.start i) (weave comments.texts i lines) =
        (weave comments.texts i fresh, .ok (positions.map comments.moved)) := by
  induction lines with
  | nil =>
    intro i fresh positions h
    simp only [NewLabels.relabelLines, Prod.mk.injEq, Except.ok.injEq] at h
    obtain ⟨rfl, rfl⟩ := h
    rw [weave, texts, ← List.append_nil (List.map _ _),
      NewLabels.relabelLines_texts (comments.nonblank i)]
    rfl
  | cons line lines ih =>
    intro i fresh positions h
    -- past its comments the line is where it moves, and the rest begins right after it
    have hmoved : comments.start i + (comments.before i).length = comments.moved i := rfl
    rw [weave, texts, NewLabels.relabelLines_texts (comments.nonblank i), hmoved]
    cases line with
    | logic line =>
      rw [NewLabels.relabelLines] at h
      split at h
      · simp at h
      · rename_i line' hline
        simp only [Prod.mk.injEq] at h
        obtain ⟨rfl, hpositions⟩ := h
        obtain ⟨tail, htail, rfl⟩ := exists_of_map_eq_ok hpositions
        have hrest := ih (Prod.ext rfl htail)
        rw [start_succ] at hrest
        simp only [NewLabels.relabelLines, hline, hrest]
        rfl
    | text content =>
      simp only [NewLabels.relabelLines, Prod.mk.injEq] at h
      obtain ⟨rfl, hpositions⟩ := h
      by_cases hblank : Text.isBlank content = true
      · rw [if_pos hblank] at hpositions
        obtain ⟨tail, htail, rfl⟩ := exists_of_map_eq_ok hpositions
        have hrest := ih (Prod.ext rfl htail)
        rw [start_succ] at hrest
        simp only [NewLabels.relabelLines, hblank, hrest]
        rfl
      · rw [if_neg hblank] at hpositions
        have hrest := ih (Prod.ext rfl hpositions)
        rw [start_succ] at hrest
        simp only [NewLabels.relabelLines, hblank, hrest]
        rfl

/-- The index with the comments: each label leads to where its line has moved. -/
def reindex (index : LineIndex) : LineIndex :=
  ⟨index.positions.map comments.moved⟩

/-- **Renumbering the sheet with the comments** gives the renumbered sheet with the comments, and an index
to where the lines have moved. -/
theorem renumber_annotated {document : Document} {index : LineIndex}
    (h : (document.renumber limit).outcome = .ok index) :
    (document.annotated comments).renumber limit =
      ⟨(document.renumber limit).document.annotated comments, .ok (comments.reindex index)⟩ := by
  unfold Document.renumber at h ⊢
  cases hlabels : document.newLabels limit with
  | error error => simp [hlabels] at h
  | ok labels =>
    have hlabels' : (document.annotated comments).newLabels limit = .ok labels :=
      comments.assignLabels_weave hlabels
    simp only [hlabels, hlabels'] at h ⊢
    obtain ⟨positions, hpositions, rfl⟩ := exists_of_map_eq_ok h
    have hlines := comments.relabelLines_weave (Prod.ext rfl hpositions)
    have hstart : comments.start 0 = 0 := rfl
    rw [hstart] at hlines
    simp only [Document.annotated, hlines, Except.map, reindex]

end Comments

end ProofSheet
