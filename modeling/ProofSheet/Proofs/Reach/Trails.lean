import Mathlib.Data.List.Induction
import Mathlib.Data.List.Nodup
import Mathlib.Logic.Relation
import ProofSheet.Ascending.Lemmas
import ProofSheet.Reach

/-!
# One pass over the references

The reach of a sheet is found in one pass. When a line is added, what the lines before it reach is final,
so following its references to these closes what it reaches under paths.

* `Reach.Trail.mem_closure_foldl`, `Reach.Trail.flags_foldl_eq`, `Reach.Trail.edges_foldl_eq`: what
  following the references of one line adds.
* `Reach.Traced`: **the reach of the lines before a position**.
* `Reach.traced_succ`: it is kept when a line is added.
* `Reach.traced_reach`: what the pass has found when it ends.
-/

namespace ProofSheet

/-! ## Lists without repetitions -/

section EraseDups

variable {α : Type} [BEq α] [LawfulBEq α]

/-- One more member is kept if it is new. -/
theorem eraseDups_concat (as : List α) (b : α) : (as ++ [b]).eraseDups =
    if as.eraseDups.contains b then as.eraseDups else as.eraseDups ++ [b] := by
  have hone : [b].eraseDups = [b] := by simp [List.eraseDups_cons]
  rw [List.eraseDups_append]
  by_cases h : b ∈ as
  · simp [List.removeAll, h]
  · simp [List.removeAll, h, hone]

theorem nodup_eraseDups (as : List α) : as.eraseDups.Nodup := by
  induction as using List.reverseRecOn with
  | nil => exact List.nodup_nil
  | append_singleton as b ih =>
    rw [eraseDups_concat]
    split
    · exact ih
    · rename_i hnew
      refine List.nodup_append.mpr ⟨ih, List.nodup_singleton b, ?_⟩
      rintro a ha c hc rfl
      rw [List.mem_singleton.mp hc] at ha
      exact hnew (List.contains_iff_mem.mpr ha)

end EraseDups

namespace Reach

/-! ## What a line refers to -/

/-- The positions that a line refers to, in order. -/
def referred (find : Label → Option Nat) : Line → List Nat
  | .logic line => line.references.filterMap find
  | .text _ => []

/-- The references of a line to earlier ones, in order. -/
def backEdges (find : Label → Option Nat) (line : Line × Nat) : List (Nat × Nat) :=
  ((referred find line.1).filter (· < line.2)).map (line.2, ·)

/-- A flag for each reference of a line to a later one, in order. -/
def forwardFlags (find : Label → Option Nat) : Line × Nat → List Flag
  | (.logic line, i) =>
    (line.references.filter fun l => (find l).any (i < ·)).map (forwardFlag line)
  | (.text _, _) => []

/-- A line refers to an earlier one. -/
def Back (find : Label → Option Nat) (lines : List Line) (i j : Nat) : Prop :=
  j < i ∧ ∃ line, lines[i]? = some line ∧ j ∈ referred find line

/-! ## Following the references of a line -/

namespace Trail

variable {index : LineIndex} {closures : List (List Nat)} {position : Nat} {line : LogicLine}

/-- **A line reaches what the earlier lines reach that it refers to.** -/
theorem mem_closure_foldl (labels : List Label) {x : Nat} : ∀ {trail : Trail},
    x ∈ (labels.foldl (follow index closures position line) trail).closure ↔
      x ∈ trail.closure ∨ ∃ k ∈ labels.filterMap index.position?, k < position ∧
        x ∈ closures[k]?.getD [] := by
  induction labels with
  | nil => simp
  | cons label labels ih =>
    intro trail
    rw [List.foldl_cons, ih, follow]
    cases hlabel : index.position? label with
    | none => rw [List.filterMap_cons_none hlabel]
    | some k =>
      rw [List.filterMap_cons_some hlabel]
      simp only [List.mem_cons, exists_eq_or_imp]
      by_cases hforward : position < k
      · have hnot : ¬ k < position := Nat.lt_asymm hforward
        simp [hforward, hnot]
      · by_cases hback : k < position
        · simp only [hforward, hback, if_true, if_false, Ascending.mem_union, true_and]
          rw [or_assoc]
        · simp [hforward, hback]

theorem ascending_foldl (hclosures : ∀ closure ∈ closures, Ascending.IsAscending closure)
    (labels : List Label) : ∀ {trail : Trail}, Ascending.IsAscending trail.closure →
    Ascending.IsAscending (labels.foldl (follow index closures position line) trail).closure := by
  induction labels with
  | nil => exact fun h => h
  | cons label labels ih =>
    intro trail h
    refine ih ?_
    unfold follow
    split
    · exact h
    · split
      · exact h
      · split
        · rename_i k _ _ _
          refine Ascending.union_ascending h ?_
          cases hk : closures[k]? with
          | none => exact .nil
          | some closure => exact hclosures closure (List.mem_of_getElem? hk)
        · exact h

/-- **Each reference forward adds its flag**, and no other does. -/
theorem flags_foldl_eq (labels : List Label) : ∀ {trail : Trail},
    (labels.foldl (follow index closures position line) trail).flags =
      trail.flags ++ (labels.filter fun l => (index.position? l).any (position < ·)).map
        (forwardFlag line) := by
  induction labels with
  | nil => simp
  | cons label labels ih =>
    intro trail
    rw [List.foldl_cons, ih, follow]
    cases hlabel : index.position? label with
    | none => simp [hlabel]
    | some k =>
      by_cases hforward : position < k
      · simp [hlabel, hforward]
      · by_cases hback : k < position <;> simp [hlabel, hforward, hback]

/-- **Each reference backward adds its edge**, the first time that it is met. -/
theorem edges_foldl_eq (labels : List Label) : ∀ {trail : Trail} {met : List (Nat × Nat)},
    trail.edges = met.eraseDups →
    (labels.foldl (follow index closures position line) trail).edges =
      (met ++ ((labels.filterMap index.position?).filter (· < position)).map
        (position, ·)).eraseDups := by
  induction labels with
  | nil =>
    intro trail met h
    simpa using h
  | cons label labels ih =>
    intro trail met h
    rw [List.foldl_cons]
    cases hlabel : index.position? label with
    | none =>
      rw [List.filterMap_cons_none hlabel]
      refine ih ?_
      rw [follow, hlabel]
      exact h
    | some k =>
      rw [List.filterMap_cons_some hlabel]
      by_cases hback : k < position
      · have hforward : ¬ position < k := Nat.lt_asymm hback
        rw [List.filter_cons_of_pos (by simpa using hback), List.map_cons, List.append_cons]
        refine ih ?_
        simp only [follow, hlabel, hforward, hback, if_true, if_false]
        rw [eraseDups_concat, h]
      · rw [List.filter_cons_of_neg (by simpa using hback)]
        refine ih ?_
        by_cases hforward : position < k <;> simp [follow, hlabel, hforward, hback, h]

end Trail

/-! ## One line after another -/

variable {index : LineIndex} {lines : List Line}

/-- The reach of the first lines of a sheet. -/
def reachAt (index : LineIndex) (lines : List Line) (n : Nat) : Reach :=
  (lines.take n).foldl (extend index) {}

theorem reachAt_succ {n : Nat} {line : Line} (hn : lines[n]? = some line) :
    reachAt index lines (n + 1) = extend index (reachAt index lines n) line := by
  rw [reachAt, List.take_add_one, hn, Option.toList_some, List.foldl_append]
  rfl

/-- **The reach of the first lines of a sheet**: each line before the position has all that it reaches by
paths backward. -/
structure Traced (index : LineIndex) (lines : List Line) (n : Nat) (reach : Reach) : Prop where
  length : reach.closures.length = n
  ascending : ∀ closure ∈ reach.closures, Ascending.IsAscending closure
  closures : ∀ i < n, ∀ j, j ∈ reach.closures[i]?.getD [] ↔
    Relation.ReflTransGen (Back index.position? lines) i j
  flags : reach.flags = (lines.zipIdx.take n).map (forwardFlags index.position?)
  edges : reach.edges = ((lines.zipIdx.take n).flatMap (backEdges index.position?)).eraseDups

/-- The trail of a line that is added. -/
def trailOf (index : LineIndex) (reach : Reach) (line : Line) : Trail :=
  let start : Trail := ⟨[reach.closures.length], [], reach.edges⟩
  match line with
  | .logic logic =>
    logic.references.foldl (Trail.follow index reach.closures reach.closures.length logic) start
  | .text _ => start

theorem extend_eq (reach : Reach) (line : Line) : extend index reach line =
    ⟨reach.closures ++ [(trailOf index reach line).closure],
      reach.flags ++ [(trailOf index reach line).flags], (trailOf index reach line).edges⟩ := by
  cases line <;> rfl

/-- What a line that is added reaches: itself, and what the earlier lines reach that it refers to. -/
theorem mem_trailOf {reach : Reach} {line : Line} {x : Nat} :
    x ∈ (trailOf index reach line).closure ↔
      x = reach.closures.length ∨ ∃ k ∈ referred index.position? line,
        k < reach.closures.length ∧ x ∈ reach.closures[k]?.getD [] := by
  cases line with
  | text content => simp [trailOf, referred]
  | logic logic =>
    rw [trailOf, Trail.mem_closure_foldl, List.mem_singleton]
    rfl

theorem ascending_trailOf {reach : Reach}
    (h : ∀ closure ∈ reach.closures, Ascending.IsAscending closure) (line : Line) :
    Ascending.IsAscending (trailOf index reach line).closure := by
  have hstart : Ascending.IsAscending [reach.closures.length] := List.pairwise_singleton _ _
  cases line with
  | text content => exact hstart
  | logic logic => exact Trail.ascending_foldl h logic.references hstart

theorem flags_trailOf (reach : Reach) (line : Line) : (trailOf index reach line).flags =
    forwardFlags index.position? (line, reach.closures.length) := by
  cases line with
  | text content => rfl
  | logic logic =>
    rw [trailOf, Trail.flags_foldl_eq]
    rfl

theorem edges_trailOf {reach : Reach} {met : List (Nat × Nat)} (h : reach.edges = met.eraseDups)
    (line : Line) : (trailOf index reach line).edges =
      (met ++ backEdges index.position? (line, reach.closures.length)).eraseDups := by
  cases line with
  | text content => simpa [trailOf, backEdges, referred] using h
  | logic logic =>
    rw [trailOf, Trail.edges_foldl_eq logic.references h]
    rfl

/-- **What a line that is added reaches**: the lines it refers to are finished, so what they reach is all
that it reaches through them. -/
theorem Traced.mem_trailOf_iff {n : Nat} {reach : Reach} {line : Line} (h : Traced index lines n reach)
    (hn : lines[n]? = some line) {j : Nat} : j ∈ (trailOf index reach line).closure ↔
      Relation.ReflTransGen (Back index.position? lines) n j := by
  rw [mem_trailOf, h.length, Relation.ReflTransGen.cases_head_iff]
  -- a path from the line is none at all, or a step to an earlier line and a path from there
  constructor
  · rintro (rfl | ⟨k, hk, hlt, hj⟩)
    · exact Or.inl rfl
    · exact Or.inr ⟨k, ⟨hlt, line, hn, hk⟩, (h.closures k hlt j).mp hj⟩
  · rintro (rfl | ⟨k, ⟨hlt, line', hn', hk⟩, hj⟩)
    · exact Or.inl rfl
    · obtain rfl : line = line' := Option.some.inj (hn.symm.trans hn')
      exact Or.inr ⟨k, hk, hlt, (h.closures k hlt j).mpr hj⟩

/-- **The step past a line.** -/
theorem traced_succ {n : Nat} {reach : Reach} {line : Line} (h : Traced index lines n reach)
    (hn : lines[n]? = some line) : Traced index lines (n + 1) (extend index reach line) := by
  have hzip : lines.zipIdx[n]? = some (line, n) := by simp [List.getElem?_zipIdx, hn]
  have htake : lines.zipIdx.take (n + 1) = lines.zipIdx.take n ++ [(line, n)] := by
    rw [List.take_add_one, hzip, Option.toList_some]
  rw [extend_eq]
  refine ⟨by simp [h.length], ?_, ?_, ?_, ?_⟩
  · exact List.forall_mem_append.mpr
      ⟨h.ascending, List.forall_mem_singleton.mpr (ascending_trailOf h.ascending line)⟩
  · intro i hi j
    rcases Nat.lt_succ_iff_lt_or_eq.mp hi with hlt | rfl
    · rw [List.getElem?_append_left (by rw [h.length]; exact hlt)]
      exact h.closures i hlt j
    · rw [List.getElem?_append_right (Nat.le_of_eq h.length), h.length, Nat.sub_self]
      exact h.mem_trailOf_iff hn
  · rw [htake, List.map_append, h.flags, List.map_singleton, flags_trailOf, h.length]
  · rw [htake, List.flatMap_append, List.flatMap_singleton, edges_trailOf h.edges, h.length]

/-- **The pass over all lines.** -/
theorem traced_reachAt : ∀ {n : Nat}, n ≤ lines.length →
    Traced index lines n (reachAt index lines n) := by
  intro n
  induction n with
  | zero => exact fun _ => ⟨rfl, by simp [reachAt], by simp, by simp [reachAt], by simp [reachAt]⟩
  | succ n ih =>
    intro hn
    have hget : lines[n]? = some lines[n] := List.getElem?_eq_getElem hn
    rw [reachAt_succ hget]
    exact traced_succ (ih (Nat.le_of_succ_le hn)) hget

theorem traced_reach (document : Document) (index : LineIndex) :
    Traced index document.lines document.length (document.reach index) := by
  have hall := @traced_reachAt index document.lines document.lines.length (Nat.le_refl _)
  rwa [reachAt, List.take_length] at hall

/-- **Each line is flagged for its references forward**, and for nothing else. -/
theorem flags_reach (document : Document) (index : LineIndex) :
    (document.reach index).flags = document.lines.zipIdx.map (forwardFlags index.position?) := by
  have hall : document.lines.zipIdx.take document.length = document.lines.zipIdx :=
    List.take_of_length_le (Nat.le_of_eq List.length_zipIdx)
  rw [(traced_reach document index).flags, hall]

theorem length_reach (document : Document) (index : LineIndex) :
    (document.reach index).closures.length = document.length ∧
      (document.reach index).flags.length = document.length := by
  refine ⟨(traced_reach document index).length, ?_⟩
  rw [flags_reach, List.length_map]
  exact List.length_zipIdx

end Reach

end ProofSheet
