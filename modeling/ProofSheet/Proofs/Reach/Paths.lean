import ProofSheet.Proofs.Labels.Canonical
import ProofSheet.Proofs.Reach.Trails

/-!
# What a line reaches

What the pass over the references of a sheet finds is said in terms of its index. In a sheet that was
renumbered the index leads from each reference to the line with that label, so the same can be said of
the lines alone.

* `Document.RefersBack`: a line refers to an earlier one.
* `Document.position?`: the position of a label, without the index.
* `Document.Traces`: what the reach of a sheet says, by the sheet alone.
* `Document.reach_traces`: **the reach of a renumbered sheet is its paths of references backward.**
-/

namespace ProofSheet

/-! ## References -/

namespace Document

/-- A line refers to an earlier one, in its premises or citations. -/
def RefersBack (document : Document) (i j : Nat) : Prop :=
  j < i ∧ ∃ line, document.lines[i]? = some (.logic line) ∧
    ∃ l ∈ line.references, document.Designates l j

/-- The position of the line with a label. -/
def position? (document : Document) (l : Label) : Option Nat :=
  document.lines.findIdx? (Line.isLabelled l)

theorem position?_eq_some {document : Document} (hdistinct : document.Distinct) {l : Label} {j : Nat} :
    document.position? l = some j ↔ document.Designates l j := by
  have hfound : ∀ {k}, document.position? l = some k → document.Designates l k := by
    intro k hk
    obtain ⟨hlt, hlabelled, -⟩ := List.findIdx?_eq_some_iff_getElem.mp hk
    obtain ⟨line, hline, hlabel⟩ := Line.isLabelled_iff.mp hlabelled
    exact ⟨line, List.getElem?_eq_some_iff.mpr ⟨hlt, hline⟩, hlabel⟩
  refine ⟨hfound, fun hj => ?_⟩
  cases hk : document.position? l with
  | none =>
    obtain ⟨line, hget, hlabel⟩ := hj
    have hno := List.findIdx?_eq_none_iff.mp hk _ (List.mem_of_getElem? hget)
    rw [Line.isLabelled_iff.mpr ⟨line, rfl, hlabel⟩] at hno
    cases hno
  | some k => rw [hdistinct l k j (hfound hk) hj]

end Document

namespace Reach

variable {lines : List Line}

/-! ## Positions without the index -/

section Positions

variable {find find' : Label → Option Nat}
  (hfind : ∀ line, Line.logic line ∈ lines → ∀ l ∈ line.references, find l = find' l)
include hfind

theorem referred_congr : ∀ line ∈ lines, referred find line = referred find' line
  | .logic line, hline => List.filterMap_congr (hfind line hline)
  | .text _, _ => rfl

theorem backEdges_congr :
    lines.zipIdx.flatMap (backEdges find) = lines.zipIdx.flatMap (backEdges find') := by
  refine List.flatMap_congr fun ⟨line, i⟩ hmem => ?_
  rw [backEdges, backEdges, referred_congr hfind line (List.fst_mem_of_mem_zipIdx hmem)]

theorem forwardFlags_congr :
    lines.zipIdx.map (forwardFlags find) = lines.zipIdx.map (forwardFlags find') := by
  refine List.map_congr_left fun ⟨line, i⟩ hmem => ?_
  cases line with
  | text content => rfl
  | logic line =>
    have hline := hfind line (List.fst_mem_of_mem_zipIdx hmem)
    rw [forwardFlags, forwardFlags, List.filter_congr fun l hl => by rw [hline l hl]]

end Positions

theorem back_iff {document : Document} (hdistinct : document.Distinct) {find : Label → Option Nat}
    (hfind : ∀ line, Line.logic line ∈ document.lines → ∀ l ∈ line.references,
      find l = document.position? l) {i j : Nat} :
    Back find document.lines i j ↔ document.RefersBack i j := by
  refine and_congr_right fun _ => ⟨?_, ?_⟩
  · rintro ⟨line, hi, hj⟩
    cases line with
    | text content => cases hj
    | logic line =>
      obtain ⟨l, hl, hlj⟩ := List.mem_filterMap.mp hj
      rw [hfind line (List.mem_of_getElem? hi) l hl] at hlj
      exact ⟨line, hi, l, hl, (Document.position?_eq_some hdistinct).mp hlj⟩
  · rintro ⟨line, hi, l, hl, hj⟩
    refine ⟨.logic line, hi, List.mem_filterMap.mpr ⟨l, hl, ?_⟩⟩
    rw [hfind line (List.mem_of_getElem? hi) l hl]
    exact (Document.position?_eq_some hdistinct).mpr hj

/-- A pair is an edge of a sheet if the line at the one position refers to the other. -/
theorem mem_backEdges {find : Label → Option Nat} {i j : Nat} :
    (i, j) ∈ lines.zipIdx.flatMap (backEdges find) ↔ Back find lines i j := by
  rw [List.mem_flatMap]
  constructor
  · rintro ⟨⟨line, k⟩, hmem, hij⟩
    obtain ⟨x, hx, hxj⟩ := List.mem_map.mp hij
    obtain ⟨hreferred, hback⟩ := List.mem_filter.mp hx
    cases hxj
    exact ⟨of_decide_eq_true hback, line, List.mk_mem_zipIdx_iff_getElem?.mp hmem, hreferred⟩
  · rintro ⟨hlt, line, hi, hj⟩
    exact ⟨(line, i), List.mk_mem_zipIdx_iff_getElem?.mpr hi,
      List.mem_map.mpr ⟨j, List.mem_filter.mpr ⟨hj, decide_eq_true hlt⟩, rfl⟩⟩

end Reach

/-! ## The reach of a sheet -/

namespace Document

variable {document : Document} {limit : Label}

/-- A path leads to no later line. -/
theorem le_of_refersBack {i j : Nat} (h : Relation.ReflTransGen document.RefersBack i j) : j ≤ i := by
  induction h with
  | refl => exact Nat.le_refl _
  | tail _ hstep ih => exact Nat.le_trans (Nat.le_of_lt hstep.1) ih

/-- **What the reach of a sheet says**, by its lines alone. -/
structure Traces (document : Document) (reach : Reach) : Prop where
  /-- There is a node for each position. -/
  nodes : reach.closures.length = document.length
  /-- A line reaches the positions to which it has a path of references backward. -/
  paths : ∀ {i : Nat} {closure : List Nat}, reach.closures[i]? = some closure → ∀ j,
    j ∈ closure ↔ Relation.ReflTransGen document.RefersBack i j
  ascending : ∀ closure ∈ reach.closures, closure.Pairwise (· < ·)
  /-- There is an edge for each line and earlier line to which it refers. -/
  edge : ∀ i j, (i, j) ∈ reach.edges ↔ document.RefersBack i j
  once : reach.edges.Nodup
  /-- Edges are in the order in which references first ask for them. -/
  order : reach.edges =
    (document.lines.zipIdx.flatMap (Reach.backEdges document.position?)).eraseDups
  /-- A line has a flag for each of its references to a later line, repeated ones included. -/
  flags : reach.flags = document.lines.zipIdx.map (Reach.forwardFlags document.position?)
  before : ∀ {i : Nat} {closure : List Nat}, reach.closures[i]? = some closure → ∀ j ∈ closure, j ≤ i
  /-- What a line reaches reaches nothing more. -/
  closed : ∀ {i : Nat} {closure : List Nat}, reach.closures[i]? = some closure → ∀ j ∈ closure,
    ∃ closure', reach.closures[j]? = some closure' ∧ closure' ⊆ closure

/-- In a numbered sheet the index leads from each reference to the line with that label. -/
theorem numberedIndex_position? (h : document.WellLabelled limit) :
    ∀ line, Line.logic line ∈ document.numbered.lines → ∀ l ∈ line.references,
      document.numberedIndex.position? l = document.numbered.position? l := by
  have hwell : document.numbered.WellLabelled document.length :=
    wellLabelled_of_renumber (congrArg Renumbering.outcome (renumber_numbered h (Nat.le_refl _)))
  intro line hline l hl
  have hnamed : l ∈ line.named := by
    rcases List.mem_append.mp hl with hdep | hcited
    · exact LogicLine.mem_named.mpr (Or.inl hdep)
    · exact LogicLine.mem_named.mpr (Or.inr (List.mem_append_left _ hcited))
  obtain ⟨j, hj⟩ := hwell.resolved line hline l hnamed
  rw [(position?_eq_some hwell.distinct).mpr hj]
  obtain ⟨other, hget, rfl⟩ := hj
  exact (canonical_numbered h).position hget

/-- The reach of a numbered sheet. -/
theorem traces_numbered (h : document.WellLabelled limit) :
    document.numbered.Traces (document.numbered.reach document.numberedIndex) := by
  have hfind := numberedIndex_position? h
  have hback : Reach.Back document.numberedIndex.position? document.numbered.lines =
      document.numbered.RefersBack := by
    funext i j
    exact propext (Reach.back_iff (numbered_distinct h.distinct) hfind)
  have htraced := Reach.traced_reach document.numbered document.numberedIndex
  have hall : document.numbered.lines.zipIdx.take document.numbered.length =
      document.numbered.lines.zipIdx :=
    List.take_of_length_le (Nat.le_of_eq List.length_zipIdx)
  have hpaths : ∀ {i : Nat} {closure : List Nat},
      (document.numbered.reach document.numberedIndex).closures[i]? = some closure →
      ∀ j, j ∈ closure ↔ Relation.ReflTransGen document.numbered.RefersBack i j := by
    intro i closure hi j
    have hlt : i < document.numbered.length := htraced.length ▸ (List.getElem?_eq_some_iff.mp hi).1
    rw [← hback, ← htraced.closures i hlt j, hi, Option.getD_some]
  have hedges := htraced.edges
  rw [hall] at hedges
  refine ⟨htraced.length, hpaths, ?_, fun i j => ?_, ?_, ?_, ?_, ?_, ?_⟩
  · exact fun closure hclosure => (htraced.ascending closure hclosure).imp of_decide_eq_true
  · rw [hedges, List.mem_eraseDups, Reach.mem_backEdges, hback]
  · exact hedges ▸ nodup_eraseDups _
  · rw [hedges, Reach.backEdges_congr hfind]
  · rw [htraced.flags, hall, Reach.forwardFlags_congr hfind]
  · exact fun hi j hj => le_of_refersBack ((hpaths hi j).mp hj)
  · intro i closure hi j hj
    have hij := (hpaths hi j).mp hj
    have hlt : j < (document.numbered.reach document.numberedIndex).closures.length :=
      Nat.lt_of_le_of_lt (le_of_refersBack hij) (List.getElem?_eq_some_iff.mp hi).1
    exact ⟨_, List.getElem?_eq_getElem hlt, fun k hk =>
      (hpaths hi k).mpr (hij.trans ((hpaths (List.getElem?_eq_getElem hlt) k).mp hk))⟩

/-- **The reach of a renumbered sheet is its paths of references backward.** -/
theorem reach_traces {document : Document} {limit : Label} {index : LineIndex}
    (h : (document.renumber limit).outcome = .ok index) :
    (document.renumber limit).document.Traces
      ((document.renumber limit).document.reach index) := by
  have hwell := wellLabelled_of_renumber h
  rw [hwell.renumber] at h ⊢
  obtain rfl : document.numberedIndex = index := Except.ok.inj h
  exact traces_numbered hwell

/-- A step that cites itself, a later line twice, and its premise; and a line that discharges that
premise. -/
def tangledSheet : Document where
  lines :=
    [ .text "The last line is cited before its time.",
      .logic ⟨5, [5], .letter 'A', .premise⟩,
      .logic ⟨2, [5], .letter 'A', .truthFunctional [9, 5, 2, 9]⟩,
      .logic ⟨9, [], .conditional (.letter 'A') (.letter 'A'), .discharge 2 5⟩ ]

/-- The discharged premise is reached over the step between. -/
theorem reach_traces_tangled :
    (tangledSheet.renumber 9).outcome = .ok ⟨[1, 2, 3]⟩ ∧
      ((tangledSheet.renumber 9).document.reach ⟨[1, 2, 3]⟩).closures =
        [[0], [1], [1, 2], [1, 2, 3]] ∧
      ((tangledSheet.renumber 9).document.reach ⟨[1, 2, 3]⟩).edges = [(2, 1), (3, 2)] ∧
      (((tangledSheet.renumber 9).document.reach ⟨[1, 2, 3]⟩).flags.map List.length) =
        [0, 0, 2, 0] ∧
      (tangledSheet.renumber 9).document.Traces
        ((tangledSheet.renumber 9).document.reach ⟨[1, 2, 3]⟩) :=
  ⟨rfl, by decide, by decide, by decide, reach_traces rfl⟩

end Document

end ProofSheet
