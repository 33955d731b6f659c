import Mathlib.Data.Fintype.Card
import ProofSheet.Proofs.Mapping.Union

/-!
# Choices of columns

An assignment gives each row of a matrix a column of its own, and unites a base mapping with one mapping
from each cell chosen. The search claims columns as it goes, joins whole cells at a time and gives up a
branch as soon as nothing is left of it; none of this shows in what it finds.

* `Mapping.Rectangular`: a matrix with as many cells in each row, all of whose mappings have as many slots.
* `Mapping.Chosen`: **a choice of columns**, and the mapping that it gives.
* `Mapping.mem_assignments_iff_chosen`: the search finds the mapping of every choice, and no other.
* `Mapping.Rearranged`: a matrix whose rows and columns have changed places with one another.
* `Mapping.assignments_choices`: **the search is complete, and blind to the order of rows and columns.**
-/

namespace ProofSheet.Mapping

section Matrices

variable {α : Type}

/-- A matrix with as many cells in each row, all of whose mappings have as many slots. -/
structure Rectangular (n columns : Nat) (matrix : Matrix α) : Prop where
  width : ∀ row ∈ matrix, row.length = columns
  sized : ∀ row ∈ matrix, ∀ cell ∈ row, Sized n cell

/-- The mappings in the cell of a row and a column. -/
def cellAt (matrix : Matrix α) (row column : Nat) : List (Mapping α) :=
  (matrix[row]?.bind fun cells => cells[column]?).getD []

/-- Two mappings agree wherever both fill a slot. -/
def Consistent (a b : Mapping α) : Prop :=
  ∀ k e e', a.Fills k e → b.Fills k e' → e = e'

/-- **A choice of columns**: a base mapping and a mapping from a cell of each row, no two cells in one
column. Any two of them agree, and the mapping that the choice gives is their union. -/
structure Chosen (n columns : Nat) (base : List (Mapping α)) (matrix : Matrix α) (m : Mapping α)
    (column : Fin matrix.length → Fin columns) (first : Mapping α)
    (parts : Fin matrix.length → Mapping α) : Prop where
  injective : Function.Injective column
  first_mem : first ∈ base
  part_mem : ∀ r : Fin matrix.length, parts r ∈ cellAt matrix r (column r)
  consistent : (first :: List.ofFn parts).Pairwise Consistent
  union : IsUnion n (first :: List.ofFn parts) m

/-- A matrix whose rows and columns have changed places with one another. -/
def Rearranged (columns : Nat) (matrix matrix' : Matrix α) : Prop :=
  ∃ (rows : Fin matrix.length ≃ Fin matrix'.length) (order : Fin columns ≃ Fin columns),
    ∀ (r : Fin matrix.length) (c : Fin columns),
      cellAt matrix r c = cellAt matrix' (rows r) (order c)

variable {n columns : Nat} {base : List (Mapping α)} {matrix matrix' : Matrix α} {m : Mapping α}

theorem mem_cellAt {row column : Nat} {x : Mapping α} : x ∈ cellAt matrix row column ↔
    ∃ cells cell, matrix[row]? = some cells ∧ cells[column]? = some cell ∧ x ∈ cell := by
  unfold cellAt
  cases hrow : matrix[row]? with
  | none => simp
  | some cells =>
    cases hcell : cells[column]? with
    | none => simp [hcell]
    | some cell => simp [hcell]

theorem consistent_of_isUnion {parts : List (Mapping α)} (h : IsUnion n parts m) :
    parts.Pairwise Consistent := by
  apply List.pairwise_of_forall_mem_list
  intro a ha b hb k e e' hk hk'
  exact h.agree ha hb hk hk'

theorem Rearranged.symm (h : Rearranged columns matrix matrix') :
    Rearranged columns matrix' matrix := by
  obtain ⟨rows, order, hcells⟩ := h
  refine ⟨rows.symm, order.symm, fun r c => ?_⟩
  have hback := hcells (rows.symm r) (order.symm c)
  rw [rows.apply_symm_apply, order.apply_symm_apply] at hback
  exact hback.symm

/-- **A choice is one of the rearranged matrix too**, with the columns and parts in their new places. -/
theorem Chosen.rearrange {column : Fin matrix.length → Fin columns} {first : Mapping α}
    {parts : Fin matrix.length → Mapping α} (h : Chosen n columns base matrix m column first parts)
    {rows : Fin matrix'.length ≃ Fin matrix.length} {order : Fin columns ≃ Fin columns}
    (hcells : ∀ (r : Fin matrix'.length) (c : Fin columns),
      cellAt matrix' r c = cellAt matrix (rows r) (order c)) :
    Chosen n columns base matrix' m (fun r => order.symm (column (rows r))) first
      (fun r => parts (rows r)) := by
  have hparts : ∀ part, part ∈ List.ofFn (fun r => parts (rows r)) ↔ part ∈ List.ofFn parts := by
    intro part
    rw [List.mem_ofFn, List.mem_ofFn]
    exact (rows.surjective.exists (p := fun r => parts r = part)).symm
  have hunion : IsUnion n (first :: List.ofFn fun r => parts (rows r)) m := by
    refine (isUnion_congr fun k e => ?_).mp h.union
    simp only [List.mem_cons, hparts]
  refine ⟨?_, h.first_mem, fun r => ?_, consistent_of_isUnion hunion, hunion⟩
  · intro r r' heq
    exact rows.injective (h.injective (order.symm.injective heq))
  · rw [hcells, order.apply_symm_apply]
    exact h.part_mem (rows r)

end Matrices

/-! ## What the search finds -/

section Letters

variable {n columns : Nat} {base : List LetterMapping} {matrix matrix' : Matrix Symbol}
  {m : LetterMapping}

/-- Picks of columns and mappings, one for each row, as a choice. -/
theorem exists_picks_iff_chosen (hwidth : ∀ row ∈ matrix, row.length = columns) :
    (∃ first ∈ base, ∃ picks : List (Nat × LetterMapping), (picks.map Prod.fst).Nodup ∧
      List.Forall₂ (fun row pick => ∃ cell, row[pick.1]? = some cell ∧ pick.2 ∈ cell) matrix picks ∧
      IsUnion n (first :: picks.map Prod.snd) m) ↔
    ∃ column first parts, Chosen n columns base matrix m column first parts := by
  constructor
  · rintro ⟨first, hfirst, picks, hnodup, hpicks, hunion⟩
    obtain ⟨hlen, hcells⟩ := List.forall₂_iff_get.mp hpicks
    have hcell : ∀ r : Fin matrix.length, ∃ cell,
        (matrix.get r)[(picks.get (r.cast hlen)).1]? = some cell ∧
          (picks.get (r.cast hlen)).2 ∈ cell := by
      intro r
      exact hcells r r.isLt (hlen ▸ r.isLt)
    -- the cell that was picked is in the row, so its column is one of those there are
    have hlt : ∀ r : Fin matrix.length, (picks.get (r.cast hlen)).1 < columns := by
      intro r
      obtain ⟨cell, hget, -⟩ := hcell r
      have hrow := hwidth _ (List.get_mem matrix r)
      have hbound := (List.getElem?_eq_some_iff.mp hget).1
      omega
    have hparts : List.ofFn (fun r : Fin matrix.length => (picks.get (r.cast hlen)).2) =
        picks.map Prod.snd := by
      apply List.ext_getElem
      · simp [hlen]
      · intro k hk hk'
        simp
    have hunion' : IsUnion n
        (first :: List.ofFn fun r : Fin matrix.length => (picks.get (r.cast hlen)).2) m := by
      rw [hparts]
      exact hunion
    refine ⟨fun r => ⟨_, hlt r⟩, first, fun r => (picks.get (r.cast hlen)).2, ?_, hfirst, ?_,
      consistent_of_isUnion hunion', hunion'⟩
    · intro r r' heq
      have hcolumn : (picks.get (r.cast hlen)).1 = (picks.get (r'.cast hlen)).1 := congrArg Fin.val heq
      have hplace := List.inj_on_of_nodup_map hnodup (List.get_mem _ _) (List.get_mem _ _) hcolumn
      exact Fin.cast_injective hlen ((List.Nodup.get_inj_iff hnodup.of_map).mp hplace)
    · intro r
      obtain ⟨cell, hget, hmem⟩ := hcell r
      exact mem_cellAt.mpr ⟨matrix.get r, cell, List.getElem?_eq_getElem r.isLt, hget, hmem⟩
  · rintro ⟨column, first, parts, h⟩
    have hlen : (List.ofFn fun r => ((column r).val, parts r)).length = matrix.length := by simp
    refine ⟨first, h.first_mem, List.ofFn fun r => ((column r).val, parts r), ?_, ?_, ?_⟩
    · rw [List.map_ofFn]
      apply List.nodup_ofFn.mpr
      intro r r' heq
      exact h.injective (Fin.ext heq)
    · refine List.forall₂_iff_get.mpr ⟨hlen.symm, fun k hk hk' => ?_⟩
      obtain ⟨cells, cell, hrow, hcell, hmem⟩ := mem_cellAt.mp (h.part_mem ⟨k, hk⟩)
      have hcells : matrix.get ⟨k, hk⟩ = cells :=
        Option.some.inj ((List.getElem?_eq_getElem hk).symm.trans hrow)
      rw [List.get_ofFn, hcells]
      exact ⟨cell, hcell, hmem⟩
    · rw [List.map_ofFn]
      exact h.union

/-- The mappings picked have as many slots as all others. -/
theorem sized_picks (h : Rectangular n columns matrix) {picks : List (Nat × LetterMapping)}
    (hpicks : List.Forall₂ (fun row pick => ∃ cell, row[pick.1]? = some cell ∧ pick.2 ∈ cell)
      matrix picks) : Sized n (picks.map Prod.snd) := by
  intro part hpart
  obtain ⟨pick, hpick, rfl⟩ := List.mem_map.mp hpart
  obtain ⟨row, hrow, cell, hcell, hmem⟩ := Formula.exists_of_forall₂ hpicks.flip hpick
  exact h.sized row hrow cell (List.mem_of_getElem? hcell) _ hmem

/-- **The search finds the mapping of every choice, and no other.** -/
theorem mem_assignments_iff_chosen (hbase : Sized n base) (h : Rectangular n columns matrix) :
    m ∈ assignments base matrix ↔
      ∃ column first parts, Chosen n columns base matrix m column first parts := by
  rw [assignments, mem_assignFrom_iff, ← exists_picks_iff_chosen h.width]
  refine exists_congr fun first => and_congr_right fun hfirst => exists_congr fun picks => ?_
  refine and_congr_right fun _ => ?_
  constructor
  · rintro ⟨-, hpicks, hjoins⟩
    refine ⟨hpicks, (joins?_eq_some_iff ?_ (hbase first hfirst)).mp hjoins⟩
    exact sized_picks h hpicks
  · rintro ⟨hpicks, hunion⟩
    refine ⟨by simp, hpicks, (joins?_eq_some_iff ?_ (hbase first hfirst)).mpr hunion⟩
    exact sized_picks h hpicks

/-- There is no choice where the rows outnumber the columns. -/
theorem assignments_eq_nil (hbase : Sized n base) (h : Rectangular n columns matrix)
    (hrows : columns < matrix.length) : assignments base matrix = [] := by
  refine List.eq_nil_iff_forall_not_mem.mpr fun m hm => ?_
  obtain ⟨column, first, parts, hchosen⟩ := (mem_assignments_iff_chosen hbase h).mp hm
  have hcard := Fintype.card_le_of_injective column hchosen.injective
  rw [Fintype.card_fin, Fintype.card_fin] at hcard
  omega

theorem mem_assignments_of_rearranged (hbase : Sized n base) (h : Rectangular n columns matrix)
    (h' : Rectangular n columns matrix') (hre : Rearranged columns matrix matrix')
    (hm : m ∈ assignments base matrix') : m ∈ assignments base matrix := by
  obtain ⟨column, first, parts, hchosen⟩ := (mem_assignments_iff_chosen hbase h').mp hm
  obtain ⟨rows, order, hcells⟩ := hre
  exact (mem_assignments_iff_chosen hbase h).mpr ⟨_, first, _, hchosen.rearrange hcells⟩

end Letters

/-- **The search is complete, and blind to the order of rows and columns.** It finds the mappings that the
choices give: a column of its own for each row, a base mapping and a mapping from each cell chosen, which
agree wherever two of them fill one slot, and their union. So it finds the same mappings when rows and
columns change places with one another, and none when there are more rows than columns. -/
theorem assignments_choices (n columns : Nat) (base : List LetterMapping) (matrix : Matrix Symbol)
    (hbase : Sized n base) (h : Rectangular n columns matrix) :
    (∀ m, m ∈ assignments base matrix ↔
      ∃ column first parts, Chosen n columns base matrix m column first parts) ∧
    (∀ matrix', Rectangular n columns matrix' → Rearranged columns matrix matrix' →
      ∀ m, m ∈ assignments base matrix' ↔ m ∈ assignments base matrix) ∧
    (columns < matrix.length → assignments base matrix = []) := by
  refine ⟨fun m => mem_assignments_iff_chosen hbase h, fun matrix' h' hre m => ⟨?_, ?_⟩,
    assignments_eq_nil hbase h⟩
  · exact mem_assignments_of_rearranged hbase h h' hre
  · exact mem_assignments_of_rearranged hbase h' h hre.symm

/-- Two rows and two columns. Both choices of columns give a mapping: in one of them the two parts fill a
slot with the same letter. -/
def crossing : Matrix Symbol :=
  [ [[[some 'a', none]], [[some 'b', some 'c']]],
    [[[none, some 'c']], [[none, some 'd']]] ]

/-- The mapping of the second choice is the union of its parts; it is found too with the rows exchanged,
and nothing is found for both rows and one of them again. -/
theorem assignments_choices_crossing :
    (Rectangular 2 2 crossing ∧ Rearranged 2 crossing crossing.reverse) ∧
      assignments [unfilled 2] crossing = [[some 'a', some 'd'], [some 'b', some 'c']] ∧
      (∃ column first parts,
        Chosen 2 2 [unfilled 2] crossing [some 'b', some 'c'] column first parts) ∧
      [some 'b', some 'c'] ∈ assignments [unfilled 2] crossing.reverse ∧
      assignments [unfilled 2] (crossing ++ crossing.take 1) = [] := by
  have hbase : Sized 2 ([unfilled 2] : List LetterMapping) := by unfold Sized; decide
  have hrect : Rectangular 2 2 crossing := ⟨by decide, by unfold Sized; decide⟩
  have hre : Rearranged 2 crossing crossing.reverse :=
    ⟨Fin.revPerm, Equiv.refl _, by decide⟩
  have hmem : [some 'b', some 'c'] ∈ assignments [unfilled 2] crossing := by decide
  obtain ⟨hchosen, hrearranged, -⟩ := assignments_choices 2 2 [unfilled 2] crossing hbase hrect
  refine ⟨⟨hrect, hre⟩, by decide, (hchosen _).mp hmem, ?_, ?_⟩
  · exact (hrearranged _ ⟨by decide, by unfold Sized; decide⟩ hre _).mpr hmem
  · exact (assignments_choices 2 2 [unfilled 2] (crossing ++ crossing.take 1) hbase
      ⟨by decide, by unfold Sized; decide⟩).2.2 (by decide)

end ProofSheet.Mapping
