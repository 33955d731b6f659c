import Mathlib.Data.List.Rotate
import Mathlib.Data.Nat.ModEq
import ProofSheet.Proofs.Mapping.Alignment
import ProofSheet.Proofs.Object.Claiming
import ProofSheet.Proofs.Places.Access
import ProofSheet.Proofs.Solver.Matching

/-!
# Pairing by place

Juncts claim partners, and the rows of a matrix claim columns. By place, what is claimed is marked in a
list of its own, and read there before each test.

* `Places.claims?`: juncts claim partners, each from its own place around the ring of partners.
* `Places.claims?_eq`: **every place around the ring is one of the partners.**
* `Places.permute?`, `Places.assignments?`: rows claim columns, and give them back.
* `Places.assignments?_eq`: **every column that is read has a mark**, where no row is longer than the first.
* `Places.assignments?_table`: the matrices of all pairs of two lists are of this kind.
-/

namespace ProofSheet.Places

/-! ## Partners around a ring -/

section Claims

variable {α : Type} {test : α → Bool} {rs : List α} {claimed : List Bool} {index : Nat}

/-- The first place around the ring, by offsets from a start, that is not claimed and passes the test. A
remainder by zero is out of range. -/
def partner? (test : α → Bool) (rs : List α) (claimed : List Bool) (index : Nat) :
    List Nat → Option (Option Nat)
  | [] => some none
  | offset :: offsets =>
    if rs.length = 0 then none
    else do
      let place := (index + offset) % rs.length
      let taken ← claimed[place]?
      if taken then partner? test rs claimed index offsets
      else
        let r ← rs[place]?
        if test r then return some place else partner? test rs claimed index offsets

/-- **Each junct claims a partner by place.** The first starts at the place `index`, and each after it one
place on. -/
def claims? (dn : Bool) (bound : BoundPairs) (rs : List Object) (claimed : List Bool) (index : Nat) :
    List Object → Option Bool
  | [] => some true
  | l :: ls => do
    let partner ← partner? (fun r => Object.alikeUnder dn bound l r) rs claimed index
      (List.range rs.length)
    match partner with
    | none => return false
    | some place =>
      let claimed ← put? claimed place true
      claims? dn bound rs claimed (index + 1) ls

/-- The partners that are not claimed, each at its place. -/
def unclaimed (rs : List α) (claimed : List Bool) : List (Option α) :=
  List.zipWith (fun r taken => if taken then none else some r) rs claimed

theorem length_unclaimed (h : claimed.length = rs.length) : (unclaimed rs claimed).length = rs.length := by
  rw [unclaimed, List.length_zipWith, h, Nat.min_self]

theorem unclaimed_none (rs : List α) :
    unclaimed rs (List.replicate rs.length false) = rs.map some := by
  induction rs with
  | nil => rfl
  | cons r rs ih => exact congrArg (some r :: ·) ih

theorem unclaimed_set (rs : List α) (place : Nat) : ∀ claimed : List Bool,
    unclaimed rs (claimed.set place true) = (unclaimed rs claimed).set place none := by
  induction rs generalizing place with
  | nil => intro claimed; simp [unclaimed]
  | cons r rs ih =>
    intro claimed
    cases claimed with
    | nil => simp [unclaimed]
    | cons taken claimed =>
      cases place with
      | zero => rfl
      | succ place => exact congrArg (_ :: ·) (ih place claimed)

/-- A claim marks the first free partner around the ring that passes the test. -/
theorem claimFirst_eq (test : α → Bool) (ring : List (Option α)) :
    claimFirst test ring =
      (ring.findIdx? fun partner => partner.any test).map fun offset => ring.set offset none := by
  induction ring with
  | nil => rfl
  | cons partner ring ih =>
    cases partner with
    | none => simp [claimFirst, ih, List.findIdx?_cons, Function.comp_def]
    | some r =>
      by_cases hr : test r = true
      · simp [claimFirst, List.findIdx?_cons, hr]
      · simp [claimFirst, ih, List.findIdx?_cons, hr, Function.comp_def]

/-- What stands at a place of the ring. -/
theorem getElem?_rotate_unclaimed (h : claimed.length = rs.length) {offset : Nat}
    (hoffset : offset < rs.length) {taken : Bool} {r : α}
    (htaken : claimed[(index + offset) % rs.length]? = some taken)
    (hr : rs[(index + offset) % rs.length]? = some r) :
    ((unclaimed rs claimed).rotate index)[offset]? = some (if taken then none else some r) := by
  have hlength := length_unclaimed h
  rw [List.getElem?_rotate (by omega), hlength, Nat.add_comm offset, unclaimed, List.getElem?_zipWith,
    htaken, hr]

/-- **Every place around the ring is one of the partners.** The induction is on how many offsets are
left. -/
theorem partner?_from (h : claimed.length = rs.length) (left : Nat) : ∀ {start : Nat},
    start + left = rs.length →
    partner? test rs claimed index (List.range' start left) =
      some ((((unclaimed rs claimed).rotate index).drop start).findIdx? (fun partner => partner.any test)
        |>.map fun offset => (index + (start + offset)) % rs.length) := by
  induction left with
  | zero =>
    intro start hstart
    have hend : ((unclaimed rs claimed).rotate index).length ≤ start := by
      rw [List.length_rotate, length_unclaimed h]
      omega
    rw [List.drop_eq_nil_of_le hend]
    rfl
  | succ left ih =>
    intro start hstart
    have hpos : 0 < rs.length := by omega
    have hplace : (index + start) % rs.length < rs.length := Nat.mod_lt _ hpos
    obtain ⟨taken, htaken⟩ : ∃ taken, claimed[(index + start) % rs.length]? = some taken :=
      ⟨_, List.getElem?_eq_getElem (h ▸ hplace)⟩
    obtain ⟨r, hr⟩ : ∃ r, rs[(index + start) % rs.length]? = some r :=
      ⟨_, List.getElem?_eq_getElem hplace⟩
    obtain ⟨hlength, hhead⟩ := List.getElem?_eq_some_iff.mp
      (getElem?_rotate_unclaimed h (by omega) htaken hr)
    have hrest := @ih (start + 1) (by omega)
    rw [List.range'_succ, partner?, if_neg (by omega), List.drop_eq_getElem_cons hlength, hhead,
      List.findIdx?_cons]
    simp only [htaken, hr, Option.bind_eq_bind, Option.bind_some]
    -- the offsets left are counted from one place on
    have hshift : ∀ offset, index + (start + (offset + 1)) = index + (start + 1 + offset) := by omega
    cases taken with
    | true => simpa [Function.comp_def, hshift] using hrest
    | false =>
      by_cases htest : test r = true
      · simp [htest]
      · simpa [htest, Function.comp_def, hshift] using hrest

/-- A place of the ring is read in the list, and written there. -/
theorem rotate_set (as : List α) (index : Nat) {offset : Nat} (hoffset : offset < as.length) (a : α) :
    (as.set ((index + offset) % as.length) a).rotate index = (as.rotate index).set offset a := by
  refine List.ext_getElem (by simp) fun j hj hj' => ?_
  have hlt : j < as.length := by simpa using hj
  -- two places of the ring are one place of the list only if they are one
  have hsame : (index + offset) % as.length = (j + index) % as.length ↔ offset = j := by
    rw [Nat.add_comm j]
    constructor
    · intro hmod
      have hcancel : offset ≡ j [MOD as.length] := Nat.ModEq.add_left_cancel' index hmod
      rwa [Nat.ModEq, Nat.mod_eq_of_lt hoffset, Nat.mod_eq_of_lt hlt] at hcancel
    · rintro rfl
      rfl
  simp only [List.getElem_rotate, List.getElem_set, List.length_set, hsame]

theorem turn_eq_rotate (ring : List α) : turn ring = ring.rotate 1 := by
  cases ring with
  | nil => rfl
  | cons a ring => simp [turn]

/-- **Claims by place are the claims around the ring.** -/
theorem claims?_from {dn : Bool} {bound : BoundPairs} {rs ls : List Object} :
    ∀ {claimed : List Bool} {index : Nat}, claimed.length = rs.length →
      claims? dn bound rs claimed index ls =
        some (Object.claimEach dn bound ls ((unclaimed rs claimed).rotate index)) := by
  induction ls with
  | nil => intro claimed index _; rw [claims?, Object.claimEach]
  | cons l ls ih =>
    intro claimed index h
    have hlength := length_unclaimed h
    have hpartner := @partner?_from Object (fun r => Object.alikeUnder dn bound l r) rs claimed index
      h rs.length 0 (Nat.zero_add _)
    rw [List.drop_zero] at hpartner
    rw [claims?, List.range_eq_range', hpartner, Object.claimEach_cons, claimFirst_eq]
    cases hfind : ((unclaimed rs claimed).rotate index).findIdx?
        fun partner => partner.any fun r => Object.alikeUnder dn bound l r with
    | none => rfl
    | some offset =>
      have hoffset : offset < rs.length := by
        have hlt := (List.findIdx?_eq_some_iff_getElem.mp hfind).1
        rwa [List.length_rotate, hlength] at hlt
      have hplace : (index + offset) % rs.length < rs.length := Nat.mod_lt _ (by omega)
      have hset := @rotate_set (Option Object) (unclaimed rs claimed) index offset (by omega) none
      rw [hlength] at hset
      have hput : put? claimed ((index + offset) % rs.length) true = some _ :=
        put?_eq (Nat.lt_of_lt_of_eq hplace h.symm) true
      simp only [Option.map_some, Option.bind_eq_bind, Option.bind_some, Nat.zero_add, hput]
      rw [ih (by rw [List.length_set, h]), unclaimed_set, turn_eq_rotate, ← hset, List.rotate_rotate]

/-- **Every place around the ring is one of the partners**, and every partner has its mark. -/
theorem claims?_eq (dn : Bool) (bound : BoundPairs) (ls rs : List Object) :
    claims? dn bound rs (List.replicate rs.length false) 0 ls =
      some (Object.claimEach dn bound ls (rs.map some)) := by
  rw [claims?_from List.length_replicate, unclaimed_none, List.rotate_zero]

end Claims

/-! ## Columns of a matrix -/

section Columns

open Mapping (Matrix assignFrom joinAll)

variable {α : Type} [Slot α]

/-- The columns of a row, in turn. A column that is free is claimed while the rows below are run, and then
given back. -/
def columns? (below : List (Mapping α) → List Bool → Option (List (Mapping α) × List Bool))
    (current : List (Mapping α)) :
    List (List (Mapping α) × Nat) → List Bool → Option (List (Mapping α) × List Bool)
  | [], claimed => some ([], claimed)
  | (cell, column) :: cells, claimed => do
    let taken ← claimed[column]?
    if taken || cell.isEmpty then columns? below current cells claimed
    else
      let claimed ← put? claimed column true
      let (found, claimed) ← below (joinAll current cell) claimed
      let claimed ← put? claimed column false
      let (rest, claimed) ← columns? below current cells claimed
      return (found ++ rest, claimed)

/-- The last rows of a matrix, as many as are left, each read by its place. -/
def permute? (matrix : Matrix α) : Nat → List (Mapping α) → List Bool →
    Option (List (Mapping α) × List Bool)
  | 0, current, claimed => some (current, claimed)
  | left + 1, current, claimed =>
    if current.isEmpty then some (current, claimed)
    else do
      let row ← matrix[matrix.length - (left + 1)]?
      columns? (permute? matrix left) current row.zipIdx claimed

/-- **Assignments of columns by place**, with a mark for each column of the first row. -/
def assignments? (base : List (Mapping α)) (matrix : Matrix α) : Option (List (Mapping α)) :=
  let columns := (matrix.head?.map List.length).getD 0
  (permute? matrix matrix.length base (List.replicate columns false)).map Prod.fst

/-- The columns that are marked are those taken. -/
def Marks (taken : List Nat) (claimed : List Bool) : Prop :=
  ∀ column < claimed.length, claimed[column]? = some (taken.contains column)

theorem Marks.claim {taken : List Nat} {claimed : List Bool} (h : Marks taken claimed) (column : Nat) :
    Marks (column :: taken) (claimed.set column true) := by
  intro other hother
  rw [List.length_set] at hother
  rw [List.getElem?_set, List.contains_cons]
  by_cases hsame : column = other
  · subst hsame
    simp [hother]
  · rw [if_neg hsame, h other hother, beq_false_of_ne (Ne.symm hsame), Bool.false_or]

/-- A column that was free is free again when it is given back. -/
theorem set_set_of_free {claimed : List Bool} {column : Nat} (h : claimed[column]? = some false) :
    (claimed.set column true).set column false = claimed := by
  rw [List.set_set]
  refine List.ext_getElem? fun other => ?_
  rw [List.getElem?_set]
  by_cases hsame : column = other
  · subst hsame
    have hlt := (List.getElem?_eq_some_iff.mp h).1
    rw [if_pos rfl, if_pos hlt, h]
  · rw [if_neg hsame]

/-- **Every column of a row has a mark**, and all marks are as before when the row is done. -/
theorem columns?_eq {below : List (Mapping α) → List Bool → Option (List (Mapping α) × List Bool)}
    (gives : List (Mapping α) → List Nat → List (Mapping α)) {width : Nat}
    (hbelow : ∀ current taken claimed, claimed.length = width → Marks taken claimed →
      below current claimed = some (gives current taken, claimed))
    {current : List (Mapping α)} {taken : List Nat} {claimed : List Bool}
    (hwidth : claimed.length = width) (hmarks : Marks taken claimed)
    {cells : List (List (Mapping α) × Nat)} (hcells : ∀ cell ∈ cells, cell.2 < width) :
    columns? below current cells claimed =
      some (cells.flatMap fun cell =>
        if taken.contains cell.2 || cell.1.isEmpty then []
        else gives (joinAll current cell.1) (cell.2 :: taken), claimed) := by
  induction cells with
  | nil => rfl
  | cons cell cells ih =>
    obtain ⟨cell, column⟩ := cell
    rw [List.forall_mem_cons] at hcells
    have hcolumn : column < claimed.length := Nat.lt_of_lt_of_eq hcells.1 hwidth.symm
    have hrest := ih hcells.2
    rw [columns?, hmarks column hcolumn, List.flatMap_cons]
    simp only [Option.bind_eq_bind, Option.bind_some]
    by_cases hpass : (taken.contains column || cell.isEmpty) = true
    · rw [if_pos hpass, if_pos hpass, hrest]
      rfl
    · have hfree : claimed[column]? = some false := by
        rw [hmarks column hcolumn]
        simp_all
      have hclaim := hbelow (joinAll current cell) (column :: taken) (claimed.set column true)
        (by rw [List.length_set, hwidth]) (hmarks.claim column)
      have hback : put? (claimed.set column true) column false = some claimed := by
        rw [put?_eq (by rwa [List.length_set]), set_set_of_free hfree]
      rw [if_neg hpass, if_neg hpass, put?_eq hcolumn]
      simp only [Option.bind_some, hclaim, hback, hrest]
      rfl

/-- **Every row that is read is one of the matrix.** The induction is on how many rows are left. -/
theorem permute?_eq {matrix : Matrix α} {width : Nat} (hrows : ∀ row ∈ matrix, row.length ≤ width)
    (left : Nat) : ∀ {current : List (Mapping α)} {taken : List Nat} {claimed : List Bool},
    left ≤ matrix.length → claimed.length = width → Marks taken claimed →
      permute? matrix left current claimed =
        some (assignFrom current taken (matrix.drop (matrix.length - left)), claimed) := by
  induction left with
  | zero =>
    intro current taken claimed _ _ _
    rw [permute?, Nat.sub_zero, List.drop_length, assignFrom]
  | succ left ih =>
    intro current taken claimed hleft hwidth hmarks
    have hplace : matrix.length - (left + 1) < matrix.length := by omega
    have hrow : matrix[matrix.length - (left + 1)]? = some matrix[matrix.length - (left + 1)] :=
      List.getElem?_eq_getElem hplace
    have hbelow : matrix.length - (left + 1) + 1 = matrix.length - left := by omega
    rw [permute?, List.drop_eq_getElem_cons hplace, hbelow, assignFrom]
    split
    · rfl
    · have hcells : ∀ cell ∈ (matrix[matrix.length - (left + 1)]).zipIdx, cell.2 < width := by
        intro cell hcell
        have hlength := hrows _ (List.getElem_mem hplace)
        have hcolumn := List.snd_lt_of_mem_zipIdx hcell
        omega
      have hbelow : ∀ current taken claimed, claimed.length = width → Marks taken claimed →
          permute? matrix left current claimed =
            some (assignFrom current taken (matrix.drop (matrix.length - left)), claimed) :=
        fun current taken claimed => ih (by omega)
      rw [hrow]
      exact columns?_eq (fun current taken =>
        assignFrom current taken (matrix.drop (matrix.length - left))) hbelow hwidth hmarks hcells

/-- **Every column that is read has a mark**, where no row is longer than the first. -/
theorem assignments?_eq (base : List (Mapping α)) {matrix : Matrix α}
    (hrows : ∀ row ∈ matrix, row.length ≤ (matrix.head?.map List.length).getD 0) :
    assignments? base matrix = some (Mapping.assignments base matrix) := by
  have hfree : Marks [] (List.replicate ((matrix.head?.map List.length).getD 0) false) := by
    intro column hcolumn
    rw [List.length_replicate] at hcolumn
    simp [hcolumn]
  rw [assignments?, permute?_eq hrows matrix.length (Nat.le_refl _) List.length_replicate hfree,
    Nat.sub_self, List.drop_zero]
  rfl

/-- **The matrices of all pairs of two lists** have rows that are all of one length. -/
theorem assignments?_table {γ δ : Type} (cell : γ → δ → List (Mapping α)) (ts : List γ) (fs : List δ)
    (base : List (Mapping α)) :
    assignments? base (ts.map fun t => fs.map (cell t)) =
      some (Mapping.assignments base (ts.map fun t => fs.map (cell t))) := by
  apply assignments?_eq
  intro row hrow
  obtain ⟨t, ht, rfl⟩ := List.mem_map.mp hrow
  obtain ⟨first, rest, rfl⟩ := List.exists_cons_of_ne_nil (List.ne_nil_of_mem ht)
  simp

end Columns

end ProofSheet.Places
