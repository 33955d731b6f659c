import ProofSheet.Proofs.Object.Likeness
import ProofSheet.Proofs.Mapping.Agreement

/-!
# Joining mappings, up to likeness

The contents of a joined slot are kept as the first mapping has them, so the order in which mappings
are joined shows in the result. It shows only in what is akin.

* `Mapping.Akin`: the slots of two mappings are filled alike.
* `Mapping.join?_comm`, `Mapping.join?_akin`: **joins in either order, and joins of what is akin, are
  akin.**
* `Mapping.mem_assignments_iff`: **which mappings an assignment of columns to rows gives**, exactly.
-/

namespace ProofSheet.Mapping

open Object (Like)

/-! ## Akin mappings -/

/-- The slots of two mappings are filled by what is akin, or in both by nothing. -/
def Akin (m m' : Mapping Object) : Prop :=
  List.Forall₂ (Option.Rel Object.Akin) m m'

variable {a b c a' b' : Mapping Object}

theorem Akin.left (h : Akin a b) : Akin a a := by
  refine List.forall₂_same.mpr fun slot hslot => ?_
  obtain ⟨slot', _, hrel⟩ := Formula.exists_of_forall₂ h hslot
  cases hrel with
  | none => exact .none
  | some hakin => exact .some ⟨hakin.left, hakin.left, .refl _⟩

theorem akin_replacementFor {letters : List Symbol} (h : Akin a b) (s : Symbol) :
    Option.Rel Object.Akin (replacementFor letters a s) (replacementFor letters b s) := by
  induction letters generalizing a b with
  | nil => cases h <;> exact .none
  | cons l letters ih =>
    cases h with
    | nil => exact .none
    | cons hrel hrest =>
      rw [replacementFor, replacementFor]
      split
      · exact hrel
      · exact ih hrest

theorem akin_unfilled (count : Nat) : Akin (unfilled count) (unfilled count) :=
  List.forall₂_same.mpr fun _ hslot => by
    cases List.eq_of_mem_replicate hslot
    exact .none

theorem akin_filledAt {count index : Nat} {f g : Object} (h : Object.Akin f g) :
    Akin (filledAt count index f) (filledAt count index g) := by
  rw [Akin, filledAt, filledAt, List.forall₂_iff_get]
  refine ⟨by simp, fun i hi hi' => ?_⟩
  simp only [List.get_eq_getElem, List.getElem_set]
  split
  · exact .some h
  · simp only [unfilled, List.getElem_replicate]
    exact .none

/-! ## Joins -/

theorem joinSlot?_some {f g : Object} {u : Option Object} :
    joinSlot? (some f) (some g) = some u ↔ Like f g ∧ u = some f.core := by
  rw [joinSlot?, Option.ite_none_right_eq_some, Option.some.injEq, eq_comm (a := u),
    Object.compatible_iff]
  rfl

theorem joinSlot?_akin {s t s' t' u : Option Object} (hs : Option.Rel Object.Akin s s')
    (ht : Option.Rel Object.Akin t t') (h : joinSlot? s t = some u) :
    ∃ u', joinSlot? s' t' = some u' ∧ Option.Rel Object.Akin u u' := by
  cases hs with
  | none =>
    cases h
    exact ⟨t', rfl, ht⟩
  | some hf =>
    cases ht with
    | none =>
      cases h
      exact ⟨_, rfl, .some hf⟩
    | some hg =>
      obtain ⟨hlike, rfl⟩ := joinSlot?_some.mp h
      have hlike' := (hf.like.symm.trans hlike).trans hg.like
      refine ⟨_, joinSlot?_some.mpr ⟨hlike', rfl⟩, .some ?_⟩
      rw [hf.left, hf.right]
      exact hf

theorem joinSlot?_comm {s t u : Option Object} (hs : Option.Rel Object.Akin s s)
    (ht : Option.Rel Object.Akin t t) (h : joinSlot? s t = some u) :
    ∃ u', joinSlot? t s = some u' ∧ Option.Rel Object.Akin u u' := by
  cases hs with
  | none =>
    cases h
    exact ⟨t, by cases t <;> rfl, ht⟩
  | some hf =>
    cases ht with
    | none =>
      cases h
      exact ⟨_, rfl, .some hf⟩
    | some hg =>
      -- each order keeps the content of its own first mapping
      obtain ⟨hlike, rfl⟩ := joinSlot?_some.mp h
      refine ⟨_, joinSlot?_some.mpr ⟨hlike.symm, rfl⟩, .some ?_⟩
      rw [hf.left, hg.left]
      exact ⟨hf.left, hg.left, hlike⟩

/-- **Joins of what is akin are akin.** -/
theorem join?_akin (ha : Akin a a') (hb : Akin b b') (h : join? a b = some c) :
    ∃ c', join? a' b' = some c' ∧ Akin c c' := by
  induction ha generalizing b b' c with
  | nil =>
    cases h
    exact ⟨[], rfl, .nil⟩
  | cons hs _ ih =>
    cases hb with
    | nil =>
      cases h
      exact ⟨[], rfl, .nil⟩
    | cons ht hrest =>
      obtain ⟨slot, rest, hslot, hjoin, rfl⟩ := join?_cons_eq_some.mp h
      obtain ⟨slot', hslot', hrel⟩ := joinSlot?_akin hs ht hslot
      obtain ⟨rest', hjoin', hakin⟩ := ih hrest hjoin
      exact ⟨slot' :: rest', join?_cons_eq_some.mpr ⟨slot', rest', hslot', hjoin', rfl⟩,
        .cons hrel hakin⟩

/-- **Joins in either order are akin.** -/
theorem join?_comm (ha : Akin a a) (hb : Akin b b) (h : join? a b = some c) :
    ∃ c', join? b a = some c' ∧ Akin c c' := by
  induction a generalizing b c with
  | nil =>
    cases b <;> cases h <;> exact ⟨[], rfl, .nil⟩
  | cons s a ih =>
    cases b with
    | nil =>
      cases h
      exact ⟨[], rfl, .nil⟩
    | cons t b =>
      obtain ⟨slot, rest, hslot, hjoin, rfl⟩ := join?_cons_eq_some.mp h
      rw [Akin, List.forall₂_cons] at ha hb
      obtain ⟨slot', hslot', hrel⟩ := joinSlot?_comm ha.1 hb.1 hslot
      obtain ⟨rest', hjoin', hakin⟩ := ih ha.2 hb.2 hjoin
      exact ⟨slot' :: rest', join?_cons_eq_some.mpr ⟨slot', rest', hslot', hjoin', rfl⟩,
        .cons hrel hakin⟩

/-- Where each mapping has one akin to it on the other side, so has each join. -/
theorem exists_akin_joinAll {as bs as' bs' : List (Mapping Object)} {m : Mapping Object}
    (has : ∀ a ∈ as, ∃ a' ∈ as', Akin a a') (hbs : ∀ b ∈ bs, ∃ b' ∈ bs', Akin b b')
    (hm : m ∈ joinAll as bs) : ∃ n ∈ joinAll as' bs', Akin m n := by
  obtain ⟨a, ha, b, hb, hjoin⟩ := mem_joinAll.mp hm
  obtain ⟨a', ha', haa⟩ := has a ha
  obtain ⟨b', hb', hbb⟩ := hbs b hb
  obtain ⟨n, hn, hmn⟩ := join?_akin haa hbb hjoin
  exact ⟨n, mem_joinAll.mpr ⟨a', ha', b', hb', hn⟩, hmn⟩

/-- Each join has one akin to it in the other order. -/
theorem exists_akin_joinAll_comm {as bs : List (Mapping Object)} {m : Mapping Object}
    (has : ∀ a ∈ as, Akin a a) (hbs : ∀ b ∈ bs, Akin b b) (hm : m ∈ joinAll as bs) :
    ∃ n ∈ joinAll bs as, Akin m n := by
  obtain ⟨a, ha, b, hb, hjoin⟩ := mem_joinAll.mp hm
  obtain ⟨n, hn, hmn⟩ := join?_comm (has a ha) (hbs b hb) hjoin
  exact ⟨n, mem_joinAll.mpr ⟨b, hb, a, ha, hn⟩, hmn⟩

/-! ## Assignments, exactly -/

section Exact

variable {α : Type}

/-- Members of a list are taken at most once each if they have places of their own. -/
theorem subperm_iff_columns {φ : Type} {picks fs : List φ} :
    picks.Subperm fs ↔ ∃ columns : List Nat, columns.Nodup ∧
      List.Forall₂ (fun pick column => fs[column]? = some pick) picks columns := by
  constructor
  · rintro ⟨taken, hperm, hsub⟩
    -- the members with their places: what is taken from them in order, and then reordered
    rw [← List.zipIdx_map_fst 0 fs, List.sublist_map_iff] at hsub
    obtain ⟨places, hplaces, rfl⟩ := hsub
    have hfst : List.Forall₂ (fun pick place => fs[place.2]? = some pick) (places.map Prod.fst)
        places := by
      rw [List.forall₂_map_left_iff, List.forall₂_same]
      exact fun place hplace => List.mem_zipIdx_iff_getElem?.mp (hplaces.subset hplace)
    obtain ⟨ordered, hordered, hperm'⟩ := List.perm_comp_forall₂ hperm.symm hfst
    have hnodup : (places.map Prod.snd).Nodup := by
      have hall : (fs.zipIdx.map Prod.snd).Nodup := by
        rw [List.zipIdx_map_snd]
        exact List.nodup_range'
      exact hall.sublist (hplaces.map Prod.snd)
    exact ⟨ordered.map Prod.snd, (hperm'.map Prod.snd).nodup_iff.mpr hnodup,
      List.forall₂_map_right_iff.mpr hordered⟩
  · rintro ⟨columns, hnodup, hcolumns⟩
    have hlength := hcolumns.length_eq
    have hplaces : (picks.zip columns).Subperm fs.zipIdx := by
      refine List.subperm_of_subset (List.Nodup.of_map Prod.snd ?_) fun place hplace => ?_
      · rwa [List.map_snd_zip (by omega)]
      · exact List.mem_zipIdx_iff_getElem?.mpr (List.forall₂_zip hcolumns hplace)
    obtain ⟨places, hperm, hsub⟩ := hplaces
    refine ⟨places.map Prod.fst, ?_, ?_⟩
    · have hfst := hperm.map Prod.fst
      rwa [List.map_fst_zip (by omega)] at hfst
    · have hfst := hsub.map Prod.fst
      rwa [List.zipIdx_map_fst] at hfst

/-- Cells chosen by their columns are cells of the members in those columns. -/
theorem exists_members {τ φ : Type} {ts : List τ} {fs : List φ} {cell : τ → φ → List (Mapping α)}
    {places : List (Nat × Mapping α)}
    (h : List.Forall₂ (fun row place => ∃ ms, row[place.1]? = some ms ∧ place.2 ∈ ms)
      (ts.map fun t => fs.map (cell t)) places) :
    ∃ picks : List (φ × Mapping α), List.Forall₂ (fun t pick => pick.2 ∈ cell t pick.1) ts picks ∧
      List.Forall₂ (fun f column => fs[column]? = some f) (picks.map Prod.fst) (places.map Prod.fst) ∧
      picks.map Prod.snd = places.map Prod.snd := by
  rw [List.forall₂_map_left_iff] at h
  induction h with
  | nil => exact ⟨[], .nil, .nil, rfl⟩
  | @cons t place ts places hplace _ ih =>
    obtain ⟨ms, hms, hmem⟩ := hplace
    rw [List.getElem?_map, Option.map_eq_some_iff] at hms
    obtain ⟨f, hf, rfl⟩ := hms
    obtain ⟨picks, hpicks, hcolumns, hsnd⟩ := ih
    exact ⟨(f, place.2) :: picks, .cons hmem hpicks, .cons hf hcolumns, by simp [hsnd]⟩

/-- Members that have columns have cells in those columns. -/
theorem exists_places {τ φ : Type} {ts : List τ} {fs : List φ} {cell : τ → φ → List (Mapping α)}
    {picks : List (φ × Mapping α)} {columns : List Nat}
    (hpicks : List.Forall₂ (fun t pick => pick.2 ∈ cell t pick.1) ts picks)
    (hcolumns : List.Forall₂ (fun f column => fs[column]? = some f) (picks.map Prod.fst) columns) :
    ∃ places : List (Nat × Mapping α), places.map Prod.fst = columns ∧
      places.map Prod.snd = picks.map Prod.snd ∧
      List.Forall₂ (fun row place => ∃ ms, row[place.1]? = some ms ∧ place.2 ∈ ms)
        (ts.map fun t => fs.map (cell t)) places := by
  induction hpicks generalizing columns with
  | nil =>
    cases hcolumns
    exact ⟨[], rfl, rfl, .nil⟩
  | @cons t pick ts picks hpick _ ih =>
    cases hcolumns with
    | @cons _ column _ columns hcolumn hcolumns =>
      obtain ⟨places, hfst, hsnd, hcells⟩ := ih hcolumns
      refine ⟨(column, pick.2) :: places, by simp [hfst], by simp [hsnd], .cons ?_ hcells⟩
      exact ⟨cell t pick.1, by simp [hcolumn], hpick⟩

variable [Slot α]

/-- Mappings joined onto a first one, in order. -/
def joins? (first : Mapping α) (ms : List (Mapping α)) : Option (Mapping α) :=
  ms.foldlM join? first

theorem joins?_cons_eq_some {first m n : Mapping α} {ms : List (Mapping α)} :
    joins? first (m :: ms) = some n ↔ ∃ next, join? first m = some next ∧ joins? next ms = some n := by
  rw [joins?, List.foldlM_cons, Option.bind_eq_bind, Option.bind_eq_some_iff]
  rfl

/-- A column of its own is chosen for each row, and a mapping from the cell there. -/
theorem mem_assignFrom_iff {rows : Matrix α} {m : Mapping α} :
    ∀ {current : List (Mapping α)} {claimed : List Nat},
      m ∈ assignFrom current claimed rows ↔
        ∃ first ∈ current, ∃ picks : List (Nat × Mapping α), (picks.map Prod.fst).Nodup ∧
          (∀ pick ∈ picks, pick.1 ∉ claimed) ∧
          List.Forall₂ (fun row pick => ∃ cell, row[pick.1]? = some cell ∧ pick.2 ∈ cell) rows picks ∧
          joins? first (picks.map Prod.snd) = some m := by
  induction rows with
  | nil =>
    intro current claimed
    rw [assignFrom]
    constructor
    · intro hm
      exact ⟨m, hm, [], by simp, by simp, .nil, rfl⟩
    · rintro ⟨first, hfirst, picks, -, -, hpicks, hjoins⟩
      cases hpicks
      cases hjoins
      exact hfirst
  | cons row rows ih =>
    intro current claimed
    constructor
    · intro hm
      obtain ⟨cell, column, hcell, hfree, hm⟩ := mem_assignFrom_cons hm
      obtain ⟨next, hnext, picks, hnodup, hnew, hpicks, hjoins⟩ := ih.mp hm
      obtain ⟨first, hfirst, x, hx, hjoin⟩ := mem_joinAll.mp hnext
      refine ⟨first, hfirst, (column, x) :: picks, ?_, ?_, .cons ⟨cell, hcell, hx⟩ hpicks, ?_⟩
      · refine List.nodup_cons.mpr ⟨fun hmem => ?_, hnodup⟩
        obtain ⟨pick, hpick, heq⟩ := List.mem_map.mp hmem
        exact hnew pick hpick (heq ▸ List.mem_cons_self)
      · refine List.forall_mem_cons.mpr ⟨hfree, fun pick hpick hclaimed => ?_⟩
        exact hnew pick hpick (List.mem_cons_of_mem _ hclaimed)
      · exact joins?_cons_eq_some.mpr ⟨next, hjoin, hjoins⟩
    · rintro ⟨first, hfirst, picks, hnodup, hnew, hpicks, hjoins⟩
      cases hpicks with
      | @cons _ pick _ picks hpick hpicks =>
        obtain ⟨column, x⟩ := pick
        obtain ⟨cell, hcell, hx⟩ := hpick
        obtain ⟨next, hjoin, hjoins⟩ := joins?_cons_eq_some.mp hjoins
        rw [List.map_cons, List.nodup_cons] at hnodup
        rw [List.forall_mem_cons] at hnew
        have hnext : next ∈ joinAll current cell := mem_joinAll.mpr ⟨first, hfirst, x, hx, hjoin⟩
        have hm : m ∈ assignFrom (joinAll current cell) (column :: claimed) rows := by
          refine ih.mpr ⟨next, hnext, picks, hnodup.2, fun pick hpick => ?_, hpicks, hjoins⟩
          rw [List.mem_cons, not_or]
          refine ⟨fun heq => hnodup.1 ?_, hnew.2 pick hpick⟩
          exact List.mem_map.mpr ⟨pick, hpick, heq⟩
        rw [assignFrom, if_neg (by simpa using List.ne_nil_of_mem hfirst)]
        refine List.mem_flatMap.mpr ⟨(cell, column), List.mem_zipIdx_iff_getElem?.mpr hcell, ?_⟩
        have hfree : ¬ (claimed.contains column || cell.isEmpty) = true := by
          simpa [hnew.1] using List.ne_nil_of_mem hx
        simp only [hfree]
        exact hm

/-- **Which mappings an assignment gives**: each row takes a member of its own, and a mapping from
the cell there is joined onto a base mapping. -/
theorem mem_assignments_iff {τ φ : Type} {ts : List τ} {fs : List φ}
    {cell : τ → φ → List (Mapping α)} {base : List (Mapping α)} {m : Mapping α} :
    m ∈ assignments base (ts.map fun t => fs.map (cell t)) ↔
      ∃ first ∈ base, ∃ picks : List (φ × Mapping α), (picks.map Prod.fst).Subperm fs ∧
        List.Forall₂ (fun t pick => pick.2 ∈ cell t pick.1) ts picks ∧
        joins? first (picks.map Prod.snd) = some m := by
  rw [assignments, mem_assignFrom_iff]
  refine exists_congr fun first => and_congr_right fun _ => ?_
  constructor
  · rintro ⟨places, hnodup, -, hcells, hjoins⟩
    obtain ⟨picks, hpicks, hcolumns, hsnd⟩ := exists_members hcells
    exact ⟨picks, subperm_iff_columns.mpr ⟨_, hnodup, hcolumns⟩, hpicks, hsnd ▸ hjoins⟩
  · rintro ⟨picks, hsub, hpicks, hjoins⟩
    obtain ⟨columns, hnodup, hcolumns⟩ := subperm_iff_columns.mp hsub
    obtain ⟨places, hfst, hsnd, hcells⟩ := exists_places hpicks hcolumns
    exact ⟨places, hfst ▸ hnodup, by simp, hcells, hsnd ▸ hjoins⟩

end Exact

theorem joins?_akin {first first' m : Mapping Object} {ms ms' : List (Mapping Object)}
    (hfirst : Akin first first') (hms : List.Forall₂ Akin ms ms') (h : joins? first ms = some m) :
    ∃ m', joins? first' ms' = some m' ∧ Akin m m' := by
  induction hms generalizing first first' with
  | nil =>
    cases h
    exact ⟨first', rfl, hfirst⟩
  | cons hm _ ih =>
    obtain ⟨next, hnext, hjoins⟩ := joins?_cons_eq_some.mp h
    obtain ⟨next', hnext', hakin⟩ := join?_akin hfirst hm hnext
    obtain ⟨m', hm', hakin'⟩ := ih hakin hjoins
    exact ⟨m', joins?_cons_eq_some.mpr ⟨next', hnext', hm'⟩, hakin'⟩

end ProofSheet.Mapping
