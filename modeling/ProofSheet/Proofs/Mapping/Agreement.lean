import Mathlib.Data.List.Forall2
import Mathlib.Data.List.Nodup
import Mathlib.Data.List.Perm.Subperm
import ProofSheet.Mapping.Basic

/-!
# What a joined mapping says of its parts

A mapping is read against a condition on the contents of each slot. A condition that survives the
joining of slots can be read backwards, from a mapping to all the mappings it was joined from.

* `Mapping.Agrees`, `Mapping.Stable`: a mapping meets a condition; a condition survives joining.
* `Mapping.join?_agrees`: what a join meets, both its parts meet.
* `Mapping.assignments_agrees`: **what an assignment meets, its base and every chosen cell meet**,
  and the chosen columns are distinct.
* `Mapping.Kept`, `Mapping.agrees_assignments`: the other way, what a base and all cells meet, every
  assignment meets.
-/

namespace ProofSheet.Mapping

variable {α : Type} {admits : Nat → α → Prop}

/-- Whatever fills a slot is admitted there. -/
def Agrees (admits : Nat → α → Prop) (m : Mapping α) : Prop :=
  ∀ k e, m[k]? = some (some e) → admits k e

theorem agrees_cons {slot : Option α} {m : Mapping α} :
    Agrees admits (slot :: m) ↔
      (∀ e, slot = some e → admits 0 e) ∧ Agrees (fun k => admits (k + 1)) m := by
  constructor
  · intro h
    exact ⟨fun e he => h 0 e (by simp [he]), fun k e he => h (k + 1) e (by simpa using he)⟩
  · rintro ⟨h0, hm⟩ k e he
    cases k with
    | zero => exact h0 e (by simpa using he)
    | succ k => exact hm k e (by simpa using he)

theorem Agrees.mono {admits' : Nat → α → Prop} {m : Mapping α} (h : Agrees admits m)
    (himp : ∀ k e, admits k e → admits' k e) : Agrees admits' m :=
  fun k e he => himp k e (h k e he)

@[simp] theorem length_unfilled (count : Nat) : (unfilled count : Mapping α).length = count := by
  simp [unfilled]

@[simp] theorem length_filledAt (count index : Nat) (content : α) :
    (filledAt count index content).length = count := by
  simp [filledAt]

/-- The one slot that is filled is admitted. -/
theorem agrees_filledAt {count index : Nat} {content : α}
    (h : index < count) (hm : Agrees admits (filledAt count index content)) :
    admits index content := by
  apply hm index content
  rw [filledAt, List.getElem?_set_self (by simpa using h)]

theorem agrees_unfilled (count : Nat) : Agrees admits (unfilled count) := by
  intro k e he
  simp [unfilled, List.getElem?_replicate] at he

theorem agrees_filledAt_of {count index : Nat} {content : α} (h : admits index content) :
    Agrees admits (filledAt count index content) := by
  intro k e he
  rw [filledAt, List.getElem?_set] at he
  split at he
  · rename_i hk
    subst hk
    have he' : content = e := by grind
    exact he' ▸ h
  · exact agrees_unfilled count k e he

/-- All mappings of a list have `n` slots. -/
def Sized (n : Nat) (ms : List (Mapping α)) : Prop :=
  ∀ m ∈ ms, m.length = n

/-- The cells chosen in a table of rows and columns pick distinct columns. -/
theorem exists_picks {τ φ : Type} {cell : τ → φ → List (Mapping α)} {fs : List φ} :
    ∀ {ts : List τ} {columns : List Nat}, columns.Nodup →
      List.Forall₂ (fun row c => ∃ ms, row[c]? = some ms ∧ ∃ x ∈ ms, Agrees admits x)
        (ts.map fun t => fs.map (cell t)) columns →
      ∃ picks : List (φ × Nat), picks.map Prod.snd = columns ∧ (∀ p ∈ picks, p ∈ fs.zipIdx) ∧
        List.Forall₂ (fun t p => ∃ x ∈ cell t p.1, Agrees admits x) ts picks
  | [], columns, _, h => by
    have : columns = [] := by simpa using h
    exact ⟨[], by simp [this], by simp, List.Forall₂.nil⟩
  | t :: ts, columns, hnodup, h => by
    rw [List.map_cons, List.forall₂_cons_left_iff] at h
    obtain ⟨c, rest, ⟨ms, hms, hx⟩, hrest, rfl⟩ := h
    rw [List.getElem?_map, Option.map_eq_some_iff] at hms
    obtain ⟨f, hf, rfl⟩ := hms
    obtain ⟨picks, hsnd, hmem, hpicks⟩ := exists_picks (List.nodup_cons.mp hnodup).2 hrest
    refine ⟨(f, c) :: picks, by simp [hsnd], ?_, List.Forall₂.cons hx hpicks⟩
    intro p hp
    rcases List.mem_cons.mp hp with rfl | hp
    · exact List.mk_mem_zipIdx_iff_getElem?.mpr hf
    · exact hmem p hp

/-- The cells of a table are those of its rows and columns. -/
theorem forall_cells {P : List (Mapping α) → Prop} {τ φ : Type} {ts : List τ} {fs : List φ}
    {cell : τ → φ → List (Mapping α)} (h : ∀ t ∈ ts, ∀ f ∈ fs, P (cell t f)) :
    ∀ row ∈ ts.map (fun t => fs.map (cell t)), ∀ ms ∈ row, P ms := by
  intro row hrow ms hms
  obtain ⟨t, ht, rfl⟩ := List.mem_map.mp hrow
  obtain ⟨f, hf, rfl⟩ := List.mem_map.mp hms
  exact h t ht f hf

section Slots

variable [Slot α]

/-- A condition that holds of what is kept of two compatible contents holds of both. -/
def Stable (admits : Nat → α → Prop) : Prop :=
  ∀ k a b, Slot.compatible a b = true → admits k (Slot.kept a) → admits k a ∧ admits k b

theorem joinSlot?_agrees (hst : Stable admits) {k : Nat} {a b c : Option α}
    (h : joinSlot? a b = some c) (hc : ∀ e, c = some e → admits k e) :
    (∀ e, a = some e → admits k e) ∧ ∀ e, b = some e → admits k e := by
  cases a with
  | none =>
    simp only [joinSlot?, Option.some.injEq] at h
    subst h
    exact ⟨fun e he => by simp at he, hc⟩
  | some a =>
    cases b with
    | none =>
      simp only [joinSlot?, Option.some.injEq] at h
      subst h
      exact ⟨hc, fun e he => by simp at he⟩
    | some b =>
      simp only [joinSlot?] at h
      split at h
      · rename_i hab
        simp only [Option.some.injEq] at h
        obtain ⟨ha, hb⟩ := hst k a b hab (hc _ h.symm)
        exact ⟨fun e he => by cases he; exact ha, fun e he => by cases he; exact hb⟩
      · simp at h

/-- Mappings are joined slot by slot. -/
theorem join?_cons_eq_some {s t : Option α} {a b c : Mapping α} :
    join? (s :: a) (t :: b) = some c ↔
      ∃ slot rest, joinSlot? s t = some slot ∧ join? a b = some rest ∧ c = slot :: rest := by
  rw [join?]
  cases joinSlot? s t with
  | none => simp
  | some slot =>
    simp only [Option.map_eq_some_iff]
    constructor
    · rintro ⟨rest, hrest, rfl⟩
      exact ⟨slot, rest, rfl, hrest, rfl⟩
    · rintro ⟨_, rest, ⟨rfl⟩, hrest, rfl⟩
      exact ⟨rest, hrest, rfl⟩

theorem length_join? : ∀ {a b c : Mapping α}, a.length = b.length → join? a b = some c →
    c.length = a.length
  | [], _, c, _, h => by simp [join?] at h; simp [h]
  | _ :: _, [], _, hlen, _ => by simp at hlen
  | s :: a, t :: b, c, hlen, h => by
    obtain ⟨slot, rest, -, hrest, rfl⟩ := join?_cons_eq_some.mp h
    simp [length_join? (by simpa using hlen) hrest]

/-- **What a join meets, both its parts meet.** -/
theorem join?_agrees (hst : Stable admits) {a b c : Mapping α} (hlen : a.length = b.length)
    (h : join? a b = some c) (hc : Agrees admits c) : Agrees admits a ∧ Agrees admits b := by
  induction a generalizing admits b c with
  | nil =>
    have hb : b = [] := List.length_eq_zero_iff.mp hlen.symm
    subst hb
    exact ⟨fun k e he => by simp at he, fun k e he => by simp at he⟩
  | cons s a ih =>
    cases b with
    | nil => simp at hlen
    | cons t b =>
      obtain ⟨slot, rest, hs, hrest, rfl⟩ := join?_cons_eq_some.mp h
      rw [agrees_cons] at hc
      obtain ⟨hs1, ht1⟩ := joinSlot?_agrees hst hs hc.1
      obtain ⟨ha, hb⟩ := ih (fun k => hst (k + 1)) (by simpa using hlen) hrest hc.2
      exact ⟨agrees_cons.mpr ⟨hs1, ha⟩, agrees_cons.mpr ⟨ht1, hb⟩⟩

theorem mem_joinAll {as bs : List (Mapping α)} {c : Mapping α} :
    c ∈ joinAll as bs ↔ ∃ a ∈ as, ∃ b ∈ bs, join? a b = some c := by
  simp [joinAll]

theorem sized_joinAll {n : Nat} {as bs : List (Mapping α)} (ha : Sized n as) (hb : Sized n bs) :
    Sized n (joinAll as bs) := by
  intro c hc
  obtain ⟨a, hmem, b, hmem', h⟩ := mem_joinAll.mp hc
  rw [length_join? ((ha a hmem).trans (hb b hmem').symm) h, ha a hmem]

theorem joinAll_agrees (hst : Stable admits) {n : Nat} {as bs : List (Mapping α)}
    (ha : Sized n as) (hb : Sized n bs) {c : Mapping α} (hc : c ∈ joinAll as bs)
    (hagree : Agrees admits c) : (∃ a ∈ as, Agrees admits a) ∧ ∃ b ∈ bs, Agrees admits b := by
  obtain ⟨a, hmem, b, hmem', h⟩ := mem_joinAll.mp hc
  obtain ⟨h1, h2⟩ := join?_agrees hst ((ha a hmem).trans (hb b hmem').symm) h hagree
  exact ⟨⟨a, hmem, h1⟩, ⟨b, hmem', h2⟩⟩

/-! ## Assignments -/

/-- The choice of a column for the first row. -/
theorem mem_assignFrom_cons {current : List (Mapping α)} {claimed : List Nat}
    {row : List (List (Mapping α))} {rows : Matrix α} {m : Mapping α}
    (h : m ∈ assignFrom current claimed (row :: rows)) :
    ∃ cell column, row[column]? = some cell ∧ column ∉ claimed ∧
      m ∈ assignFrom (joinAll current cell) (column :: claimed) rows := by
  rw [assignFrom] at h
  split at h
  · rename_i hempty
    rw [List.isEmpty_iff.mp hempty] at h
    simp at h
  · obtain ⟨⟨cell, column⟩, hmem, h⟩ := List.mem_flatMap.mp h
    simp only at h
    split at h
    · simp at h
    · rename_i hfree
      simp only [Bool.or_eq_true, List.contains_iff_mem, not_or] at hfree
      exact ⟨cell, column, List.mem_zipIdx_iff_getElem?.mp hmem, hfree.1, h⟩

theorem sized_assignFrom {n : Nat} {rows : Matrix α} : ∀ {current : List (Mapping α)}
    {claimed : List Nat}, Sized n current → (∀ row ∈ rows, ∀ cell ∈ row, Sized n cell) →
      Sized n (assignFrom current claimed rows) := by
  induction rows with
  | nil => intro current claimed hcur _; exact hcur
  | cons row rows ih =>
    intro current claimed hcur hrows m hm
    obtain ⟨cell, column, hcell, -, hm⟩ := mem_assignFrom_cons hm
    have hsized := hrows row List.mem_cons_self cell (List.mem_of_getElem? hcell)
    exact ih (sized_joinAll hcur hsized) (fun r hr => hrows r (List.mem_cons_of_mem row hr)) m hm

/-- What an assignment meets, a base mapping meets, and so does a mapping in each chosen cell. -/
theorem assignFrom_agrees (hst : Stable admits) {n : Nat} {rows : Matrix α} {m : Mapping α}
    (hagree : Agrees admits m) : ∀ {current : List (Mapping α)} {claimed : List Nat},
      Sized n current → (∀ row ∈ rows, ∀ cell ∈ row, Sized n cell) →
      m ∈ assignFrom current claimed rows →
      (∃ b ∈ current, Agrees admits b) ∧
        ∃ columns : List Nat, columns.Nodup ∧ (∀ c ∈ columns, c ∉ claimed) ∧
          List.Forall₂ (fun row c => ∃ cell, row[c]? = some cell ∧ ∃ x ∈ cell, Agrees admits x)
            rows columns := by
  induction rows with
  | nil =>
    intro current claimed _ _ hm
    rw [assignFrom] at hm
    exact ⟨⟨m, hm, hagree⟩, [], List.nodup_nil, by simp, List.Forall₂.nil⟩
  | cons row rows ih =>
    intro current claimed hcur hrows hm
    obtain ⟨cell, column, hcell, hfree, hm⟩ := mem_assignFrom_cons hm
    have hsized := hrows row List.mem_cons_self cell (List.mem_of_getElem? hcell)
    obtain ⟨⟨b, hb, hbagree⟩, columns, hnodup, hnew, hcolumns⟩ :=
      ih (sized_joinAll hcur hsized) (fun r hr => hrows r (List.mem_cons_of_mem row hr)) hm
    obtain ⟨hbase, hx⟩ := joinAll_agrees hst hcur hsized hb hbagree
    refine ⟨hbase, column :: columns, ?_, ?_, List.Forall₂.cons ⟨cell, hcell, hx⟩ hcolumns⟩
    · exact List.nodup_cons.mpr ⟨fun hc => hnew column hc List.mem_cons_self, hnodup⟩
    · intro c hc
      rcases List.mem_cons.mp hc with rfl | hc
      · exact hfree
      · exact fun h => hnew c hc (List.mem_cons_of_mem column h)

/-- **What an assignment meets, its base and every chosen cell meet.** The rows are the members of
one list and the columns those of another; each row is given a member of its own. -/
theorem assignments_agrees (hst : Stable admits) {n : Nat} {τ φ : Type} {ts : List τ} {fs : List φ}
    {cell : τ → φ → List (Mapping α)} {base : List (Mapping α)} (hbase : Sized n base)
    (hcell : ∀ t ∈ ts, ∀ f ∈ fs, Sized n (cell t f)) {m : Mapping α}
    (hm : m ∈ assignments base (ts.map fun t => fs.map (cell t))) (hagree : Agrees admits m) :
    (∃ b ∈ base, Agrees admits b) ∧ ∃ picks : List φ, picks.Subperm fs ∧
      List.Forall₂ (fun t f => ∃ x ∈ cell t f, Agrees admits x) ts picks := by
  obtain ⟨hb, columns, hnodup, -, hcolumns⟩ :=
    assignFrom_agrees hst hagree hbase (forall_cells hcell) hm
  -- distinct columns are distinct places in `fs`, so its members are picked at most once each
  obtain ⟨picks, hsnd, hmem, hpicks⟩ := exists_picks hnodup hcolumns
  obtain ⟨perm, hperm, hsub⟩ : picks.Subperm fs.zipIdx :=
    List.subperm_of_subset (List.Nodup.of_map Prod.snd (hsnd ▸ hnodup)) hmem
  refine ⟨hb, picks.map Prod.fst, ⟨perm.map Prod.fst, hperm.map Prod.fst, ?_⟩, ?_⟩
  · have := hsub.map Prod.fst
    rwa [List.zipIdx_map_fst] at this
  · exact List.forall₂_map_right_iff.mpr hpicks

/-! ## The other way -/

/-- A condition on contents that what is kept of them still meets. -/
def Kept (admits : Nat → α → Prop) : Prop :=
  ∀ k a, admits k a → admits k (Slot.kept a)

theorem agrees_join? (hk : Kept admits) {a b c : Mapping α} (ha : Agrees admits a)
    (hb : Agrees admits b) (h : join? a b = some c) : Agrees admits c := by
  induction a generalizing admits b c with
  | nil =>
    have hc : c = [] := by simpa [join?] using h.symm
    subst hc
    exact fun k e he => by simp at he
  | cons s a ih =>
    cases b with
    | nil =>
      have hc : c = [] := by simpa [join?] using h.symm
      subst hc
      exact fun k e he => by simp at he
    | cons t b =>
      rw [agrees_cons] at ha hb
      obtain ⟨slot, rest, hs, hrest, rfl⟩ := join?_cons_eq_some.mp h
      refine agrees_cons.mpr ⟨?_, ih (fun k => hk (k + 1)) ha.2 hb.2 hrest⟩
      rintro e rfl
      -- the joined slot is one of the two, or what is kept of the first
      cases s <;> cases t <;> simp only [joinSlot?] at hs <;> grind [Kept]

theorem agrees_joinAll (hk : Kept admits) {as bs : List (Mapping α)}
    (ha : ∀ a ∈ as, Agrees admits a) (hb : ∀ b ∈ bs, Agrees admits b) :
    ∀ c ∈ joinAll as bs, Agrees admits c := by
  intro c hc
  obtain ⟨a, hmem, b, hmem', h⟩ := mem_joinAll.mp hc
  exact agrees_join? hk (ha a hmem) (hb b hmem') h

/-- **What a base and all cells meet, every assignment meets.** -/
theorem agrees_assignFrom (hk : Kept admits) {rows : Matrix α} : ∀ {current : List (Mapping α)}
    {claimed : List Nat}, (∀ a ∈ current, Agrees admits a) →
      (∀ row ∈ rows, ∀ cell ∈ row, ∀ x ∈ cell, Agrees admits x) →
      ∀ m ∈ assignFrom current claimed rows, Agrees admits m := by
  induction rows with
  | nil => intro current claimed hcur _ m hm; exact hcur m hm
  | cons row rows ih =>
    intro current claimed hcur hrows m hm
    obtain ⟨cell, column, hcell, -, hm⟩ := mem_assignFrom_cons hm
    have hx := hrows row List.mem_cons_self cell (List.mem_of_getElem? hcell)
    have hjoin := agrees_joinAll hk hcur hx
    exact ih hjoin (fun r hr => hrows r (List.mem_cons_of_mem row hr)) m hm

theorem agrees_assignments (hk : Kept admits) {τ φ : Type} {ts : List τ} {fs : List φ}
    {cell : τ → φ → List (Mapping α)} {base : List (Mapping α)}
    (hbase : ∀ b ∈ base, Agrees admits b)
    (hcell : ∀ t ∈ ts, ∀ f ∈ fs, ∀ x ∈ cell t f, Agrees admits x) :
    ∀ m ∈ assignments base (ts.map fun t => fs.map (cell t)), Agrees admits m := by
  exact agrees_assignFrom hk hbase (forall_cells hcell)

end Slots

end ProofSheet.Mapping
