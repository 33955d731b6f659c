import ProofSheet.Proofs.Mapping.Alignment
import ProofSheet.Proofs.Mapping.Joining

/-!
# Unions of mappings

A mapping is a partial function from slots to contents. Letters are kept as they are when they meet, so
mappings of letters join to the union of these functions, whenever the union is a function at all.

* `Mapping.IsUnion`: a mapping fills a slot as some of its parts do, and leaves the others empty.
* `Mapping.join?_eq_some_iff`, `Mapping.joins?_eq_some_iff`: **mappings of letters join exactly to
  their union**, two of them or any number.
* `Mapping.mem_assignments_iff_union`: which unions an assignment of columns to rows gives.
-/

namespace ProofSheet.Mapping

section Union

variable {α : Type} {count : Nat} {parts : List (Mapping α)} {m m' a b : Mapping α}

/-- A slot is filled with a content. -/
def Fills (m : Mapping α) (k : Nat) (content : α) : Prop :=
  m[k]? = some (some content)

/-- **The union of mappings.** A slot holds what some part fills it with: parts that fill one slot
agree on it, and a slot that no part fills is empty. -/
structure IsUnion (count : Nat) (parts : List (Mapping α)) (m : Mapping α) : Prop where
  length_eq : m.length = count
  fills_iff : ∀ k e, m.Fills k e ↔ ∃ part ∈ parts, part.Fills k e

theorem Fills.unique {k : Nat} {e e' : α} (h : m.Fills k e) (h' : m.Fills k e') : e = e' := by
  have heq : some (some e) = some (some e') := h.symm.trans h'
  exact Option.some.inj (Option.some.inj heq)

/-- A mapping is known by its length and by what it fills its slots with. -/
theorem eq_of_fills (hlen : m.length = m'.length) (h : ∀ k e, m.Fills k e ↔ m'.Fills k e) :
    m = m' := by
  apply List.ext_getElem? fun k => ?_
  by_cases hk : k < m.length
  · have hk' : k < m'.length := by omega
    have hslot : m[k] = m'[k] := by
      refine Option.ext fun e => ?_
      have hfills := h k e
      rw [Fills, Fills, List.getElem?_eq_getElem hk, List.getElem?_eq_getElem hk'] at hfills
      simpa using hfills
    rw [List.getElem?_eq_getElem hk, List.getElem?_eq_getElem hk', hslot]
  · rw [List.getElem?_eq_none (by omega), List.getElem?_eq_none (by omega)]

theorem not_fills_unfilled {k : Nat} {e : α} : ¬ (unfilled count : Mapping α).Fills k e := by
  intro h
  simp [Fills, unfilled, List.getElem?_replicate] at h

theorem fills_filledAt {index k : Nat} {content e : α} (h : index < count) :
    (filledAt count index content).Fills k e ↔ index = k ∧ e = content := by
  rw [Fills, filledAt, List.getElem?_set]
  by_cases hk : index = k
  · subst hk
    simp [h, eq_comm]
  · rw [if_neg hk]
    exact iff_of_false not_fills_unfilled fun hfills => hk hfills.1

theorem fills_cons_zero {slot : Option α} {e : α} : Fills (slot :: m) 0 e ↔ slot = some e := by
  simp [Fills]

theorem fills_cons_succ {slot : Option α} {k : Nat} {e : α} :
    Fills (slot :: m) (k + 1) e ↔ m.Fills k e := by
  simp [Fills]

/-- Parts that fill one slot of a union agree on it. -/
theorem IsUnion.agree (h : IsUnion count parts m) (ha : a ∈ parts) (hb : b ∈ parts) {k : Nat}
    {e e' : α} (hk : a.Fills k e) (hk' : b.Fills k e') : e = e' := by
  have he : m.Fills k e := (h.fills_iff k e).mpr ⟨a, ha, hk⟩
  have he' : m.Fills k e' := (h.fills_iff k e').mpr ⟨b, hb, hk'⟩
  exact he.unique he'

/-- Only what the parts fill between them matters. -/
theorem isUnion_congr {parts' : List (Mapping α)}
    (h : ∀ k e, (∃ part ∈ parts, part.Fills k e) ↔ ∃ part ∈ parts', part.Fills k e) :
    IsUnion count parts m ↔ IsUnion count parts' m := by
  constructor
  · intro hm
    exact ⟨hm.length_eq, fun k e => (hm.fills_iff k e).trans (h k e)⟩
  · intro hm
    exact ⟨hm.length_eq, fun k e => (hm.fills_iff k e).trans (h k e).symm⟩

theorem isUnion_perm {parts' : List (Mapping α)} (h : parts.Perm parts') :
    IsUnion count parts m ↔ IsUnion count parts' m :=
  isUnion_congr fun k e => by simp only [h.mem_iff]

/-- A part that fills no slot adds nothing. -/
theorem isUnion_unfilled_cons :
    IsUnion count (unfilled count :: parts) m ↔ IsUnion count parts m :=
  isUnion_congr fun k e => by simp [not_fills_unfilled]

theorem isUnion_singleton_iff (ha : a.length = count) : IsUnion count [a] m ↔ m = a := by
  constructor
  · intro h
    exact eq_of_fills (h.length_eq.trans ha.symm) fun k e => by simp [h.fills_iff]
  · rintro rfl
    exact ⟨ha, by simp⟩

/-- The union of two mappings holds what either holds. -/
theorem isUnion_pair_iff : IsUnion count [a, b] m ↔
    m.length = count ∧ ∀ k e, m.Fills k e ↔ a.Fills k e ∨ b.Fills k e := by
  have hparts : ∀ k e, (∃ part ∈ [a, b], part.Fills k e) ↔ a.Fills k e ∨ b.Fills k e := by
    intro k e
    simp
  constructor
  · intro h
    exact ⟨h.length_eq, fun k e => (h.fills_iff k e).trans (hparts k e)⟩
  · rintro ⟨hlen, h⟩
    exact ⟨hlen, fun k e => (h k e).trans (hparts k e).symm⟩

/-- Two mappings that agree have a union. -/
theorem exists_isUnion (ha : a.length = count) (hb : b.length = count)
    (h : ∀ k e e', a.Fills k e → b.Fills k e' → e = e') : ∃ c, IsUnion count [a, b] c := by
  refine ⟨List.zipWith Option.or a b, isUnion_pair_iff.mpr ⟨by simp [ha, hb], fun k e => ?_⟩⟩
  have hslot := h k
  unfold Fills at hslot ⊢
  by_cases hk : k < count
  · have hka : k < a.length := by omega
    have hkb : k < b.length := by omega
    rw [List.getElem?_zipWith, List.getElem?_eq_getElem hka, List.getElem?_eq_getElem hkb] at *
    simp only [Option.some.injEq] at hslot ⊢
    cases ha' : a[k] <;> grind
  · rw [List.getElem?_eq_none (by simp; omega), List.getElem?_eq_none (by omega),
      List.getElem?_eq_none (by omega)]
    simp

/-- **The first two parts may be united first.** -/
theorem isUnion_cons_cons (ha : a.length = count) (hb : b.length = count) :
    IsUnion count (a :: b :: parts) m ↔
      ∃ c, IsUnion count [a, b] c ∧ IsUnion count (c :: parts) m := by
  -- what the union of the first two holds, they hold between them
  have hparts : ∀ {c : Mapping α}, IsUnion count [a, b] c → ∀ k e,
      (∃ part ∈ a :: b :: parts, part.Fills k e) ↔ ∃ part ∈ c :: parts, part.Fills k e := by
    intro c hc k e
    simp only [List.exists_mem_cons_iff, (isUnion_pair_iff.mp hc).2 k e, or_assoc]
  constructor
  · intro h
    have hagree : ∀ k e e', a.Fills k e → b.Fills k e' → e = e' :=
      fun k e e' => h.agree (by simp) (by simp)
    obtain ⟨c, hc⟩ := exists_isUnion ha hb hagree
    exact ⟨c, hc, (isUnion_congr (hparts hc)).mp h⟩
  · rintro ⟨c, hc, h⟩
    exact (isUnion_congr (hparts hc)).mpr h

end Union

/-! ## Joins of letters -/

section Letters

variable {n : Nat} {m first : LetterMapping} {ms : List LetterMapping}

/-- Two slots join to one that holds what either holds. -/
theorem joinSlot?_eq_some_iff {a b c : Option Symbol} :
    joinSlot? a b = some c ↔ ∀ s, c = some s ↔ a = some s ∨ b = some s := by
  cases a with
  | none =>
    simp only [joinSlot?, Option.some.injEq, reduceCtorEq, false_or]
    exact ⟨fun h s => by rw [h], fun h => Option.ext fun s => (h s).symm⟩
  | some a =>
    cases b with
    | none =>
      simp only [joinSlot?, Option.some.injEq, reduceCtorEq, or_false]
      exact ⟨fun h s => by rw [← h, Option.some.injEq], fun h => ((h a).mpr rfl).symm⟩
    | some b =>
      simp only [joinSlot?, Slot.compatible, Slot.kept, beq_iff_eq, Option.some.injEq]
      constructor
      · intro h s
        split at h <;> grind
      · intro h
        have ha : c = some a := (h a).mpr (.inl rfl)
        have hb : c = some b := (h b).mpr (.inr rfl)
        rw [if_pos (Option.some.inj (ha.symm.trans hb)), ha]

/-- **Two mappings of letters join exactly to their union.** -/
theorem join?_eq_some_iff {a b c : LetterMapping} (ha : a.length = n) (hb : b.length = n) :
    join? a b = some c ↔ IsUnion n [a, b] c := by
  rw [isUnion_pair_iff]
  induction a generalizing n b c with
  | nil =>
    obtain rfl : 0 = n := ha
    obtain rfl : b = [] := List.length_eq_zero_iff.mp hb
    constructor
    · intro h
      obtain rfl : [] = c := by simpa [join?] using h
      exact ⟨rfl, by simp⟩
    · rintro ⟨hlength, -⟩
      rw [List.length_eq_zero_iff.mp hlength]
      rfl
  | cons s a ih =>
    cases b with
    | nil => subst hb; simp at ha
    | cons t b =>
      obtain rfl : a.length + 1 = n := ha
      have hlen : b.length = a.length := by simpa using hb
      rw [join?_cons_eq_some]
      constructor
      · rintro ⟨slot, rest, hslot, hrest, rfl⟩
        obtain ⟨hlength, hfills⟩ := (ih rfl hlen).mp hrest
        refine ⟨by simp [hlength], fun k e => ?_⟩
        cases k with
        | zero => simpa only [fills_cons_zero] using joinSlot?_eq_some_iff.mp hslot e
        | succ k => simpa only [fills_cons_succ] using hfills k e
      · rintro ⟨hlength, hfills⟩
        obtain ⟨slot, rest, rfl⟩ := List.exists_cons_of_length_eq_add_one hlength
        refine ⟨slot, rest, joinSlot?_eq_some_iff.mpr fun e => ?_, (ih rfl hlen).mpr ⟨?_, ?_⟩, rfl⟩
        · simpa only [fills_cons_zero] using hfills 0 e
        · simpa using hlength
        · intro k e
          simpa only [fills_cons_succ] using hfills (k + 1) e

/-- **Any number of mappings of letters join exactly to their union.** -/
theorem joins?_eq_some_iff (hms : Sized n ms) (hfirst : first.length = n) :
    joins? first ms = some m ↔ IsUnion n (first :: ms) m := by
  induction ms generalizing first with
  | nil =>
    have hsame : joins? first [] = some first := rfl
    rw [hsame, Option.some.injEq, isUnion_singleton_iff hfirst, eq_comm]
  | cons next ms ih =>
    have hnext : next.length = n := hms next List.mem_cons_self
    have hrest : Sized n ms := fun part hpart => hms part (List.mem_cons_of_mem _ hpart)
    rw [joins?_cons_eq_some, isUnion_cons_cons hfirst hnext]
    refine exists_congr fun c => ?_
    rw [join?_eq_some_iff hfirst hnext]
    exact and_congr_right fun hc => ih hrest hc.length_eq

theorem mem_joined_iff {as bs : List LetterMapping} (ha : Sized n as) (hb : Sized n bs) :
    m ∈ LetterMapping.joined as bs ↔ ∃ a ∈ as, ∃ b ∈ bs, IsUnion n [a, b] m := by
  rw [LetterMapping.mem_joined, mem_joinAll]
  constructor
  · rintro ⟨a, ha', b, hb', hjoin⟩
    exact ⟨a, ha', b, hb', (join?_eq_some_iff (ha a ha') (hb b hb')).mp hjoin⟩
  · rintro ⟨a, ha', b, hb', hunion⟩
    exact ⟨a, ha', b, hb', (join?_eq_some_iff (ha a ha') (hb b hb')).mpr hunion⟩

/-- **Which unions an assignment gives**: each row takes a member of its own, and the mapping from the
cell there is a part of the union, next to a base mapping. -/
theorem mem_assignments_iff_union {τ φ : Type} {ts : List τ} {fs : List φ}
    {cell : τ → φ → List LetterMapping} {base : List LetterMapping} (hbase : Sized n base)
    (hcell : ∀ t ∈ ts, ∀ f ∈ fs, Sized n (cell t f)) :
    m ∈ assignments base (ts.map fun t => fs.map (cell t)) ↔
      ∃ first ∈ base, ∃ picks : List (φ × LetterMapping), (picks.map Prod.fst).Subperm fs ∧
        List.Forall₂ (fun t pick => pick.2 ∈ cell t pick.1) ts picks ∧
        IsUnion n (first :: picks.map Prod.snd) m := by
  rw [mem_assignments_iff]
  refine exists_congr fun first => and_congr_right fun hfirst => exists_congr fun picks => ?_
  refine and_congr_right fun hsub => and_congr_right fun hpicks => ?_
  have hsized : Sized n (picks.map Prod.snd) := by
    intro part hpart
    obtain ⟨pick, hpick, rfl⟩ := List.mem_map.mp hpart
    obtain ⟨t, ht, hmem⟩ := Formula.exists_of_forall₂ hpicks.flip hpick
    have hf : pick.1 ∈ fs := hsub.subset (List.mem_map_of_mem hpick)
    exact hcell t ht pick.1 hf pick.2 hmem
  exact joins?_eq_some_iff hsized (hbase first hfirst)

end Letters

end ProofSheet.Mapping
