import Mathlib.Data.List.Forall2
import Mathlib.Data.List.Perm.Subperm
import ProofSheet.Object.Alike

/-!
# Claiming partners

Juncts are compared by letting each junct on the left claim the first free partner on the right that
is alike to it. No claim is ever taken back.

* `Object.claimEach_sound`: what the claims give is a pairing of each junct with a partner of its own.
* `Object.claimEach_complete`: where alikeness cannot tell apart two partners of one junct, every such
  pairing is found, although claims are not taken back.
-/

namespace ProofSheet

/-! ## Claiming one partner -/

/-- The free places of a ring. -/
def available {α : Type} (ring : List (Option α)) : List α :=
  ring.filterMap id

theorem available_map_some {α : Type} (as : List α) : available (as.map some) = as := by
  simp [available, List.filterMap_map]

theorem available_turn {α : Type} (ring : List (Option α)) :
    (available (turn ring)).Perm (available ring) := by
  cases ring with
  | nil => exact List.Perm.refl _
  | cons a ring => exact (List.perm_append_singleton a ring).filterMap id

/-- A claim takes one free partner that passes the test. -/
theorem claimFirst_eq_some {α : Type} {test : α → Bool} {ring ring' : List (Option α)}
    (h : claimFirst test ring = some ring') :
    ∃ a, test a = true ∧ (available ring).Perm (a :: available ring') := by
  induction ring generalizing ring' with
  | nil => simp [claimFirst] at h
  | cons place ring ih =>
    cases place with
    | none =>
      simp only [claimFirst, Option.map_eq_some_iff] at h
      obtain ⟨rest, hrest, rfl⟩ := h
      obtain ⟨a, ha, hperm⟩ := ih hrest
      exact ⟨a, ha, hperm⟩
    | some a =>
      by_cases ha : test a = true
      · simp only [claimFirst, ha, if_true, Option.some.injEq] at h
        subst h
        exact ⟨a, ha, List.Perm.refl _⟩
      · simp only [claimFirst, ha, Bool.false_eq_true, if_false, Option.map_eq_some_iff] at h
        obtain ⟨rest, hrest, rfl⟩ := h
        obtain ⟨b, hb, hperm⟩ := ih hrest
        exact ⟨b, hb, (hperm.cons a).trans (List.Perm.swap b a _)⟩

/-- A claim fails only when no free partner passes the test. -/
theorem claimFirst_eq_none {α : Type} {test : α → Bool} {ring : List (Option α)}
    (h : claimFirst test ring = none) : ∀ a ∈ available ring, test a = false := by
  induction ring with
  | nil => intro a ha; simp [available] at ha
  | cons place ring ih =>
    cases place with
    | none =>
      simp only [claimFirst, Option.map_eq_none_iff] at h
      exact ih h
    | some b =>
      by_cases hb : test b = true
      · simp [claimFirst, hb] at h
      · simp only [claimFirst, hb, Bool.false_eq_true, if_false, Option.map_eq_none_iff] at h
        intro a ha
        rcases List.mem_cons.mp ha with rfl | ha
        · simpa using hb
        · exact ih h a ha

/-! ## Claiming a partner for each junct -/

namespace Object

variable {dn : Bool} {bound : BoundPairs}

/-- A claim on partners asks which of them are alike. -/
theorem claimEach_cons (dn : Bool) (bound : BoundPairs) (l : Object) (ls : List Object)
    (ring : List (Option Object)) :
    claimEach dn bound (l :: ls) ring =
      match claimFirst (alikeUnder dn bound l) ring with
      | some ring => claimEach dn bound ls (turn ring)
      | none => false := by
  rw [claimEach]
  rfl

/-- **The claims pair each junct with a partner of its own.** -/
theorem claimEach_sound {ls : List Object} : ∀ {ring : List (Option Object)},
    claimEach dn bound ls ring = true →
      ∃ rs, rs.Subperm (available ring) ∧
        List.Forall₂ (fun l r => alikeUnder dn bound l r = true) ls rs := by
  induction ls with
  | nil => exact fun _ => ⟨[], List.nil_subperm, List.Forall₂.nil⟩
  | cons l ls ih =>
    intro ring h
    rw [claimEach_cons] at h
    cases hc : claimFirst (alikeUnder dn bound l) ring with
    | none => rw [hc] at h; exact absurd h (by simp)
    | some ring' =>
      rw [hc] at h
      obtain ⟨r, hr, hperm⟩ := claimFirst_eq_some hc
      obtain ⟨rs, hsub, hrs⟩ := ih h
      refine ⟨r :: rs, ?_, List.Forall₂.cons hr hrs⟩
      have hsub' : rs.Subperm (available ring') := hsub.trans (available_turn ring').subperm
      exact ((List.subperm_cons r).mpr hsub').trans hperm.symm.subperm

/-- **Juncts of equal number are paired off completely.** -/
theorem claimEach_perm {ls rs : List Object} (hlen : ls.length = rs.length)
    (h : claimEach dn bound ls (rs.map some) = true) :
    ∃ rs', rs'.Perm rs ∧ List.Forall₂ (fun l r => alikeUnder dn bound l r = true) ls rs' := by
  obtain ⟨rs', hsub, hrs⟩ := claimEach_sound h
  rw [available_map_some] at hsub
  exact ⟨rs', hsub.perm_of_length_le (by rw [← hrs.length_eq]; omega), hrs⟩

/-- **A claim can be given back.** If the first junct has a partner in some pairing, it may as well
have any other partner: whoever had that one takes the first junct's. -/
theorem exchange_partner {A : Object → Object → Prop} {l r : Object}
    {ls rs free : List Object}
    (hA : ∀ l' ∈ ls, ∀ s s', A l s → A l s' → A l' s' → A l' s)
    (hpairs : List.Forall₂ A (l :: ls) rs) (hsub : rs.Subperm (r :: free)) (hr : A l r) :
    ∃ rs', rs'.Subperm free ∧ List.Forall₂ A ls rs' := by
  obtain ⟨s, rs, hs, hrs, rfl⟩ := List.forall₂_cons_left_iff.mp hpairs
  clear hpairs
  by_cases hmem : r ∈ rs
  · -- the junct that had `r` takes `s` in its place
    obtain ⟨before, after, rfl⟩ := List.append_of_mem hmem
    obtain ⟨lsBefore, lsAfter, hlen, rfl⟩ :
        ∃ us vs, us.length = before.length ∧ ls = us ++ vs :=
      ⟨ls.take before.length, ls.drop before.length, by
        rw [List.length_take, hrs.length_eq]; simp, (List.take_append_drop _ _).symm⟩
    have hbefore : List.Forall₂ A lsBefore before := by
      have := List.forall₂_take before.length hrs
      rwa [← hlen, List.take_left, hlen, List.take_left] at this
    have hafter : List.Forall₂ A lsAfter (r :: after) := by
      have := List.forall₂_drop before.length hrs
      rwa [← hlen, List.drop_left, hlen, List.drop_left] at this
    obtain ⟨l', ls', hl', hafter', rfl⟩ := List.forall₂_cons_right_iff.mp hafter
    have hswap : A l' s := hA l' (by simp) s r hs hr hl'
    refine ⟨before ++ s :: after, ?_, List.rel_append hbefore (List.Forall₂.cons hswap hafter')⟩
    have hperm : (s :: (before ++ r :: after)).Perm (r :: (before ++ s :: after)) := by
      refine (List.perm_middle.cons s).trans ?_
      exact (List.Perm.swap r s _).trans (List.perm_middle.symm.cons r)
    exact (List.subperm_cons r).mp (hperm.symm.subperm.trans hsub)
  · refine ⟨rs, ?_, hrs⟩
    by_cases hsr : s = r
    · subst hsr; exact (List.subperm_cons s).mp hsub
    · -- `r` stands in no pair, so the whole pairing is among the free partners
      have hnot : r ∉ s :: rs := by
        simp only [List.mem_cons, not_or]
        exact ⟨fun h => hsr h.symm, hmem⟩
      have herase := hsub.erase r
      rw [List.erase_of_not_mem hnot, List.erase_cons_head] at herase
      exact List.Subperm.trans List.Subperm.cons_self herase

/-- **No pairing is missed.** If two partners of one junct are partners of the same juncts, then the
claims succeed whenever some pairing exists. -/
theorem claimEach_complete {ls : List Object} : ∀ {ring : List (Option Object)} {rs : List Object},
    (∀ l ∈ ls, ∀ l' ∈ ls, ∀ s s', alikeUnder dn bound l s = true → alikeUnder dn bound l s' = true →
      alikeUnder dn bound l' s' = true → alikeUnder dn bound l' s = true) →
    rs.Subperm (available ring) →
    List.Forall₂ (fun l r => alikeUnder dn bound l r = true) ls rs →
      claimEach dn bound ls ring = true := by
  induction ls with
  | nil => intro ring rs _ _ _; rw [claimEach]
  | cons l ls ih =>
    intro ring rs hA hsub hrs
    rw [claimEach_cons]
    cases hc : claimFirst (alikeUnder dn bound l) ring with
    | none =>
      obtain ⟨s, rs, hs, -, rfl⟩ := List.forall₂_cons_left_iff.mp hrs
      have := claimFirst_eq_none hc s (hsub.subset List.mem_cons_self)
      rw [hs] at this
      exact absurd this (by simp)
    | some ring' =>
      obtain ⟨r, hr, hperm⟩ := claimFirst_eq_some hc
      -- the partner claimed may be another than that of the pairing, which is changed to suit it
      obtain ⟨rs', hsub', hrs'⟩ :=
        exchange_partner (fun l' hl' => hA l List.mem_cons_self l' (List.mem_cons_of_mem l hl')) hrs
          (hsub.trans hperm.subperm) hr
      refine ih (fun l₁ h₁ l₂ h₂ => hA l₁ (List.mem_cons_of_mem l h₁) l₂ (List.mem_cons_of_mem l h₂))
        (hsub'.trans (available_turn ring').symm.subperm) hrs'

end Object

end ProofSheet
