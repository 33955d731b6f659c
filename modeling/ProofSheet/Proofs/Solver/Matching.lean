import ProofSheet.Proofs.Formula.Substitution
import ProofSheet.Proofs.Mapping.Agreement
import ProofSheet.Proofs.Valuation
import ProofSheet.Solver.Template

/-!
# What a template match says

A match of a template against a formula is a mapping of template letters. Read against a condition
on what each letter may stand for, it says how the formula is built from the template.

* `Solver.Fits`: a formula is built like a template, each letter standing for something admitted.
* `Solver.fits_of_mem_matchTemplate`: **every match says that the formula fits**, for each condition
  that the mapping meets and that survives joining.
* `Solver.Fits.holds_iff`: a formula that fits is worth what the template's instance is worth.
* `Solver.agrees_matchTemplate`: a match puts nothing in a slot that brings a letter of its own.
-/

namespace ProofSheet.Solver

open Formula (FreeIn freeInSome_iff)
open Mapping (Agrees Stable Sized)

variable {letters : List Symbol} {admits : Nat → Object → Prop}

theorem matchRows_eq (ts : List Formula) (fs : List Object) :
    matchRows letters ts fs = ts.map fun t => fs.map (matchTemplate letters t) := by
  induction ts with
  | nil => rfl
  | cons t ts ih => rw [matchRows, ih]; rfl

/-! ## Building a formula like a template -/

section Fits

variable (letters : List Symbol) (admits : Nat → Object → Prop)

mutual

/-- **A formula is built like a template.** A letter of the template stands for a formula admitted
at the letter's place, and a pair of negations may be supplied where the template negates. -/
def Fits : Formula → Object → Prop
  | .letter s, f => ∃ k, letters.idxOf? s = some k ∧ admits k f.core
  | .negation t, f => ∃ g, ((∃ p, f = .negation g p) ∨ g = .negation f) ∧ Fits t g
  | .junction junctor ts, f =>
    ∃ fs p picks, f = .junction junctor fs p ∧ picks.Perm fs ∧ FitEach ts picks
  | .conditional p q, f => ∃ p' q' r, f = .conditional p' q' r ∧ Fits p p' ∧ Fits q q'
  | .biconditional p q, f =>
    ∃ p' q' r, f = .biconditional p' q' r ∧ (Fits p p' ∧ Fits q q' ∨ Fits p q' ∧ Fits q p')
  | .predicate _ _, _ | .quantified _ _ _, _ | .identity _ _ _, _ => False

/-- Formulas are built like templates, place by place. -/
def FitEach : List Formula → List Object → Prop
  | [], [] => True
  | t :: ts, f :: fs => Fits t f ∧ FitEach ts fs
  | _, _ => False

end

end Fits

theorem fitEach_iff : ∀ {ts : List Formula} {fs : List Object},
    FitEach letters admits ts fs ↔ List.Forall₂ (Fits letters admits) ts fs
  | [], [] => by simp [FitEach]
  | [], _ :: _ => by simp [FitEach]
  | _ :: _, [] => by simp [FitEach]
  | t :: ts, f :: fs => by rw [FitEach, List.forall₂_cons, fitEach_iff]

/-! ## Matches by the form of the template -/

theorem mem_matchTemplate_letter {s : Symbol} {f : Object} {m : Mapping Object}
    (h : m ∈ matchTemplate letters (.letter s) f) :
    ∃ k, letters.idxOf? s = some k ∧ m = Mapping.filledAt letters.length k f.core := by
  rw [matchTemplate] at h
  cases hk : letters.idxOf? s with
  | none => simp [hk] at h
  | some k => exact ⟨k, rfl, by simpa [hk] using h⟩

theorem mem_matchTemplate_negation {t : Formula} {f : Object} {m : Mapping Object}
    (h : m ∈ matchTemplate letters (.negation t) f) :
    ∃ g, ((∃ p, f = .negation g p) ∨ g = .negation f) ∧ m ∈ matchTemplate letters t g := by
  cases f with
  | negation g p => exact ⟨g, Or.inl ⟨p, rfl⟩, h⟩
  | _ => exact ⟨_, Or.inr rfl, h⟩

theorem mem_matchTemplate_junction {junctor : Junctor} {ts : List Formula} {f : Object}
    {m : Mapping Object} (h : m ∈ matchTemplate letters (.junction junctor ts) f) :
    ∃ fs p, f = .junction junctor fs p ∧ ts.length = fs.length ∧
      m ∈ Mapping.assignments [Mapping.unfilled letters.length]
        (ts.map fun t => fs.map (matchTemplate letters t)) := by
  cases f with
  | junction junctor' fs p =>
    obtain ⟨htest, h⟩ := List.mem_ite_nil_right.mp h
    simp only [Bool.and_eq_true, decide_eq_true_eq, beq_iff_eq] at htest
    rw [matchRows_eq] at h
    exact ⟨fs, p, by rw [htest.1], htest.2, h⟩
  | _ => exact absurd h List.not_mem_nil

theorem mem_matchTemplate_conditional {p q : Formula} {f : Object} {m : Mapping Object}
    (h : m ∈ matchTemplate letters (.conditional p q) f) :
    ∃ p' q' r, f = .conditional p' q' r ∧
      m ∈ Mapping.joinAll (matchTemplate letters p p') (matchTemplate letters q q') := by
  cases f with
  | conditional p' q' r => exact ⟨p', q', r, rfl, h⟩
  | _ => exact absurd h List.not_mem_nil

theorem mem_matchTemplate_biconditional {p q : Formula} {f : Object} {m : Mapping Object}
    (h : m ∈ matchTemplate letters (.biconditional p q) f) :
    ∃ p' q' r, f = .biconditional p' q' r ∧
      (m ∈ Mapping.joinAll (matchTemplate letters p p') (matchTemplate letters q q') ∨
        m ∈ Mapping.joinAll (matchTemplate letters p q') (matchTemplate letters q p')) := by
  cases f with
  | biconditional p' q' r => exact ⟨p', q', r, rfl, List.mem_append.mp h⟩
  | _ => exact absurd h List.not_mem_nil

theorem sized_matchTemplate (t : Formula) : ∀ f, Sized letters.length (matchTemplate letters t f) := by
  induction t using Formula.inductionOn with
  | letter s =>
    intro f m hm
    obtain ⟨k, -, rfl⟩ := mem_matchTemplate_letter hm
    exact Mapping.length_filledAt _ _ _
  | negation t ih =>
    intro f m hm
    obtain ⟨g, -, hm⟩ := mem_matchTemplate_negation hm
    exact ih g m hm
  | junction junctor ts ih =>
    intro f m hm
    obtain ⟨fs, -, -, -, hm⟩ := mem_matchTemplate_junction hm
    exact Mapping.sized_assignFrom (by simp [Sized])
      (Mapping.forall_cells fun t ht f _ => ih t ht f) m hm
  | conditional p q ihp ihq =>
    intro f m hm
    obtain ⟨p', q', -, -, hm⟩ := mem_matchTemplate_conditional hm
    exact Mapping.sized_joinAll (ihp _) (ihq _) m hm
  | biconditional p q ihp ihq =>
    intro f m hm
    obtain ⟨p', q', -, -, hm | hm⟩ := mem_matchTemplate_biconditional hm
    · exact Mapping.sized_joinAll (ihp _) (ihq _) m hm
    · exact Mapping.sized_joinAll (ihp _) (ihq _) m hm
  | _ => intro f m hm; exact absurd hm List.not_mem_nil

/-- **Every match says that the formula fits its template.** -/
theorem fits_of_mem_matchTemplate (hst : Stable admits) (t : Formula) : ∀ {f : Object}
    {m : Mapping Object}, m ∈ matchTemplate letters t f → Agrees admits m →
      Fits letters admits t f := by
  induction t using Formula.inductionOn with
  | letter s =>
    intro f m hm hagree
    obtain ⟨k, hk, rfl⟩ := mem_matchTemplate_letter hm
    have hlt : k < letters.length := (List.idxOf?_eq_some_iff.mp hk).1
    rw [Fits]
    exact ⟨k, hk, Mapping.agrees_filledAt hlt hagree⟩
  | negation t ih =>
    intro f m hm hagree
    obtain ⟨g, hg, hm⟩ := mem_matchTemplate_negation hm
    rw [Fits]
    exact ⟨g, hg, ih hm hagree⟩
  | junction junctor ts ih =>
    intro f m hm hagree
    obtain ⟨fs, p, rfl, hlen, hm⟩ := mem_matchTemplate_junction hm
    have hbase : Sized letters.length [(Mapping.unfilled letters.length : Mapping Object)] := by
      simp [Sized]
    obtain ⟨-, picks, hsub, hpicks⟩ := Mapping.assignments_agrees hst hbase
      (fun t _ f _ => sized_matchTemplate t f) hm hagree
    -- as many are picked as there are juncts, so all of them are
    have hperm : picks.Perm fs := hsub.perm_of_length_le (by rw [← hpicks.length_eq]; omega)
    rw [Fits]
    refine ⟨fs, p, picks, rfl, hperm, fitEach_iff.mpr ?_⟩
    exact Formula.forall₂_of_mem (fun t ht f ⟨x, hx, hxa⟩ => ih t ht hx hxa) hpicks
  | conditional p q ihp ihq =>
    intro f m hm hagree
    obtain ⟨p', q', r, rfl, hm⟩ := mem_matchTemplate_conditional hm
    obtain ⟨⟨a, ha, haa⟩, b, hb, hba⟩ := Mapping.joinAll_agrees hst
      (sized_matchTemplate p _) (sized_matchTemplate q _) hm hagree
    rw [Fits]
    exact ⟨p', q', r, rfl, ihp ha haa, ihq hb hba⟩
  | biconditional p q ihp ihq =>
    intro f m hm hagree
    obtain ⟨p', q', r, rfl, hjoin⟩ := mem_matchTemplate_biconditional hm
    rw [Fits]
    refine ⟨p', q', r, rfl, hjoin.imp (fun hjoin => ?_) fun hjoin => ?_⟩
    all_goals
      obtain ⟨⟨a, ha, haa⟩, b, hb, hba⟩ := Mapping.joinAll_agrees hst
        (sized_matchTemplate p _) (sized_matchTemplate q _) hjoin hagree
      exact ⟨ihp ha haa, ihq hb hba⟩
  | _ => intro f m hm; exact absurd hm List.not_mem_nil

/-! ## What fitting says -/

/-- Each letter of a template that is fitted stands for something. -/
theorem Fits.admits_of_freeIn {t : Formula} : ∀ {f : Object}, Fits letters admits t f →
    ∀ {s : Symbol}, FreeIn s t → ∃ k e, letters.idxOf? s = some k ∧ admits k e := by
  induction t using Formula.inductionOn with
  | letter t =>
    rintro f h s rfl
    rw [Fits] at h
    obtain ⟨k, hk, he⟩ := h
    exact ⟨k, _, hk, he⟩
  | negation t ih =>
    intro f h s hs
    rw [Fits] at h
    obtain ⟨g, -, hg⟩ := h
    rw [FreeIn] at hs
    exact ih hg hs
  | junction junctor ts ih =>
    intro f h s hs
    rw [Fits] at h
    obtain ⟨fs, p, picks, -, -, hpicks⟩ := h
    rw [FreeIn, freeInSome_iff] at hs
    obtain ⟨t, ht, hs⟩ := hs
    obtain ⟨g, -, hg⟩ := Formula.exists_of_forall₂ (fitEach_iff.mp hpicks) ht
    exact ih t ht hg hs
  | conditional p q ihp ihq =>
    intro f h s hs
    rw [Fits] at h
    obtain ⟨p', q', r, -, hp, hq⟩ := h
    rw [FreeIn] at hs
    exact hs.elim (ihp hp) (ihq hq)
  | biconditional p q ihp ihq =>
    intro f h s hs
    rw [Fits] at h
    obtain ⟨p', q', r, -, ⟨hp, hq⟩ | ⟨hp, hq⟩⟩ := h
    · exact hs.elim (ihp hp) (ihq hq)
    · exact hs.elim (ihp hp) (ihq hq)
  | _ => intro f h; rw [Fits] at h; exact h.elim

/-- The condition that a content of a slot is worth what the mapping has there. -/
def WorthAs (v : Object.Valuation) (m : Mapping Object) (k : Nat) (e : Object) : Prop :=
  ∃ e', m[k]? = some (some e') ∧ (v.holds e ↔ v.holds e')

theorem stable_worthAs (v : Object.Valuation) (m : Mapping Object) : Stable (WorthAs v m) := by
  rintro k a b hab ⟨e, he, hv⟩
  have hka : v.holds (Slot.kept a) ↔ v.holds a := v.holds_core a
  have hva : v.holds a ↔ v.holds e := hka.symm.trans hv
  exact ⟨⟨e, he, hva⟩, e, he, (v.holds_like (Object.compatible_iff.mp hab)).symm.trans hva⟩

theorem agrees_worthAs (v : Object.Valuation) (m : Mapping Object) : Agrees (WorthAs v m) m :=
  fun _ e he => ⟨e, he, Iff.rfl⟩

/-- **A formula that fits a template is worth what the template's instance is worth.** -/
theorem Fits.holds_iff {v : Object.Valuation} {m : Mapping Object} {t : Formula} : ∀ {f : Object},
    Fits letters (WorthAs v m) t f → (v.holds (Object.substitute letters m t) ↔ v.holds f) := by
  induction t using Formula.inductionOn with
  | letter s =>
    intro f h
    rw [Fits] at h
    obtain ⟨k, hk, e, he, hv⟩ := h
    have hrep : replacementFor letters m s = some e := replacementFor_eq_some.mpr ⟨k, hk, he⟩
    rw [Object.substitute, hrep, Option.getD_some, ← hv, v.holds_core]
  | negation t ih =>
    intro f h
    rw [Fits] at h
    obtain ⟨g, hfg, hg⟩ := h
    rw [Object.substitute, v.negation, ih hg]
    -- the negation was there, or a pair was supplied around the formula
    rcases hfg with ⟨p, rfl⟩ | rfl
    · rw [v.negation]
    · rw [v.negation, not_not]
  | junction junctor ts ih =>
    intro f h
    rw [Fits] at h
    obtain ⟨fs, p, picks, rfl, hperm, hpicks⟩ := h
    rw [Object.substitute, Object.substituteAll_eq, v.holds_junctionOf, v.junction,
      ← Junctor.joins_perm hperm]
    apply Junctor.joins_forall₂
    rw [List.forall₂_map_left_iff]
    exact Formula.forall₂_of_mem (fun t ht f hf => ih t ht hf) (fitEach_iff.mp hpicks)
  | conditional p q ihp ihq =>
    intro f h
    rw [Fits] at h
    obtain ⟨p', q', r, rfl, hp, hq⟩ := h
    rw [Object.substitute, v.conditional, v.conditional, ihp hp, ihq hq]
  | biconditional p q ihp ihq =>
    intro f h
    rw [Fits] at h
    obtain ⟨p', q', r, rfl, ⟨hp, hq⟩ | ⟨hp, hq⟩⟩ := h
    · rw [Object.substitute, v.biconditional, v.biconditional, ihp hp, ihq hq]
    · rw [Object.substitute, v.biconditional, v.biconditional, ihp hp, ihq hq]
      exact iff_comm
  | _ => intro f h; rw [Fits] at h; exact h.elim

/-! ## Letters of the contents -/

theorem freeIn_core_formula {s : Symbol} {f : Object} :
    FreeIn s f.core.formula ↔ FreeIn s f.formula := by
  rw [Object.formula_core]
  exact Formula.freeIn_core f.formula

/-- The condition that a content brings no letter besides those of some formulas. -/
def WithinLetters (fs : List Object) (_ : Nat) (e : Object) : Prop :=
  ∀ s, FreeIn s e.formula → ∃ f ∈ fs, FreeIn s f.formula

theorem kept_withinLetters (fs : List Object) : Mapping.Kept (WithinLetters fs) :=
  fun _ _ h s hs => h s (freeIn_core_formula.mp hs)

/-- **A match fills its slots from the letters of the formula.** -/
theorem agrees_matchTemplate {known : List Object} (t : Formula) : ∀ {f : Object},
    WithinLetters known 0 f → ∀ m ∈ matchTemplate letters t f, Agrees (WithinLetters known) m := by
  have hkept := kept_withinLetters known
  induction t using Formula.inductionOn with
  | letter s =>
    intro f hf m hm
    obtain ⟨k, -, rfl⟩ := mem_matchTemplate_letter hm
    exact Mapping.agrees_filledAt_of fun s hs => hf s (freeIn_core_formula.mp hs)
  | negation t ih =>
    intro f hf m hm
    obtain ⟨g, hfg, hm⟩ := mem_matchTemplate_negation hm
    refine ih (fun s hs => hf s ?_) m hm
    rcases hfg with ⟨p, rfl⟩ | rfl
    · exact hs
    · exact hs
  | junction junctor ts ih =>
    intro f hf m hm
    obtain ⟨fs, p, rfl, -, hm⟩ := mem_matchTemplate_junction hm
    refine Mapping.agrees_assignments hkept ?_ (fun t ht g hg => ih t ht fun s hs => hf s ?_) m hm
    · simp [Mapping.agrees_unfilled]
    · rw [Object.formula_junction, FreeIn, freeInSome_iff]
      exact ⟨g.formula, List.mem_map_of_mem hg, hs⟩
  | conditional p q ihp ihq =>
    intro f hf m hm
    obtain ⟨p', q', r, rfl, hm⟩ := mem_matchTemplate_conditional hm
    exact Mapping.agrees_joinAll hkept (ihp fun s hs => hf s (Or.inl hs))
      (ihq fun s hs => hf s (Or.inr hs)) m hm
  | biconditional p q ihp ihq =>
    intro f hf m hm
    obtain ⟨p', q', r, rfl, hjoin⟩ := mem_matchTemplate_biconditional hm
    have hp' : WithinLetters known 0 p' := fun s hs => hf s (Or.inl hs)
    have hq' : WithinLetters known 0 q' := fun s hs => hf s (Or.inr hs)
    rcases hjoin with hjoin | hjoin
    · exact Mapping.agrees_joinAll hkept (ihp hp') (ihq hq') m hjoin
    · exact Mapping.agrees_joinAll hkept (ihp hq') (ihq hp') m hjoin
  | _ => intro f _ m hm; exact absurd hm List.not_mem_nil

end ProofSheet.Solver
