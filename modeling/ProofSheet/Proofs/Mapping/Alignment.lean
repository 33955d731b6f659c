import ProofSheet.Ascending.Lemmas
import ProofSheet.Mapping.Letters
import ProofSheet.Proofs.Formula.Correspondence
import ProofSheet.Proofs.Mapping.Agreement

/-!
# What an alignment says

The mappings of designated letters come from alignments of a template with an instance. An alignment
compares the shape of the two formulas and, of their letters, only the designated ones.

* `LetterMapping.Faces`: what an alignment asks of two letters.
* `LetterMapping.corresponds_of_mem_align`: **a mapping says that the two formulas correspond**, each
  designated letter facing what the mapping has for it.
* `Formula.aligned_of_mem_mappings`, `Formula.aligned_of_oneOne`: the same for the mappings that UI
  and the generalizations use.
-/

namespace ProofSheet

namespace LetterMapping

open Formula (Corresponds correspondEach_iff)
open Mapping (Agrees Stable Sized)

variable {targets letters : List Symbol} {bound : BoundPairs}

/-- **What an alignment asks of two letters**: a designated letter that is not bound faces the letter
that stands for it. Other letters face anything. -/
def Faces (targets letters : List Symbol) (bound : BoundPairs) (t i : Symbol) : Prop :=
  (∀ pair ∈ bound, pair.1 ≠ t) → ∀ k, targets.idxOf? t = some k → letters[k]? = some i

/-- Letters that fill a slot twice are equal, so every condition survives joining. -/
theorem stable_symbol (admits : Nat → Symbol → Prop) : Stable admits := by
  intro k a b hab ha
  obtain rfl : a = b := by simpa [Slot.compatible] using hab
  exact ⟨ha, ha⟩

/-! ## Alignments by the form of the template -/

theorem alignRows_eq (ts is : List Formula) :
    alignRows targets bound ts is = ts.map fun t => is.map (align targets bound t) := by
  induction ts with
  | nil => rfl
  | cons t ts ih => rw [alignRows, ih]; rfl

theorem mem_joined {as bs : List LetterMapping} {m : LetterMapping} :
    m ∈ joined as bs ↔ m ∈ Mapping.joinAll as bs := by
  rw [joined, Ascending.mem_ofList]

theorem sized_joined {n : Nat} {as bs : List LetterMapping} (ha : Sized n as) (hb : Sized n bs) :
    Sized n (joined as bs) :=
  fun m hm => Mapping.sized_joinAll ha hb m (mem_joined.mp hm)

theorem joined_agrees {admits : Nat → Symbol → Prop} {n : Nat} {as bs : List LetterMapping}
    (ha : Sized n as) (hb : Sized n bs) {m : LetterMapping} (hm : m ∈ joined as bs)
    (hagree : Agrees admits m) : (∃ a ∈ as, Agrees admits a) ∧ ∃ b ∈ bs, Agrees admits b :=
  Mapping.joinAll_agrees (stable_symbol admits) ha hb (mem_joined.mp hm) hagree

theorem mem_align_letter {t : Symbol} {i : Formula} {m : LetterMapping}
    (h : m ∈ align targets bound (.letter t) i) :
    ∃ s, i = .letter s ∧ m = ofLetters targets bound t s := by
  cases i with
  | letter s => exact ⟨s, rfl, List.mem_singleton.mp h⟩
  | _ => exact absurd h List.not_mem_nil

theorem mem_align_predicate {name : Symbol} {args : List Formula} {i : Formula} {m : LetterMapping}
    (h : m ∈ align targets bound (.predicate name args) i) :
    ∃ args', i = .predicate name args' ∧ args.length = args'.length ∧
      m ∈ alignEach targets bound args args' [Mapping.unfilled targets.length] := by
  cases i with
  | predicate name' args' =>
    obtain ⟨htest, h⟩ := List.mem_ite_nil_right.mp h
    simp only [Bool.and_eq_true, beq_iff_eq] at htest
    exact ⟨args', by rw [htest.1], htest.2, h⟩
  | _ => exact absurd h List.not_mem_nil

theorem mem_align_junction {junctor : Junctor} {ts : List Formula} {i : Formula} {m : LetterMapping}
    (h : m ∈ align targets bound (.junction junctor ts) i) :
    ∃ is, i = .junction junctor is ∧ ts.length = is.length ∧
      m ∈ Mapping.assignments [Mapping.unfilled targets.length]
        (ts.map fun t => is.map (align targets bound t)) := by
  cases i with
  | junction junctor' is =>
    obtain ⟨htest, h⟩ := List.mem_ite_nil_right.mp h
    simp only [Bool.and_eq_true, decide_eq_true_eq, beq_iff_eq] at htest
    rw [Ascending.mem_ofList, alignRows_eq] at h
    exact ⟨is, by rw [htest.1], htest.2, h⟩
  | _ => exact absurd h List.not_mem_nil

theorem mem_align_conditional {a c i : Formula} {m : LetterMapping}
    (h : m ∈ align targets bound (.conditional a c) i) :
    ∃ a' c', i = .conditional a' c' ∧
      m ∈ joined (align targets bound a a') (align targets bound c c') := by
  cases i with
  | conditional a' c' => exact ⟨a', c', rfl, h⟩
  | _ => exact absurd h List.not_mem_nil

theorem mem_align_biconditional {a b i : Formula} {m : LetterMapping}
    (h : m ∈ align targets bound (.biconditional a b) i) :
    ∃ a' b', i = .biconditional a' b' ∧
      (m ∈ joined (align targets bound a a') (align targets bound b b') ∨
        m ∈ joined (align targets bound a b') (align targets bound b a')) := by
  cases i with
  | biconditional a' b' => exact ⟨a', b', rfl, List.mem_append.mp h⟩
  | _ => exact absurd h List.not_mem_nil

theorem mem_align_negation {f i : Formula} {m : LetterMapping}
    (h : m ∈ align targets bound (.negation f) i) :
    ∃ g, i = .negation g ∧ m ∈ align targets bound f g := by
  cases i with
  | negation g => exact ⟨g, rfl, h⟩
  | _ => exact absurd h List.not_mem_nil

theorem mem_align_quantified {q : Quantifier} {x : Symbol} {body i : Formula} {m : LetterMapping}
    (h : m ∈ align targets bound (.quantified q x body) i) :
    ∃ x' body', i = .quantified q x' body' ∧ bound.clashes x x' = false ∧
      m ∈ align targets ((x, x') :: bound) body body' := by
  cases i with
  | quantified q' x' body' =>
    obtain ⟨htest, h⟩ := List.mem_ite_nil_right.mp h
    simp only [Bool.and_eq_true, decide_eq_true_eq, Bool.not_eq_true'] at htest
    exact ⟨x', body', by rw [htest.1], htest.2, h⟩
  | _ => exact absurd h List.not_mem_nil

theorem mem_align_identity {a b i : Formula} {equal : Bool} {m : LetterMapping}
    (h : m ∈ align targets bound (.identity a b equal) i) :
    ∃ a' b', i = .identity a' b' equal ∧
      (m ∈ joined (align targets bound a a') (align targets bound b b') ∨
        m ∈ joined (align targets bound a b') (align targets bound b a')) := by
  cases i with
  | identity a' b' equal' =>
    obtain ⟨htest, h⟩ := List.mem_ite_nil_right.mp h
    exact ⟨a', b', by rw [beq_iff_eq.mp htest], List.mem_append.mp h⟩
  | _ => exact absurd h List.not_mem_nil

/-- Arguments are aligned one after another, each mapping joined to those found so far. -/
theorem mem_alignEach_cons {t i : Formula} {ts is : List Formula} {found : List LetterMapping}
    {m : LetterMapping} (h : m ∈ alignEach targets bound (t :: ts) (i :: is) found) :
    m ∈ alignEach targets bound ts is (joined (align targets bound t i) found) := by
  rw [alignEach] at h
  split at h
  · simp at h
  · exact h

theorem length_ofLetters (t i : Symbol) : (ofLetters targets bound t i).length = targets.length := by
  unfold ofLetters
  split
  · exact Mapping.length_unfilled _
  · split
    · exact Mapping.length_filledAt _ _ _
    · exact Mapping.length_unfilled _

theorem sized_alignEach {n : Nat} {ts : List Formula} : ∀ {is : List Formula}
    {found : List LetterMapping}, (∀ t ∈ ts, ∀ i, Sized n (align targets bound t i)) →
      Sized n found → Sized n (alignEach targets bound ts is found) := by
  induction ts with
  | nil => intro is found _ hfound; rw [alignEach]; exact hfound; simp
  | cons t ts ih =>
    intro is found ht hfound
    cases is with
    | nil => rw [alignEach]; exact hfound; simp
    | cons i is =>
      intro m hm
      refine ih (fun t' ht' => ht t' (List.mem_cons_of_mem t ht')) ?_ m (mem_alignEach_cons hm)
      exact sized_joined (ht t List.mem_cons_self i) hfound

theorem sized_unfilled (n : Nat) : Sized n [(Mapping.unfilled n : LetterMapping)] := by
  simp [Sized]

theorem sized_align (t : Formula) : ∀ (bound : BoundPairs) (i : Formula),
    Sized targets.length (align targets bound t i) := by
  induction t using Formula.inductionOn with
  | letter t =>
    intro bound i m hm
    obtain ⟨s, -, rfl⟩ := mem_align_letter hm
    exact length_ofLetters t s
  | predicate name args ih =>
    intro bound i m hm
    obtain ⟨args', -, -, hm⟩ := mem_align_predicate hm
    exact sized_alignEach (fun t ht i => ih t ht bound i) (sized_unfilled _) m hm
  | junction junctor ts ih =>
    intro bound i m hm
    obtain ⟨is, -, -, hm⟩ := mem_align_junction hm
    exact Mapping.sized_assignFrom (sized_unfilled _)
      (Mapping.forall_cells fun t ht i _ => ih t ht bound i) m hm
  | conditional a c iha ihc =>
    intro bound i m hm
    obtain ⟨a', c', -, hm⟩ := mem_align_conditional hm
    exact sized_joined (iha bound a') (ihc bound c') m hm
  | biconditional a b iha ihb =>
    intro bound i m hm
    obtain ⟨a', b', -, hm | hm⟩ := mem_align_biconditional hm
    · exact sized_joined (iha bound a') (ihb bound b') m hm
    · exact sized_joined (iha bound b') (ihb bound a') m hm
  | negation f ih =>
    intro bound i m hm
    obtain ⟨g, -, hm⟩ := mem_align_negation hm
    exact ih bound g m hm
  | quantified q x body ih =>
    intro bound i m hm
    obtain ⟨x', body', -, -, hm⟩ := mem_align_quantified hm
    exact ih ((x, x') :: bound) body' m hm
  | identity a b equal iha ihb =>
    intro bound i m hm
    obtain ⟨a', b', -, hm | hm⟩ := mem_align_identity hm
    · exact sized_joined (iha bound a') (ihb bound b') m hm
    · exact sized_joined (iha bound b') (ihb bound a') m hm

/-! ## What a mapping says -/

/-- The condition that a slot holds the letter that stands for its target. -/
def Holds (letters : List Symbol) (k : Nat) (i : Symbol) : Prop :=
  letters[k]? = some i

theorem faces_of_agrees {t i : Symbol} (h : Agrees (Holds letters) (ofLetters targets bound t i)) :
    Faces targets letters bound t i := by
  intro hbound k hk
  have hfree : (bound.any fun pair => pair.1 == t) = false := by
    simpa using fun x y hxy => hbound (x, y) hxy
  have hlt : k < targets.length := (List.idxOf?_eq_some_iff.mp hk).1
  rw [ofLetters, hfree, hk] at h
  exact Mapping.agrees_filledAt hlt h

theorem alignEach_agrees {admits : Nat → Symbol → Prop} {m : LetterMapping}
    (hagree : Agrees admits m) {ts : List Formula} : ∀ {is : List Formula}
      {found : List LetterMapping}, Sized targets.length found → ts.length = is.length →
      m ∈ alignEach targets bound ts is found →
      (∃ a ∈ found, Agrees admits a) ∧
        List.Forall₂ (fun t i => ∃ x ∈ align targets bound t i, Agrees admits x) ts is := by
  induction ts with
  | nil =>
    intro is found _ hlen hm
    obtain rfl : is = [] := List.length_eq_zero_iff.mp hlen.symm
    rw [alignEach] at hm
    · exact ⟨⟨m, hm, hagree⟩, .nil⟩
    · simp
  | cons t ts ih =>
    intro is found hfound hlen hm
    cases is with
    | nil => simp at hlen
    | cons i is =>
      obtain ⟨⟨a, ha, haa⟩, hrest⟩ := ih (sized_joined (sized_align t bound i) hfound)
        (by simpa using hlen) (mem_alignEach_cons hm)
      obtain ⟨hx, hbase⟩ := joined_agrees (sized_align t bound i) hfound ha haa
      exact ⟨hbase, .cons hx hrest⟩

/-- **A mapping says that the two formulas correspond**, each designated letter facing the letter
that stands for it. -/
theorem corresponds_of_mem_align (t : Formula) : ∀ {bound : BoundPairs} {i : Formula}
    {m : LetterMapping}, m ∈ align targets bound t i → Agrees (Holds letters) m →
      Corresponds false (Faces targets letters) bound t i := by
  have hst := stable_symbol (Holds letters)
  induction t using Formula.inductionOn with
  | letter t =>
    intro bound i m hm hagree
    obtain ⟨s, rfl, rfl⟩ := mem_align_letter hm
    exact Formula.corresponds_letter.mpr (faces_of_agrees hagree)
  | predicate name args ih =>
    intro bound i m hm hagree
    obtain ⟨args', rfl, hlen, hm⟩ := mem_align_predicate hm
    obtain ⟨-, hargs⟩ := alignEach_agrees hagree (sized_unfilled _) hlen hm
    refine Formula.corresponds_predicate.mpr ?_
    exact Formula.forall₂_of_mem (fun t ht i ⟨x, hx, hxa⟩ => ih t ht hx hxa) hargs
  | junction junctor ts ih =>
    intro bound i m hm hagree
    obtain ⟨is, rfl, hlen, hm⟩ := mem_align_junction hm
    obtain ⟨-, picks, hsub, hpicks⟩ := Mapping.assignments_agrees hst (sized_unfilled _)
      (fun t _ i _ => sized_align t bound i) hm hagree
    have hperm : picks.Perm is := hsub.perm_of_length_le (by rw [← hpicks.length_eq]; omega)
    refine Formula.corresponds_junction.mpr ⟨picks, hperm, ?_⟩
    exact Formula.forall₂_of_mem (fun t ht i ⟨x, hx, hxa⟩ => ih t ht hx hxa) hpicks
  | conditional a c iha ihc =>
    intro bound i m hm hagree
    obtain ⟨a', c', rfl, hm⟩ := mem_align_conditional hm
    obtain ⟨⟨x, hx, hxa⟩, y, hy, hya⟩ :=
      joined_agrees (sized_align a bound a') (sized_align c bound c') hm hagree
    exact Formula.corresponds_conditional.mpr ⟨iha hx hxa, ihc hy hya⟩
  | biconditional a b iha ihb =>
    intro bound i m hm hagree
    obtain ⟨a', b', rfl, hjoin⟩ := mem_align_biconditional hm
    refine Formula.corresponds_biconditional.mpr (hjoin.imp (fun hjoin => ?_) fun hjoin => ?_)
    all_goals
      obtain ⟨⟨x, hx, hxa⟩, y, hy, hya⟩ :=
        joined_agrees (sized_align a bound _) (sized_align b bound _) hjoin hagree
      exact ⟨iha hx hxa, ihb hy hya⟩
  | negation f ih =>
    intro bound i m hm hagree
    obtain ⟨g, rfl, hm⟩ := mem_align_negation hm
    exact (Formula.corresponds_negation (by simp)).mpr ⟨g, rfl, ih hm hagree⟩
  | quantified q x body ih =>
    intro bound i m hm hagree
    obtain ⟨x', body', rfl, hclash, hm⟩ := mem_align_quantified hm
    exact Formula.corresponds_quantified.mpr ⟨hclash, ih hm hagree⟩
  | identity a b equal iha ihb =>
    intro bound i m hm hagree
    obtain ⟨a', b', rfl, hjoin⟩ := mem_align_identity hm
    refine Formula.corresponds_identity.mpr (hjoin.imp (fun hjoin => ?_) fun hjoin => ?_)
    all_goals
      obtain ⟨⟨x, hx, hxa⟩, y, hy, hya⟩ :=
        joined_agrees (sized_align a bound _) (sized_align b bound _) hjoin hagree
      exact ⟨iha hx hxa, ihb hy hya⟩

/-- The letters of a mapping without empty slots. -/
theorem complete?_eq_some : ∀ {m : LetterMapping} {letters : List Symbol},
    m.complete? = some letters → m = letters.map some
  | [], letters, h => by
    obtain rfl : [] = letters := by simpa [complete?] using h
    rfl
  | none :: _, letters, h => by simp [complete?] at h
  | some s :: m, letters, h => by
    simp only [complete?, Option.map_eq_some_iff] at h
    obtain ⟨rest, hrest, rfl⟩ := h
    rw [complete?_eq_some hrest]
    rfl

end LetterMapping

namespace Formula

open LetterMapping (Faces)

variable {template sample : Formula} {targets : List Symbol}

/-- **Two formulas are aligned** by letters for the targets: they have the same shape, up to the order
of juncts and sides, and each target that is not bound faces the letter for it. -/
def Aligned (targets letters : List Symbol) (template sample : Formula) : Prop :=
  Corresponds false (Faces targets letters) [] template sample

/-- A mapping gives letters for all targets, any letter where its slot is empty. -/
theorem aligned_of_mem_mappings {m : LetterMapping} (h : m ∈ mappings template sample targets) :
    ∃ letters, letters.length = targets.length ∧ Aligned targets letters template sample := by
  rw [mappings, Ascending.mem_ofList] at h
  refine ⟨m.map fun slot => slot.getD default, ?_, LetterMapping.corresponds_of_mem_align template h ?_⟩
  · rw [List.length_map, LetterMapping.sized_align template [] sample m h]
  · intro k e he
    rw [LetterMapping.Holds, List.getElem?_map, he]
    rfl

/-- **The one-to-one assignments** give each target a letter of its own. -/
theorem aligned_of_oneOne {candidates : List (List Symbol)}
    (h : oneOne template sample targets = .ok candidates) :
    ∀ letters ∈ candidates, letters.length = targets.length ∧ letters.Nodup ∧
      Aligned targets letters template sample := by
  intro letters hletters
  unfold oneOne at h
  simp only at h
  split at h
  · cases h
  · split at h
    · cases h
    · split at h
      · cases h
      · obtain rfl := Except.ok.inj h
        rw [List.mem_filter, List.mem_filterMap, decide_eq_true_eq] at hletters
        obtain ⟨⟨m, hm, hcomplete⟩, hnodup⟩ := hletters
        rw [mappings, Ascending.mem_ofList] at hm
        obtain rfl := LetterMapping.complete?_eq_some hcomplete
        have hsize := LetterMapping.sized_align template [] sample _ hm
        refine ⟨by simpa using hsize, hnodup, LetterMapping.corresponds_of_mem_align template hm ?_⟩
        intro k e he
        rw [List.getElem?_map, Option.map_eq_some_iff] at he
        obtain ⟨s, hs, hse⟩ := he
        rw [LetterMapping.Holds, hs, Option.some.inj hse]

end Formula

end ProofSheet
