import Mathlib.Tactic.Tauto
import ProofSheet.Ascending.Lemmas
import ProofSheet.Formula.Scope
import ProofSheet.Proofs.Formula.Parts

/-!
# Free letters

What the pass over a formula finds, said without the pass.

* `Formula.FreeIn`: a letter occurs free.
* `Formula.binders`: the symbols of all quantifiers of a formula.
* `Formula.rebindings`: the symbols bound again inside their own scope, in reading order.
* `Formula.mem_scope_free`, `Formula.rebindings_eq_nil`: **the scope of a formula holds its free
  letters, and flags each rebinding.**
-/

namespace ProofSheet

namespace Formula

mutual

/-- A letter occurs in a formula outside the quantifiers over it. -/
def FreeIn (s : Symbol) : Formula → Prop
  | .letter t => t = s
  | .predicate _ args => FreeInSome s args
  | .junction _ juncts => FreeInSome s juncts
  | .conditional a c => FreeIn s a ∨ FreeIn s c
  | .biconditional a b => FreeIn s a ∨ FreeIn s b
  | .negation f => FreeIn s f
  | .quantified _ x body => x ≠ s ∧ FreeIn s body
  | .identity a b _ => FreeIn s a ∨ FreeIn s b

/-- A letter is free in some formula of a list. -/
def FreeInSome (s : Symbol) : List Formula → Prop
  | [] => False
  | f :: fs => FreeIn s f ∨ FreeInSome s fs

end

theorem freeInSome_iff {s : Symbol} {fs : List Formula} :
    FreeInSome s fs ↔ ∃ f ∈ fs, FreeIn s f := by
  induction fs with
  | nil => simp [FreeInSome]
  | cons f fs ih => rw [FreeInSome, ih]; simp

/-- Pairs of negations hold no letters. -/
theorem freeIn_core {s : Symbol} (f : Formula) : FreeIn s f.core ↔ FreeIn s f := by
  induction f using faceInduction true with
  | negation f h _ => rw [core_negation (h rfl)]
  | doubled f _ ih => rw [core_doubled, ih, FreeIn, FreeIn]
  | _ => rw [core]; simp

/-- A junction has the letters of its parts, flattened or not. -/
theorem freeIn_junctionOf {s : Symbol} {junctor : Junctor} {parts : List Formula} :
    FreeIn s (junctionOf junctor parts) ↔ ∃ f ∈ parts, FreeIn s f := by
  -- a part is taken as it is, or by its own juncts
  have hpart : ∀ f, (∃ g ∈ junctsUnder junctor f, FreeIn s g) ↔ FreeIn s f := by
    intro f
    unfold junctsUnder
    split
    · split
      · rw [FreeIn, freeInSome_iff]
      · simp
    · simp
  rw [junctionOf, FreeIn, freeInSome_iff]
  simp only [List.mem_flatMap]
  constructor
  · rintro ⟨g, ⟨f, hf, hg⟩, hs⟩
    exact ⟨f, hf, (hpart f).mp ⟨g, hg, hs⟩⟩
  · rintro ⟨f, hf, hs⟩
    obtain ⟨g, hg, hs⟩ := (hpart f).mpr hs
    exact ⟨g, ⟨f, hf, hg⟩, hs⟩

mutual

/-- The symbols that quantifiers of a formula bind, in reading order. -/
def binders : Formula → List Symbol
  | .letter _ => []
  | .predicate _ args => bindersOfAll args
  | .junction _ juncts => bindersOfAll juncts
  | .conditional a c => binders a ++ binders c
  | .biconditional a b => binders a ++ binders b
  | .negation f => binders f
  | .quantified _ x body => x :: binders body
  | .identity a b _ => binders a ++ binders b

/-- The symbols that quantifiers of some formulas bind. -/
def bindersOfAll : List Formula → List Symbol
  | [] => []
  | f :: fs => binders f ++ bindersOfAll fs

end

theorem bindersOfAll_eq (fs : List Formula) : bindersOfAll fs = fs.flatMap binders := by
  induction fs with
  | nil => rfl
  | cons f fs ih => rw [bindersOfAll, ih]; rfl

mutual

/-- The symbols that quantifiers of a formula bind although they are bound around them, in reading
order. -/
def rebindings (around : List Symbol) : Formula → List Symbol
  | .letter _ => []
  | .predicate _ args => rebindingsOfAll around args
  | .junction _ juncts => rebindingsOfAll around juncts
  | .conditional a c => rebindings around a ++ rebindings around c
  | .biconditional a b => rebindings around a ++ rebindings around b
  | .negation f => rebindings around f
  | .quantified _ x body =>
    (if around.contains x then [x] else []) ++ rebindings (x :: around) body
  | .identity a b _ => rebindings around a ++ rebindings around b

/-- The symbols bound again in some formulas. -/
def rebindingsOfAll (around : List Symbol) : List Formula → List Symbol
  | [] => []
  | f :: fs => rebindings around f ++ rebindingsOfAll around fs

end

theorem rebindingsOfAll_eq (around : List Symbol) (fs : List Formula) :
    rebindingsOfAll around fs = fs.flatMap (rebindings around) := by
  induction fs with
  | nil => rfl
  | cons f fs ih => rw [rebindingsOfAll, ih]; rfl

/-- **A symbol bound around a formula without rebindings is bound nowhere in it.** -/
theorem not_mem_binders {f : Formula} : ∀ {around : List Symbol} {x : Symbol}, x ∈ around →
    rebindings around f = [] → x ∉ binders f := by
  -- the letters around grow under each quantifier, so they are part of what is proved
  induction f using inductionOn with
  | letter s => intro around x _ _; simp [binders]
  | predicate name fs ih | junction name fs ih =>
    intro around x hx h
    rw [rebindings, rebindingsOfAll_eq, List.flatMap_eq_nil_iff] at h
    rw [binders, bindersOfAll_eq, List.mem_flatMap]
    rintro ⟨f, hf, hmem⟩
    exact ih f hf hx (h f hf) hmem
  | conditional a b iha ihb | biconditional a b iha ihb | identity a b _ iha ihb =>
    intro around x hx h
    rw [rebindings, List.append_eq_nil_iff] at h
    rw [binders, List.mem_append]
    rintro (hmem | hmem)
    · exact iha hx h.1 hmem
    · exact ihb hx h.2 hmem
  | negation f ih =>
    intro around x hx h
    exact ih hx h
  | quantified q y body ih =>
    intro around x hx h
    rw [rebindings, List.append_eq_nil_iff] at h
    rw [binders, List.mem_cons]
    rintro (rfl | hmem)
    · simp [hx] at h
    · exact ih (List.mem_cons_of_mem y hx) h.2 hmem

end Formula

/-! ## The pass over a formula -/

namespace Scope

open Formula (FreeIn FreeInSome rebindings rebindingsOfAll)

variable {s : Symbol}

theorem mem_occurrence_free {around : List Symbol} {t : Symbol} {scope : Scope} :
    s ∈ (scope.occurrence around t).free ↔ s ∈ scope.free ∨ (s ∉ around ∧ t = s) := by
  unfold occurrence
  split
  · rename_i h
    have : t ∈ around := by simpa using h
    grind
  · rename_i h
    have : t ∉ around := by simpa using h
    rw [Ascending.mem_insert]
    grind

@[simp] theorem binder_free (around : List Symbol) (x : Symbol) (scope : Scope) :
    (scope.binder around x).free = scope.free := by
  unfold binder
  split <;> rfl

mutual

theorem mem_gather_free : ∀ (around : List Symbol) (f : Formula) (scope : Scope),
    s ∈ (gather around f scope).free ↔ s ∈ scope.free ∨ (s ∉ around ∧ FreeIn s f)
  | around, .letter t, scope => by rw [gather, mem_occurrence_free, FreeIn]
  | around, .predicate _ args, scope => by rw [gather, mem_gatherAll_free, FreeIn]
  | around, .junction _ juncts, scope => by rw [gather, mem_gatherAll_free, FreeIn]
  | around, .conditional a c, scope => by
    rw [gather, mem_gather_free, mem_gather_free, FreeIn]; tauto
  | around, .biconditional a b, scope => by
    rw [gather, mem_gather_free, mem_gather_free, FreeIn]; tauto
  | around, .negation f, scope => by rw [gather, mem_gather_free, FreeIn]
  | around, .quantified _ x body, scope => by
    rw [gather, mem_gather_free, binder_free, FreeIn, List.mem_cons]; grind
  | around, .identity a b _, scope => by
    rw [gather, mem_gather_free, mem_gather_free, FreeIn]; tauto

theorem mem_gatherAll_free : ∀ (around : List Symbol) (fs : List Formula) (scope : Scope),
    s ∈ (gatherAll around fs scope).free ↔ s ∈ scope.free ∨ (s ∉ around ∧ FreeInSome s fs)
  | around, [], scope => by simp [gatherAll, FreeInSome]
  | around, f :: fs, scope => by
    rw [gatherAll, mem_gatherAll_free, mem_gather_free, FreeInSome]; tauto

end

@[simp] theorem occurrence_flags (around : List Symbol) (t : Symbol) (scope : Scope) :
    (scope.occurrence around t).flags = scope.flags := by
  unfold occurrence
  split <;> rfl

theorem binder_flags (around : List Symbol) (x : Symbol) (scope : Scope) :
    (scope.binder around x).flags =
      scope.flags ++ (if around.contains x then [x] else []).map boundTwice := by
  unfold binder
  split <;> simp

mutual

theorem gather_flags : ∀ (around : List Symbol) (f : Formula) (scope : Scope),
    (gather around f scope).flags = scope.flags ++ (rebindings around f).map boundTwice
  | around, .letter t, scope => by simp [gather, rebindings]
  | around, .predicate _ args, scope => by rw [gather, gatherAll_flags, rebindings]
  | around, .junction _ juncts, scope => by rw [gather, gatherAll_flags, rebindings]
  | around, .conditional a c, scope => by
    rw [gather, gather_flags, gather_flags, rebindings, List.map_append, List.append_assoc]
  | around, .biconditional a b, scope => by
    rw [gather, gather_flags, gather_flags, rebindings, List.map_append, List.append_assoc]
  | around, .negation f, scope => by rw [gather, gather_flags, rebindings]
  | around, .quantified _ x body, scope => by
    rw [gather, gather_flags, binder_flags, rebindings, List.map_append, List.append_assoc]
  | around, .identity a b _, scope => by
    rw [gather, gather_flags, gather_flags, rebindings, List.map_append, List.append_assoc]

theorem gatherAll_flags : ∀ (around : List Symbol) (fs : List Formula) (scope : Scope),
    (gatherAll around fs scope).flags = scope.flags ++ (rebindingsOfAll around fs).map boundTwice
  | around, [], scope => by simp [gatherAll, rebindingsOfAll]
  | around, f :: fs, scope => by
    rw [gatherAll, gatherAll_flags, gather_flags, rebindingsOfAll, List.map_append,
      List.append_assoc]

end

end Scope

namespace Formula

/-- **The scope of a formula holds exactly its free letters.** -/
theorem mem_scope_free {f : Formula} {s : Symbol} : s ∈ f.scope.free ↔ FreeIn s f := by
  simp [scope, Scope.mem_gather_free]

theorem scope_isFree {f : Formula} {s : Symbol} : f.scope.isFree s = true ↔ FreeIn s f := by
  rw [Scope.isFree, List.contains_iff_mem, mem_scope_free]

/-- **A formula whose scope has no flags binds no symbol twice in one place.** -/
theorem rebindings_eq_nil {f : Formula} (h : f.scope.flags = []) : rebindings [] f = [] := by
  simp only [scope, Scope.gather_flags, List.append_eq_nil_iff, List.map_eq_nil_iff] at h
  exact h.1.2

end Formula

end ProofSheet
