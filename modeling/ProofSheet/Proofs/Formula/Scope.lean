import Mathlib.Data.List.Basic
import ProofSheet.Proofs.Formula.FreeLetters

/-!
# What the pass over a formula finds

One pass carries the symbols bound around the current place and adds to what was found so far. What it
finds is what the formula says part by part, each part for itself.

**Induction.** The pass over a part starts under the symbols around it and with what other parts have
left, so each statement about it is made for all of these. A symbol bound again is not noted a second time
(`Scope.binder`); nothing is lost by that as long as the symbols around are noted already
(`Scope.mem_gather_bound`).

* `Formula.quantifiers`: each quantifier of a formula with the symbols bound around it, in reading order.
* `Formula.BoundIn`: some quantifier of a formula is over a symbol.
* `Scope.gather_keeps`: what each note keeps, the whole pass keeps.
* `Formula.rebindings_eq`: the symbols bound again are those of quantifiers that stand under their own
  symbol.
* `Formula.scope_standard`: **the scope of a formula holds its free letters, its bound symbols and one
  flag for each conflict.**
-/

namespace ProofSheet

/-! ## Quantifiers and what stands around them -/

/-- A quantifier at its place in a formula: its symbol, and the symbols of the quantifiers it stands in
the scope of, outermost first. -/
structure PlacedQuantifier where
  around : List Symbol
  symbol : Symbol
  deriving DecidableEq

namespace PlacedQuantifier

/-- A quantifier of a part, seen from where a quantifier over the symbol stands around the part. -/
def under (x : Symbol) (q : PlacedQuantifier) : PlacedQuantifier :=
  { q with around := x :: q.around }

/-- The quantifier stands in the scope of another over the same symbol. -/
def Again (q : PlacedQuantifier) : Prop := q.symbol ∈ q.around

instance : DecidablePred Again := fun q => inferInstanceAs (Decidable (q.symbol ∈ q.around))

end PlacedQuantifier

namespace Formula

variable {f : Formula}

mutual

/-- The quantifiers of a formula, in reading order. -/
def quantifiers : Formula → List PlacedQuantifier
  | .letter _ => []
  | .predicate _ args => quantifiersOfAll args
  | .junction _ juncts => quantifiersOfAll juncts
  | .conditional a c => quantifiers a ++ quantifiers c
  | .biconditional a b => quantifiers a ++ quantifiers b
  | .negation f => quantifiers f
  | .quantified _ x body => ⟨[], x⟩ :: (quantifiers body).map (.under x)
  | .identity a b _ => quantifiers a ++ quantifiers b

/-- The quantifiers of some formulas. -/
def quantifiersOfAll : List Formula → List PlacedQuantifier
  | [] => []
  | f :: fs => quantifiers f ++ quantifiersOfAll fs

end

theorem quantifiersOfAll_eq (fs : List Formula) : quantifiersOfAll fs = fs.flatMap quantifiers := by
  induction fs with
  | nil => rfl
  | cons f fs ih => rw [quantifiersOfAll, ih]; rfl

/-- The symbols that quantifiers bind are those of the quantifiers. -/
theorem map_symbol_quantifiers (f : Formula) : (quantifiers f).map (·.symbol) = binders f := by
  induction f using inductionOn with
  | letter s => rfl
  | predicate name fs ih | junction name fs ih =>
    rw [quantifiers, quantifiersOfAll_eq, binders, bindersOfAll_eq, List.map_flatMap]
    exact List.flatMap_congr ih
  | conditional a b iha ihb | biconditional a b iha ihb | identity a b _ iha ihb =>
    rw [quantifiers, binders, List.map_append, iha, ihb]
  | negation f ih => rw [quantifiers, binders, ih]
  | quantified q x body ih =>
    rw [quantifiers, binders, List.map_cons, List.map_map, ← ih]
    rfl

/-- Some quantifier of a formula is over the symbol. -/
def BoundIn (s : Symbol) (f : Formula) : Prop := ∃ q ∈ quantifiers f, q.symbol = s

theorem boundIn_iff {s : Symbol} : BoundIn s f ↔ s ∈ binders f := by
  rw [← map_symbol_quantifiers, List.mem_map]
  rfl

/-- **The symbols bound again**, under symbols around the formula, are those of the quantifiers that stand
under their own symbol, be it around the formula or in it. -/
theorem rebindings_eq (f : Formula) : ∀ around : List Symbol, rebindings around f =
    ((quantifiers f).filter fun q => q.symbol ∈ around ++ q.around).map (·.symbol) := by
  induction f using inductionOn with
  | letter s => intro around; rfl
  | predicate name fs ih | junction name fs ih =>
    intro around
    rw [rebindings, rebindingsOfAll_eq, quantifiers, quantifiersOfAll_eq, List.filter_flatMap,
      List.map_flatMap]
    exact List.flatMap_congr fun f hf => ih f hf around
  | conditional a b iha ihb | biconditional a b iha ihb | identity a b _ iha ihb =>
    intro around
    rw [rebindings, quantifiers, List.filter_append, List.map_append, iha, ihb]
  | negation f ih =>
    intro around
    rw [rebindings, quantifiers, ih]
  | quantified q x body ih =>
    intro around
    -- the symbol comes first of what is around the body, and last of what is around the formula
    have hbody : ∀ q : PlacedQuantifier,
        q.symbol ∈ x :: around ++ q.around ↔ q.symbol ∈ around ++ (q.under x).around :=
      fun q => List.perm_middle.mem_iff.symm
    have hrest : rebindings (x :: around) body =
        (((quantifiers body).map (PlacedQuantifier.under x)).filter fun q =>
          q.symbol ∈ around ++ q.around).map (·.symbol) := by
      rw [ih, List.filter_map, List.map_map]
      simp only [hbody]
      rfl
    rw [rebindings, quantifiers, hrest, List.filter_cons, List.append_nil]
    by_cases hx : x ∈ around <;> simp [hx]

theorem rebindings_nil_eq (f : Formula) :
    rebindings [] f = ((quantifiers f).filter fun q => q.Again).map (·.symbol) :=
  rebindings_eq f []

end Formula

/-! ## The pass keeps what each note keeps -/

namespace Scope

open Ascending (IsAscending insert_ascending)
open Formula (FreeIn binders bindersOfAll)

/-- Each note that the pass makes keeps something said of what was found so far. -/
structure KeptByNotes (Kept : Scope → Prop) : Prop where
  letter : ∀ {around s scope}, Kept scope → Kept (scope.occurrence around s)
  quantifier : ∀ {around x scope}, Kept scope → Kept (scope.binder around x)

mutual

/-- **What each note keeps, the pass over a formula keeps.** -/
theorem gather_keeps {Kept : Scope → Prop} (hnotes : KeptByNotes Kept) :
    ∀ (around : List Symbol) (f : Formula) {scope : Scope},
      Kept scope → Kept (gather around f scope)
  | _, .letter _, _, h => hnotes.letter h
  | around, .predicate _ args, _, h => gatherAll_keeps hnotes around args h
  | around, .junction _ juncts, _, h => gatherAll_keeps hnotes around juncts h
  | around, .conditional a c, _, h =>
    gather_keeps hnotes around c (gather_keeps hnotes around a h)
  | around, .biconditional a b, _, h =>
    gather_keeps hnotes around b (gather_keeps hnotes around a h)
  | around, .negation f, _, h => gather_keeps hnotes around f h
  | around, .quantified _ x body, _, h =>
    gather_keeps hnotes (x :: around) body (hnotes.quantifier h)
  | around, .identity a b _, _, h =>
    gather_keeps hnotes around b (gather_keeps hnotes around a h)

theorem gatherAll_keeps {Kept : Scope → Prop} (hnotes : KeptByNotes Kept) :
    ∀ (around : List Symbol) (fs : List Formula) {scope : Scope},
      Kept scope → Kept (gatherAll around fs scope)
  | _, [], _, h => h
  | around, f :: fs, _, h => gatherAll_keeps hnotes around fs (gather_keeps hnotes around f h)

end

@[simp] theorem occurrence_bound (around : List Symbol) (s : Symbol) (scope : Scope) :
    (scope.occurrence around s).bound = scope.bound := by
  unfold occurrence
  split <;> rfl

theorem free_ascending_kept : KeptByNotes fun scope => IsAscending scope.free where
  letter h := by
    unfold occurrence
    split
    · exact h
    · exact insert_ascending h
  quantifier h := by rwa [binder_free]

theorem bound_ascending_kept : KeptByNotes fun scope => IsAscending scope.bound where
  letter h := by rwa [occurrence_bound]
  quantifier h := by
    unfold binder
    split
    · exact h
    · exact insert_ascending h

/-- A symbol once noted as bound stays noted. -/
theorem noted_kept (s : Symbol) : KeptByNotes fun scope => s ∈ scope.bound where
  letter h := by rwa [occurrence_bound]
  quantifier h := by
    unfold binder
    split
    · exact h
    · exact Ascending.mem_insert.mpr (.inr h)

/-! ## The symbols noted as bound -/

variable {s : Symbol} {around : List Symbol} {scope : Scope}

/-- A symbol bound again is not noted again, but then it is noted already. -/
theorem mem_binder_bound {x : Symbol} (h : around ⊆ scope.bound) :
    s ∈ (scope.binder around x).bound ↔ s = x ∨ s ∈ scope.bound := by
  unfold binder
  split
  · rename_i hx
    have hnoted : x ∈ scope.bound := h (by simpa using hx)
    constructor
    · exact .inr
    · rintro (rfl | hs)
      · exact hnoted
      · exact hs
  · exact Ascending.mem_insert

theorem subset_gather_bound (f : Formula) (h : around ⊆ scope.bound) :
    around ⊆ (gather around f scope).bound :=
  fun s hs => gather_keeps (noted_kept s) around f (h hs)

mutual

theorem mem_gather_bound : ∀ (around : List Symbol) (f : Formula) {scope : Scope},
    around ⊆ scope.bound → (s ∈ (gather around f scope).bound ↔ s ∈ scope.bound ∨ s ∈ binders f)
  | around, .letter t, _, _ => by simp [gather, binders]
  | around, .predicate _ args, _, h => by rw [gather, mem_gatherAll_bound around args h, binders]
  | around, .junction _ juncts, _, h => by rw [gather, mem_gatherAll_bound around juncts h, binders]
  | around, .conditional a c, _, h => by
    rw [gather, binders, List.mem_append, ← or_assoc, ← mem_gather_bound around a h]
    exact mem_gather_bound around c (subset_gather_bound a h)
  | around, .biconditional a b, _, h => by
    rw [gather, binders, List.mem_append, ← or_assoc, ← mem_gather_bound around a h]
    exact mem_gather_bound around b (subset_gather_bound a h)
  | around, .negation f, _, h => by rw [gather, mem_gather_bound around f h, binders]
  | around, .quantified _ x body, scope, h => by
    have hsub : x :: around ⊆ (scope.binder around x).bound := by
      intro t ht
      rw [mem_binder_bound h]
      exact (List.mem_cons.mp ht).imp_right fun ht => h ht
    rw [gather, mem_gather_bound (x :: around) body hsub, mem_binder_bound h, binders,
      List.mem_cons]
    tauto
  | around, .identity a b _, _, h => by
    rw [gather, binders, List.mem_append, ← or_assoc, ← mem_gather_bound around a h]
    exact mem_gather_bound around b (subset_gather_bound a h)

theorem mem_gatherAll_bound : ∀ (around : List Symbol) (fs : List Formula) {scope : Scope},
    around ⊆ scope.bound →
      (s ∈ (gatherAll around fs scope).bound ↔ s ∈ scope.bound ∨ s ∈ bindersOfAll fs)
  | around, [], _, _ => by simp [gatherAll, bindersOfAll]
  | around, f :: fs, _, h => by
    rw [gatherAll, bindersOfAll, List.mem_append, ← or_assoc, ← mem_gather_bound around f h]
    exact mem_gatherAll_bound around fs (subset_gather_bound f h)

end

end Scope

/-! ## The scope of a formula -/

namespace Formula

open Ascending (IsAscending)

variable {f : Formula}

theorem scope_free_ascending (f : Formula) : IsAscending f.scope.free :=
  Scope.gather_keeps Scope.free_ascending_kept [] f List.Pairwise.nil

theorem scope_bound_ascending (f : Formula) : IsAscending f.scope.bound :=
  Scope.gather_keeps Scope.bound_ascending_kept [] f List.Pairwise.nil

theorem mem_scope_bound {s : Symbol} : s ∈ f.scope.bound ↔ BoundIn s f := by
  rw [boundIn_iff]
  simp [scope, Scope.mem_gather_bound [] f (List.nil_subset _)]

/-- The flags of a formula, by what the pass over it leaves. -/
theorem scope_flags (f : Formula) : f.scope.flags =
    ((quantifiers f).filter fun q => q.Again).map (fun q => Scope.boundTwice q.symbol) ++
      (f.scope.free.filter f.scope.bound.contains).map Scope.boundAndFree := by
  have hpass : (Scope.gather [] f {}).flags =
      ((quantifiers f).filter fun q => q.Again).map (fun q => Scope.boundTwice q.symbol) := by
    rw [Scope.gather_flags, List.nil_append, rebindings_nil_eq, List.map_map]
    rfl
  rw [← hpass]
  rfl

theorem mem_free_and_bound {s : Symbol} :
    s ∈ f.scope.free.filter f.scope.bound.contains ↔ FreeIn s f ∧ BoundIn s f := by
  rw [List.mem_filter, List.contains_iff_mem, mem_scope_free, mem_scope_bound]

theorem scope_flags_eq_nil_iff : f.scope.flags = [] ↔
    (∀ q ∈ quantifiers f, ¬ q.Again) ∧ ∀ s, ¬ (FreeIn s f ∧ BoundIn s f) := by
  rw [scope_flags, List.append_eq_nil_iff, List.map_eq_nil_iff, List.map_eq_nil_iff,
    List.filter_eq_nil_iff, List.eq_nil_iff_forall_not_mem]
  simp only [decide_eq_true_eq, mem_free_and_bound]

/-- **The scope of a formula is what the formula says part by part.** Its free letters are an ascending
set, as are the symbols of all its quantifiers. It has one flag for each quantifier in the scope of another
over the same symbol, in reading order, and then one for each symbol both free and bound, ascending. So it
has no flags just if no symbol is bound again in its own scope, and none is both free and bound. -/
theorem scope_standard (f : Formula) :
    (IsAscending f.scope.free ∧ ∀ s, s ∈ f.scope.free ↔ FreeIn s f) ∧
    (IsAscending f.scope.bound ∧ ∀ s, s ∈ f.scope.bound ↔ BoundIn s f) ∧
    (∃ both, IsAscending both ∧ (∀ s, s ∈ both ↔ FreeIn s f ∧ BoundIn s f) ∧
      f.scope.flags =
        ((quantifiers f).filter fun q => q.Again).map (fun q => Scope.boundTwice q.symbol) ++
          both.map Scope.boundAndFree) ∧
    (f.scope.flags = [] ↔
      (∀ q ∈ quantifiers f, ¬ q.Again) ∧ ∀ s, ¬ (FreeIn s f ∧ BoundIn s f)) := by
  refine ⟨⟨scope_free_ascending f, fun s => mem_scope_free⟩,
    ⟨scope_bound_ascending f, fun s => mem_scope_bound⟩, ?_, scope_flags_eq_nil_iff⟩
  refine ⟨f.scope.free.filter f.scope.bound.contains, ?_, fun s => mem_free_and_bound,
    scope_flags f⟩
  exact (scope_free_ascending f).filter _

/-- `(∀x)((∃x)Fx ∧ (∃y)Gxy) ∧ Fy`: the second quantifier stands in the scope of the first, and `y` is
bound in one place and free in another. -/
example : (Formula.junction .conjunction [.quantified .universal 'x' (.junction .conjunction
      [.quantified .existential 'x' (.predicate 'F' [.letter 'x']),
        .quantified .existential 'y' (.predicate 'G' [.letter 'x', .letter 'y'])]),
      .predicate 'F' [.letter 'y']]).scope =
    { free := ['y'], bound := ['x', 'y'],
      flags := [Scope.boundTwice 'x', Scope.boundAndFree 'y'] } := by
  decide

end Formula

end ProofSheet
