import ProofSheet.Draft.Accept
import ProofSheet.Proofs.Interpretation

/-!
# What a draft formula says

A draft formula is read as it stands: a junction joins any number of juncts, and the bindings of a
quantifier are taken from left to right. The normal form that says the same gathers the juncts of a
junction through all junctions of its kind at once, and has a quantifier for each binding.

* `Draft.Formula.normal`: **the normal form of a draft formula.**
* `Draft.Formula.normal_junction`: flattening one level of normal juncts is enough.
* `Draft.Formula.Holds`: truth of a draft formula as it stands.
* `Draft.Formula.holds_normal`: **the normal form is true where the draft is**, in every interpretation.
-/

namespace ProofSheet

universe u

namespace Draft

/-- The first character of a text, which is all of it if the text is a symbol. -/
def letterOf (text : String) : Symbol := text.toList.headD default

/-- The quantifier that a text is the word or the sign for. Texts that are neither count as existential. -/
def quantifierNamed (text : String) : Quantifier :=
  if text = "forall" ∨ text = "∀" then .universal else .existential

/-- The quantifier and the symbol of a binding. -/
def Binding.bound (binding : Binding) : Quantifier × Symbol :=
  (quantifierNamed binding.quantifier, letterOf binding.symbol)

namespace Formula

/-- The junctor of a junction. -/
def junctorOf (conjunction : Bool) : Junctor :=
  if conjunction then .conjunction else .disjunction

/-! ## Normal form -/

mutual

/-- **The normal form of a draft formula.** -/
def normal : Formula → ProofSheet.Formula
  | .letter symbol => .letter (letterOf symbol)
  | .predicate name args => .predicate (letterOf name) (normals args)
  | .junction conjunction juncts =>
    .junction (junctorOf conjunction) (leaves (junctorOf conjunction) juncts)
  | .conditional antecedent consequent => .conditional (normal antecedent) (normal consequent)
  | .biconditional left right => .biconditional (normal left) (normal right)
  | .negation inner => .negation (normal inner)
  | .quantified bindings body => .quantify (bindings.map Binding.bound) (normal body)
  | .identity left right equal => .identity (normal left) (normal right) equal

/-- The normal forms of formulas. -/
def normals : List Formula → List ProofSheet.Formula
  | [] => []
  | f :: fs => normal f :: normals fs

/-- The juncts of a junction of a kind, which may stand under quantifiers that bind nothing. -/
def inside? (junctor : Junctor) : Formula → Option (List ProofSheet.Formula)
  | .junction conjunction juncts =>
    if junctorOf conjunction = junctor then some (leaves junctor juncts) else none
  | .quantified [] body => inside? junctor body
  | _ => none

/-- The juncts that formulas contribute to a junction: those of its kind contribute all of theirs. -/
def leaves (junctor : Junctor) : List Formula → List ProofSheet.Formula
  | [] => []
  | f :: fs => (inside? junctor f).getD [normal f] ++ leaves junctor fs

end

theorem normals_eq (fs : List Formula) : normals fs = fs.map normal := by
  induction fs with
  | nil => rfl
  | cons f fs ih => rw [normals, ih, List.map_cons]

/-- A normal form has the juncts of the draft. -/
theorem junctsUnder_normal (junctor : Junctor) : ∀ f : Formula,
    f.normal.junctsUnder junctor = (inside? junctor f).getD [f.normal]
  | .junction conjunction juncts => by
    rw [normal, inside?, ProofSheet.Formula.junctsUnder]
    split
    · rename_i h
      rw [h, Option.getD_some]
    · rfl
  | .quantified [] body => junctsUnder_normal junctor body
  | .quantified (_ :: _) _ | .letter _ | .predicate _ _ | .conditional _ _ | .biconditional _ _
  | .negation _ | .identity _ _ _ => rfl

theorem leaves_eq (junctor : Junctor) (fs : List Formula) :
    leaves junctor fs = (fs.map normal).flatMap (·.junctsUnder junctor) := by
  induction fs with
  | nil => rfl
  | cons f fs ih => rw [leaves, ih, List.map_cons, List.flatMap_cons, junctsUnder_normal]

/-- **Flattening one level of normal juncts gathers all of them.** -/
theorem normal_junction (conjunction : Bool) (juncts : List Formula) :
    (junction conjunction juncts).normal =
      .junctionOf (junctorOf conjunction) (juncts.map normal) := by
  rw [normal, leaves_eq, ProofSheet.Formula.junctionOf]

/-! ## Truth -/

variable {I : Interpretation.{u}}

/-- The letter that a term is, under an even number of negations and one more if so asked. -/
def letter? (even : Bool) : Formula → Option Symbol
  | .letter symbol => if even then some (letterOf symbol) else none
  | .negation inner => letter? (!even) inner
  | .quantified [] body => letter? even body
  | _ => none

/-- The value of a term. -/
def value (σ : I.Assignment) (f : Formula) : I.Domain :=
  (letter? true f).elim I.other σ

/-- What bindings make of a property of assignments, from left to right. -/
def Bound (P : I.Assignment → Prop) : List Binding → I.Assignment → Prop
  | [], σ => P σ
  | binding :: bindings, σ =>
    match binding.bound with
    | (.universal, x) => ∀ d, Bound P bindings (Function.update σ x d)
    | (.existential, x) => ∃ d, Bound P bindings (Function.update σ x d)

mutual

/-- **Truth of a draft formula as it stands**, in an interpretation under an assignment. -/
def Holds (σ : I.Assignment) : Formula → Prop
  | .letter symbol => I.truths (σ (letterOf symbol))
  | .predicate name args => I.relation (letterOf name) (args.map (value σ))
  | .junction true juncts => AllHold σ juncts
  | .junction false juncts => SomeHolds σ juncts
  | .conditional antecedent consequent => Holds σ antecedent → Holds σ consequent
  | .biconditional left right => Holds σ left ↔ Holds σ right
  | .negation inner => ¬ Holds σ inner
  | .quantified bindings body => Bound (fun τ => Holds τ body) bindings σ
  | .identity left right true => value σ left = value σ right
  | .identity left right false => value σ left ≠ value σ right

/-- All formulas of a list are true. -/
def AllHold (σ : I.Assignment) : List Formula → Prop
  | [] => True
  | f :: fs => Holds σ f ∧ AllHold σ fs

/-- Some formula of a list is true. -/
def SomeHolds (σ : I.Assignment) : List Formula → Prop
  | [] => False
  | f :: fs => Holds σ f ∨ SomeHolds σ fs

end

/-- The letter that a formula is, with pairs of negations around it or not. -/
def coreLetter? (g : ProofSheet.Formula) : Option Symbol :=
  match g.core with
  | .letter s => some s
  | _ => none

theorem value_eq_elim (σ : I.Assignment) (g : ProofSheet.Formula) :
    Interpretation.value σ g = (coreLetter? g).elim I.other σ := by
  rw [Interpretation.value, coreLetter?]
  cases g.core <;> rfl

/-- Pairs of negations around a letter are those of the draft. -/
theorem coreLetter?_normal : ∀ f : Formula,
    coreLetter? f.normal = letter? true f ∧ coreLetter? (.negation f.normal) = letter? false f
  | .negation inner => by
    obtain ⟨heven, hodd⟩ := coreLetter?_normal inner
    refine ⟨hodd, ?_⟩
    rw [normal, coreLetter?, ProofSheet.Formula.core, ← coreLetter?]
    exact heven
  | .quantified [] body => coreLetter?_normal body
  | .quantified (_ :: _) _ | .letter _ | .predicate _ _ | .junction _ _ | .conditional _ _
  | .biconditional _ _ | .identity _ _ _ => ⟨rfl, rfl⟩

theorem value_normal (σ : I.Assignment) (f : Formula) :
    Interpretation.value σ f.normal = value σ f := by
  rw [value_eq_elim, (coreLetter?_normal f).1, value]

theorem holds_quantify {P : I.Assignment → Prop} {g : ProofSheet.Formula}
    (h : ∀ σ, Interpretation.holds σ g ↔ P σ) (bindings : List Binding) : ∀ σ : I.Assignment,
    Interpretation.holds σ (.quantify (bindings.map Binding.bound) g) ↔ Bound P bindings σ := by
  induction bindings with
  | nil => exact h
  | cons binding bindings ih =>
    intro σ
    rw [Bound, List.map_cons]
    obtain ⟨quantifier, x⟩ := binding.bound
    cases quantifier with
    | universal => exact forall_congr' fun d => ih (Function.update σ x d)
    | existential => exact exists_congr fun d => ih (Function.update σ x d)

/-- A junction is true if its juncts are, taken together, before they are flattened. -/
theorem holds_junction_normal {σ : I.Assignment} (conjunction : Bool) (juncts : List Formula) :
    Interpretation.holds σ (junction conjunction juncts).normal ↔
      (junctorOf conjunction).joins (fun f => Interpretation.holds σ f.normal) juncts := by
  rw [normal_junction]
  refine Interpretation.holds_junctionOf.trans ?_
  exact Junctor.joins_forall₂ (List.forall₂_map_left_iff.mpr
    (List.forall₂_same.mpr fun _ _ => Iff.rfl))

mutual

/-- **The normal form is true where the draft is.** -/
theorem holds_normal : ∀ (f : Formula) (σ : I.Assignment),
    Interpretation.holds σ f.normal ↔ f.Holds σ
  | .letter _, _ => Iff.rfl
  | .predicate name args, σ => by
    have hargs : args.map (Interpretation.value σ ∘ normal) = args.map (value σ) :=
      List.map_congr_left fun f _ => value_normal σ f
    rw [normal, Holds, Interpretation.holds, normals_eq, List.map_map, hargs]
  | .junction true juncts, σ => (holds_junction_normal true juncts).trans (all_hold_normal juncts σ)
  | .junction false juncts, σ =>
    (holds_junction_normal false juncts).trans (some_holds_normal juncts σ)
  | .conditional antecedent consequent, σ =>
    imp_congr (holds_normal antecedent σ) (holds_normal consequent σ)
  | .biconditional left right, σ => iff_congr (holds_normal left σ) (holds_normal right σ)
  | .negation inner, σ => not_congr (holds_normal inner σ)
  | .quantified bindings body, σ => holds_quantify (holds_normal body) bindings σ
  | .identity left right true, σ => by
    rw [normal, Holds, Interpretation.holds, value_normal, value_normal]
  | .identity left right false, σ => by
    rw [normal, Holds, Interpretation.holds, value_normal, value_normal]

theorem all_hold_normal : ∀ (fs : List Formula) (σ : I.Assignment),
    (∀ f ∈ fs, Interpretation.holds σ f.normal) ↔ AllHold σ fs
  | [], _ => by simp [AllHold]
  | f :: fs, σ => by
    rw [List.forall_mem_cons, AllHold, holds_normal f σ, all_hold_normal fs σ]

theorem some_holds_normal : ∀ (fs : List Formula) (σ : I.Assignment),
    (∃ f ∈ fs, Interpretation.holds σ f.normal) ↔ SomeHolds σ fs
  | [], _ => by simp [SomeHolds]
  | f :: fs, σ => by
    simp only [List.mem_cons, exists_eq_or_imp]
    rw [SomeHolds, holds_normal f σ, some_holds_normal fs σ]

end

end Formula

end Draft

end ProofSheet
