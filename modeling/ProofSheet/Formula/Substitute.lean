import ProofSheet.Formula.Basic

/-!
# Substitution

`Formula.substitute` puts formulas in the place of letters, everywhere at once. It does not look
at scopes: a bound letter is replaced along with its quantifier when the replacement is itself a
letter, so `x ↦ z` takes `(∀x)(Fx)` to `(∀z)(Fz)`. Junctions are rebuilt in normal form.
-/

namespace ProofSheet

/-- What stands for a symbol: the entry of `target` at the first place of the symbol in `source`, if
there is such an entry and it is not empty. -/
def replacementFor {α : Type} (source : List Symbol) (target : List (Option α)) (symbol : Symbol) :
    Option α :=
  match source, target with
  | s :: source, t :: target => if s = symbol then t else replacementFor source target symbol
  | _, _ => none

namespace Formula

variable (source : List Symbol) (target : List (Option Formula))

/-- The symbol a quantifier binds after substitution. -/
def rebind (symbol : Symbol) : Symbol :=
  match replacementFor source target symbol with
  | some (.letter fresh) => fresh
  | _ => symbol

mutual

/-- Replaces every letter of `source` that has a replacement in `target`. -/
def substitute : Formula → Formula
  | .letter symbol => (replacementFor source target symbol).getD (.letter symbol)
  | .predicate name args => .predicate name (substituteAll args)
  | .junction junctor juncts => junctionOf junctor (substituteAll juncts)
  | .conditional antecedent consequent =>
    .conditional (substitute antecedent) (substitute consequent)
  | .biconditional left right => .biconditional (substitute left) (substitute right)
  | .negation inner => .negation (substitute inner)
  | .quantified quantifier symbol body =>
    .quantified quantifier (rebind source target symbol) (substitute body)
  | .identity left right equal => .identity (substitute left) (substitute right) equal

/-- Substitution in each formula of a list. -/
def substituteAll : List Formula → List Formula
  | [] => []
  | f :: fs => substitute f :: substituteAll fs

end

end Formula

end ProofSheet
