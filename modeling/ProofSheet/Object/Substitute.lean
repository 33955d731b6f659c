import ProofSheet.Formula.Substitute
import ProofSheet.Object.Basic

/-!
# Substitution of objects

`Object.substitute` builds an object from a formula by putting objects in the place of letters. The
objects stay what they are; all else is built anew.
-/

namespace ProofSheet.Object

variable (source : List Symbol) (target : List (Option Object))

mutual

/-- A formula with objects in the place of the letters of `source` that have a replacement in
`target`. -/
def substitute : Formula → Object
  | .letter symbol => (replacementFor source target symbol).getD (.letter symbol)
  | .predicate name args => .predicate name (substituteAll args)
  | .junction junctor juncts => junctionOf junctor (substituteAll juncts)
  | .conditional antecedent consequent =>
    .conditional (substitute antecedent) (substitute consequent)
  | .biconditional left right => .biconditional (substitute left) (substitute right)
  | .negation inner => .negation (substitute inner)
  | .quantified quantifier symbol body =>
    .quantified quantifier (Formula.rebind source (target.map (·.map formula)) symbol)
      (substitute body)
  | .identity left right equal => .identity (substitute left) (substitute right) equal

/-- Substitution in each formula of a list. -/
def substituteAll : List Formula → List Object
  | [] => []
  | f :: fs => substitute f :: substituteAll fs

end

end ProofSheet.Object
