import ProofSheet.Ascending
import ProofSheet.Flag
import ProofSheet.Formula.Basic

/-!
# Scope

One pass over a formula, carrying the symbols bound around the current place, finds its free
letters and its bound symbols and notes two conflicts:

* a quantifier over a symbol that is already bound around it;
* a symbol that is free somewhere and bound somewhere.

The quantifier rules ask that some letter is not free in some lines, and they mean what they say
only where these conflicts are absent.
-/

namespace ProofSheet

/-- The letters of a formula by their role, each list ascending, and the conflicts found. -/
structure Scope where
  free : List Symbol := []
  bound : List Symbol := []
  flags : List Flag := []
  deriving DecidableEq

namespace Scope

/-- Whether a symbol is free. -/
def isFree (scope : Scope) (symbol : Symbol) : Bool :=
  scope.free.contains symbol

/-- The conflict of a symbol bound inside its own scope. -/
def boundTwice (symbol : Symbol) : Flag :=
  .explained .letterConflict (symbol.toString ++ " is bound more than once.")

/-- The conflict of a symbol both free and bound. -/
def boundAndFree (symbol : Symbol) : Flag :=
  .explained .letterConflict (symbol.toString ++ " is being used as both bound and free.")

/-- Notes a letter, free unless a quantifier around it binds it. -/
def occurrence (around : List Symbol) (symbol : Symbol) (scope : Scope) : Scope :=
  if around.contains symbol then scope
  else { scope with free := Ascending.insert symbol scope.free }

/-- Notes a quantifier's symbol, in conflict when a quantifier around it binds it too. -/
def binder (around : List Symbol) (symbol : Symbol) (scope : Scope) : Scope :=
  if around.contains symbol then { scope with flags := scope.flags ++ [boundTwice symbol] }
  else { scope with bound := Ascending.insert symbol scope.bound }

mutual

/-- Adds what a formula says of its letters, under the symbols bound around it. -/
def gather (around : List Symbol) : Formula → Scope → Scope
  | .letter symbol, scope => scope.occurrence around symbol
  | .predicate _ args, scope => gatherAll around args scope
  | .junction _ juncts, scope => gatherAll around juncts scope
  | .conditional antecedent consequent, scope =>
    gather around consequent (gather around antecedent scope)
  | .biconditional left right, scope => gather around right (gather around left scope)
  | .negation inner, scope => gather around inner scope
  | .quantified _ symbol body, scope =>
    gather (symbol :: around) body (scope.binder around symbol)
  | .identity left right _, scope => gather around right (gather around left scope)

/-- Adds what each formula of a list says of its letters, in order. -/
def gatherAll (around : List Symbol) : List Formula → Scope → Scope
  | [], scope => scope
  | f :: fs, scope => gatherAll around fs (gather around f scope)

end

end Scope

/-- **The scope of a formula**: its letters by role, then the conflicts inside it in reading
order, then one conflict for each symbol both free and bound, ascending. -/
def Formula.scope (f : Formula) : Scope :=
  let scope := Scope.gather [] f {}
  { scope with
    flags := scope.flags ++ (scope.free.filter scope.bound.contains).map Scope.boundAndFree }

end ProofSheet
