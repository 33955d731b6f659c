import ProofSheet.Formula.Basic

/-!
# Bound letters

Two formulas are compared under the pairs of letters bound so far, one from each side. A letter that
is bound already on its side is not bound again.
-/

namespace ProofSheet

/-- The pairs of letters bound by the quantifiers passed on the two sides, innermost first. -/
abbrev BoundPairs := List (Symbol × Symbol)

namespace BoundPairs

/-- Whether two letters correspond: they are bound together, or both are free and equal. -/
def matchLetters (bound : BoundPairs) (l r : Symbol) : Bool :=
  match bound.find? fun pair => pair.1 == l with
  | some pair => pair.2 == r
  | none => l == r && !bound.any fun pair => pair.2 == r

/-- Whether a letter is bound already on the side it comes from. -/
def clashes (bound : BoundPairs) (l r : Symbol) : Bool :=
  bound.any fun pair => pair.1 == l || pair.2 == r

/-- Whether each letter is bound together with itself. -/
def isMatched (bound : BoundPairs) : Bool :=
  bound.all fun pair => pair.1 == pair.2

end BoundPairs

end ProofSheet
