import ProofSheet.Formula.Basic

/-!
# The text of a formula

`Formula.text` writes a formula in one line. Junctions and conditionals carry brackets of their
own; the body of a quantifier is bracketed only when it is a predicate, as in `(∀x)(Fx)`.
-/

namespace ProofSheet

/-- The sign between the juncts of a junction. -/
def Junctor.sign : Junctor → String
  | .conjunction => " ∧ "
  | .disjunction => " ∨ "

/-- The sign of a quantifier. -/
def Quantifier.sign : Quantifier → String
  | .universal => "∀"
  | .existential => "∃"

namespace Formula

mutual

/-- A formula written in one line. -/
def text : Formula → String
  | .letter symbol => symbol.toString
  | .predicate name args => name.toString ++ String.join (texts args)
  | .junction junctor juncts => "(" ++ String.intercalate junctor.sign (texts juncts) ++ ")"
  | .conditional antecedent consequent => "(" ++ text antecedent ++ " → " ++ text consequent ++ ")"
  | .biconditional left right => "(" ++ text left ++ " ≡ " ++ text right ++ ")"
  | .negation inner => "¬" ++ text inner
  | .quantified quantifier symbol body =>
    let binder := "(" ++ quantifier.sign ++ symbol.toString ++ ")"
    match body.kind with
    | .predicate => binder ++ "(" ++ text body ++ ")"
    | _ => binder ++ text body
  | .identity left right equal => text left ++ (if equal then "=" else "≠") ++ text right

/-- Each formula of a list, written. -/
def texts : List Formula → List String
  | [] => []
  | f :: fs => text f :: texts fs

end

end Formula

end ProofSheet
