import ProofSheet.Mapping.Basic

/-!
# Matching templates

`matchTemplate` finds the mappings of template letters to formulas by which a template becomes a
given formula. A letter stands for any formula and takes it without its outermost pairs of
negations. Pairs of negations are supplied where they are wanted: a template `¬a` meets a formula
`X` that is no negation as `a` meets `¬X`.
-/

namespace ProofSheet.Solver

mutual

/-- The mappings of the template's letters under which it matches a formula, in the order in which
they are found. Predicates, quantifiers and identities in a template match nothing. -/
def matchTemplate (letters : List Symbol) : Formula → Object → List (Mapping Object)
  | .letter letter, actual =>
    match letters.idxOf? letter with
    | some index => [Mapping.filledAt letters.length index actual.core]
    | none => []
  | .negation inner, actual =>
    match actual with
    | .negation actual _ => matchTemplate letters inner actual
    | actual => matchTemplate letters inner (.negation actual)
  | .junction junctor juncts, actual =>
    match actual with
    | .junction junctor' juncts' _ =>
      if decide (junctor = junctor') && juncts.length == juncts'.length then
        Mapping.assignments [Mapping.unfilled letters.length]
          (matchRows letters juncts juncts')
      else []
    | _ => []
  | .conditional p q, actual =>
    match actual with
    | .conditional p' q' _ => Mapping.joinAll (matchTemplate letters p p') (matchTemplate letters q q')
    | _ => []
  | .biconditional p q, actual =>
    match actual with
    | .biconditional p' q' _ =>
      Mapping.joinAll (matchTemplate letters p p') (matchTemplate letters q q') ++
        Mapping.joinAll (matchTemplate letters p q') (matchTemplate letters q p')
    | _ => []
  | .predicate _ _, _ | .quantified _ _ _, _ | .identity _ _ _, _ => []

/-- The matrix of mappings between the juncts of a template and those of a formula. -/
def matchRows (letters : List Symbol) :
    List Formula → List Object → Mapping.Matrix Object
  | [], _ => []
  | t :: ts, actuals => actuals.map (matchTemplate letters t) :: matchRows letters ts actuals

end

end ProofSheet.Solver
