import ProofSheet.Formula.Scope

/-!
# The table of truth-functional rules

Each rule has one or two antecedent templates and a consequent template, over the letters `a`, `b`
and `c`. Templates hold letters, negations, junctions and conditionals only, and every letter of a
consequent occurs in an antecedent.
-/

namespace ProofSheet.Solver

/-- A step of the solver: from instances of the antecedents, the instance of the consequent. -/
structure Inference where
  antecedents : List Formula
  consequent : Formula
  name : String
  deriving DecidableEq

/-- The letters of a rule, ascending: those free in its antecedents. -/
def Inference.letters (rule : Inference) : List Symbol :=
  rule.antecedents.foldl (fun letters f => Ascending.union letters f.scope.free) []

/-! ## The rules -/

namespace Schema

/-- The first template letter. -/
def a : Formula := .letter 'a'

/-- The second template letter. -/
def b : Formula := .letter 'b'

/-- The third template letter. -/
def c : Formula := .letter 'c'

/-- A negated template. -/
def neg (x : Formula) : Formula := .negation x

/-- A conjunction of two templates. -/
def conj (x y : Formula) : Formula := .junction .conjunction [x, y]

/-- A disjunction of templates. -/
def disj (xs : List Formula) : Formula := .junction .disjunction xs

/-- A conditional between templates. -/
def cond (x y : Formula) : Formula := .conditional x y

end Schema

open Schema in
/-- The rules, in the order in which they are tried. -/
def table : List Inference :=
  [ ⟨[neg (neg a)], a, "double-negation elimination"⟩,
    ⟨[conj a b], a, "conjunction elimination"⟩,
    ⟨[a, b], conj a b, "conjunction introduction"⟩,
    ⟨[a, b], disj [a, b], "disjunction introduction"⟩,
    ⟨[a, cond (neg a) b], disj [a, b], "disjunction introduction"⟩,
    ⟨[neg (conj a b)], disj [neg a, neg b], "De Morgan's law"⟩,
    ⟨[neg (disj [a, b])], conj (neg a) (neg b), "De Morgan's law"⟩,
    ⟨[cond a b, a], b, "modus ponens"⟩,
    ⟨[cond a b, neg b], neg a, "modus tollens"⟩,
    ⟨[disj [neg a, b]], cond a b, "disjunction to conditional"⟩,
    ⟨[disj [neg c, neg a, b]], cond c (cond a b), "disjunction to conditional"⟩,
    ⟨[disj [neg c, neg a, b]], cond (conj c a) b, "disjunction to conditional"⟩,
    ⟨[cond a b], disj [neg a, b], "conditional to disjunction"⟩,
    ⟨[cond a (cond c b)], disj [neg a, neg c, b], "conditional to disjunction"⟩,
    ⟨[cond a b, cond a (neg b)], neg a, "contradiction"⟩ ]

/-! ## Selection by kind -/

/-- Whether some antecedent of a rule is of a kind. -/
def Inference.hasAntecedent (rule : Inference) (kind : Formula.Kind) : Bool :=
  rule.antecedents.any fun f => decide (f.kind = kind)

/-- Whether the consequent of a rule is of a kind. -/
def Inference.hasConsequent (rule : Inference) (kind : Formula.Kind) : Bool :=
  decide (rule.consequent.kind = kind)

/-- The places in the table of the rules that pass a test, ascending. -/
def placesWhere (test : Inference → Bool) : List Nat :=
  table.zipIdx.filterMap fun (rule, place) => if test rule then some place else none

end ProofSheet.Solver
