/-!
# Formulas

The sentences of a proof sheet: first-order predicate logic with identity, whose junctions take
any number of parts.

* `Formula`: the trees. Equality `=` is exact equality of trees; sameness up to bound letters and
  order is `Object.alike`.
* `Formula.junctionOf`, `Formula.quantify`: the constructors that keep a normal form, by which
  `(A ∧ B) ∧ C` is one conjunction of three parts and `(∀x y)` is `(∀x)(∀y)`.
* `Formula.core`: a formula without its outermost pairs of negations.
-/

namespace ProofSheet

/-- A symbol names a sentence letter, a predicate or a letter bound by a quantifier. -/
abbrev Symbol := Char

/-- The two ways to join any number of formulas. -/
inductive Junctor where
  | conjunction
  | disjunction
  deriving DecidableEq

/-- The two quantifiers. -/
inductive Quantifier where
  | universal
  | existential
  deriving DecidableEq

/-- A formula. A symbol is bound or free only through the quantifiers around it. -/
inductive Formula where
  /-- A sentence letter, or a letter standing for an individual. -/
  | letter (symbol : Symbol)
  /-- A predicate applied to its arguments. -/
  | predicate (name : Symbol) (args : List Formula)
  /-- A conjunction or disjunction of its juncts. -/
  | junction (junctor : Junctor) (juncts : List Formula)
  | conditional (antecedent consequent : Formula)
  | biconditional (left right : Formula)
  | negation (inner : Formula)
  /-- A quantifier over one symbol. -/
  | quantified (quantifier : Quantifier) (symbol : Symbol) (body : Formula)
  /-- The identity of two sides, or their distinctness when `equal` is false. -/
  | identity (left right : Formula) (equal : Bool)

namespace Formula

instance : Inhabited Formula := ⟨.letter 'A'⟩

/-! ## Exact equality -/

mutual

/-- Whether two formulas are the same tree. -/
def same : Formula → Formula → Bool
  | .letter s, .letter t => s == t
  | .predicate n as, .predicate m bs => n == m && sameAll as bs
  | .junction j as, .junction k bs => decide (j = k) && sameAll as bs
  | .conditional a b, .conditional c d => same a c && same b d
  | .biconditional a b, .biconditional c d => same a c && same b d
  | .negation a, .negation b => same a b
  | .quantified p s a, .quantified q t b => decide (p = q) && s == t && same a b
  | .identity a b e, .identity c d f => same a c && same b d && e == f
  | _, _ => false

/-- Whether two lists of formulas are the same, tree by tree. -/
def sameAll : List Formula → List Formula → Bool
  | [], [] => true
  | a :: as, b :: bs => same a b && sameAll as bs
  | _, _ => false

end

mutual

theorem same_self : ∀ a : Formula, same a a = true
  | .letter _ => by simp [same]
  | .predicate _ as => by simp [same, sameAll_self as]
  | .junction _ as => by simp [same, sameAll_self as]
  | .conditional a b => by simp [same, same_self a, same_self b]
  | .biconditional a b => by simp [same, same_self a, same_self b]
  | .negation a => by simp [same, same_self a]
  | .quantified _ _ a => by simp [same, same_self a]
  | .identity a b _ => by simp [same, same_self a, same_self b]

theorem sameAll_self : ∀ as : List Formula, sameAll as as = true
  | [] => by simp [sameAll]
  | a :: as => by simp [sameAll, same_self a, sameAll_self as]

end

mutual

theorem eq_of_same : ∀ {a b : Formula}, same a b = true → a = b
  | .letter _, b, h => by cases b <;> simp_all [same]
  | .predicate _ as, b, h => by
    cases b <;> simp [same] at h
    rw [h.1, eq_of_sameAll h.2]
  | .junction _ as, b, h => by
    cases b <;> simp [same] at h
    rw [h.1, eq_of_sameAll h.2]
  | .conditional a a', b, h => by
    cases b <;> simp [same] at h
    rw [eq_of_same h.1, eq_of_same h.2]
  | .biconditional a a', b, h => by
    cases b <;> simp [same] at h
    rw [eq_of_same h.1, eq_of_same h.2]
  | .negation a, b, h => by
    cases b <;> simp [same] at h
    rw [eq_of_same h]
  | .quantified _ _ a, b, h => by
    cases b <;> simp [same] at h
    rw [h.1.1, h.1.2, eq_of_same h.2]
  | .identity a a' _, b, h => by
    cases b <;> simp [same] at h
    rw [eq_of_same h.1.1, eq_of_same h.1.2, h.2]

theorem eq_of_sameAll : ∀ {as bs : List Formula}, sameAll as bs = true → as = bs
  | [], bs, h => by cases bs <;> simp_all [sameAll]
  | a :: as, bs, h => by
    cases bs <;> simp [sameAll] at h
    rw [eq_of_same h.1, eq_of_sameAll h.2]

end

/-- **Exact equality is decidable**: `same` decides it. -/
instance : DecidableEq Formula := fun a b =>
  if h : same a b = true then isTrue (eq_of_same h)
  else isFalse fun e => h (e ▸ same_self a)

/-! ## Kinds -/

/-- The eight kinds of formula, by outermost constructor. -/
inductive Kind where
  | letter
  | predicate
  | junction
  | conditional
  | biconditional
  | negation
  | quantified
  | identity
  deriving DecidableEq

/-- The place of a kind among the eight, counted from zero. -/
def Kind.index : Kind → Nat
  | .letter => 0
  | .predicate => 1
  | .junction => 2
  | .conditional => 3
  | .biconditional => 4
  | .negation => 5
  | .quantified => 6
  | .identity => 7

/-- The kind of a formula. -/
def kind : Formula → Kind
  | .letter _ => .letter
  | .predicate _ _ => .predicate
  | .junction _ _ => .junction
  | .conditional _ _ => .conditional
  | .biconditional _ _ => .biconditional
  | .negation _ => .negation
  | .quantified _ _ _ => .quantified
  | .identity _ _ _ => .identity

/-! ## Normalising constructors -/

/-- What a formula contributes to a junction: its own juncts if it is a junction of the same
kind, and itself otherwise. -/
def junctsUnder (junctor : Junctor) : Formula → List Formula
  | .junction inner juncts => if inner = junctor then juncts else [.junction inner juncts]
  | f => [f]

/-- **Junctions flatten one level as they are built**, so no junct is a junction of the same
kind once the parts are normal. -/
def junctionOf (junctor : Junctor) (parts : List Formula) : Formula :=
  .junction junctor (parts.flatMap (junctsUnder junctor))

/-- A quantifier over several symbols is one quantifier for each, the first outermost. -/
def quantify (bindings : List (Quantifier × Symbol)) (body : Formula) : Formula :=
  bindings.foldr (fun binding inner => .quantified binding.1 binding.2 inner) body

/-! ## Parts -/

/-- The bound symbol and the body of a formula quantified by the given quantifier. -/
def quantifiedBy? (quantifier : Quantifier) : Formula → Option (Symbol × Formula)
  | .quantified q symbol body => if q = quantifier then some (symbol, body) else none
  | _ => none

/-- What a negation negates. -/
def negated? : Formula → Option Formula
  | .negation inner => some inner
  | _ => none

/-- **The formula under its outermost pairs of negations**: `¬¬¬A` gives `¬A`. -/
def core : Formula → Formula
  | .negation (.negation inner) => core inner
  | f => f

end Formula

end ProofSheet
