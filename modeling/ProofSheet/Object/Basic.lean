import ProofSheet.Formula.Basic

/-!
# Formulas in memory

In memory a formula is made of objects, one for each of its parts. An object may be a part in several
places, and two objects may be the same formula; so a formula does not tell which of its parts are one
object.

* `Object`: a formula with the place of each part. An object that is built in the course of a check
  lies at no place.
* `Object.formula`: the formula that an object is, whose parts lie nowhere.
* `Formula.laid`: a formula laid out in memory.
* `Memory`: where the parts of the lines of a sheet lie.

Two objects are one exactly if they are equal here: they lie at one place and so do their parts. Two
objects that lie at no place are told apart by their parts alone. No answer depends on that: such an
object stands under no quantifier of a formula that it is compared with, and there an object that is
compared with itself part by part is found alike (`Object.alikeApart_self`).
-/

namespace ProofSheet

/-- A place in memory. The places of a sheet are the parts of its lines: the label of a line, and the
numbers of the parts taken on the way down from its formula. -/
abbrev Place := List Nat

/-- A formula in memory. -/
inductive Object where
  | letter (symbol : Symbol) (place : Option Place := none)
  | predicate (name : Symbol) (args : List Object) (place : Option Place := none)
  | junction (junctor : Junctor) (juncts : List Object) (place : Option Place := none)
  | conditional (antecedent consequent : Object) (place : Option Place := none)
  | biconditional (left right : Object) (place : Option Place := none)
  | negation (inner : Object) (place : Option Place := none)
  | quantified (quantifier : Quantifier) (symbol : Symbol) (body : Object)
      (place : Option Place := none)
  | identity (left right : Object) (equal : Bool) (place : Option Place := none)

namespace Object

instance : Inhabited Object := ⟨.letter 'A'⟩

/-! ## Identity -/

mutual

/-- Whether two objects are one: the same tree, whose parts lie at the same places. -/
def same : Object → Object → Bool
  | .letter s p, .letter t q => s == t && p == q
  | .predicate n as p, .predicate m bs q => n == m && sameAll as bs && p == q
  | .junction j as p, .junction k bs q => decide (j = k) && sameAll as bs && p == q
  | .conditional a b p, .conditional c d q => same a c && same b d && p == q
  | .biconditional a b p, .biconditional c d q => same a c && same b d && p == q
  | .negation a p, .negation b q => same a b && p == q
  | .quantified k s a p, .quantified l t b q => decide (k = l) && s == t && same a b && p == q
  | .identity a b e p, .identity c d f q => same a c && same b d && e == f && p == q
  | _, _ => false

/-- Whether two lists hold the same objects. -/
def sameAll : List Object → List Object → Bool
  | [], [] => true
  | a :: as, b :: bs => same a b && sameAll as bs
  | _, _ => false

end

mutual

theorem same_iff : ∀ {a b : Object}, same a b = true ↔ a = b
  | .letter _ _, b => by cases b <;> simp [same]
  | .predicate _ as _, b => by cases b <;> simp [same, sameAll_iff, and_assoc]
  | .junction _ as _, b => by cases b <;> simp [same, sameAll_iff, and_assoc]
  | .conditional a a' _, b => by cases b <;> simp [same, @same_iff a, @same_iff a', and_assoc]
  | .biconditional a a' _, b => by cases b <;> simp [same, @same_iff a, @same_iff a', and_assoc]
  | .negation a _, b => by cases b <;> simp [same, @same_iff a]
  | .quantified _ _ a _, b => by cases b <;> simp [same, @same_iff a, and_assoc]
  | .identity a a' _ _, b => by cases b <;> simp [same, @same_iff a, @same_iff a', and_assoc]

theorem sameAll_iff : ∀ {as bs : List Object}, sameAll as bs = true ↔ as = bs
  | [], bs => by cases bs <;> simp [sameAll]
  | a :: as, bs => by cases bs <;> simp [sameAll, @same_iff a, @sameAll_iff as]

end

/-- **Identity of objects is decidable**: `same` decides it. -/
instance : DecidableEq Object := fun _ _ => decidable_of_iff _ same_iff

/-! ## The formula of an object -/

mutual

/-- **The formula that an object is.** -/
def formula : Object → Formula
  | .letter symbol _ => .letter symbol
  | .predicate name args _ => .predicate name (formulas args)
  | .junction junctor juncts _ => .junction junctor (formulas juncts)
  | .conditional antecedent consequent _ => .conditional (formula antecedent) (formula consequent)
  | .biconditional left right _ => .biconditional (formula left) (formula right)
  | .negation inner _ => .negation (formula inner)
  | .quantified quantifier symbol body _ => .quantified quantifier symbol (formula body)
  | .identity left right equal _ => .identity (formula left) (formula right) equal

/-- The formulas that some objects are. -/
def formulas : List Object → List Formula
  | [] => []
  | o :: os => formula o :: formulas os

end

/-- The kind of the formula that an object is. -/
def kind (o : Object) : Formula.Kind := o.formula.kind

/-! ## Parts -/

/-- What a negation negates. -/
def negated? : Object → Option Object
  | .negation inner _ => some inner
  | _ => none

/-- **The object under its outermost pairs of negations.** -/
def core : Object → Object
  | .negation (.negation inner _) _ => core inner
  | o => o

/-- What an object contributes to a junction: its own juncts if it is a junction of the same kind,
and itself otherwise. -/
def junctsUnder (junctor : Junctor) : Object → List Object
  | .junction inner juncts place =>
    if inner = junctor then juncts else [.junction inner juncts place]
  | o => [o]

/-- A junction built from objects. It flattens one level. -/
def junctionOf (junctor : Junctor) (parts : List Object) : Object :=
  .junction junctor (parts.flatMap (junctsUnder junctor))

end Object

/-! ## Layout -/

namespace Formula

mutual

/-- **A formula laid out in memory**: each part lies where the layout puts it, by the numbers of the
parts taken on the way down to it. -/
def laid (layout : Place → Option Place) : Formula → Object
  | .letter symbol => .letter symbol (layout [])
  | .predicate name args => .predicate name (laidFrom layout 0 args) (layout [])
  | .junction junctor juncts => .junction junctor (laidFrom layout 0 juncts) (layout [])
  | .conditional antecedent consequent =>
    .conditional (laid (fun path => layout (0 :: path)) antecedent)
      (laid (fun path => layout (1 :: path)) consequent) (layout [])
  | .biconditional left right =>
    .biconditional (laid (fun path => layout (0 :: path)) left)
      (laid (fun path => layout (1 :: path)) right) (layout [])
  | .negation inner => .negation (laid (fun path => layout (0 :: path)) inner) (layout [])
  | .quantified quantifier symbol body =>
    .quantified quantifier symbol (laid (fun path => layout (0 :: path)) body) (layout [])
  | .identity left right equal =>
    .identity (laid (fun path => layout (0 :: path)) left)
      (laid (fun path => layout (1 :: path)) right) equal (layout [])

/-- Formulas laid out as the parts of one, numbered from `number` on. -/
def laidFrom (layout : Place → Option Place) (number : Nat) : List Formula → List Object
  | [] => []
  | f :: fs => laid (fun path => layout (number :: path)) f :: laidFrom layout (number + 1) fs

end

/-- A formula built anew, all of whose parts lie at no place. -/
def anew (f : Formula) : Object :=
  f.laid fun _ => none

end Formula

/-- **Where the parts of a sheet lie.** Parts that are sent to one place and are the same formula are
one object. -/
abbrev Memory := Place → Place

/-- Each part lies at a place of its own, as in a sheet that was read from a text. -/
def Memory.apart : Memory := id

end ProofSheet
