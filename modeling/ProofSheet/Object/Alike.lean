import ProofSheet.Formula.Bound
import ProofSheet.Object.Basic

/-!
# Sameness up to bound letters and order

Two formulas are alike when they have the same structure and the same free letters.

* Bound letters may differ if they are renamed consistently within their scopes, so `(∀x)(Fx)` is
  alike `(∀y)(Fy)`, and `(∀x)(Fxy)` is not alike `(∀y)(Fyy)`.
* Junctions are compared as multisets of juncts, and biconditionals and identities in either
  order of their sides.
* With `dn` set, pairs of negations at the head of any compared part count for nothing.

The comparison carries the pairs of letters bound so far, one from each side. A quantifier over
a letter that is already bound on its side is alike nothing.

Two parts that are one object are passed over, as long as each letter bound so far is bound together
with itself. So one object that binds a letter again within its scope is alike itself, and not alike a
copy of it.
-/

namespace ProofSheet

/-- Marks the first free place of a ring whose value passes the test. A place is `none` once it is
claimed. -/
def claimFirst {α : Type} (test : α → Bool) : List (Option α) → Option (List (Option α))
  | [] => none
  | none :: ring => (claimFirst test ring).map (none :: ·)
  | some a :: ring =>
    if test a then some (none :: ring) else (claimFirst test ring).map (some a :: ·)

/-- Turns a ring by one place. -/
def turn {α : Type} : List α → List α
  | [] => []
  | a :: ring => ring ++ [a]

namespace Object

/-- The part of an object that a comparison looks at. -/
def face (dn : Bool) (o : Object) : Object :=
  if dn then o.core else o

/-- **Whether a comparison passes over two parts**: they are one object, and each letter bound so far
is bound together with itself. -/
def isOne (bound : BoundPairs) (l r : Object) : Bool :=
  decide (l = r) && bound.isMatched

mutual

/-- Whether two objects are alike by their parts, under the letters bound so far. Only their parts are
asked whether they are one. -/
def alikeApart (dn : Bool) (bound : BoundPairs) : Object → Object → Bool
  | .letter l _, r =>
    match face dn r with
    | .letter r _ => bound.matchLetters l r
    | _ => false
  | .predicate name args _, r =>
    match face dn r with
    | .predicate name' args' _ => name == name' && alikeEach dn bound args args'
    | _ => false
  | .junction junctor juncts _, r =>
    match face dn r with
    | .junction junctor' juncts' _ =>
      decide (junctor = junctor') && juncts.length == juncts'.length &&
        claimEach dn bound juncts (juncts'.map some)
    | _ => false
  | .conditional a c _, r =>
    match face dn r with
    | .conditional a' c' _ =>
      (isOne bound a a' || alikeApart dn bound a a') &&
        (isOne bound c c' || alikeApart dn bound c c')
    | _ => false
  | .biconditional a b _, r =>
    match face dn r with
    | .biconditional a' b' _ =>
      ((isOne bound a a' || alikeApart dn bound a a') &&
          (isOne bound b b' || alikeApart dn bound b b')) ||
        ((isOne bound a b' || alikeApart dn bound a b') &&
          (isOne bound b a' || alikeApart dn bound b a'))
    | _ => false
  | .negation inner _, r =>
    match dn, inner with
    | true, .negation twice _ => alikeApart dn bound twice r
    | _, inner =>
      match face dn r with
      | .negation inner' _ => isOne bound inner inner' || alikeApart dn bound inner inner'
      | _ => false
  | .quantified q x body _, r =>
    match face dn r with
    | .quantified q' x' body' _ =>
      decide (q = q') && !bound.clashes x x' &&
        (isOne ((x, x') :: bound) body body' || alikeApart dn ((x, x') :: bound) body body')
    | _ => false
  | .identity a b equal _, r =>
    match face dn r with
    | .identity a' b' equal' _ =>
      equal == equal' &&
        (((isOne bound a a' || alikeApart dn bound a a') &&
            (isOne bound b b' || alikeApart dn bound b b')) ||
          ((isOne bound a b' || alikeApart dn bound a b') &&
            (isOne bound b a' || alikeApart dn bound b a')))
    | _ => false

/-- Whether two lists are as long as each other and alike place by place. -/
def alikeEach (dn : Bool) (bound : BoundPairs) : List Object → List Object → Bool
  | [], [] => true
  | l :: ls, r :: rs =>
    (isOne bound l r || alikeApart dn bound l r) && alikeEach dn bound ls rs
  | _, _ => false

/-- **Juncts claim partners greedily.** Each junct claims the first free partner alike to it,
and the ring of partners turns by one place after each claim, so that juncts in the same place
meet first. -/
def claimEach (dn : Bool) (bound : BoundPairs) : List Object → List (Option Object) → Bool
  | [], _ => true
  | l :: ls, ring =>
    match claimFirst (fun r => isOne bound l r || alikeApart dn bound l r) ring with
    | some ring => claimEach dn bound ls (turn ring)
    | none => false

end

/-- Whether two objects are alike under the letters bound so far: they are passed over, or alike by
their parts. -/
def alikeUnder (dn : Bool) (bound : BoundPairs) (l r : Object) : Bool :=
  isOne bound l r || alikeApart dn bound l r

/-- **Whether two objects are alike.** With `dn`, pairs of negations are passed over. -/
def alike (dn : Bool) (l r : Object) : Bool :=
  alikeUnder dn [] l r

end Object

end ProofSheet
