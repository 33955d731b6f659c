/-!
# Ascending lists

Sets of labels, of symbols and of mappings are kept as lists in strictly ascending order, so
that equal sets are equal lists and every answer that shows a set shows it in one order.

* `Ranked`: the order of a type, as a test.
* `Ascending.insert`, `Ascending.ofList`: a set from its members, each kept once.
* `Ascending.union`: two sets together.
* `Ascending.sort`: the members in order, repetitions kept.
-/

namespace ProofSheet

/-- A type with a strict order given as a test. -/
class Ranked (α : Type) where
  /-- Whether the first value comes strictly before the second. -/
  before : α → α → Bool

namespace Ranked

instance : Ranked Nat := ⟨fun a b => decide (a < b)⟩

/-- Characters are ranked by code point. -/
instance : Ranked Char := ⟨fun a b => decide (a.toNat < b.toNat)⟩

/-- An absent value comes before every present one. -/
instance {α : Type} [Ranked α] : Ranked (Option α) where
  before
    | none, some _ => true
    | some a, some b => before a b
    | _, none => false

/-- The dictionary order of lists: the first difference decides, and a list comes before its
proper extensions. -/
def lexicographic {α : Type} [Ranked α] : List α → List α → Bool
  | [], [] => false
  | [], _ :: _ => true
  | _ :: _, [] => false
  | a :: as, b :: bs => if before a b then true else if before b a then false else lexicographic as bs

instance {α : Type} [Ranked α] : Ranked (List α) := ⟨lexicographic⟩

end Ranked

namespace Ascending

variable {α : Type} [Ranked α]

/-- Puts a value in its place in an ascending list, unless it is there already. -/
def insert (x : α) : List α → List α
  | [] => [x]
  | y :: ys =>
    if Ranked.before x y then x :: y :: ys
    else if Ranked.before y x then y :: insert x ys
    else y :: ys

/-- The members of a list in ascending order, each once. -/
def ofList (xs : List α) : List α :=
  xs.foldl (fun sorted x => insert x sorted) []

/-- Steps through an ascending list as far as `x`, then goes on with the members after `x`. -/
def unionFrom (next : List α → List α) (x : α) : List α → List α
  | [] => x :: next []
  | y :: ys =>
    if Ranked.before x y then x :: next (y :: ys)
    else if Ranked.before y x then y :: unionFrom next x ys
    else x :: next ys

/-- The members of either of two ascending lists, in ascending order, each once. -/
def union : List α → List α → List α
  | [], ys => ys
  | x :: xs, ys => unionFrom (union xs) x ys

/-- Puts a value in its place in a sorted list, next to any values equal to it. -/
def place (x : α) : List α → List α
  | [] => [x]
  | y :: ys => if Ranked.before y x then y :: place x ys else x :: y :: ys

/-- The members of a list in ascending order, repetitions kept. -/
def sort (xs : List α) : List α :=
  xs.foldl (fun sorted x => place x sorted) []

end Ascending

end ProofSheet
