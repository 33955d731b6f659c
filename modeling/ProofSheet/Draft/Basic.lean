import ProofSheet.Wording

/-!
# Drafts

A draft is a sheet in the form in which it is exchanged, before it is known to make sense: symbols
and quantifiers are any texts, a quantifier may bind several symbols at once, and a rule has
whatever fields were given.
-/

namespace ProofSheet.Draft

/-- A quantifier and a symbol, as texts. -/
structure Binding where
  quantifier : String
  symbol : String
  deriving DecidableEq

/-- A formula of a draft. -/
inductive Formula where
  | letter (symbol : String)
  | predicate (name : String) (args : List Formula)
  | junction (conjunction : Bool) (juncts : List Formula)
  | conditional (antecedent consequent : Formula)
  | biconditional (left right : Formula)
  | negation (inner : Formula)
  | quantified (bindings : List Binding) (body : Formula)
  | identity (left right : Formula) (equal : Bool)

instance : Inhabited Formula := ⟨.letter ""⟩

/-- A rule of a draft: a name, and the fields that were given. -/
structure Rule where
  name : String
  line : Option Label := none
  lines : Option (List Label) := none
  discharged : Option Label := none
  instantial : Option String := none
  deriving DecidableEq

/-- A line of a draft. -/
inductive Line where
  | text (content : String)
  | logic (label : Label) (deps : List Label) (formula : Formula) (rule : Rule)

/-- A sheet in draft. -/
structure Document where
  lines : List Line

end ProofSheet.Draft
