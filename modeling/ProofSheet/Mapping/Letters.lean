import ProofSheet.Ascending
import ProofSheet.Mapping.Basic
import ProofSheet.Wording

/-!
# Mappings of letters

`Formula.mappings` finds every mapping of some letters of a template to letters of an instance
that some alignment of the two formulas gives. Letters that are not designated constrain nothing:
the two formulas are expected to share their shape elsewhere.

`Formula.oneOne` keeps the mappings that fill every slot, and fill no two alike.
-/

namespace ProofSheet

/-- A mapping of letters to letters. -/
abbrev LetterMapping := Mapping Symbol

namespace LetterMapping

/-- What a pair of letters says: a designated letter that is not bound around it goes to the
letter of the instance. -/
def ofLetters (targets : List Symbol) (bound : BoundPairs) (t i : Symbol) : LetterMapping :=
  if bound.any fun pair => pair.1 == t then Mapping.unfilled targets.length
  else
    match targets.idxOf? t with
    | some index => Mapping.filledAt targets.length index i
    | none => Mapping.unfilled targets.length

/-- The joins of two lists of mappings, ascending and each once. -/
def joined (as bs : List LetterMapping) : List LetterMapping :=
  Ascending.ofList (Mapping.joinAll as bs)

mutual

/-- The mappings of all alignments of a template and an instance, under the letters bound so
far. -/
def align (targets : List Symbol) (bound : BoundPairs) : Formula → Formula → List LetterMapping
  | .letter t, .letter i => [ofLetters targets bound t i]
  | .predicate name args, .predicate name' args' =>
    if name == name' && args.length == args'.length then
      alignEach targets bound args args' [Mapping.unfilled targets.length]
    else []
  | .junction junctor juncts, .junction junctor' juncts' =>
    if decide (junctor = junctor') && juncts.length == juncts'.length then
      Ascending.ofList
        (Mapping.assignments [Mapping.unfilled targets.length]
          (alignRows targets bound juncts juncts'))
    else []
  | .conditional a c, .conditional a' c' =>
    joined (align targets bound a a') (align targets bound c c')
  | .biconditional a b, .biconditional a' b' =>
    joined (align targets bound a a') (align targets bound b b') ++
      joined (align targets bound a b') (align targets bound b a')
  | .negation inner, .negation inner' => align targets bound inner inner'
  | .quantified q x body, .quantified q' x' body' =>
    if decide (q = q') && !bound.clashes x x' then align targets ((x, x') :: bound) body body'
    else []
  | .identity a b equal, .identity a' b' equal' =>
    if equal == equal' then
      joined (align targets bound a a') (align targets bound b b') ++
        joined (align targets bound a b') (align targets bound b a')
    else []
  | _, _ => []

/-- The mappings found so far, joined with those of each pair of arguments in turn. -/
def alignEach (targets : List Symbol) (bound : BoundPairs) :
    List Formula → List Formula → List LetterMapping → List LetterMapping
  | t :: ts, i :: is, found =>
    let found := joined (align targets bound t i) found
    if found.isEmpty then [] else alignEach targets bound ts is found
  | _, _, found => found

/-- The matrix of mappings between the juncts of a template and those of an instance. -/
def alignRows (targets : List Symbol) (bound : BoundPairs) :
    List Formula → List Formula → Mapping.Matrix Symbol
  | [], _ => []
  | t :: ts, is => is.map (align targets bound t) :: alignRows targets bound ts is

end

/-- The letters of a mapping that leaves no slot empty. -/
def complete? : LetterMapping → Option (List Symbol)
  | [] => some []
  | none :: _ => none
  | some symbol :: slots => (complete? slots).map (symbol :: ·)

/-- Why no mapping is one to one. -/
inductive Shortfall where
  /-- There is no mapping at all. -/
  | noSource
  /-- Every mapping leaves some letter without a source. -/
  | incomplete
  /-- Every mapping that fills all slots fills two alike. -/
  | splitting
  deriving DecidableEq

/-- The explanation for the designated letters. -/
def Shortfall.message (error : Shortfall) (targets : List Symbol) : String :=
  let letters := Wording.letters targets
  match error with
  | .noSource =>
    "There is no possible source for " ++ letters ++ " that leads to this sentence."
  | .incomplete =>
    "There are no possible assignments that account for all of " ++ letters ++ "."
  | .splitting =>
    "There are no possible assignments that account for all of " ++ letters ++
      " without splitting a sentence letter."

end LetterMapping

namespace Formula

/-- **Every mapping of the target letters** by which the instance may come from the template,
ascending with empty slots first, each once. -/
def mappings (template sample : Formula) (targets : List Symbol) : List LetterMapping :=
  Ascending.ofList (LetterMapping.align targets [] template sample)

/-- The mappings that give each target letter a letter of its own, in ascending order, or the
first reason why there are none. -/
def oneOne (template sample : Formula) (targets : List Symbol) :
    Except LetterMapping.Shortfall (List (List Symbol)) :=
  let found := mappings template sample targets
  let complete := found.filterMap LetterMapping.complete?
  let injective := complete.filter fun letters => decide letters.Nodup
  if found.isEmpty then .error .noSource
  else if complete.isEmpty then .error .incomplete
  else if injective.isEmpty then .error .splitting
  else .ok injective

end Formula

end ProofSheet
