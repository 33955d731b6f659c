/-!
# Flags

A flag is a finding about one line of a sheet, with a text that explains it where there is
something to explain. A text line carries the one flag `comment`; a logic line carries a flag
`good`, or the flags that say what is wrong with it.
-/

namespace ProofSheet

namespace Flag

/-- What a flag finds. -/
inductive Kind where
  | good
  /-- The line refers to a later line. -/
  | forwardDependency
  | sameDependency
  /-- A premise that the rule calls for is not listed. -/
  | missingDependency
  /-- A premise is listed that the rule does not call for. -/
  | extraDependency
  | unlinted
  /-- The rule does not justify the line. -/
  | incorrect
  /-- The line is text. -/
  | comment
  /-- The rule has no known name. -/
  | unrecognized
  /-- A letter is bound twice, or both bound and free. -/
  | letterConflict
  /-- A truth-functional step cites nothing. -/
  | tfError
  /-- A truth-functional step was not confirmed. -/
  | tfWarning
  deriving DecidableEq

namespace Kind

/-- All kinds, in the order of their declaration. -/
def all : List Kind :=
  [.good, .forwardDependency, .sameDependency, .missingDependency, .extraDependency, .unlinted,
    .incorrect, .comment, .unrecognized, .letterConflict, .tfError, .tfWarning]

/-- The name of a kind in a written report. -/
def name : Kind → String
  | .good => "Good"
  | .forwardDependency => "ForwardDependency"
  | .sameDependency => "SameDependency"
  | .missingDependency => "MissingDependency"
  | .extraDependency => "ExtraDependency"
  | .unlinted => "Unlinted"
  | .incorrect => "Incorrect"
  | .comment => "Comment"
  | .unrecognized => "Unrecognized"
  | .letterConflict => "LetterConflict"
  | .tfError => "TFError"
  | .tfWarning => "TFWarning"

/-- The words for a kind, as a reader sees them. -/
def words : Kind → String
  | .good => "Good"
  | .forwardDependency => "Forward dependency"
  | .sameDependency => "Same dependency"
  | .missingDependency => "Missing dependency"
  | .extraDependency => "Extra dependency"
  | .unlinted => "Unlinted"
  | .incorrect => "Incorrect"
  | .comment => "Comment"
  | .unrecognized => "Unrecognized"
  | .letterConflict => "Letter conflict"
  | .tfError => "TF error"
  | .tfWarning => "TF warning"

end Kind

end Flag

/-- A finding about a line. -/
structure Flag where
  kind : Flag.Kind
  text : Option String := none
  deriving DecidableEq

namespace Flag

/-- The flag of a line that its rule justifies. -/
def good : Flag := ⟨.good, none⟩

/-- The flag of a text line. -/
def comment : Flag := ⟨.comment, none⟩

/-- A flag with an explanation. -/
def explained (kind : Kind) (text : String) : Flag := ⟨kind, some text⟩

/-- The flag of a line that its rule does not justify, for the stated reason. -/
def incorrect (text : String) : Flag := ⟨.incorrect, some text⟩

/-- **Every flag but `good` and `comment` is a problem.** -/
def isProblem (flag : Flag) : Bool :=
  match flag.kind with
  | .good | .comment => false
  | _ => true

/-- A flag in words, its explanation after a colon. -/
def line (flag : Flag) : String :=
  match flag.text with
  | some text => flag.kind.words ++ ": " ++ text
  | none => flag.kind.words

end Flag

end ProofSheet
