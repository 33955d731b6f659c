import ProofSheet.Formula.Scope
import ProofSheet.Labels.Renumber
import ProofSheet.Object.Basic
import ProofSheet.Settings

/-!
# What a checker sees

Each rule has a checker, which is given a logic line and a view of the sheet around it, and either
accepts the line with a flag `good` or refuses it with flags that say why. A line that cites a line
with problems is checked against the cited line as written.
-/

namespace ProofSheet

/-- The judgement of a checker: the flag of an accepted line, or the flags of a refused one. -/
abbrev Judgement := Except (List Flag) Flag

/-- Refuses a line as incorrect, for one reason. -/
def refuse {α : Type} (text : String) : Except (List Flag) α :=
  .error [.incorrect text]

/-- A sheet as the checkers see it. -/
structure View where
  lines : List Line
  index : LineIndex
  /-- The scope of the formula of each logic line, by position. -/
  scopes : List (Option Scope)
  settings : Settings
  memory : Memory

namespace View

/-- What a logic line asserts, as it lies in memory. -/
def object (view : View) (line : LogicLine) : Object :=
  line.formula.laid fun path => some (view.memory (line.label :: path))

/-- The logic line with a label. -/
def logic? (view : View) (label : Label) : Option LogicLine :=
  match view.index.position? label with
  | none => none
  | some position => view.lines[position]?.bind Line.logic?

/-- The logic line with a label, or a refusal. -/
def cited (view : View) (label : Label) : Except (List Flag) LogicLine :=
  match view.logic? label with
  | some line => .ok line
  | none => refuse (Wording.lineNumber label ++ " is not a logic line.")

/-- The scope of the line with a label. -/
def scope? (view : View) (label : Label) : Option Scope :=
  match view.index.position? label with
  | none => none
  | some position => view.scopes[position]?.join

/-- Whether a symbol is free in the line with a label. -/
def isFreeIn (view : View) (symbol : Symbol) (label : Label) : Bool :=
  match view.scope? label with
  | some scope => scope.isFree symbol
  | none => false

/-- For each symbol that is free in some of the lines, the lines it is free in. -/
def freeIn (view : View) (labels : List Label) (symbols : List Symbol) :
    List (Symbol × List Label) :=
  (symbols.map fun symbol => (symbol, labels.filter (view.isFreeIn symbol))).filter
    fun (_, labels) => !labels.isEmpty

end View

end ProofSheet
