import ProofSheet.Document.Basic
import ProofSheet.Draft.Basic

/-!
# From drafts to sheets and back

`Draft.Document.accept` turns a draft into a sheet, or finds its first fault: lines are taken in
order, the formula of a line before its rule, and within a formula what stands at a node before
what stands under it. Formulas are built in normal form and premises become ascending sets.

`Document.draft` writes a sheet as a draft with one binding to a quantifier.
-/

namespace ProofSheet.Draft

/-- Why a draft is no sheet. -/
inductive Fault where
  /-- A rule lacks a field it needs. -/
  | missingField (rule field : String)
  /-- A quantifier is not known. -/
  | binding (quantifier : String)
  /-- A symbol is not exactly one character. -/
  | symbol (text : String)
  /-- A junction has no juncts. -/
  | emptyJunction
  deriving DecidableEq

/-- A fault in words. -/
def Fault.message : Fault → String
  | .missingField rule field => "The rule " ++ rule ++ " requires the field '" ++ field ++ "'."
  | .binding quantifier => "Unknown quantifier binding '" ++ quantifier ++ "'."
  | .symbol text => "The symbol '" ++ text ++ "' is not a single character."
  | .emptyJunction => "A junction requires at least one junct."

/-- The one character of a text. -/
def symbolOf (text : String) : Except Fault Symbol :=
  match text.toList with
  | [symbol] => .ok symbol
  | _ => .error (.symbol text)

/-- A quantifier by its word or its sign. -/
def quantifierOf (text : String) : Except Fault Quantifier :=
  if text = "forall" ∨ text = "∀" then .ok .universal
  else if text = "exists" ∨ text = "∃" then .ok .existential
  else .error (.binding text)

/-- A binding: its quantifier, then its symbol. -/
def Binding.accept (binding : Binding) : Except Fault (Quantifier × Symbol) := do
  let quantifier ← quantifierOf binding.quantifier
  let symbol ← symbolOf binding.symbol
  return (quantifier, symbol)

/-- Bindings in order. -/
def acceptBindings : List Binding → Except Fault (List (Quantifier × Symbol))
  | [] => .ok []
  | binding :: bindings => do
    let first ← binding.accept
    let rest ← acceptBindings bindings
    return first :: rest

namespace Formula

mutual

/-- The formula that a draft formula says, in normal form. -/
def accept : Formula → Except Fault ProofSheet.Formula
  | .letter symbol => (symbolOf symbol).map .letter
  | .predicate name args => do
    let name ← symbolOf name
    let args ← acceptAll args
    return .predicate name args
  | .junction conjunction juncts =>
    if juncts.isEmpty then .error .emptyJunction
    else
      (acceptAll juncts).map
        (ProofSheet.Formula.junctionOf (if conjunction then .conjunction else .disjunction))
  | .conditional antecedent consequent => do
    let antecedent ← accept antecedent
    let consequent ← accept consequent
    return .conditional antecedent consequent
  | .biconditional left right => do
    let left ← accept left
    let right ← accept right
    return .biconditional left right
  | .negation inner => (accept inner).map .negation
  | .quantified bindings body => do
    let bindings ← acceptBindings bindings
    let body ← accept body
    return ProofSheet.Formula.quantify bindings body
  | .identity left right equal => do
    let left ← accept left
    let right ← accept right
    return .identity left right equal

/-- Formulas in order. -/
def acceptAll : List Formula → Except Fault (List ProofSheet.Formula)
  | [] => .ok []
  | f :: fs => do
    let f ← accept f
    let fs ← acceptAll fs
    return f :: fs

end

end Formula

namespace Rule

/-- A field that a rule needs. -/
def need {α : Type} (rule : Rule) (name : String) : Option α → Except Fault α
  | some value => .ok value
  | none => .error (.missingField rule.name name)

/-- The cited and the discharged line. -/
def needTwo (rule : Rule) (make : Label → Label → ProofSheet.Rule) :
    Except Fault ProofSheet.Rule := do
  let cited ← rule.need "line" rule.line
  let discharged ← rule.need "discharged" rule.discharged
  return make cited discharged

/-- **The rule that a draft rule names.** Fields it does not need are passed over, and a name that is
not known stands for itself. -/
def accept (rule : Rule) : Except Fault ProofSheet.Rule :=
  match rule.name with
  | "P" => .ok .premise
  | "D" => rule.needTwo .discharge
  | "TF" => (rule.need "lines" rule.lines).map .truthFunctional
  | "CQ" => (rule.need "line" rule.line).map .changeOfQuantifier
  | "UI" => (rule.need "line" rule.line).map .universalInstantiation
  | "UG" => (rule.need "line" rule.line).map .universalGeneralization
  | "EG" => (rule.need "line" rule.line).map .existentialGeneralization
  | "EII" => do
    let cited ← rule.need "line" rule.line
    let letter ← rule.need "variable" rule.instantial
    let instantial ← symbolOf letter
    return .instanceIntroduction cited instantial
  | "EIE" => rule.needTwo .instanceElimination
  | name => .ok (.unrecognized name)

end Rule

/-- The line that a draft line says. -/
def Line.accept : Line → Except Fault ProofSheet.Line
  | .text content => .ok (.text content)
  | .logic label deps formula rule => do
    let formula ← formula.accept
    let rule ← rule.accept
    return .logic (.make label deps formula rule)

/-- Lines in order. -/
def acceptLines : List Line → Except Fault (List ProofSheet.Line)
  | [] => .ok []
  | line :: lines => do
    let line ← line.accept
    let lines ← acceptLines lines
    return line :: lines

/-- **The sheet that a draft says**, or its first fault. -/
def Document.accept (draft : Document) : Except Fault ProofSheet.Document :=
  (acceptLines draft.lines).map fun lines => ⟨lines⟩

end ProofSheet.Draft

namespace ProofSheet

/-- The word for a quantifier in a draft. -/
def Quantifier.word : Quantifier → String
  | .universal => "forall"
  | .existential => "exists"

namespace Formula

mutual

/-- A formula as a draft. -/
def draft : Formula → Draft.Formula
  | .letter symbol => .letter symbol.toString
  | .predicate name args => .predicate name.toString (drafts args)
  | .junction junctor juncts => .junction (decide (junctor = .conjunction)) (drafts juncts)
  | .conditional antecedent consequent => .conditional (draft antecedent) (draft consequent)
  | .biconditional left right => .biconditional (draft left) (draft right)
  | .negation inner => .negation (draft inner)
  | .quantified quantifier symbol body =>
    .quantified [⟨quantifier.word, symbol.toString⟩] (draft body)
  | .identity left right equal => .identity (draft left) (draft right) equal

/-- Formulas as drafts. -/
def drafts : List Formula → List Draft.Formula
  | [] => []
  | f :: fs => draft f :: drafts fs

end

end Formula

/-- A rule as a draft, with the fields it needs. -/
def Rule.draft (rule : Rule) : Draft.Rule :=
  match rule with
  | .premise | .unrecognized _ => { name := rule.name }
  | .discharge cited discharged | .instanceElimination cited discharged =>
    { name := rule.name, line := some cited, discharged := some discharged }
  | .truthFunctional cited => { name := rule.name, lines := some cited }
  | .changeOfQuantifier cited | .universalInstantiation cited | .universalGeneralization cited
  | .existentialGeneralization cited => { name := rule.name, line := some cited }
  | .instanceIntroduction cited instantial =>
    { name := rule.name, line := some cited, instantial := some instantial.toString }

/-- A line as a draft. -/
def Line.draft : Line → Draft.Line
  | .text content => .text content
  | .logic line => .logic line.label line.deps line.formula.draft line.rule.draft

/-- **A sheet as a draft.** -/
def Document.draft (document : Document) : Draft.Document :=
  ⟨document.lines.map Line.draft⟩

end ProofSheet
