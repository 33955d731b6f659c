import ProofSheet.Draft.Basic
import ProofSheet.Json.Value

/-!
# Drafts as JSON values

Every record is written as an object with its fields in their declared order, the tag first.
Fields of a rule that are absent are left out.
-/

namespace ProofSheet.Draft

open Json (Value)

/-- A binding as a value. -/
def Binding.toValue (binding : Binding) : Value :=
  .object [("quantifier", .string binding.quantifier), ("symbol", .string binding.symbol)]

namespace Formula

/-- A record with its tag. -/
def tagged (tag : String) (fields : List (String × Value)) : Value :=
  .object (("type", .string tag) :: fields)

mutual

/-- A formula as a value. -/
def toValue : Formula → Value
  | .letter symbol => tagged "sentence_letter" [("letter", .string symbol)]
  | .predicate name args =>
    tagged "predicate" [("name", .string name), ("args", .array (toValues args))]
  | .junction conjunction juncts =>
    tagged "junction" [("conjunction", .bool conjunction), ("juncts", .array (toValues juncts))]
  | .conditional antecedent consequent =>
    tagged "conditional" [("antecedent", toValue antecedent), ("consequent", toValue consequent)]
  | .biconditional left right =>
    tagged "biconditional" [("lhs", toValue left), ("rhs", toValue right)]
  | .negation inner => tagged "negation" [("inner", toValue inner)]
  | .quantified bindings body =>
    tagged "quantifier"
      [("bindings", .array (bindings.map Binding.toValue)), ("body", toValue body)]
  | .identity left right equal =>
    tagged "identity" [("lhs", toValue left), ("rhs", toValue right), ("equal", .bool equal)]

/-- Formulas as values. -/
def toValues : List Formula → List Value
  | [] => []
  | f :: fs => toValue f :: toValues fs

end

end Formula

/-- A field that is left out when it is absent. -/
def present {α : Type} (name : String) (write : α → Value) : Option α → List (String × Value)
  | none => []
  | some value => [(name, write value)]

/-- A rule as a value. -/
def Rule.toValue (rule : Rule) : Value :=
  .object
    (("name", .string rule.name) ::
      present "line" Value.nat rule.line ++ present "lines" Value.nats rule.lines ++
      present "discharged" Value.nat rule.discharged ++
      present "variable" Value.string rule.instantial)

/-- A line as a value. -/
def Line.toValue : Line → Value
  | .text content => .object [("type", .string "text"), ("text", .string content)]
  | .logic label deps formula rule =>
    .object
      [("type", .string "logic"), ("label", .nat label), ("deps", .nats deps),
        ("expression", formula.toValue), ("rule", rule.toValue)]

/-- A sheet in draft as a value. -/
def Document.toValue (draft : Document) : Value :=
  .object [("lines", .array (draft.lines.map Line.toValue))]

end ProofSheet.Draft
