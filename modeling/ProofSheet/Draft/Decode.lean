import ProofSheet.Draft.Basic
import ProofSheet.Json.Value

/-!
# Drafts from JSON values

A record is an object with named fields, or an array of the fields in their declared order.
In an object the order does not matter, unknown names are passed over, and a known name may not be
repeated; in an array the last fields may be left out and there may not be more items than fields.

Lines and formulas are records with a tag in front, which is the member `type` of an object and
the first item of an array. The tag of a formula may also be the number of its kind.
-/

namespace ProofSheet.Draft

open Json (Value)

/-! ## Records -/

/-- The one value under a name; absent if there is none, refused if there are several. -/
def field? {α : Type} (name : String) (members : List (String × α)) : Option (Option α) :=
  match members.filter fun member => member.1 == name with
  | [] => some none
  | [member] => some (some member.2)
  | _ => none

/-- The values of named fields, in order. -/
def fields? {α : Type} (members : List (String × α)) : List String → Option (List (Option α))
  | [] => some []
  | name :: names => do
    let value ← field? name members
    let values ← fields? members names
    return value :: values

/-- The values of fields given in order. -/
def ordered? {α : Type} (items : List α) (names : List String) : Option (List (Option α)) :=
  if items.length ≤ names.length then
    some (items.map some ++ List.replicate (names.length - items.length) none)
  else none

/-- What a record may be read from: its members by name, or its fields in order. -/
inductive Fields (α : Type) where
  | named (members : List (String × α))
  | inOrder (items : List α)

namespace Fields

/-- The values of the declared fields. -/
def get? {α : Type} (names : List String) : Fields α → Option (List (Option α))
  | .named members => fields? members names
  | .inOrder items => ordered? items names

/-- The tag of a tagged record, and the fields that are left. -/
def tagged? {α : Type} : Fields α → Option (α × Fields α)
  | .named members => do
    let tag ← (← field? "type" members)
    return (tag, .named (members.filter fun member => member.1 != "type"))
  | .inOrder [] => none
  | .inOrder (tag :: items) => some (tag, .inOrder items)

/-- The fields of a value that can be a record. -/
def ofValue? : Value → Option (Fields Value)
  | .object members => some (.named members)
  | .array items => some (.inOrder items)
  | _ => none

end Fields

/-- An optional field, which may also be null. -/
def optional? {α : Type} (read : Value → Option α) : Option Value → Option (Option α)
  | none | some .null => some none
  | some value => (read value).map some

/-- A list of labels. -/
def labels? (value : Value) : Option (List Label) := do
  let items ← value.items?
  items.mapM Value.word?

/-! ## Bindings and rules -/

/-- A binding: its quantifier and its symbol. -/
def binding? (value : Value) : Option Binding := do
  match ← (← Fields.ofValue? value).get? ["quantifier", "symbol"] with
  | [some quantifier, some symbol] => return ⟨← quantifier.string?, ← symbol.string?⟩
  | _ => none

/-- A rule: its name and its optional fields. -/
def rule? (value : Value) : Option Rule := do
  match ← (← Fields.ofValue? value).get? ["name", "line", "lines", "discharged", "variable"] with
  | [some name, line, lines, discharged, instantial] =>
    return {
      name := ← name.string?
      line := ← optional? Value.word? line
      lines := ← optional? labels? lines
      discharged := ← optional? Value.word? discharged
      instantial := ← optional? Value.string? instantial }
  | _ => none

/-! ## Formulas -/

/-- A value together with what it says as a formula and as a list of formulas. -/
structure Reading where
  value : Value
  formula : Option Formula
  formulas : Option (List Formula)

/-- The kinds of formula by their tags, in the order of their numbers. -/
def formulaTags : List String :=
  ["sentence_letter", "predicate", "junction", "conditional", "biconditional", "negation",
    "quantifier", "identity"]

/-- The tag that a value names, by word or by number. -/
def formulaTag? : Value → Option String
  | .string tag => some tag
  | .number (.natural n) => formulaTags[n]?
  | _ => none

/-- A formula from the readings of the fields of a tagged record. -/
def formulaOf? (fields : Fields Reading) : Option Formula := do
  let (tag, fields) ← fields.tagged?
  match ← formulaTag? tag.value with
  | "sentence_letter" =>
    match ← fields.get? ["letter"] with
    | [some letter] => return .letter (← letter.value.string?)
    | _ => none
  | "predicate" =>
    match ← fields.get? ["name", "args"] with
    | [some name, some args] => return .predicate (← name.value.string?) (← args.formulas)
    | _ => none
  | "junction" =>
    match ← fields.get? ["conjunction", "juncts"] with
    | [some conjunction, some juncts] =>
      return .junction (← conjunction.value.bool?) (← juncts.formulas)
    | _ => none
  | "conditional" =>
    match ← fields.get? ["antecedent", "consequent"] with
    | [some antecedent, some consequent] =>
      return .conditional (← antecedent.formula) (← consequent.formula)
    | _ => none
  | "biconditional" =>
    match ← fields.get? ["lhs", "rhs"] with
    | [some left, some right] => return .biconditional (← left.formula) (← right.formula)
    | _ => none
  | "negation" =>
    match ← fields.get? ["inner"] with
    | [some inner] => return .negation (← inner.formula)
    | _ => none
  | "quantifier" =>
    match ← fields.get? ["bindings", "body"] with
    | [some bindings, some body] =>
      return .quantified (← (← bindings.value.items?).mapM binding?) (← body.formula)
    | _ => none
  | "identity" =>
    match ← fields.get? ["lhs", "rhs", "equal"] with
    | [some left, some right, equal] =>
      let equal ← match equal with
        | none => some true
        | some equal => equal.value.bool?
      return .identity (← left.formula) (← right.formula) equal
    | _ => none
  | _ => none

mutual

/-- **Every value is read once, from the inside out**: as a formula, and as a list of formulas. -/
def reading : Value → Reading
  | .array items =>
    let inner := readItems items
    { value := .array items
      formula := formulaOf? (.inOrder inner)
      formulas := inner.mapM Reading.formula }
  | .object members =>
    { value := .object members
      formula := formulaOf? (.named (readMembers members))
      formulas := none }
  | value => { value, formula := none, formulas := none }

/-- The readings of the items of an array. -/
def readItems : List Value → List Reading
  | [] => []
  | item :: items => reading item :: readItems items

/-- The readings of the members of an object. -/
def readMembers : List (String × Value) → List (String × Reading)
  | [] => []
  | (name, value) :: members => (name, reading value) :: readMembers members

end

/-- A formula of a draft. -/
def formula? (value : Value) : Option Formula :=
  (reading value).formula

/-- A formula of a draft that stands by itself, whose own tag must be a word. -/
def wordTaggedFormula? (value : Value) : Option Formula := do
  let (tag, _) ← (← Fields.ofValue? value).tagged?
  let _ ← tag.string?
  formula? value

/-! ## Lines and documents -/

/-- A line of a draft, whose tag is a word. -/
def line? (value : Value) : Option Line := do
  let (tag, fields) ← (← Fields.ofValue? value).tagged?
  match ← tag.string? with
  | "text" =>
    match ← fields.get? ["text"] with
    | [some text] => return .text (← text.string?)
    | _ => none
  | "logic" =>
    match ← fields.get? ["label", "deps", "expression", "rule"] with
    | [some label, deps, some formula, some rule] =>
      let deps ← match deps with
        | none => some []
        | some deps => labels? deps
      return .logic (← label.word?) deps (← formula? formula) (← rule? rule)
    | _ => none
  | _ => none

/-- A sheet in draft. -/
def document? (value : Value) : Option Document := do
  match ← (← Fields.ofValue? value).get? ["lines"] with
  | [some lines] => return ⟨← (← lines.items?).mapM line?⟩
  | _ => none

end ProofSheet.Draft
