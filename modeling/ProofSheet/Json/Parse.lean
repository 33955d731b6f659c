import ProofSheet.Json.Token

/-!
# Reading JSON values

`parse?` builds a value from tokens with a stack of the containers that are still open.

* Containers may nest at most `limit` deep.
* Members of the outermost object whose name is not wanted are passed over: they must be well
  formed, but nothing else is asked of them, and they are not part of the value.
-/

namespace ProofSheet.Json

/-- What a reader of JSON asks for. -/
structure Demand where
  /-- How deep arrays and objects may nest. -/
  limit : Nat
  /-- Which members of the outermost object are wanted. -/
  wanted : String → Bool

/-- An open container. Items and members are kept with the latest first. -/
inductive Frame where
  | array (items : List Value)
  /-- An object with the name of the member being read. -/
  | object (members : List (String × Value)) (name : String)
  /-- A container that is passed over; `braces` tells objects from arrays. -/
  | passed (braces : Bool)

/-- What must come next. -/
inductive Awaited where
  | value
  /-- A first item, or the end of the array. -/
  | firstItem
  | name
  /-- A first name, or the end of the object. -/
  | firstName
  | colon
  /-- A comma, or the end of the container. -/
  | next
  /-- Nothing: the value is complete. -/
  | nothing
  deriving DecidableEq

/-- A value in the making. The result is the complete value; it stays absent if the whole value is
passed over. -/
structure Builder where
  stack : List Frame := []
  awaited : Awaited := .value
  result : Option Value := none

namespace Builder

/-- Whether the value being read is passed over. -/
def passing (demand : Demand) : List Frame → Bool
  | .passed _ :: _ => true
  | [.object _ name] => !demand.wanted name
  | _ => false

/-- Adds a complete value to the innermost open container; `none` is a value passed over. -/
def deliver (value : Option Value) : List Frame → Builder
  | [] => { awaited := .nothing, result := value }
  | .array items :: stack =>
    { stack := .array (value.toList ++ items) :: stack, awaited := .next }
  | .object members name :: stack =>
    { stack := .object ((value.toList.map fun v => (name, v)) ++ members) name :: stack
      awaited := .next }
  | .passed braces :: stack => { stack := .passed braces :: stack, awaited := .next }

/-- Takes a value that is a single token, `none` if the token has no value. -/
def leaf (demand : Demand) (stack : List Frame) (value : Option Value) : Option Builder :=
  if passing demand stack then some (deliver none stack)
  else value.map fun value => deliver (some value) stack

/-- Opens an array or an object. -/
def opened (demand : Demand) (stack : List Frame) (braces : Bool) : Option Builder :=
  let awaited := if braces then Awaited.firstName else .firstItem
  if passing demand stack then some { stack := .passed braces :: stack, awaited }
  else if stack.length < demand.limit then
    some { stack := (if braces then .object [] "" else .array []) :: stack, awaited }
  else none

/-- Closes the innermost container, if the closing sign is its own. -/
def closed (braces : Bool) : List Frame → Option Builder
  | .array items :: stack =>
    if braces then none else some (deliver (some (.array items.reverse)) stack)
  | .object members _ :: stack =>
    if braces then some (deliver (some (.object members.reverse)) stack) else none
  | .passed inner :: stack => if inner = braces then some (deliver none stack) else none
  | [] => none

/-- A token where a value must come. -/
def takeValue (demand : Demand) (stack : List Frame) : Token → Option Builder
  | .null => leaf demand stack (some .null)
  | .bool b => leaf demand stack (some (.bool b))
  | .number n => leaf demand stack (n.map .number)
  | .string s => leaf demand stack (s.map .string)
  | .openBracket => opened demand stack false
  | .openBrace => opened demand stack true
  | _ => none

/-- A token where a name must come. -/
def takeName (stack : List Frame) (token : Token) : Option Builder :=
  match token, stack with
  | .string _, .passed true :: _ => some { stack, awaited := .colon }
  | .string (some name), .object members _ :: stack =>
    some { stack := .object members name :: stack, awaited := .colon }
  | _, _ => none

/-- A comma inside the innermost container. -/
def takeComma (stack : List Frame) : Option Builder :=
  match stack with
  | .array _ :: _ | .passed false :: _ => some { stack, awaited := .value }
  | .object _ _ :: _ | .passed true :: _ => some { stack, awaited := .name }
  | [] => none

/-- Takes one token. -/
def step (demand : Demand) (builder : Builder) (token : Token) : Option Builder :=
  match builder.awaited, token with
  | .firstItem, .closeBracket | .next, .closeBracket => closed false builder.stack
  | .firstName, .closeBrace | .next, .closeBrace => closed true builder.stack
  | .value, token | .firstItem, token => takeValue demand builder.stack token
  | .name, token | .firstName, token => takeName builder.stack token
  | .colon, .colon => some { stack := builder.stack, awaited := .value }
  | .next, .comma => takeComma builder.stack
  | _, _ => none

/-- Takes tokens in order, as long as each can be taken. -/
def run (demand : Demand) : Builder → List Token → Option Builder
  | builder, [] => some builder
  | builder, token :: tokens =>
    match builder.step demand token with
    | some builder => run demand builder tokens
    | none => none

end Builder

/-- **The value of a JSON text**, if it is well formed and meets the demand. -/
def parse? (demand : Demand) (bytes : List UInt8) : Option Value :=
  match (tokens? bytes).bind (Builder.run demand {}) with
  | some builder => if builder.awaited = .nothing then builder.result else none
  | none => none

end ProofSheet.Json
