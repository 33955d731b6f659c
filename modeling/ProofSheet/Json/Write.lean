import ProofSheet.Json.Value

/-!
# Writing JSON values

`Value.pretty` writes an item or member to a line, indented by two blanks for each open container;
`Value.compact` writes no blanks at all. Strings escape quotes, backslashes and control characters
and nothing else.
-/

namespace ProofSheet.Json

/-- A control character by its code, in four hexadecimal digits. -/
def controlEscape (code : Nat) : String :=
  "\\u00" ++ String.ofList [Nat.digitChar (code / 16), Nat.digitChar (code % 16)]

/-- A character as it stands in a string literal. -/
def escapeChar (c : Char) : String :=
  if c = '"' then "\\\""
  else if c = '\\' then "\\\\"
  else if c.toNat = 0x08 then "\\b"
  else if c.toNat = 0x09 then "\\t"
  else if c.toNat = 0x0A then "\\n"
  else if c.toNat = 0x0C then "\\f"
  else if c.toNat = 0x0D then "\\r"
  else if c.toNat < 0x20 then controlEscape c.toNat
  else c.toString

/-- A text as a string literal. -/
def quoted (s : String) : String :=
  "\"" ++ s.toList.foldl (fun written c => written ++ escapeChar c) "" ++ "\""

/-- A number as it is written. -/
def Number.text : Number → String
  | .natural n => toString n
  | .other literal => literal

/-- The blanks before a line with the given number of open containers. -/
def indentation (depth : Nat) : String :=
  "".pushn ' ' (2 * depth)

/-- Lines of a container between its two brackets; an empty container has none. -/
def bracketed (left right : String) (depth : Nat) (lines : List String) : String :=
  if lines.isEmpty then left ++ right
  else
    left ++ "\n" ++
      String.intercalate ",\n" (lines.map fun line => indentation (depth + 1) ++ line) ++
      "\n" ++ indentation depth ++ right

namespace Value

mutual

/-- A value over several lines, inside the given number of open containers. -/
def prettyAt (depth : Nat) : Value → String
  | .null => "null"
  | .bool b => if b then "true" else "false"
  | .number n => n.text
  | .string s => quoted s
  | .array items => bracketed "[" "]" depth (prettyItems (depth + 1) items)
  | .object members => bracketed "\x7b" "\x7d" depth (prettyMembers (depth + 1) members)

/-- Each item of an array. -/
def prettyItems (depth : Nat) : List Value → List String
  | [] => []
  | item :: items => prettyAt depth item :: prettyItems depth items

/-- Each member of an object. -/
def prettyMembers (depth : Nat) : List (String × Value) → List String
  | [] => []
  | (name, value) :: members =>
    (quoted name ++ ": " ++ prettyAt depth value) :: prettyMembers depth members

end

/-- A value over several lines. -/
def pretty (value : Value) : String :=
  prettyAt 0 value

mutual

/-- A value in one line without blanks. -/
def compact : Value → String
  | .null => "null"
  | .bool b => if b then "true" else "false"
  | .number n => n.text
  | .string s => quoted s
  | .array items => "[" ++ String.intercalate "," (compactItems items) ++ "]"
  | .object members => "\x7b" ++ String.intercalate "," (compactMembers members) ++ "\x7d"

/-- Each item of an array. -/
def compactItems : List Value → List String
  | [] => []
  | item :: items => compact item :: compactItems items

/-- Each member of an object. -/
def compactMembers : List (String × Value) → List String
  | [] => []
  | (name, value) :: members =>
    (quoted name ++ ":" ++ compact value) :: compactMembers members

end

end Value

end ProofSheet.Json
