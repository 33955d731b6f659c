import ProofSheet.Json.Number

/-!
# JSON tokens

The scanner reads bytes one at a time. Between tokens only the four JSON blanks may stand. A string
or number that is well formed but has no value, because its bytes are no text or its size is out of
range, is a token all the same: it is refused only where its value is wanted.
-/

namespace ProofSheet.Json

/-- A token of a JSON text. -/
inductive Token where
  | openBrace
  | closeBrace
  | openBracket
  | closeBracket
  | comma
  | colon
  | null
  | bool (value : Bool)
  /-- A number, `none` if it is out of range. -/
  | number (value : Option Number)
  /-- A string, `none` if it spells no text. -/
  | string (value : Option String)
  deriving DecidableEq

/-- A part of a string literal: a byte that stands for itself, or a UTF-16 unit written in
hexadecimal. -/
inductive Piece where
  | byte (value : UInt8)
  | unit (value : Nat)
  deriving DecidableEq

namespace Piece

/-- Whether a unit is the first of a surrogate pair. -/
def isHigh (u : Nat) : Bool := decide (0xD800 ≤ u ∧ u < 0xDC00)

/-- Whether a unit is the second of a surrogate pair. -/
def isLow (u : Nat) : Bool := decide (0xDC00 ≤ u ∧ u < 0xE000)

/-- Puts the bytes of pieces, the last piece first, before bytes already known. Surrogates must
come in pairs. -/
def bytesBefore (known : List UInt8) : List Piece → Option (List UInt8)
  | [] => some known
  | .byte b :: pieces => bytesBefore (b :: known) pieces
  | .unit low :: .unit u :: pieces =>
    if isLow low then
      if isHigh u then
        let code := 0x10000 + (u - 0xD800) * 0x400 + (low - 0xDC00)
        bytesBefore (String.utf8EncodeChar (Char.ofNat code) ++ known) pieces
      else none
    else if isHigh low then none
    else bytesBefore (String.utf8EncodeChar (Char.ofNat low) ++ known) (.unit u :: pieces)
  | .unit u :: pieces =>
    if isLow u || isHigh u then none
    else bytesBefore (String.utf8EncodeChar (Char.ofNat u) ++ known) pieces

/-- The text that pieces spell, the last piece first. -/
def text? (pieces : List Piece) : Option String :=
  (bytesBefore [] pieces).bind fun bytes => String.fromUTF8? ⟨bytes.toArray⟩

end Piece

/-- What the scanner is in the middle of. Bytes and pieces are kept with the latest first. -/
inductive ScanMode where
  | between
  /-- A word of which some bytes are still to come. -/
  | word (rest : List UInt8) (token : Token)
  | number (read : List UInt8)
  | string (pieces : List Piece)
  /-- Past a backslash. -/
  | escape (pieces : List Piece)
  /-- Inside a hexadecimal escape, with the count of digits still to come. -/
  | hex (pieces : List Piece) (awaited value : Nat)
  deriving DecidableEq

/-- The scanner: its mode, and the tokens so far, the latest first. -/
structure Scanner where
  mode : ScanMode := .between
  tokens : List Token := []
  deriving DecidableEq

namespace Scanner

/-- Goes on in another mode. -/
def within (scanner : Scanner) (mode : ScanMode) : Scanner :=
  { scanner with mode }

/-- Adds a token and stands between tokens again. -/
def emit (scanner : Scanner) (token : Token) : Scanner :=
  { mode := .between, tokens := token :: scanner.tokens }

/-- Whether a byte may belong to a number. -/
def inNumber (b : UInt8) : Bool :=
  Literal.isDigit b || b == 0x2B || b == 0x2D || b == 0x2E || b == 0x65 || b == 0x45

/-- A byte between tokens. -/
def start (scanner : Scanner) (b : UInt8) : Option Scanner :=
  if b = 0x20 ∨ b = 0x09 ∨ b = 0x0A ∨ b = 0x0D then some (scanner.within .between)
  else if b = 0x7B then some (scanner.emit .openBrace)
  else if b = 0x7D then some (scanner.emit .closeBrace)
  else if b = 0x5B then some (scanner.emit .openBracket)
  else if b = 0x5D then some (scanner.emit .closeBracket)
  else if b = 0x2C then some (scanner.emit .comma)
  else if b = 0x3A then some (scanner.emit .colon)
  else if b = 0x22 then some (scanner.within (.string []))
  else if b = 0x6E then some (scanner.within (.word [0x75, 0x6C, 0x6C] .null))
  else if b = 0x74 then some (scanner.within (.word [0x72, 0x75, 0x65] (.bool true)))
  else if b = 0x66 then some (scanner.within (.word [0x61, 0x6C, 0x73, 0x65] (.bool false)))
  else if inNumber b then some (scanner.within (.number [b]))
  else none

/-- Ends the number read so far. -/
def endNumber (scanner : Scanner) (read : List UInt8) : Option Scanner :=
  (Literal.read? read.reverse).map fun literal =>
    scanner.emit
      (.number (if literal.inRange then some (literal.number read.reverse) else none))

/-- The byte that a one-letter escape stands for. -/
def escaped? (b : UInt8) : Option UInt8 :=
  if b = 0x22 ∨ b = 0x5C ∨ b = 0x2F then some b
  else if b = 0x62 then some 0x08
  else if b = 0x66 then some 0x0C
  else if b = 0x6E then some 0x0A
  else if b = 0x72 then some 0x0D
  else if b = 0x74 then some 0x09
  else none

/-- The value of a hexadecimal digit. -/
def hexDigit? (b : UInt8) : Option Nat :=
  if 0x30 ≤ b ∧ b ≤ 0x39 then some (b.toNat - 0x30)
  else if 0x61 ≤ b ∧ b ≤ 0x66 then some (b.toNat - 0x61 + 10)
  else if 0x41 ≤ b ∧ b ≤ 0x46 then some (b.toNat - 0x41 + 10)
  else none

/-- Reads one byte. -/
def step (scanner : Scanner) (b : UInt8) : Option Scanner :=
  match scanner.mode with
  | .between => scanner.start b
  | .word [] token => (scanner.emit token).start b
  | .word (expected :: rest) token =>
    if b ≠ expected then none
    else if rest.isEmpty then some (scanner.emit token)
    else some (scanner.within (.word rest token))
  | .number read =>
    if inNumber b then some (scanner.within (.number (b :: read)))
    else (scanner.endNumber read).bind fun scanner => scanner.start b
  | .string pieces =>
    if b = 0x22 then some (scanner.emit (.string (Piece.text? pieces)))
    else if b = 0x5C then some (scanner.within (.escape pieces))
    else if b < 0x20 then none
    else some (scanner.within (.string (.byte b :: pieces)))
  | .escape pieces =>
    if b = 0x75 then some (scanner.within (.hex pieces 4 0))
    else (escaped? b).map fun b => scanner.within (.string (.byte b :: pieces))
  | .hex pieces awaited value =>
    (hexDigit? b).map fun d =>
      let value := value * 16 + d
      if awaited ≤ 1 then scanner.within (.string (.unit value :: pieces))
      else scanner.within (.hex pieces (awaited - 1) value)

/-- The tokens once the text has ended. -/
def finish (scanner : Scanner) : Option (List Token) :=
  match scanner.mode with
  | .between => some scanner.tokens.reverse
  | .number read => (scanner.endNumber read).map fun scanner => scanner.tokens.reverse
  | _ => none

/-- Reads bytes in order, as long as each can be read. -/
def run : Scanner → List UInt8 → Option Scanner
  | scanner, [] => some scanner
  | scanner, b :: bytes =>
    match scanner.step b with
    | some scanner => run scanner bytes
    | none => none

end Scanner

/-- **The tokens of a JSON text**, if it is made of tokens. -/
def tokens? (bytes : List UInt8) : Option (List Token) :=
  (Scanner.run {} bytes).bind Scanner.finish

end ProofSheet.Json
