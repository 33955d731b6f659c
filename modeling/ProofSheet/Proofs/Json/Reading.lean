import ProofSheet.Json.Token
import ProofSheet.Json.Write

/-!
# Reading a written text

What the scanner makes of a text is stated so that texts can be put together: a text reads as some
tokens whatever was read before it and whatever comes after it. Only a number looks ahead, since it
ends where a byte comes that it cannot take.

* `bytesOf`: the bytes of a text, character by character.
* `Scanner.scan`: the tokens found from a state of the scanner to the end of the text.
* `Scanner.Reads`, `Scanner.ReadsWhole`: **a text reads as tokens**, with and without a number at its
  end that could go on.
-/

namespace ProofSheet.Json

/-! ## Bytes -/

/-- The bytes of a text. -/
def bytesOf (s : String) : List UInt8 :=
  s.toList.flatMap String.utf8EncodeChar

@[simp] theorem bytesOf_append (s t : String) : bytesOf (s ++ t) = bytesOf s ++ bytesOf t := by
  simp [bytesOf]

theorem toList_loop (bs : ByteArray) (i : Nat) (read : List UInt8) :
    ByteArray.toList.loop bs i read = read.reverse ++ bs.data.toList.drop i := by
  fun_induction ByteArray.toList.loop bs i read with
  | case1 i read h ih =>
    have hi : i < bs.data.toList.length := by simpa using h
    rw [ih, List.drop_eq_getElem_cons hi]
    simp [ByteArray.get!, h]
  | case2 i read h =>
    have hi : bs.data.toList.length ≤ i := by simpa using h
    rw [List.drop_eq_nil_of_le hi, List.append_nil]

theorem data_toByteArray (s : String) : s.toByteArray.data.toList = bytesOf s := by
  rw [← String.utf8Encode_toList, List.utf8Encode, List.toList_data_toByteArray, bytesOf]

theorem toList_toUTF8 (s : String) : s.toUTF8.toList = bytesOf s := by
  rw [ByteArray.toList, toList_loop, String.toUTF8_eq_toByteArray, data_toByteArray]
  rfl

/-! ## Reading a text -/

/-- The tokens found from a state of the scanner to the end of the text. -/
def Scanner.scan (scanner : Scanner) (bytes : List UInt8) : Option (List Token) :=
  (scanner.run bytes).bind Scanner.finish

/-- What comes next does not go on with a number. -/
def Clear (rest : List UInt8) : Prop :=
  ∀ b ∈ rest.head?, Scanner.inNumber b = false

/-- A text that starts with a byte outside numbers ends any number before it. -/
theorem clear_append {text : String} (b : UInt8) (bytes : List UInt8)
    (hbytes : bytesOf text = b :: bytes) (h : Scanner.inNumber b = false) (rest : List UInt8) :
    Clear (bytesOf text ++ rest) := by
  intro c hc
  rw [hbytes] at hc
  cases hc
  exact h

namespace Scanner

variable {scanner next : Scanner} {tokens more : List Token} {text after : String}

theorem scan_cons {b : UInt8} {bytes : List UInt8} (h : scanner.step b = some next) :
    scanner.scan (b :: bytes) = next.scan bytes := by
  simp [scan, run, h]

/-- **A text reads as tokens**: between tokens the scanner finds exactly these in it, and stands
between tokens again, unless a number at its end goes on. -/
def Reads (text : String) (tokens : List Token) : Prop :=
  ∀ (before : List Token) (rest : List UInt8), Clear rest →
    scan ⟨.between, before⟩ (bytesOf text ++ rest) = scan ⟨.between, tokens.reverse ++ before⟩ rest

/-- A text reads as tokens and does not end with a number. -/
def ReadsWhole (text : String) (tokens : List Token) : Prop :=
  ∀ (before : List Token) (rest : List UInt8),
    scan ⟨.between, before⟩ (bytesOf text ++ rest) = scan ⟨.between, tokens.reverse ++ before⟩ rest

theorem ReadsWhole.reads (h : ReadsWhole text tokens) : Reads text tokens :=
  fun before rest _ => h before rest

theorem ReadsWhole.append (htext : ReadsWhole text tokens) (hafter : Reads after more) :
    Reads (text ++ after) (tokens ++ more) := by
  intro before rest hrest
  rw [bytesOf_append, List.append_assoc, htext before _, hafter _ rest hrest,
    List.reverse_append, List.append_assoc]

theorem ReadsWhole.append_whole (htext : ReadsWhole text tokens) (hafter : ReadsWhole after more) :
    ReadsWhole (text ++ after) (tokens ++ more) := by
  intro before rest
  rw [bytesOf_append, List.append_assoc, htext before _, hafter _ rest,
    List.reverse_append, List.append_assoc]

/-- A number ends where a byte comes that it cannot take. -/
theorem Reads.append_whole (htext : Reads text tokens) (hafter : ReadsWhole after more)
    (hclear : ∀ rest, Clear (bytesOf after ++ rest)) :
    ReadsWhole (text ++ after) (tokens ++ more) := by
  intro before rest
  rw [bytesOf_append, List.append_assoc, htext before _ (hclear rest), hafter _ rest,
    List.reverse_append, List.append_assoc]

/-- A single byte that the scanner takes between tokens. -/
theorem reads_byte (b : UInt8) (hbytes : bytesOf text = [b])
    (h : ∀ before, step ⟨.between, before⟩ b = some ⟨.between, tokens.reverse ++ before⟩) :
    ReadsWhole text tokens := by
  intro before rest
  rw [hbytes]
  exact scan_cons (h before)

theorem reads_comma : ReadsWhole "," [.comma] := reads_byte 0x2C (by decide) fun _ => rfl
theorem reads_colon : ReadsWhole ":" [.colon] := reads_byte 0x3A (by decide) fun _ => rfl
theorem reads_blank : ReadsWhole " " [] := reads_byte 0x20 (by decide) fun _ => rfl
theorem reads_lineEnd : ReadsWhole "\n" [] := reads_byte 0x0A (by decide) fun _ => rfl
theorem reads_openBracket : ReadsWhole "[" [.openBracket] :=
  reads_byte 0x5B (by decide) fun _ => rfl
theorem reads_closeBracket : ReadsWhole "]" [.closeBracket] :=
  reads_byte 0x5D (by decide) fun _ => rfl
theorem reads_openBrace : ReadsWhole "\x7b" [.openBrace] :=
  reads_byte 0x7B (by decide) fun _ => rfl
theorem reads_closeBrace : ReadsWhole "\x7d" [.closeBrace] :=
  reads_byte 0x7D (by decide) fun _ => rfl

/-! ## Words -/

theorem reads_null : ReadsWhole "null" [.null] := fun _ _ => rfl
theorem reads_true : ReadsWhole "true" [.bool true] := fun _ _ => rfl
theorem reads_false : ReadsWhole "false" [.bool false] := fun _ _ => rfl

theorem run_append (scanner : Scanner) (bytes rest : List UInt8) :
    scanner.run (bytes ++ rest) = (scanner.run bytes).bind fun scanner => scanner.run rest := by
  induction bytes generalizing scanner with
  | nil => rfl
  | cons b bytes ih =>
    rw [List.cons_append, run, run]
    cases scanner.step b with
    | none => rfl
    | some scanner => exact ih scanner

end Scanner

end ProofSheet.Json
