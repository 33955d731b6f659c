import Mathlib.Data.List.Basic
import Mathlib.Data.List.TakeWhile
import ProofSheet.Proofs.Json.Reading

/-!
# Literals

A number is written by its digits and a text as a string literal. Each literal reads as what it was
made from.

* `Scanner.reads_number`: **a number reads as itself**, if it fits 64 bits.
* `Piece.text?_ofChars`: the pieces into which a literal is taken apart spell its text.
* `Scanner.reads_quoted`: **a string literal reads as the text it was made from.**
-/

namespace ProofSheet.Json

/-! ## Numbers -/

namespace Scanner

theorem inNumber_of_isDigit {b : UInt8} (h : Literal.isDigit b = true) : inNumber b = true := by
  simp [inNumber, h]

theorem start_digit {b : UInt8} (h : Literal.isDigit b = true) (before : List Token) :
    start ⟨.between, before⟩ b = some ⟨.number [b], before⟩ := by
  have hrange : 0x30 ≤ b.toNat ∧ b.toNat ≤ 0x39 := by simpa [Literal.isDigit] using h
  have hne : ∀ c : UInt8, c.toNat < 0x30 ∨ 0x39 < c.toNat → b ≠ c := by
    rintro c hc rfl
    omega
  simp only [start]
  rw [if_neg, if_neg (hne _ (by decide)), if_neg (hne _ (by decide)), if_neg (hne _ (by decide)),
    if_neg (hne _ (by decide)), if_neg (hne _ (by decide)), if_neg (hne _ (by decide)),
    if_neg (hne _ (by decide)), if_neg (hne _ (by decide)), if_neg (hne _ (by decide)),
    if_neg (hne _ (by decide)), if_pos (inNumber_of_isDigit h)]
  · rfl
  · simp [hne]

theorem run_digits {digits read : List UInt8} (h : ∀ b ∈ digits, Literal.isDigit b = true)
    (before : List Token) :
    run ⟨.number read, before⟩ digits = some ⟨.number (digits.reverse ++ read), before⟩ := by
  induction digits generalizing read with
  | nil => rfl
  | cons b digits ih =>
    have hb := inNumber_of_isDigit (h b List.mem_cons_self)
    simp only [run, step, hb, if_true, within]
    rw [ih fun b hb => h b (List.mem_cons_of_mem _ hb)]
    simp

/-- A number that has been read ends where the text ends or a byte comes that it cannot take. -/
theorem scan_number {read : List UInt8} {token : Token} {before : List Token}
    (h : endNumber ⟨.number read, before⟩ read = some ⟨.between, token :: before⟩)
    {rest : List UInt8} (hrest : Clear rest) :
    scan ⟨.number read, before⟩ rest = scan ⟨.between, token :: before⟩ rest := by
  cases rest with
  | nil => simp [scan, run, finish, h]
  | cons b rest =>
    have hb : inNumber b = false := hrest b rfl
    have hstep : step ⟨.number read, before⟩ b = step ⟨.between, token :: before⟩ b := by
      simp [step, hb, h]
    simp only [scan, run, hstep]

end Scanner

namespace Literal

/-- The byte of a digit. -/
def digitByte (c : Char) : UInt8 := UInt8.ofNat c.toNat

theorem toNat_digitByte {c : Char} (h : c.isDigit = true) :
    (digitByte c).toNat = c.toNat ∧ 0x30 ≤ c.toNat ∧ c.toNat ≤ 0x39 := by
  have hrange : 0x30 ≤ c.toNat ∧ c.toNat ≤ 0x39 := by
    simp only [Char.isDigit, Bool.and_eq_true, decide_eq_true_eq, UInt32.le_iff_toNat_le] at h
    exact h
  have hmod : c.toNat % 256 = c.toNat := Nat.mod_eq_of_lt (by omega)
  exact ⟨by simpa [digitByte] using hmod, hrange⟩

theorem isDigit_digitByte {c : Char} (h : c.isDigit = true) : isDigit (digitByte c) = true := by
  obtain ⟨hbyte, hrange⟩ := toNat_digitByte h
  simpa [isDigit, hbyte] using hrange

theorem utf8EncodeChar_digit {c : Char} (h : c.isDigit = true) :
    String.utf8EncodeChar c = [digitByte c] := by
  have hrange := (toNat_digitByte h).2
  have hle : c.val.toNat ≤ 0x7f := by
    have : c.toNat = c.val.toNat := rfl
    omega
  rw [String.utf8EncodeChar]
  simp only [hle, if_true]
  rfl

/-- The digits of a number, as bytes. -/
def digitBytes (n : Nat) : List UInt8 :=
  (Nat.toDigits 10 n).map digitByte

theorem isDigit_of_mem_toDigits {n : Nat} {c : Char} (h : c ∈ Nat.toDigits 10 n) :
    c.isDigit = true :=
  Nat.isDigit_of_mem_toDigits (by omega) (by omega) h

theorem isDigit_of_mem_digitBytes {n : Nat} : ∀ b ∈ digitBytes n, isDigit b = true := by
  intro b hb
  obtain ⟨c, hc, rfl⟩ := List.mem_map.mp hb
  exact isDigit_digitByte (isDigit_of_mem_toDigits hc)

theorem bytesOf_toString (n : Nat) : bytesOf (toString n) = digitBytes n := by
  rw [bytesOf, Nat.toString_eq_ofList_toDigits, String.toList_ofList, digitBytes,
    List.map_eq_flatMap]
  exact List.flatMap_congr fun c hc => utf8EncodeChar_digit (isDigit_of_mem_toDigits hc)

/-- The digits of a number spell it. -/
theorem value_digitBytes (n : Nat) : value ((digitBytes n).map fun b => b.toNat - 0x30) = n := by
  have hspell : ∀ (cs : List Char) (m : Nat), (∀ c ∈ cs, c.isDigit = true) →
      ((cs.map digitByte).map fun b => b.toNat - 0x30).foldl (fun n d => n * 10 + d) m =
        Nat.ofDigitChars 10 cs m := by
    intro cs
    induction cs with
    | nil => intro m _; rfl
    | cons c cs ih =>
      intro m h
      have hc := (toNat_digitByte (h c List.mem_cons_self)).1
      rw [Nat.ofDigitChars_cons, List.map_cons, List.map_cons, List.foldl_cons,
        ih _ fun c hc => h c (List.mem_cons_of_mem _ hc), hc, Nat.mul_comm m 10]
      rfl
  rw [value, digitBytes, hspell _ 0 fun c hc => isDigit_of_mem_toDigits hc,
    Nat.ofDigitChars_ten_toDigits]

/-- The digits of a number above zero do not begin with zero. -/
theorem head?_toDigits {n : Nat} (h : 0 < n) : (Nat.toDigits 10 n).head? ≠ some '0' := by
  induction n using Nat.base_induction 10 (by decide) with
  | single m hm =>
    rw [Nat.toDigits_of_lt_base hm, List.head?_cons, ne_eq, Option.some.injEq,
      Nat.digitChar_eq_zero]
    omega
  | digit m k hk hm ih =>
    rw [← Nat.toDigits_append_toDigits (by decide) hm hk, List.head?_append]
    cases hdigits : Nat.toDigits 10 m with
    | nil => exact absurd hdigits Nat.toDigits_ne_nil
    | cons c cs => simpa [hdigits] using ih hm

/-- A zero leads the digits of a number only where it stands alone. -/
theorem digitBytes_eq_cons (n : Nat) :
    ∃ b bytes, digitBytes n = b :: bytes ∧ (b = 0x30 → bytes = []) := by
  cases hd : Nat.toDigits 10 n with
  | nil => exact absurd hd Nat.toDigits_ne_nil
  | cons c cs =>
    refine ⟨digitByte c, cs.map digitByte, by rw [digitBytes, hd, List.map_cons], fun hb => ?_⟩
    have hdigit : c.isDigit = true := isDigit_of_mem_toDigits (hd ▸ List.mem_cons_self)
    have hc : c = '0' := by
      have hnat : c.toNat = 0x30 := by rw [← (toNat_digitByte hdigit).1, hb]; rfl
      exact Char.toNat_inj.mp hnat
    rcases Nat.eq_zero_or_pos n with rfl | hn
    · rw [Nat.toDigits_zero] at hd
      simp_all
    · exact absurd (by rw [hd, hc]; rfl) (head?_toDigits hn)

theorem le_foldl (ds : List Nat) (n : Nat) : n ≤ ds.foldl (fun n d => n * 10 + d) n := by
  induction ds generalizing n with
  | nil => exact Nat.le_refl n
  | cons d ds ih => exact Nat.le_trans (by omega) (ih (n * 10 + d))

/-- Digits that fit 64 bits are all taken in. -/
theorem takeWhole_eq (ds : List Nat) (n : Nat)
    (h : ds.foldl (fun n d => n * 10 + d) n < Word.bound) :
    takeWhole n 0 ds = (ds.foldl (fun n d => n * 10 + d) n, 0) := by
  induction ds generalizing n with
  | nil => rfl
  | cons d ds ih =>
    have hfits : n * 10 + d < Word.bound := Nat.lt_of_le_of_lt (le_foldl ds _) h
    rw [takeWhole, if_pos ⟨rfl, hfits⟩, ih _ h]
    rfl

/-- Digits without a leading zero are read as they stand. -/
theorem read?_digits {b : UInt8} {bytes : List UInt8}
    (hdigits : ∀ c ∈ b :: bytes, isDigit c = true) (hlead : b = 0x30 → bytes = []) :
    read? (b :: bytes) =
      some ⟨false, (b :: bytes).map fun b => b.toNat - 0x30, [], 0, true⟩ := by
  have hrange : 0x30 ≤ b.toNat ∧ b.toNat ≤ 0x39 := by
    simpa [isDigit] using hdigits b List.mem_cons_self
  have hsplit : digits (b :: bytes) = ((b :: bytes).map fun b => b.toNat - 0x30, []) := by
    rw [digits, List.takeWhile_eq_self_iff.mpr hdigits, List.dropWhile_eq_nil_iff.mpr hdigits]
  rw [read?, hsplit]
  · split
    · simp_all
    · rename_i d ds _ h
      simp only [List.map_cons, Prod.mk.injEq, List.cons.injEq] at h
      have hb : b = 0x30 :=
        UInt8.toNat_inj.mp (by have : (0x30 : UInt8).toNat = 0x30 := rfl; omega)
      simp [hlead hb] at h
    · rename_i h
      simp only [Prod.mk.injEq] at h
      obtain ⟨rfl, rfl⟩ := h
      rfl
  -- a digit is no minus sign
  · intro rest h
    simp only [List.cons.injEq] at h
    have : b.toNat = 0x2D := by rw [h.1]; rfl
    omega

end Literal

namespace Scanner

theorem endNumber_digitBytes {n : Nat} (h : n < Word.bound) (scanner : Scanner) :
    endNumber scanner (Literal.digitBytes n).reverse =
      some (scanner.emit (.number (some (.natural n)))) := by
  obtain ⟨b, bytes, hbytes, hlead⟩ := Literal.digitBytes_eq_cons n
  have hdigits := Literal.isDigit_of_mem_digitBytes (n := n)
  have hvalue := Literal.value_digitBytes n
  -- the number fits, so no digit is left over for an exponent
  have hwhole := Literal.takeWhole_eq ((Literal.digitBytes n).map fun b => b.toNat - 0x30) 0
    (by rw [← Literal.value, hvalue]; exact h)
  rw [hbytes] at hdigits hvalue hwhole
  rw [endNumber, List.reverse_reverse, hbytes, Literal.read?_digits hdigits hlead]
  rw [List.map_cons] at hvalue hwhole
  simp [Literal.inRange, Literal.number, hwhole, hvalue, Literal.takeFraction]

/-- **A number reads as itself**, if it fits 64 bits. -/
theorem reads_number {n : Nat} (h : n < Word.bound) :
    Reads (toString n) [.number (some (.natural n))] := by
  intro before rest hrest
  obtain ⟨b, bytes, hbytes, -⟩ := Literal.digitBytes_eq_cons n
  have hend := scan_number (endNumber_digitBytes h ⟨_, before⟩) hrest
  have hdigits := Literal.isDigit_of_mem_digitBytes (n := n)
  rw [Literal.bytesOf_toString, hbytes]
  rw [hbytes] at hdigits hend
  have hstart : step ⟨.between, before⟩ b = some ⟨.number [b], before⟩ :=
    start_digit (hdigits b List.mem_cons_self) before
  rw [List.cons_append, scan_cons hstart, scan, run_append,
    run_digits fun c hc => hdigits c (List.mem_cons_of_mem b hc)]
  simpa [scan] using hend

end Scanner

/-! ## Strings -/

/-- Whether a character is written by its code: a control character without a letter of its own. -/
def byCode (c : Char) : Bool :=
  decide (c.toNat < 0x20 ∧ c.toNat ≠ 0x08 ∧ c.toNat ≠ 0x09 ∧ c.toNat ≠ 0x0A ∧ c.toNat ≠ 0x0C ∧
    c.toNat ≠ 0x0D)

/-- The pieces that a character of a string literal is read as, the last one first. -/
def Piece.ofChar (c : Char) : List Piece :=
  if byCode c then [.unit c.toNat] else (String.utf8EncodeChar c).reverse.map .byte

namespace Piece

theorem bytesBefore_bytes (bytes known : List UInt8) (pieces : List Piece) :
    bytesBefore known (bytes.reverse.map .byte ++ pieces) = bytesBefore (bytes ++ known) pieces := by
  induction bytes generalizing pieces with
  | nil => rfl
  | cons b bytes ih =>
    rw [List.reverse_cons, List.map_append, List.append_assoc, ih]
    rfl

/-- A character that is no surrogate stands for its bytes. -/
theorem bytesBefore_unit {u : Nat} (h : u < 0xD800) (known : List UInt8) (pieces : List Piece) :
    bytesBefore known (.unit u :: pieces) =
      bytesBefore (String.utf8EncodeChar (Char.ofNat u) ++ known) pieces := by
  have hlow : isLow u = false := by simp [isLow]; omega
  have hhigh : isHigh u = false := by simp [isHigh]; omega
  cases pieces with
  | nil => simp [bytesBefore, hlow, hhigh]
  | cons piece pieces =>
    cases piece with
    | byte b => simp [bytesBefore, hlow, hhigh]
    | unit w => rw [bytesBefore]; simp [hlow, hhigh]

theorem bytesBefore_ofChar (c : Char) (known : List UInt8) (pieces : List Piece) :
    bytesBefore known (ofChar c ++ pieces) =
      bytesBefore (String.utf8EncodeChar c ++ known) pieces := by
  unfold ofChar
  split
  · rename_i h
    have hlt : c.toNat < 0x20 := by
      simp only [byCode, decide_eq_true_eq] at h
      exact h.1
    rw [List.singleton_append, bytesBefore_unit (by omega), Char.ofNat_toNat]
  · exact bytesBefore_bytes _ known pieces

theorem bytesBefore_ofChars (cs : List Char) (known : List UInt8) (pieces : List Piece) :
    bytesBefore known (cs.reverse.flatMap ofChar ++ pieces) =
      bytesBefore (cs.flatMap String.utf8EncodeChar ++ known) pieces := by
  induction cs generalizing pieces with
  | nil => rfl
  | cons c cs ih =>
    rw [List.reverse_cons, List.flatMap_append, List.append_assoc, ih, List.flatMap_singleton,
      bytesBefore_ofChar, List.flatMap_cons, List.append_assoc]

/-- **The pieces of a text spell it.** -/
theorem text?_ofChars (s : String) : text? (s.toList.reverse.flatMap ofChar) = some s := by
  have hbytes : bytesBefore [] (s.toList.reverse.flatMap ofChar) = some (bytesOf s) := by
    have := bytesBefore_ofChars s.toList [] []
    rw [List.append_nil, List.append_nil] at this
    rw [this, bytesBefore, bytesOf]
  have harray : (⟨(bytesOf s).toArray⟩ : ByteArray) = s.toByteArray := by
    rw [← data_toByteArray]
  rw [text?, hbytes, Option.bind_some, harray, String.fromUTF8?, dif_pos s.isValidUTF8]
  rfl

end Piece

/-- The bytes of a character beyond the first 128 are all 128 or more. -/
theorem le_of_mem_utf8EncodeChar {c : Char} (h : 0x80 ≤ c.toNat) :
    ∀ b ∈ String.utf8EncodeChar c, 0x80 ≤ b.toNat := by
  have hbyte : ∀ n : Nat, 0x80 ≤ n → n < 256 → 0x80 ≤ (UInt8.ofNat n).toNat := by
    intro n hle hlt
    rw [UInt8.toNat_ofNat', Nat.mod_eq_of_lt hlt]
    exact hle
  have hv : ¬ c.val.toNat ≤ 0x7f := by
    have : c.toNat = c.val.toNat := rfl
    omega
  intro b hb
  rw [String.utf8EncodeChar] at hb
  simp only [if_neg hv] at hb
  -- two, three or four bytes; each is a mark of 128 or more with at most six bits added
  split at hb
  · simp only [List.mem_cons, List.not_mem_nil, or_false] at hb
    rcases hb with rfl | rfl <;> exact hbyte _ (by omega) (by omega)
  · split at hb
    · simp only [List.mem_cons, List.not_mem_nil, or_false] at hb
      rcases hb with rfl | rfl | rfl <;> exact hbyte _ (by omega) (by omega)
    · simp only [List.mem_cons, List.not_mem_nil, or_false] at hb
      rcases hb with rfl | rfl | rfl | rfl <;> exact hbyte _ (by omega) (by omega)

namespace Scanner

/-- A byte that stands for itself in a string literal. -/
def Literally (b : UInt8) : Prop := b ≠ 0x22 ∧ b ≠ 0x5C ∧ ¬ b < 0x20

theorem run_literally {bytes : List UInt8} (h : ∀ b ∈ bytes, Literally b) (pieces : List Piece)
    (before : List Token) :
    run ⟨.string pieces, before⟩ bytes =
      some ⟨.string (bytes.reverse.map .byte ++ pieces), before⟩ := by
  induction bytes generalizing pieces with
  | nil => rfl
  | cons b bytes ih =>
    obtain ⟨hquote, hslash, hcontrol⟩ := h b List.mem_cons_self
    simp only [run, step, if_neg hquote, if_neg hslash, if_neg hcontrol, within]
    rw [ih fun b hb => h b (List.mem_cons_of_mem _ hb)]
    simp

theorem literally_of_mem {c : Char} (hquote : c ≠ '"') (hslash : c ≠ '\\') (h : 0x20 ≤ c.toNat) :
    ∀ b ∈ String.utf8EncodeChar c, Literally b := by
  have hchar : ∀ d : Char, c ≠ d → c.toNat ≠ d.toNat := fun d hne he => hne (Char.toNat_inj.mp he)
  have hq := hchar _ hquote
  have hs := hchar _ hslash
  have hne : ∀ b d : UInt8, b.toNat ≠ d.toNat → b ≠ d := by
    rintro b d hbd rfl
    exact hbd rfl
  intro b hb
  have hcases : b.toNat = c.toNat ∨ 0x80 ≤ b.toNat := by
    by_cases hc : 0x80 ≤ c.toNat
    · exact Or.inr (le_of_mem_utf8EncodeChar hc b hb)
    · have hv : c.val.toNat ≤ 0x7f := by
        have : c.toNat = c.val.toNat := rfl
        omega
      rw [String.utf8EncodeChar] at hb
      simp only [if_pos hv, List.mem_singleton] at hb
      subst hb
      left
      exact Nat.mod_eq_of_lt (by omega)
  simp only [Char.reduceToNat] at hq hs
  refine ⟨hne b _ ?_, hne b _ ?_, ?_⟩
  · show b.toNat ≠ 0x22
    omega
  · show b.toNat ≠ 0x5C
    omega
  · show ¬ b.toNat < 0x20
    omega

theorem bytesOf_controlEscape : ∀ n < 0x20, ∃ high low,
    bytesOf (controlEscape n) = [0x5C, 0x75, 0x30, 0x30, high, low] ∧
      hexDigit? high = some (n / 16) ∧ hexDigit? low = some (n % 16) := by
  intro n hn
  refine ⟨UInt8.ofNat (Nat.digitChar (n / 16)).toNat, UInt8.ofNat (Nat.digitChar (n % 16)).toNat, ?_⟩
  revert n
  decide

/-- A control character written by its code is read as that code. -/
theorem run_controlEscape {n : Nat} (h : n < 0x20) (pieces : List Piece) (before : List Token) :
    run ⟨.string pieces, before⟩ (bytesOf (controlEscape n)) =
      some ⟨.string (.unit n :: pieces), before⟩ := by
  obtain ⟨high, low, hbytes, hhigh, hlow⟩ := bytesOf_controlEscape n h
  have hzero : hexDigit? 0x30 = some 0 := rfl
  have hn : n / 16 * 16 + n % 16 = n := by omega
  rw [hbytes]
  simp [run, step, within, hzero, hhigh, hlow, hn]

/-- **A character of a string literal is read as its pieces.** -/
theorem run_escapeChar (c : Char) (pieces : List Piece) (before : List Token) :
    run ⟨.string pieces, before⟩ (bytesOf (escapeChar c)) =
      some ⟨.string (Piece.ofChar c ++ pieces), before⟩ := by
  have hcode : ∀ n : Nat, c.toNat = n → c = Char.ofNat n := by
    rintro n rfl
    exact (Char.ofNat_toNat c).symm
  by_cases hquote : c = '"'
  · subst hquote
    rfl
  by_cases hslash : c = '\\'
  · subst hslash
    rfl
  by_cases h08 : c.toNat = 0x08
  · rw [hcode _ h08]
    rfl
  by_cases h09 : c.toNat = 0x09
  · rw [hcode _ h09]
    rfl
  by_cases h0A : c.toNat = 0x0A
  · rw [hcode _ h0A]
    rfl
  by_cases h0C : c.toNat = 0x0C
  · rw [hcode _ h0C]
    rfl
  by_cases h0D : c.toNat = 0x0D
  · rw [hcode _ h0D]
    rfl
  by_cases hcontrol : c.toNat < 0x20
  · have hby : byCode c = true := decide_eq_true ⟨hcontrol, h08, h09, h0A, h0C, h0D⟩
    simp only [escapeChar, if_neg hquote, if_neg hslash, if_neg h08, if_neg h09, if_neg h0A,
      if_neg h0C, if_neg h0D, if_pos hcontrol]
    rw [run_controlEscape hcontrol, Piece.ofChar, if_pos hby]
    rfl
  · have hby : byCode c = false := decide_eq_false fun h => hcontrol h.1
    have hbytes : bytesOf c.toString = String.utf8EncodeChar c := by simp [bytesOf]
    simp only [escapeChar, if_neg hquote, if_neg hslash, if_neg h08, if_neg h09, if_neg h0A,
      if_neg h0C, if_neg h0D, if_neg hcontrol]
    rw [hbytes, run_literally (literally_of_mem hquote hslash (by omega)), Piece.ofChar, hby]
    rfl

theorem run_escapeChars (cs : List Char) (pieces : List Piece) (before : List Token) :
    run ⟨.string pieces, before⟩ (cs.flatMap fun c => bytesOf (escapeChar c)) =
      some ⟨.string (cs.reverse.flatMap Piece.ofChar ++ pieces), before⟩ := by
  induction cs generalizing pieces with
  | nil => rfl
  | cons c cs ih =>
    rw [List.flatMap_cons, run_append, run_escapeChar, Option.bind_some, ih, List.reverse_cons,
      List.flatMap_append, List.flatMap_singleton, List.append_assoc]

theorem bytesOf_quoted (s : String) :
    bytesOf (quoted s) = 0x22 :: (s.toList.flatMap fun c => bytesOf (escapeChar c)) ++ [0x22] := by
  have hfold : ∀ (cs : List Char) (written : String),
      bytesOf (cs.foldl (fun written c => written ++ escapeChar c) written) =
        bytesOf written ++ cs.flatMap fun c => bytesOf (escapeChar c) := by
    intro cs
    induction cs with
    | nil => intro written; simp
    | cons c cs ih => intro written; simp [ih]
  have hquote : bytesOf "\"" = [0x22] := by decide
  rw [quoted, bytesOf_append, bytesOf_append, hfold, hquote]
  rfl

/-- **A string literal reads as the text it was made from.** -/
theorem reads_quoted (s : String) : ReadsWhole (quoted s) [.string (some s)] := by
  intro before rest
  have hstart : step ⟨.between, before⟩ 0x22 = some ⟨.string [], before⟩ := rfl
  have hend : step ⟨.string (s.toList.reverse.flatMap Piece.ofChar), before⟩ 0x22 =
      some ⟨.between, .string (some s) :: before⟩ := by
    simp [step, emit, Piece.text?_ofChars]
  rw [bytesOf_quoted, List.cons_append, List.cons_append, scan_cons hstart, scan, List.append_assoc,
    run_append, run_escapeChars, List.append_nil, Option.bind_some]
  exact scan_cons hend

end Scanner

end ProofSheet.Json
