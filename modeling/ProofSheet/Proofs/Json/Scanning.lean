import Mathlib.Data.List.Forall2
import ProofSheet.Proofs.Json.Literals

/-!
# Scanning a written value

The scanner finds in a written value the tokens of that value and nothing else.

* `Value.tokens`: the tokens of a value.
* `Value.IsExact`: the numbers of a value are natural and fit 64 bits.
* `Scanner.reads_bracketed`: a container reads as its brackets around what its lines read as.
* `Value.tokens?_pretty`: **the tokens of a written value are its tokens.**
-/

namespace ProofSheet.Json

namespace Value

mutual

/-- The tokens of a value. -/
def tokens : Value → List Token
  | .null => [.null]
  | .bool b => [.bool b]
  | .number n => [.number (some n)]
  | .string s => [.string (some s)]
  | .array items => .openBracket :: [.comma].intercalate (itemTokens items) ++ [.closeBracket]
  | .object members => .openBrace :: [.comma].intercalate (memberTokens members) ++ [.closeBrace]

/-- The tokens of each item of an array. -/
def itemTokens : List Value → List (List Token)
  | [] => []
  | item :: items => tokens item :: itemTokens items

/-- The tokens of each member of an object. -/
def memberTokens : List (String × Value) → List (List Token)
  | [] => []
  | (name, value) :: members =>
    (.string (some name) :: .colon :: tokens value) :: memberTokens members

end

mutual

/-- Every number of a value is a natural one of at most 64 bits. -/
def IsExact : Value → Prop
  | .number n => ∃ m, n = .natural m ∧ m < Word.bound
  | .array items => ItemsExact items
  | .object members => MembersExact members
  | .null | .bool _ | .string _ => True

/-- So are the numbers of each item. -/
def ItemsExact : List Value → Prop
  | [] => True
  | item :: items => IsExact item ∧ ItemsExact items

/-- So are the numbers of each member. -/
def MembersExact : List (String × Value) → Prop
  | [] => True
  | (_, value) :: members => IsExact value ∧ MembersExact members

end

theorem itemsExact_iff {items : List Value} : ItemsExact items ↔ ∀ item ∈ items, item.IsExact := by
  induction items with
  | nil => simp [ItemsExact]
  | cons item items ih => rw [ItemsExact, ih, List.forall_mem_cons]

end Value

namespace Scanner

theorem reads_indentation (depth : Nat) : ReadsWhole (indentation depth) [] := by
  have hblanks : ∀ n, ReadsWhole ("".pushn ' ' n) [] := by
    intro n
    induction n with
    | zero => exact fun _ _ => rfl
    | succ n ih =>
      have hpush : "".pushn ' ' (n + 1) = "".pushn ' ' n ++ " " := by
        simp [String.pushn_eq_repeat_push, Nat.repeat, String.push_eq_append]
      rw [hpush]
      exact ih.append_whole reads_blank
  exact hblanks (2 * depth)

/-- Lines with a comma after each but the last. -/
theorem reads_intercalate {lines : List String} {found : List (List Token)}
    (h : List.Forall₂ Reads lines found) :
    Reads (String.intercalate ",\n" lines) ([Token.comma].intercalate found) := by
  have hcomma : ReadsWhole ",\n" [.comma] := by
    rw [show ",\n" = "," ++ "\n" by decide]
    exact reads_comma.append_whole reads_lineEnd
  have hclear : ∀ rest, Clear (bytesOf ",\n" ++ rest) :=
    clear_append 0x2C [0x0A] (by decide) (by decide)
  induction h with
  | nil => exact fun _ _ _ => rfl
  | cons hline hlines ih =>
    cases hlines with
    | nil => rwa [String.intercalate_singleton, List.intercalate_singleton]
    | cons hline' hlines' =>
      rw [String.intercalate_cons_cons, List.intercalate_cons_cons]
      exact (hline.append_whole hcomma hclear).append ih

/-- **A container reads as its brackets around what its lines read as.** -/
theorem reads_bracketed {left right : String} {opening closing : Token} (depth : Nat)
    {lines : List String} {found : List (List Token)} (hleft : ReadsWhole left [opening])
    (hright : ReadsWhole right [closing]) (h : List.Forall₂ Reads lines found) :
    ReadsWhole (bracketed left right depth lines)
      (opening :: [Token.comma].intercalate found ++ [closing]) := by
  -- an empty container is written on one line, and any other with a line for each of its parts
  unfold bracketed
  split
  · rename_i hempty
    rw [List.isEmpty_iff] at hempty
    subst hempty
    cases h
    exact hleft.append_whole hright
  · have hlines : List.Forall₂ Reads (lines.map fun line => indentation (depth + 1) ++ line)
        found :=
      List.forall₂_map_left_iff.mpr (h.imp fun _ _ hline => (reads_indentation _).append hline)
    have hopen : ReadsWhole (left ++ "\n") [opening] := hleft.append_whole reads_lineEnd
    have hinner : ReadsWhole (left ++ "\n" ++ String.intercalate ",\n"
        (lines.map fun line => indentation (depth + 1) ++ line) ++ "\n")
        (opening :: [Token.comma].intercalate found) := by
      have := (hopen.append (reads_intercalate hlines)).append_whole reads_lineEnd
        (clear_append 0x0A [] (by decide) (by decide))
      rwa [List.append_nil] at this
    have hclose := (hinner.append_whole (reads_indentation depth)).append_whole hright
    rwa [List.append_nil] at hclose

end Scanner

namespace Value

open Scanner

mutual

/-- **A written value reads as its tokens.** -/
theorem reads_prettyAt : ∀ (v : Value) (depth : Nat), v.IsExact → Reads (prettyAt depth v) v.tokens
  | .null, _, _ => reads_null.reads
  | .bool true, _, _ => reads_true.reads
  | .bool false, _, _ => reads_false.reads
  | .number _, _, ⟨_, rfl, hm⟩ => reads_number hm
  | .string s, _, _ => (reads_quoted s).reads
  | .array items, depth, h =>
    (reads_bracketed depth reads_openBracket reads_closeBracket
      (reads_prettyItems items (depth + 1) h)).reads
  | .object members, depth, h =>
    (reads_bracketed depth reads_openBrace reads_closeBrace
      (reads_prettyMembers members (depth + 1) h)).reads

theorem reads_prettyItems : ∀ (items : List Value) (depth : Nat), ItemsExact items →
    List.Forall₂ Reads (prettyItems depth items) (itemTokens items)
  | [], _, _ => .nil
  | item :: items, depth, h =>
    .cons (reads_prettyAt item depth h.1) (reads_prettyItems items depth h.2)

theorem reads_prettyMembers : ∀ (members : List (String × Value)) (depth : Nat),
    MembersExact members → List.Forall₂ Reads (prettyMembers depth members) (memberTokens members)
  | [], _, _ => .nil
  | (name, value) :: members, depth, h => by
    have hcolon : ReadsWhole ": " [.colon] := by
      rw [show ": " = ":" ++ " " by decide]
      exact reads_colon.append_whole reads_blank
    have hname := (reads_quoted name).append_whole hcolon
    exact .cons (hname.append (reads_prettyAt value depth h.1))
      (reads_prettyMembers members depth h.2)

end

/-- **The tokens of a written value are its tokens.** -/
theorem tokens?_pretty {v : Value} (h : v.IsExact) :
    tokens? v.pretty.toUTF8.toList = some v.tokens := by
  have hscan := reads_prettyAt v 0 h [] [] (fun _ hb => by simp at hb)
  rw [List.append_nil, List.append_nil] at hscan
  have hend : Scanner.scan ⟨.between, v.tokens.reverse⟩ [] = some v.tokens := by
    simp [Scanner.scan, Scanner.run, Scanner.finish]
  rw [toList_toUTF8]
  exact hscan.trans hend

end Value

end ProofSheet.Json
