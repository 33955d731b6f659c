import ProofSheet.Json.Parse
import ProofSheet.Proofs.Json.Scanning

/-!
# Building a value from its tokens

The builder makes of the tokens of a value that value, as long as containers do not nest too deep,
and refuses it otherwise.

* `Value.nesting`: how deep the arrays and objects of a value nest.
* `Builder.run_tokens`: **what the builder does with the tokens of one value**, inside any open
  containers and before any other tokens.
* `parse?_pretty`: **a value that was written is read back exactly if it does not nest too deep.**
* `nesting_le_of_parse?`: **no value that was read nests too deep**, whatever text it was read from.
-/

namespace ProofSheet.Json

namespace Value

mutual

/-- How deep the arrays and objects of a value nest. -/
def nesting : Value → Nat
  | .array items => itemsNesting items + 1
  | .object members => membersNesting members + 1
  | .null | .bool _ | .number _ | .string _ => 0

/-- The deepest nesting among items. -/
def itemsNesting : List Value → Nat
  | [] => 0
  | item :: items => max (nesting item) (itemsNesting items)

/-- The deepest nesting among members. -/
def membersNesting : List (String × Value) → Nat
  | [] => 0
  | (_, value) :: members => max (nesting value) (membersNesting members)

end

theorem itemsNesting_le {items : List Value} {n : Nat} :
    itemsNesting items ≤ n ↔ ∀ item ∈ items, item.nesting ≤ n := by
  induction items with
  | nil => simp [itemsNesting]
  | cons item items ih => rw [itemsNesting, Nat.max_le, ih, List.forall_mem_cons]

theorem membersNesting_le {members : List (String × Value)} {n : Nat} :
    membersNesting members ≤ n ↔ ∀ member ∈ members, member.2.nesting ≤ n := by
  induction members with
  | nil => simp [membersNesting]
  | cons member members ih => rw [membersNesting, Nat.max_le, ih, List.forall_mem_cons]

theorem itemsNesting_reverse_le (items : List Value) :
    itemsNesting items.reverse ≤ itemsNesting items :=
  itemsNesting_le.mpr fun item hitem =>
    itemsNesting_le.mp (Nat.le_refl _) item (List.mem_reverse.mp hitem)

theorem membersNesting_reverse_le (members : List (String × Value)) :
    membersNesting members.reverse ≤ membersNesting members :=
  membersNesting_le.mpr fun member hmember =>
    membersNesting_le.mp (Nat.le_refl _) member (List.mem_reverse.mp hmember)

/-- Nothing of a value is passed over: it is no object, or all its members are wanted. -/
def Wanted (demand : Demand) : Value → Prop
  | .object members => ∀ member ∈ members, demand.wanted member.1 = true
  | _ => True

end Value

namespace Builder

open Value (itemTokens memberTokens itemsNesting membersNesting)

variable {demand : Demand}

theorem run_cons (builder : Builder) (token : Token) (tokens : List Token) :
    run demand builder (token :: tokens) =
      (builder.step demand token).bind fun builder => run demand builder tokens := by
  rw [run]
  cases builder.step demand token <;> rfl

/-- Lists of tokens with a comma between them, after the first. -/
theorem intercalate_comma (first : List Token) (more : List (List Token)) :
    [Token.comma].intercalate (first :: more) = first ++ more.flatMap (Token.comma :: ·) := by
  induction more generalizing first with
  | nil => simp
  | cons next more ih => rw [List.intercalate_cons_cons, ih]; simp

/-- A value begins with no closing sign, so it may come first in an array. -/
theorem run_firstItem (v : Value) (stack : List Frame) (rest : List Token) :
    run demand ⟨stack, .firstItem, none⟩ (v.tokens ++ rest) =
      run demand ⟨stack, .value, none⟩ (v.tokens ++ rest) := by
  cases v <;> rfl

/-- Two bounds on nesting, one inside the other, are one bound. -/
theorem ite_ite_none {α : Type} {p q r : Prop} [Decidable p] [Decidable q] [Decidable r]
    {x : Option α} (h : r ↔ p ∧ q) :
    (if p then (if q then x else none) else none) = if r then x else none := by
  by_cases hp : p <;> by_cases hq : q <;> simp [h, hp, hq]

/-- A value that is one token. -/
theorem run_leaf {token : Token} {v : Value} {stack : List Frame}
    (htoken : takeValue demand stack token = leaf demand stack (some v))
    (hvalue : step demand ⟨stack, .value, none⟩ token = takeValue demand stack token)
    (hnesting : v.nesting = 0) (hlimit : stack.length ≤ demand.limit)
    (hpass : passing demand stack = false) (rest : List Token) :
    run demand ⟨stack, .value, none⟩ (token :: rest) =
      if stack.length + v.nesting ≤ demand.limit then run demand (deliver (some v) stack) rest
      else none := by
  rw [run_cons, hvalue, htoken, leaf, hpass, hnesting, Nat.add_zero, if_pos hlimit]
  rfl

/-- Inside an array everything is wanted, and inside an object every member whose name is. -/
theorem passing_object {stack : List Frame} (members : List (String × Value)) {name : String}
    (h : stack = [] → demand.wanted name = true) :
    passing demand (.object members name :: stack) = false := by
  cases stack with
  | nil => simp [passing, h rfl]
  | cons => rfl

mutual

/-- **What the builder does with the tokens of one value.** -/
theorem run_tokens : ∀ (v : Value) (stack : List Frame) (rest : List Token),
    stack.length ≤ demand.limit → passing demand stack = false → (stack = [] → v.Wanted demand) →
    run demand ⟨stack, .value, none⟩ (v.tokens ++ rest) =
      if stack.length + v.nesting ≤ demand.limit then run demand (deliver (some v) stack) rest
      else none
  | .null, _, rest, hlimit, hpass, _ => run_leaf rfl rfl rfl hlimit hpass rest
  | .bool _, _, rest, hlimit, hpass, _ => run_leaf rfl rfl rfl hlimit hpass rest
  | .number _, _, rest, hlimit, hpass, _ => run_leaf rfl rfl rfl hlimit hpass rest
  | .string _, _, rest, hlimit, hpass, _ => run_leaf rfl rfl rfl hlimit hpass rest
  | .array items, stack, rest, _, hpass, _ => by
    have hopen : step demand ⟨stack, .value, none⟩ .openBracket =
        if stack.length < demand.limit then some ⟨.array [] :: stack, .firstItem, none⟩ else none := by
      simp [step, takeValue, opened, hpass]
    rw [Value.tokens, List.cons_append, List.cons_append, run_cons, hopen, Value.nesting]
    by_cases hlt : stack.length < demand.limit
    · rw [if_pos hlt, Option.bind_some]
      cases items with
      | nil =>
        rw [if_pos (by rw [itemsNesting]; omega)]
        rfl
      | cons item items =>
        -- the first item stands without a comma, each of the others after one
        rw [itemTokens, intercalate_comma, List.append_assoc, List.append_assoc, run_firstItem,
          run_tokens item (.array [] :: stack) _ hlt rfl (by simp), List.singleton_append]
        have hmore := run_moreItems items [item] stack rest hlt
        exact (congrArg (ite _ · none) hmore).trans
          (ite_ite_none (by rw [itemsNesting, List.length_cons]; omega))
    · rw [if_neg hlt, if_neg (by omega)]
      rfl
  | .object members, stack, rest, _, hpass, hwanted => by
    have hopen : step demand ⟨stack, .value, none⟩ .openBrace =
        if stack.length < demand.limit then some ⟨.object [] "" :: stack, .firstName, none⟩
        else none := by
      simp [step, takeValue, opened, hpass]
    rw [Value.tokens, List.cons_append, List.cons_append, run_cons, hopen, Value.nesting]
    by_cases hlt : stack.length < demand.limit
    · rw [if_pos hlt, Option.bind_some]
      cases members with
      | nil =>
        rw [if_pos (by rw [membersNesting]; omega)]
        rfl
      | cons member members =>
        obtain ⟨name, value⟩ := member
        have hfirst : stack = [] → demand.wanted name = true :=
          fun h => hwanted h _ List.mem_cons_self
        have hvalue : ∀ rest, run demand ⟨.object [] "" :: stack, .firstName, none⟩
            (.string (some name) :: .colon :: (value.tokens ++ rest)) =
            run demand ⟨.object [] name :: stack, .value, none⟩ (value.tokens ++ rest) :=
          fun _ => rfl
        simp only [memberTokens, intercalate_comma, List.cons_append, List.append_assoc,
          List.nil_append]
        rw [hvalue,
          run_tokens value (.object [] name :: stack) _ hlt (passing_object [] hfirst) (by simp)]
        have hmore := run_moreMembers members [(name, value)] name stack rest hlt
          fun h member hm => hwanted h member (List.mem_cons_of_mem _ hm)
        exact (congrArg (ite _ · none) hmore).trans
          (ite_ite_none (by rw [membersNesting, List.length_cons]; omega))
    · rw [if_neg hlt, if_neg (by omega)]
      rfl

/-- The items of an array after those that are there already. -/
theorem run_moreItems : ∀ (items acc : List Value) (stack : List Frame) (rest : List Token),
    stack.length < demand.limit →
    run demand ⟨.array acc :: stack, .next, none⟩
        ((itemTokens items).flatMap (Token.comma :: ·) ++ .closeBracket :: rest) =
      if stack.length + 1 + itemsNesting items ≤ demand.limit then
        run demand (deliver (some (.array (acc.reverse ++ items))) stack) rest
      else none
  | [], acc, stack, rest, hlt => by
    rw [if_pos (by rw [itemsNesting]; omega), List.append_nil]
    rfl
  | item :: items, acc, stack, rest, hlt => by
    have hcomma : ∀ rest, run demand ⟨.array acc :: stack, .next, none⟩ (.comma :: rest) =
        run demand ⟨.array acc :: stack, .value, none⟩ rest :=
      fun _ => rfl
    rw [itemTokens, List.flatMap_cons, List.append_assoc, List.cons_append, hcomma,
      run_tokens item (.array acc :: stack) _ hlt rfl (by simp)]
    have hmore := run_moreItems items (item :: acc) stack rest hlt
    rw [List.reverse_cons, List.append_assoc, List.singleton_append] at hmore
    exact (congrArg (ite _ · none) hmore).trans
      (ite_ite_none (by rw [itemsNesting, List.length_cons]; omega))

/-- The members of an object after those that are there already. -/
theorem run_moreMembers : ∀ (members acc : List (String × Value)) (last : String)
    (stack : List Frame) (rest : List Token), stack.length < demand.limit →
    (stack = [] → ∀ member ∈ members, demand.wanted member.1 = true) →
    run demand ⟨.object acc last :: stack, .next, none⟩
        ((memberTokens members).flatMap (Token.comma :: ·) ++ .closeBrace :: rest) =
      if stack.length + 1 + membersNesting members ≤ demand.limit then
        run demand (deliver (some (.object (acc.reverse ++ members))) stack) rest
      else none
  | [], acc, last, stack, rest, hlt, _ => by
    rw [if_pos (by rw [membersNesting]; omega), List.append_nil]
    rfl
  | (name, value) :: members, acc, last, stack, rest, hlt, hwanted => by
    have hfirst : stack = [] → demand.wanted name = true :=
      fun h => hwanted h _ List.mem_cons_self
    have hcomma : ∀ rest, run demand ⟨.object acc last :: stack, .next, none⟩
        (.comma :: .string (some name) :: .colon :: rest) =
        run demand ⟨.object acc name :: stack, .value, none⟩ rest :=
      fun _ => rfl
    rw [memberTokens, List.flatMap_cons, List.append_assoc, List.cons_append, List.cons_append,
      List.cons_append, hcomma,
      run_tokens value (.object acc name :: stack) _ hlt (passing_object acc hfirst) (by simp)]
    have hmore := run_moreMembers members ((name, value) :: acc) name stack rest hlt
      fun h member hm => hwanted h member (List.mem_cons_of_mem _ hm)
    rw [List.reverse_cons, List.append_assoc, List.singleton_append] at hmore
    exact (congrArg (ite _ · none) hmore).trans
      (ite_ite_none (by rw [membersNesting, List.length_cons]; omega))

end

end Builder

/-- **A value that was written is read back exactly if it does not nest too deep.** -/
theorem parse?_pretty {demand : Demand} {v : Value} (hexact : v.IsExact)
    (hwanted : v.Wanted demand) :
    parse? demand v.pretty.toUTF8.toList = if v.nesting ≤ demand.limit then some v else none := by
  have hrun : Builder.run demand ⟨[], .value, none⟩ (v.tokens ++ []) = _ :=
    Builder.run_tokens v [] [] (Nat.zero_le _) rfl fun _ => hwanted
  rw [List.append_nil, List.length_nil, Nat.zero_add] at hrun
  unfold parse?
  rw [Value.tokens?_pretty hexact, Option.bind_some]
  by_cases hdeep : v.nesting ≤ demand.limit
  · rw [if_pos hdeep] at hrun ⊢
    rw [hrun]
    rfl
  · rw [if_neg hdeep] at hrun ⊢
    rw [hrun]

/-! ## The nesting of what is read -/

namespace Builder

open Value (itemsNesting membersNesting)

variable {demand : Demand}

/-- What is kept of the open containers nests no deeper than the limit allows at their depth. -/
def Shallow (limit : Nat) : List Frame → Prop
  | [] => True
  | .array items :: stack => stack.length + 1 + itemsNesting items ≤ limit ∧ Shallow limit stack
  | .object members _ :: stack =>
    stack.length + 1 + membersNesting members ≤ limit ∧ Shallow limit stack
  | .passed _ :: stack => Shallow limit stack

/-- A builder all of whose parts nest no deeper than the limit. -/
structure Bounded (limit : Nat) (builder : Builder) : Prop where
  stack : Shallow limit builder.stack
  result : ∀ v, builder.result = some v → v.nesting ≤ limit

theorem length_le_of_not_passing {stack : List Frame} (h : Shallow demand.limit stack)
    (hpass : passing demand stack = false) : stack.length ≤ demand.limit := by
  cases stack with
  | nil => exact Nat.zero_le _
  | cons frame stack =>
    cases frame with
    | array items => have := h.1; rw [List.length_cons]; omega
    | object members name => have := h.1; rw [List.length_cons]; omega
    -- nothing is kept of a container that is passed over, so it may be as deep as it is
    | passed braces => cases hpass

theorem bounded_deliver {limit : Nat} {stack : List Frame} {value : Option Value}
    (h : Shallow limit stack) (hvalue : ∀ v, value = some v → stack.length + v.nesting ≤ limit) :
    Bounded limit (deliver value stack) := by
  cases stack with
  | nil => exact ⟨trivial, fun v hv => by simpa using hvalue v hv⟩
  | cons frame stack =>
    refine ⟨?_, fun v hv => by cases frame <;> cases hv⟩
    cases frame with
    | passed braces => exact h
    | array items =>
      refine ⟨?_, h.2⟩
      cases value with
      | none => exact h.1
      | some v =>
        have hv := hvalue v rfl
        have hitems := h.1
        simp only [Option.toList_some, List.singleton_append, itemsNesting, List.length_cons] at hv ⊢
        omega
    | object members name =>
      refine ⟨?_, h.2⟩
      cases value with
      | none => exact h.1
      | some v =>
        have hv := hvalue v rfl
        have hmembers := h.1
        simp only [Option.toList_some, List.map_cons, List.map_nil, List.singleton_append,
          membersNesting, List.length_cons] at hv ⊢
        omega

theorem bounded_leaf {stack : List Frame} {value : Option Value} {builder : Builder}
    (h : Shallow demand.limit stack) (hvalue : ∀ v, value = some v → v.nesting = 0)
    (hleaf : leaf demand stack value = some builder) : Bounded demand.limit builder := by
  unfold leaf at hleaf
  split at hleaf
  · cases hleaf
    exact bounded_deliver h (by simp)
  · rename_i hpass
    rw [Bool.not_eq_true] at hpass
    obtain ⟨v, rfl, rfl⟩ := Option.map_eq_some_iff.mp hleaf
    refine bounded_deliver h fun w hw => ?_
    cases hw
    rw [hvalue v rfl]
    exact length_le_of_not_passing h hpass

theorem bounded_opened {stack : List Frame} {braces : Bool} {builder : Builder}
    (h : Shallow demand.limit stack) (hopened : opened demand stack braces = some builder) :
    Bounded demand.limit builder := by
  unfold opened at hopened
  simp only at hopened
  split at hopened
  · cases hopened
    exact ⟨h, by simp⟩
  · split at hopened
    · rename_i hlt
      cases hopened
      refine ⟨?_, by simp⟩
      cases braces <;> exact ⟨hlt, h⟩
    · cases hopened

theorem bounded_takeValue {stack : List Frame} {token : Token} {builder : Builder}
    (h : Shallow demand.limit stack) (htake : takeValue demand stack token = some builder) :
    Bounded demand.limit builder := by
  cases token with
  | openBracket | openBrace => exact bounded_opened h htake
  | null | bool b => exact bounded_leaf h (by simp [Value.nesting]) htake
  | number n => exact bounded_leaf h (by cases n <;> simp [Value.nesting]) htake
  | string s => exact bounded_leaf h (by cases s <;> simp [Value.nesting]) htake
  | closeBrace | closeBracket | comma | colon => cases htake

theorem bounded_closed {limit : Nat} {stack : List Frame} {braces : Bool} {builder : Builder}
    (h : Shallow limit stack) (hclosed : closed braces stack = some builder) :
    Bounded limit builder := by
  cases stack with
  | nil => cases hclosed
  | cons frame stack =>
    cases frame with
    | array items =>
      have hitems := h.1
      have hreverse := Value.itemsNesting_reverse_le items
      cases braces
      · cases hclosed
        refine bounded_deliver h.2 fun v hv => ?_
        cases hv
        rw [Value.nesting]
        omega
      · cases hclosed
    | object members name =>
      have hmembers := h.1
      have hreverse := Value.membersNesting_reverse_le members
      cases braces
      · cases hclosed
      · cases hclosed
        refine bounded_deliver h.2 fun v hv => ?_
        cases hv
        rw [Value.nesting]
        omega
    | passed inner =>
      simp only [closed, Option.ite_none_right_eq_some, Option.some.injEq] at hclosed
      obtain ⟨_, rfl⟩ := hclosed
      exact bounded_deliver h (by simp)

theorem bounded_takeName {limit : Nat} {stack : List Frame} {token : Token} {builder : Builder}
    (h : Shallow limit stack) (htake : takeName stack token = some builder) :
    Bounded limit builder := by
  unfold takeName at htake
  split at htake
  · cases htake
    exact ⟨h, by simp⟩
  · cases htake
    exact ⟨h, by simp⟩
  · cases htake

theorem bounded_takeComma {limit : Nat} {stack : List Frame} {builder : Builder}
    (h : Shallow limit stack) (htake : takeComma stack = some builder) :
    Bounded limit builder := by
  unfold takeComma at htake
  split at htake
  all_goals cases htake
  all_goals exact ⟨h, by simp⟩

/-- **One token keeps the bound.** -/
theorem bounded_step {builder next : Builder} {token : Token} (h : Bounded demand.limit builder)
    (hstep : builder.step demand token = some next) : Bounded demand.limit next := by
  -- one case for each place where a token may come
  unfold step at hstep
  split at hstep
  · exact bounded_closed h.stack hstep
  · exact bounded_closed h.stack hstep
  · exact bounded_closed h.stack hstep
  · exact bounded_closed h.stack hstep
  · exact bounded_takeValue h.stack hstep
  · exact bounded_takeValue h.stack hstep
  · exact bounded_takeName h.stack hstep
  · exact bounded_takeName h.stack hstep
  · cases hstep
    exact ⟨h.stack, by simp⟩
  · exact bounded_takeComma h.stack hstep
  · cases hstep

/-- **So do any tokens.** -/
theorem bounded_run {tokens : List Token} {builder last : Builder}
    (h : Bounded demand.limit builder) (hrun : run demand builder tokens = some last) :
    Bounded demand.limit last := by
  induction tokens generalizing builder with
  | nil =>
    cases hrun
    exact h
  | cons token tokens ih =>
    rw [run_cons] at hrun
    obtain ⟨next, hnext, hrun⟩ := Option.bind_eq_some_iff.mp hrun
    exact ih (bounded_step h hnext) hrun

end Builder

/-- **A value that is read nests no deeper than was asked.** -/
theorem nesting_le_of_parse? {demand : Demand} {bytes : List UInt8} {v : Value}
    (h : parse? demand bytes = some v) : v.nesting ≤ demand.limit := by
  unfold parse? at h
  split at h
  · rename_i builder hbuilder
    obtain ⟨tokens, _, hrun⟩ := Option.bind_eq_some_iff.mp hbuilder
    have hstart : Builder.Bounded demand.limit {} := ⟨trivial, by simp⟩
    have hbounded := Builder.bounded_run hstart hrun
    split at h
    · exact hbounded.result v h
    · cases h
  · cases h

end ProofSheet.Json
