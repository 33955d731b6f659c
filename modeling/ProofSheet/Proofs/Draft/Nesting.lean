import ProofSheet.Proofs.Draft.Decoding

/-!
# How deep a draft nests

A draft can be read from values of several shapes. None of them is shallower than the value the
draft is written as.

* `Draft.Reading.Within`: what a value says, as a formula and as a list of formulas, is written no
  deeper than a bound.
* `Draft.within_reading`: **what a value says is written no deeper than the value.**
* `Draft.document?_bounded`: **a draft that was read is written no deeper than what it was read
  from**, and its labels fit 64 bits.
-/

namespace ProofSheet.Draft

open Json (Value)
open Json.Value (itemsNesting membersNesting itemsNesting_le membersNesting_le)

/-! ## Formulas -/

section Equations

variable (a b : Formula) (fs : List Formula) (bindings : List Binding) (name : String) (flag : Bool)

theorem nesting_letter : (Formula.letter name).toValue.nesting = 1 := rfl

theorem nesting_predicate :
    (Formula.predicate name fs).toValue.nesting = itemsNesting (Formula.toValues fs) + 2 := by
  simp [Formula.toValue, Formula.tagged, Value.nesting, membersNesting]

theorem nesting_junction :
    (Formula.junction flag fs).toValue.nesting = itemsNesting (Formula.toValues fs) + 2 := by
  simp [Formula.toValue, Formula.tagged, Value.nesting, membersNesting]

theorem nesting_conditional :
    (Formula.conditional a b).toValue.nesting = max a.toValue.nesting b.toValue.nesting + 1 := by
  simp [Formula.toValue, Formula.tagged, Value.nesting, membersNesting]

theorem nesting_biconditional :
    (Formula.biconditional a b).toValue.nesting = max a.toValue.nesting b.toValue.nesting + 1 := by
  simp [Formula.toValue, Formula.tagged, Value.nesting, membersNesting]

theorem nesting_negation : (Formula.negation a).toValue.nesting = a.toValue.nesting + 1 := by
  simp [Formula.toValue, Formula.tagged, Value.nesting, membersNesting]

theorem nesting_quantified : (Formula.quantified bindings a).toValue.nesting =
    max (itemsNesting (bindings.map Binding.toValue) + 1) a.toValue.nesting + 1 := by
  simp [Formula.toValue, Formula.tagged, Value.nesting, membersNesting]

theorem nesting_identity :
    (Formula.identity a b flag).toValue.nesting = max a.toValue.nesting b.toValue.nesting + 1 := by
  simp [Formula.toValue, Formula.tagged, Value.nesting, membersNesting]

end Equations

/-- Items that are read one by one are written no deeper than they were. -/
theorem itemsNesting_map_le {α : Type} {read : Value → Option α} (write : α → Value)
    {items : List Value} {found : List α} (hread : items.mapM read = some found)
    (h : ∀ item ∈ items, ∀ a, read item = some a → (write a).nesting ≤ item.nesting) :
    itemsNesting (found.map write) ≤ itemsNesting items := by
  induction items generalizing found with
  | nil =>
    cases hread
    exact Nat.le_refl _
  | cons item items ih =>
    simp only [List.mapM_cons, Option.bind_eq_bind, Option.bind_eq_some_iff, Option.pure_def,
      Option.some.injEq] at hread
    obtain ⟨first, hfirst, others, hothers, rfl⟩ := hread
    have hitem := h item List.mem_cons_self first hfirst
    have hitems := ih hothers fun other hother => h other (List.mem_cons_of_mem _ hother)
    rw [List.map_cons, itemsNesting, itemsNesting]
    omega

theorem nesting_pos_of_ofValue? {v : Value} {fields : Fields Value}
    (h : Fields.ofValue? v = some fields) : 0 < v.nesting := by
  cases v with
  | array items => exact Nat.succ_pos _
  | object members => exact Nat.succ_pos _
  | _ => cases h

theorem nesting_of_items? {v : Value} {items : List Value} (h : v.items? = some items) :
    v.nesting = itemsNesting items + 1 := by
  cases v with
  | array items' =>
    cases h
    rfl
  | _ => cases h

/-- The fields of a record nest less deep than the record. -/
theorem nesting_lt_of_ofValue? {v : Value} {fields : Fields Value}
    (h : Fields.ofValue? v = some fields) : ∀ w ∈ fields.all, w.nesting < v.nesting := by
  intro w hw
  cases v with
  | array items =>
    cases h
    exact Nat.lt_succ_of_le (itemsNesting_le.mp (Nat.le_refl _) w hw)
  | object members =>
    cases h
    obtain ⟨member, hmember, rfl⟩ := List.mem_map.mp hw
    exact Nat.lt_succ_of_le (membersNesting_le.mp (Nat.le_refl _) member hmember)
  | _ => cases h

theorem nesting_binding_le {v : Value} {binding : Binding} (h : binding? v = some binding) :
    binding.toValue.nesting ≤ v.nesting := by
  obtain ⟨fields, hfields, _⟩ := Option.bind_eq_some_iff.mp h
  exact nesting_pos_of_ofValue? hfields

/-- What a reading says is written no deeper than a bound. -/
structure Reading.Within (n : Nat) (reading : Reading) : Prop where
  value : reading.value.nesting ≤ n
  formula : ∀ f, reading.formula = some f → f.toValue.nesting ≤ n
  formulas : ∀ fs, reading.formulas = some fs → itemsNesting (Formula.toValues fs) + 1 ≤ n

theorem Reading.Within.mono {m n : Nat} {reading : Reading} (h : reading.Within m) (hmn : m ≤ n) :
    reading.Within n where
  value := h.value.trans hmn
  formula f hf := (h.formula f hf).trans hmn
  formulas fs hfs := (h.formulas fs hfs).trans hmn

/-- A record says a formula that is at most one level deeper than its fields. -/
theorem nesting_formulaOf?_le (fields : Fields Reading) {n : Nat} {f : Formula}
    (h : ∀ field ∈ fields.all, field.Within n) (hf : formulaOf? fields = some f) :
    f.toValue.nesting ≤ n + 1 := by
  obtain ⟨tag, rest, word, htag, _, hspells⟩ := formulaOf?_eq_some.mp hf
  -- what is found under a name is among the fields of the record
  have hfield : ∀ {names values}, rest.get? names = some values →
      ∀ field, some field ∈ values → field.Within n :=
    fun hvalues field hmem =>
      h field (Fields.all_tagged? htag field (Fields.mem_of_get? hvalues field hmem))
  cases f with
  | letter symbol => exact Nat.succ_le_succ (Nat.zero_le n)
  | predicate name args =>
    obtain ⟨_, _, args', hvalues, _, hargs⟩ := hspells
    have := (hfield hvalues args' (by simp)).formulas args hargs
    rw [nesting_predicate]
    omega
  | junction conjunction juncts =>
    obtain ⟨_, _, juncts', hvalues, _, hjuncts⟩ := hspells
    have := (hfield hvalues juncts' (by simp)).formulas juncts hjuncts
    rw [nesting_junction]
    omega
  | conditional antecedent consequent =>
    obtain ⟨_, left', right', hvalues, hleft, hright⟩ := hspells
    have hl := (hfield hvalues left' (by simp)).formula _ hleft
    have hr := (hfield hvalues right' (by simp)).formula _ hright
    rw [nesting_conditional]
    omega
  | biconditional left right =>
    obtain ⟨_, left', right', hvalues, hleft, hright⟩ := hspells
    have hl := (hfield hvalues left' (by simp)).formula _ hleft
    have hr := (hfield hvalues right' (by simp)).formula _ hright
    rw [nesting_biconditional]
    omega
  | negation inner =>
    obtain ⟨_, inner', hvalues, hinner⟩ := hspells
    have := (hfield hvalues inner' (by simp)).formula inner hinner
    rw [nesting_negation]
    omega
  | quantified bindings body =>
    obtain ⟨_, bindings', body', items, hvalues, hitems, hbindings, hbody⟩ := hspells
    have hb := (hfield hvalues body' (by simp)).formula body hbody
    have hvalue := (hfield hvalues bindings' (by simp)).value
    rw [nesting_of_items? hitems] at hvalue
    have hmap := itemsNesting_map_le Binding.toValue hbindings
      fun _ _ _ => nesting_binding_le
    rw [nesting_quantified]
    omega
  | identity left right equal =>
    obtain ⟨_, left', right', _, hvalues, hleft, hright, _⟩ := hspells
    have hl := (hfield hvalues left' (by simp)).formula _ hleft
    have hr := (hfield hvalues right' (by simp)).formula _ hright
    rw [nesting_identity]
    omega

theorem nesting_formulas_le {readings : List Reading} {n : Nat} {fs : List Formula}
    (h : ∀ reading ∈ readings, reading.Within n) (hfs : readings.mapM Reading.formula = some fs) :
    itemsNesting (Formula.toValues fs) ≤ n := by
  induction readings generalizing fs with
  | nil =>
    cases hfs
    exact Nat.zero_le n
  | cons reading readings ih =>
    simp only [List.mapM_cons, Option.bind_eq_bind, Option.bind_eq_some_iff, Option.pure_def,
      Option.some.injEq] at hfs
    obtain ⟨first, hfirst, others, hothers, rfl⟩ := hfs
    rw [List.forall_mem_cons] at h
    exact Nat.max_le.mpr ⟨h.1.formula first hfirst, ih h.2 hothers⟩

mutual

/-- **What a value says is written no deeper than the value.** -/
theorem within_reading : ∀ v : Value, (reading v).Within v.nesting
  | .null | .bool _ | .number _ | .string _ => ⟨Nat.le_refl _, by simp [reading], by simp [reading]⟩
  | .array items => by
    have hitems := within_readItems items
    exact ⟨Nat.le_refl _, fun f hf => nesting_formulaOf?_le (.inOrder _) hitems hf,
      fun fs hfs => Nat.succ_le_succ (nesting_formulas_le hitems hfs)⟩
  | .object members => by
    have hmembers := within_readMembers members
    refine ⟨Nat.le_refl _, fun f hf => nesting_formulaOf?_le (.named _) ?_ hf,
      by simp [reading]⟩
    intro field hfield
    obtain ⟨member, hmember, rfl⟩ := List.mem_map.mp hfield
    exact hmembers member hmember

theorem within_readItems : ∀ items : List Value,
    ∀ item ∈ readItems items, item.Within (itemsNesting items)
  | [], _, h => by cases h
  | item :: items, _, h => by
    rcases List.mem_cons.mp h with rfl | h
    · exact (within_reading item).mono (Nat.le_max_left _ _)
    · exact (within_readItems items _ h).mono (Nat.le_max_right _ _)

theorem within_readMembers : ∀ members : List (String × Value),
    ∀ member ∈ readMembers members, member.2.Within (membersNesting members)
  | [], _, h => by cases h
  | (name, value) :: members, _, h => by
    rcases List.mem_cons.mp h with rfl | h
    · exact (within_reading value).mono (Nat.le_max_left _ _)
    · exact (within_readMembers members _ h).mono (Nat.le_max_right _ _)

end

/-! ## Rules, lines and documents -/

theorem forall_of_mapM {α : Type} {read : Value → Option α} {items : List Value} {found : List α}
    {P : α → Prop} (hread : items.mapM read = some found) (h : ∀ item a, read item = some a → P a) :
    ∀ a ∈ found, P a := by
  induction items generalizing found with
  | nil =>
    cases hread
    simp
  | cons item items ih =>
    simp only [List.mapM_cons, Option.bind_eq_bind, Option.bind_eq_some_iff, Option.pure_def,
      Option.some.injEq] at hread
    obtain ⟨first, hfirst, others, hothers, rfl⟩ := hread
    exact List.forall_mem_cons.mpr ⟨h item first hfirst, ih hothers⟩

theorem lt_bound_of_word? {v : Value} {n : Nat} (h : v.word? = some n) : n < Word.bound := by
  unfold Value.word? at h
  split at h
  · split at h
    · cases h
      assumption
    · cases h
  · cases h

theorem labels?_bounded {v : Value} {labels : List Label} (h : labels? v = some labels) :
    0 < v.nesting ∧ ∀ label ∈ labels, label < Word.bound := by
  obtain ⟨items, hitems, hlabels⟩ := Option.bind_eq_some_iff.mp h
  refine ⟨by rw [nesting_of_items? hitems]; exact Nat.succ_pos _, ?_⟩
  exact forall_of_mapM hlabels fun _ _ => lt_bound_of_word?

/-- An optional field that is there was read from a value. -/
theorem exists_of_optional? {α : Type} {read : Value → Option α} {field : Option Value} {a : α}
    (h : optional? read field = some (some a)) : ∃ v, field = some v ∧ read v = some a := by
  unfold optional? at h
  split at h
  · cases h
  · cases h
  · rename_i v _
    obtain ⟨b, hb, hab⟩ := Option.map_eq_some_iff.mp h
    cases hab
    exact ⟨v, rfl, hb⟩

theorem itemsNesting_nats (labels : List Label) : itemsNesting (labels.map Value.nat) = 0 := by
  rw [← Nat.le_zero, itemsNesting_le]
  intro item hitem
  obtain ⟨label, _, rfl⟩ := List.mem_map.mp hitem
  exact Nat.le_refl _

theorem membersNesting_present {α : Type} {name : String} {write : α → Value} {field : Option α}
    {n : Nat} (h : ∀ a, field = some a → (write a).nesting ≤ n) :
    ∀ member ∈ present name write field, member.2.nesting ≤ n := by
  cases field with
  | none => simp [present]
  | some a => simpa [present] using h a rfl

/-- A rule is written as an object one level deep, or two if it lists lines. -/
theorem nesting_rule_le {rule : Rule} {n : Nat}
    (h : ∀ labels, rule.lines = some labels → 0 < n) : rule.toValue.nesting ≤ n + 1 := by
  have hline : ∀ member ∈ present "line" Value.nat rule.line, member.2.nesting ≤ n :=
    membersNesting_present fun _ _ => Nat.zero_le n
  have hlines : ∀ member ∈ present "lines" Value.nats rule.lines, member.2.nesting ≤ n := by
    refine membersNesting_present fun labels hlabels => ?_
    rw [Value.nats, Value.nesting, itemsNesting_nats]
    exact h labels hlabels
  have hdischarged : ∀ member ∈ present "discharged" Value.nat rule.discharged,
      member.2.nesting ≤ n :=
    membersNesting_present fun _ _ => Nat.zero_le n
  have hinstantial : ∀ member ∈ present "variable" Value.string rule.instantial,
      member.2.nesting ≤ n :=
    membersNesting_present fun _ _ => Nat.zero_le n
  refine Nat.succ_le_succ (membersNesting_le.mpr ?_)
  simp only [List.cons_append, List.forall_mem_cons, List.forall_mem_append]
  exact ⟨Nat.zero_le n, ⟨⟨hline, hlines⟩, hdischarged⟩, hinstantial⟩

theorem rule?_bounded {v : Value} {rule : Rule} (h : rule? v = some rule) :
    rule.toValue.nesting ≤ v.nesting ∧ rule.InRange := by
  obtain ⟨fields, hfields, h⟩ := Option.bind_eq_some_iff.mp h
  obtain ⟨values, hvalues, h⟩ := Option.bind_eq_some_iff.mp h
  have hpos := nesting_pos_of_ofValue? hfields
  split at h
  case h_2 => cases h
  simp only [Option.bind_eq_bind, Option.bind_eq_some_iff, Option.pure_def, Option.some.injEq] at h
  obtain ⟨name, _, line, hline, lines, hlines, discharged, hdischarged, _, _, rfl⟩ := h
  constructor
  · obtain ⟨n, hn⟩ : ∃ n, v.nesting = n + 1 := ⟨v.nesting - 1, by omega⟩
    rw [hn]
    refine nesting_rule_le fun labels hlabels => ?_
    cases hlabels
    obtain ⟨w, rfl, hw⟩ := exists_of_optional? hlines
    have hlt := nesting_lt_of_ofValue? hfields w (Fields.mem_of_get? hvalues w (by simp))
    have := (labels?_bounded hw).1
    omega
  · refine ⟨fun label hlabel => ?_, fun labels hlabels => ?_, fun label hlabel => ?_⟩
    · cases hlabel
      obtain ⟨w, _, hw⟩ := exists_of_optional? hline
      exact lt_bound_of_word? hw
    · cases hlabels
      obtain ⟨w, _, hw⟩ := exists_of_optional? hlines
      exact (labels?_bounded hw).2
    · cases hlabel
      obtain ⟨w, _, hw⟩ := exists_of_optional? hdischarged
      exact lt_bound_of_word? hw

/-- The value of a logic line nests one level deeper than its formula and its rule. -/
theorem nesting_logic (label : Label) (deps : List Label) (formula : Formula) (rule : Rule) :
    (Line.logic label deps formula rule).toValue.nesting =
      max formula.toValue.nesting rule.toValue.nesting + 1 := by
  have hrule : 0 < rule.toValue.nesting := Nat.succ_pos _
  simp only [Line.toValue, Value.nesting, membersNesting, Value.nat, Value.nats, itemsNesting_nats]
  omega

theorem line?_bounded {v : Value} {line : Line} (h : line? v = some line) :
    line.toValue.nesting ≤ v.nesting ∧ line.InRange := by
  obtain ⟨fields, hfields, h⟩ := Option.bind_eq_some_iff.mp h
  obtain ⟨⟨tag, rest⟩, htag, h⟩ := Option.bind_eq_some_iff.mp h
  obtain ⟨word, _, h⟩ := Option.bind_eq_some_iff.mp h
  split at h
  case h_3 => cases h
  all_goals
    obtain ⟨values, hvalues, h⟩ := Option.bind_eq_some_iff.mp h
    split at h
    case h_2 => cases h
  · simp only [Option.bind_eq_bind, Option.bind_eq_some_iff, Option.pure_def,
      Option.some.injEq] at h
    obtain ⟨content, _, rfl⟩ := h
    exact ⟨nesting_pos_of_ofValue? hfields, trivial⟩
  · rename_i label deps formula rule
    have hfield : ∀ field, some field ∈ [some label, deps, some formula, some rule] →
        field.nesting < v.nesting := fun field hmem =>
      nesting_lt_of_ofValue? hfields field
        (Fields.all_tagged? htag field (Fields.mem_of_get? hvalues field hmem))
    have hformula := hfield formula (by simp)
    have hrule := hfield rule (by simp)
    split at h
    all_goals
      simp only [Option.bind_eq_bind, Option.bind_eq_some_iff, Option.pure_def,
        Option.some.injEq] at h
      obtain ⟨ds, hds, l, hl, f, hf, r, hr, rfl⟩ := h
      have hwithin := (within_reading formula).formula f hf
      obtain ⟨hnesting, hrange⟩ := rule?_bounded hr
      rw [nesting_logic]
      refine ⟨by omega, lt_bound_of_word? hl, ?_, hrange⟩
    · cases hds
      simp
    · exact (labels?_bounded hds).2

/-- **A draft that was read is written no deeper than what it was read from**, and its labels fit
64 bits. -/
theorem document?_bounded {v : Value} {draft : Document} (h : document? v = some draft) :
    draft.toValue.nesting ≤ v.nesting ∧ draft.InRange := by
  obtain ⟨fields, hfields, h⟩ := Option.bind_eq_some_iff.mp h
  obtain ⟨values, hvalues, h⟩ := Option.bind_eq_some_iff.mp h
  split at h
  case h_2 => cases h
  rename_i lines
  simp only [Option.bind_eq_bind, Option.bind_eq_some_iff, Option.pure_def, Option.some.injEq] at h
  obtain ⟨items, hitems, found, hfound, rfl⟩ := h
  have hlt := nesting_lt_of_ofValue? hfields lines (Fields.mem_of_get? hvalues lines (by simp))
  rw [nesting_of_items? hitems] at hlt
  have hmap := itemsNesting_map_le Line.toValue hfound
    fun _ _ _ hline => (line?_bounded hline).1
  constructor
  · simp only [Document.toValue, Value.nesting, membersNesting]
    omega
  · exact forall_of_mapM hfound fun _ _ hline => (line?_bounded hline).2

end ProofSheet.Draft
