import Mathlib.Data.List.Basic
import ProofSheet.Draft.Decode
import ProofSheet.Draft.Encode
import ProofSheet.Proofs.Json.Building

/-!
# Drafts as JSON values and back

What is written of a draft is read back as the same draft.

* `Fields.Spells`: what the fields of a record are when it says a formula.
* `Draft.document?_toValue`: **a draft is read back from its value** when its labels fit 64 bits.
* `Draft.isExact_document`: the numbers of a written draft are its labels.
-/

namespace ProofSheet.Draft

open Json (Value)

/-! ## Fields -/

section Fields

variable {α : Type}

theorem field?_of_notMem {name : String} {members : List (String × α)}
    (h : name ∉ members.map Prod.fst) : field? name members = some none := by
  have hnone : members.filter (fun member => member.1 == name) = [] := by
    rw [List.filter_eq_nil_iff]
    intro member hmember hname
    exact h (List.mem_map.mpr ⟨member, hmember, by simpa using hname⟩)
  simp [field?, hnone]

theorem field?_cons_self {name : String} {value : α} {members : List (String × α)}
    (h : field? name members = some none) :
    field? name ((name, value) :: members) = some (some value) := by
  unfold field? at h
  split at h
  · rename_i hnone
    simp [field?, hnone]
  · cases h
  · cases h

theorem field?_cons_of_ne {name other : String} {value : α} {members : List (String × α)}
    (h : other ≠ name) : field? name ((other, value) :: members) = field? name members := by
  simp [field?, h]

theorem fields?_cons_of_notMem {other : String} {value : α} {members : List (String × α)}
    {names : List String} (h : other ∉ names) :
    fields? ((other, value) :: members) names = fields? members names := by
  induction names with
  | nil => rfl
  | cons name names ih =>
    rw [List.mem_cons, not_or] at h
    rw [fields?, fields?, field?_cons_of_ne h.1, ih h.2]

/-- **The fields of an object whose names differ are found under their names.** -/
theorem fields?_self (members : List (String × α)) (h : (members.map Prod.fst).Nodup) :
    fields? members (members.map Prod.fst) = some (members.map fun member => some member.2) := by
  induction members with
  | nil => rfl
  | cons member members ih =>
    rw [List.map_cons, List.nodup_cons] at h
    rw [List.map_cons, fields?, field?_cons_self (field?_of_notMem h.1),
      fields?_cons_of_notMem h.1, ih h.2]
    rfl

namespace Fields

/-- The values of a record. -/
def all : Fields α → List α
  | .named members => members.map Prod.snd
  | .inOrder items => items

theorem tagged?_named {tag : α} {members : List (String × α)}
    (h : "type" ∉ members.map Prod.fst) :
    (Fields.named (("type", tag) :: members)).tagged? = some (tag, .named members) := by
  have hkept : members.filter (fun member => member.1 != "type") = members := by
    rw [List.filter_eq_self]
    intro member hmember
    rw [bne_iff_ne]
    exact fun hname => h (List.mem_map.mpr ⟨member, hmember, hname⟩)
  simp [tagged?, field?_cons_self (field?_of_notMem h), hkept]

theorem all_tagged? {fields rest : Fields α} {tag : α} (h : fields.tagged? = some (tag, rest)) :
    ∀ value ∈ rest.all, value ∈ fields.all := by
  intro value hvalue
  cases fields with
  | named members =>
    simp only [tagged?, Option.bind_eq_bind, Option.bind_eq_some_iff, Option.pure_def,
      Option.some.injEq, Prod.mk.injEq] at h
    obtain ⟨_, _, _, _, _, rfl⟩ := h
    simp only [all, List.mem_map, List.mem_filter] at hvalue ⊢
    obtain ⟨member, ⟨hmember, _⟩, rfl⟩ := hvalue
    exact ⟨member, hmember, rfl⟩
  | inOrder items =>
    cases items with
    | nil => simp [tagged?] at h
    | cons first items =>
      simp only [tagged?, Option.some.injEq, Prod.mk.injEq] at h
      obtain ⟨rfl, rfl⟩ := h
      exact List.mem_cons_of_mem _ hvalue

theorem mem_of_field? {name : String} {members : List (String × α)} {value : α}
    (h : field? name members = some (some value)) : value ∈ members.map Prod.snd := by
  unfold field? at h
  split at h
  · cases h
  · rename_i member hfilter
    simp only [Option.some.injEq] at h
    have hmember : member ∈ members.filter fun member => member.1 == name := by simp [hfilter]
    exact List.mem_map.mpr ⟨member, (List.mem_filter.mp hmember).1, h⟩
  · cases h

theorem mem_of_get? {fields : Fields α} {names : List String} {values : List (Option α)}
    (h : fields.get? names = some values) : ∀ value, some value ∈ values → value ∈ fields.all := by
  intro value hvalue
  cases fields with
  | named members =>
    induction names generalizing values with
    | nil =>
      simp only [get?, fields?, Option.some.injEq] at h
      simp [← h] at hvalue
    | cons name names ih =>
      simp only [get?, fields?, Option.bind_eq_bind, Option.bind_eq_some_iff, Option.pure_def,
        Option.some.injEq] at h
      obtain ⟨first, hfirst, others, hothers, rfl⟩ := h
      rcases List.mem_cons.mp hvalue with rfl | hvalue
      · exact mem_of_field? hfirst
      · exact ih hvalue hothers
  | inOrder items =>
    simp only [get?, ordered?, Option.ite_none_right_eq_some, Option.some.injEq] at h
    obtain ⟨_, rfl⟩ := h
    simpa [all, List.mem_replicate] using hvalue

end Fields

end Fields

theorem mapM_map_eq_some {α β : Type} {write : α → β} {read : β → Option α} {xs : List α}
    (h : ∀ x ∈ xs, read (write x) = some x) : (xs.map write).mapM read = some xs := by
  induction xs with
  | nil => rfl
  | cons x xs ih =>
    rw [List.map_cons, List.mapM_cons, h x List.mem_cons_self,
      ih fun y hy => h y (List.mem_cons_of_mem x hy)]
    rfl

/-! ## Formulas -/

theorem binding?_toValue (binding : Binding) : binding? binding.toValue = some binding := by
  simp [binding?, Binding.toValue, Fields.ofValue?, Fields.get?, fields?, field?, Value.string?]

/-- **What the fields of a record are when it says a formula**, the tag apart. -/
def Fields.Spells (tag : String) (fields : Fields Reading) : Formula → Prop
  | .letter symbol => tag = "sentence_letter" ∧ ∃ letter, fields.get? ["letter"] = some [some letter] ∧
      letter.value.string? = some symbol
  | .predicate name args => tag = "predicate" ∧ ∃ name' args',
      fields.get? ["name", "args"] = some [some name', some args'] ∧
      name'.value.string? = some name ∧ args'.formulas = some args
  | .junction conjunction juncts => tag = "junction" ∧ ∃ conjunction' juncts',
      fields.get? ["conjunction", "juncts"] = some [some conjunction', some juncts'] ∧
      conjunction'.value.bool? = some conjunction ∧ juncts'.formulas = some juncts
  | .conditional antecedent consequent => tag = "conditional" ∧ ∃ antecedent' consequent',
      fields.get? ["antecedent", "consequent"] = some [some antecedent', some consequent'] ∧
      antecedent'.formula = some antecedent ∧ consequent'.formula = some consequent
  | .biconditional left right => tag = "biconditional" ∧ ∃ left' right',
      fields.get? ["lhs", "rhs"] = some [some left', some right'] ∧
      left'.formula = some left ∧ right'.formula = some right
  | .negation inner => tag = "negation" ∧ ∃ inner', fields.get? ["inner"] = some [some inner'] ∧
      inner'.formula = some inner
  | .quantified bindings body => tag = "quantifier" ∧ ∃ bindings' body' items,
      fields.get? ["bindings", "body"] = some [some bindings', some body'] ∧
      bindings'.value.items? = some items ∧ items.mapM binding? = some bindings ∧
      body'.formula = some body
  | .identity left right equal => tag = "identity" ∧ ∃ left' right' equal',
      fields.get? ["lhs", "rhs", "equal"] = some [some left', some right', equal'] ∧
      left'.formula = some left ∧ right'.formula = some right ∧
      (match equal' with | none => some true | some equal' => equal'.value.bool?) = some equal

theorem formulaOf?_eq_some {fields : Fields Reading} {f : Formula} :
    formulaOf? fields = some f ↔ ∃ tag rest word, fields.tagged? = some (tag, rest) ∧
      formulaTag? tag.value = some word ∧ rest.Spells word f := by
  constructor
  · intro h
    unfold formulaOf? at h
    obtain ⟨⟨tag, rest⟩, htag, h⟩ := Option.bind_eq_some_iff.mp h
    obtain ⟨word, hword, h⟩ := Option.bind_eq_some_iff.mp h
    refine ⟨tag, rest, word, htag, hword, ?_⟩
    -- one case for each tag, and under each the fields are as many as they should be
    split at h
    case h_9 => cases h
    all_goals
      obtain ⟨values, hvalues, h⟩ := Option.bind_eq_some_iff.mp h
      split at h
      case h_2 => cases h
      simp only [Option.bind_eq_bind, Option.bind_eq_some_iff, Option.pure_def,
        Option.some.injEq] at h
    · obtain ⟨symbol, hsymbol, rfl⟩ := h
      exact ⟨rfl, _, hvalues, hsymbol⟩
    · obtain ⟨name, hname, args, hargs, rfl⟩ := h
      exact ⟨rfl, _, _, hvalues, hname, hargs⟩
    · obtain ⟨conjunction, hconjunction, juncts, hjuncts, rfl⟩ := h
      exact ⟨rfl, _, _, hvalues, hconjunction, hjuncts⟩
    · obtain ⟨antecedent, hantecedent, consequent, hconsequent, rfl⟩ := h
      exact ⟨rfl, _, _, hvalues, hantecedent, hconsequent⟩
    · obtain ⟨left, hleft, right, hright, rfl⟩ := h
      exact ⟨rfl, _, _, hvalues, hleft, hright⟩
    · obtain ⟨inner, hinner, rfl⟩ := h
      exact ⟨rfl, _, hvalues, hinner⟩
    · obtain ⟨items, hitems, bindings, hbindings, body, hbody, rfl⟩ := h
      exact ⟨rfl, _, _, items, hvalues, hitems, hbindings, hbody⟩
    · split at h
      all_goals
        simp only [Option.bind_eq_some_iff, Option.some.injEq] at h
        obtain ⟨equal, hequal, left, hleft, right, hright, rfl⟩ := h
        exact ⟨rfl, _, _, _, hvalues, hleft, hright, by simpa using hequal⟩
  · rintro ⟨tag, rest, word, htag, hword, h⟩
    unfold formulaOf?
    rw [htag]
    simp only [Option.bind_eq_bind, Option.bind_some]
    rw [hword]
    cases f with
    | letter symbol =>
      obtain ⟨rfl, letter, hvalues, hsymbol⟩ := h
      simp only [Option.bind_some, hvalues, hsymbol, Option.pure_def]
    | predicate name args =>
      obtain ⟨rfl, _, _, hvalues, hname, hargs⟩ := h
      simp only [Option.bind_some, hvalues, hname, hargs, Option.pure_def]
    | junction conjunction juncts =>
      obtain ⟨rfl, _, _, hvalues, hconjunction, hjuncts⟩ := h
      simp only [Option.bind_some, hvalues, hconjunction, hjuncts, Option.pure_def]
    | conditional antecedent consequent =>
      obtain ⟨rfl, _, _, hvalues, hantecedent, hconsequent⟩ := h
      simp only [Option.bind_some, hvalues, hantecedent, hconsequent, Option.pure_def]
    | biconditional left right =>
      obtain ⟨rfl, _, _, hvalues, hleft, hright⟩ := h
      simp only [Option.bind_some, hvalues, hleft, hright, Option.pure_def]
    | negation inner =>
      obtain ⟨rfl, _, hvalues, hinner⟩ := h
      simp only [Option.bind_some, hvalues, hinner, Option.pure_def]
    | quantified bindings body =>
      obtain ⟨rfl, _, _, _, hvalues, hitems, hbindings, hbody⟩ := h
      simp only [Option.bind_some, hvalues, hitems, hbindings, hbody, Option.pure_def]
    | identity left right equal =>
      obtain ⟨rfl, _, _, equal', hvalues, hleft, hright, hequal⟩ := h
      simp only [Option.bind_some, hvalues]
      split at hequal
      · cases hequal
        simp only [Option.bind_some, hleft, hright, Option.pure_def]
      · simp only [Option.bind_some, hleft, hright, hequal, Option.pure_def]

/-- The readings of members are found under the names of the members. -/
theorem readMembers_eq (members : List (String × Value)) :
    readMembers members = members.map fun member => (member.1, reading member.2) := by
  induction members with
  | nil => rfl
  | cons member members ih => rw [readMembers, ih, List.map_cons]

/-- A tagged object says a formula exactly if its fields spell it. -/
theorem formula?_tagged {tag : String} {members : List (String × Value)} {f : Formula}
    (hnames : ("type" :: members.map Prod.fst).Nodup)
    (h : ∀ rest : Fields Reading,
      rest.get? (members.map Prod.fst) =
        some (members.map fun member => some (reading member.2)) → rest.Spells tag f) :
    formula? (Formula.tagged tag members) = some f := by
  have hread : (readMembers members).map Prod.fst = members.map Prod.fst := by
    simp [readMembers_eq, Function.comp_def]
  rw [List.nodup_cons] at hnames
  refine formulaOf?_eq_some.mpr ⟨reading (.string tag), .named (readMembers members), tag, ?_, rfl,
    h _ ?_⟩
  · exact Fields.tagged?_named (by rw [hread]; exact hnames.1)
  · have hself := fields?_self _ (hread ▸ hnames.2)
    rw [hread] at hself
    rw [Fields.get?, hself, readMembers_eq, List.map_map]
    rfl

mutual

/-- A formula is read back from its value. -/
theorem formula?_toValue : ∀ f : Formula, formula? f.toValue = some f
  | .letter symbol =>
    formula?_tagged (by simp) fun _ hrest => ⟨rfl, _, hrest, rfl⟩
  | .predicate name args =>
    formula?_tagged (by simp) fun _ hrest => ⟨rfl, _, _, hrest, rfl, formulas_toValues args⟩
  | .junction conjunction juncts =>
    formula?_tagged (by simp) fun _ hrest => ⟨rfl, _, _, hrest, rfl, formulas_toValues juncts⟩
  | .conditional antecedent consequent =>
    formula?_tagged (by simp) fun _ hrest =>
      ⟨rfl, _, _, hrest, formula?_toValue antecedent, formula?_toValue consequent⟩
  | .biconditional left right =>
    formula?_tagged (by simp) fun _ hrest =>
      ⟨rfl, _, _, hrest, formula?_toValue left, formula?_toValue right⟩
  | .negation inner =>
    formula?_tagged (by simp) fun _ hrest => ⟨rfl, _, hrest, formula?_toValue inner⟩
  | .quantified bindings body =>
    formula?_tagged (by simp) fun _ hrest =>
      ⟨rfl, _, _, _, hrest, rfl, mapM_map_eq_some fun binding _ => binding?_toValue binding,
        formula?_toValue body⟩
  | .identity left right equal =>
    formula?_tagged (by simp) fun _ hrest =>
      ⟨rfl, _, _, _, hrest, formula?_toValue left, formula?_toValue right, rfl⟩

theorem formulas_toValues : ∀ fs : List Formula,
    (reading (.array (Formula.toValues fs))).formulas = some fs
  | [] => rfl
  | f :: fs => by
    have hfs := formulas_toValues fs
    have hf : (reading f.toValue).formula = some f := formula?_toValue f
    simp only [reading] at hfs ⊢
    rw [Formula.toValues, readItems, List.mapM_cons, hfs, hf]
    rfl

end

/-! ## Rules, lines and documents -/

/-- Every label of a rule fits 64 bits. -/
structure Rule.InRange (rule : Rule) : Prop where
  line : ∀ label, rule.line = some label → label < Word.bound
  lines : ∀ labels, rule.lines = some labels → ∀ label ∈ labels, label < Word.bound
  discharged : ∀ label, rule.discharged = some label → label < Word.bound

/-- Every label of a line fits 64 bits. -/
def Line.InRange : Line → Prop
  | .text _ => True
  | .logic label deps _ rule =>
    label < Word.bound ∧ (∀ dep ∈ deps, dep < Word.bound) ∧ rule.InRange

/-- Every label of a draft fits 64 bits. -/
def Document.InRange (draft : Document) : Prop :=
  ∀ line ∈ draft.lines, line.InRange

theorem word?_nat {n : Nat} (h : n < Word.bound) : (Value.nat n).word? = some n :=
  if_pos h

theorem labels?_nats {labels : List Label} (h : ∀ label ∈ labels, label < Word.bound) :
    labels? (.nats labels) = some labels :=
  mapM_map_eq_some fun label hlabel => word?_nat (h label hlabel)

theorem optional?_map {α : Type} (write : α → Value) {read : Value → Option α} {field : Option α}
    (h : ∀ a, field = some a → read (write a) = some a) (hnull : ∀ a, write a ≠ .null) :
    optional? read (field.map write) = some field := by
  cases field with
  | none => rfl
  | some a =>
    rw [Option.map_some, optional?, h a rfl]
    · rfl
    · simpa using hnull a

section Present

variable {α : Type} {write : α → Value} {field : Option α} {members : List (String × Value)}

theorem field?_present_self {name : String} (h : field? name members = some none) :
    field? name (present name write field ++ members) = some (field.map write) := by
  cases field with
  | none => exact h
  | some a => exact field?_cons_self h

theorem field?_present_of_ne {name other : String} (h : other ≠ name) :
    field? name (present other write field ++ members) = field? name members := by
  cases field with
  | none => rfl
  | some a => exact field?_cons_of_ne h

end Present

theorem field?_nil {α : Type} (name : String) : field? name ([] : List (String × α)) = some none :=
  rfl

/-- A rule is read back from its value. -/
theorem rule?_toValue {rule : Rule} (h : rule.InRange) : rule? rule.toValue = some rule := by
  have hline := optional?_map Value.nat (fun label hlabel => word?_nat (h.line label hlabel))
    (by simp [Value.nat])
  have hlines := optional?_map Value.nats
    (fun labels hlabels => labels?_nats (h.lines labels hlabels)) (by simp [Value.nats])
  have hdischarged := optional?_map Value.nat
    (fun label hlabel => word?_nat (h.discharged label hlabel)) (by simp [Value.nat])
  have hinstantial : optional? Value.string? (rule.instantial.map Value.string) =
      some rule.instantial :=
    optional?_map Value.string (fun _ _ => rfl) (by simp)
  -- each field is looked for past those that are written before it, present or not
  have hmembers : rule.toValue = .object (("name", .string rule.name) ::
      (present "line" Value.nat rule.line ++ (present "lines" Value.nats rule.lines ++
      (present "discharged" Value.nat rule.discharged ++
      (present "variable" Value.string rule.instantial ++ []))))) := by
    simp [Rule.toValue]
  have hlast : field? "variable" (present "variable" Value.string rule.instantial ++ []) =
      some (rule.instantial.map .string) :=
    field?_present_self (field?_nil _)
  unfold rule?
  rw [hmembers]
  simp only [Fields.ofValue?, Option.bind_eq_bind, Option.bind_some, Fields.get?, fields?,
    Option.pure_def, field?_cons_of_ne, field?_present_of_ne, field?_cons_self,
    field?_present_self, field?_nil, ne_eq, String.reduceEq, not_false_eq_true, hlast, hline,
    hlines, hdischarged, hinstantial, Value.string?]

/-- A line is read back from its value. -/
theorem line?_toValue {line : Line} (h : line.InRange) : line? line.toValue = some line := by
  cases line with
  | text content =>
    simp [line?, Line.toValue, Fields.ofValue?, Fields.tagged?, field?, Fields.get?, fields?,
      Value.string?]
  | logic label deps formula rule =>
    obtain ⟨hlabel, hdeps, hrule⟩ := h
    have htag : (Fields.ofValue? (Line.logic label deps formula rule).toValue).bind Fields.tagged? =
        some (.string "logic", .named [("label", .nat label), ("deps", .nats deps),
          ("expression", formula.toValue), ("rule", rule.toValue)]) :=
      Fields.tagged?_named (by simp)
    have hfields := fields?_self [("label", Value.nat label), ("deps", .nats deps),
      ("expression", formula.toValue), ("rule", rule.toValue)] (by simp)
    simp only [List.map_cons, List.map_nil] at hfields
    simp only [line?, Option.bind_eq_bind, ← Option.bind_assoc, htag]
    simp only [Option.bind_some, Value.string?, Fields.get?, hfields, labels?_nats hdeps,
      word?_nat hlabel, formula?_toValue, rule?_toValue hrule, Option.pure_def]

/-- **A draft is read back from its value.** -/
theorem document?_toValue {draft : Document} (h : draft.InRange) :
    document? draft.toValue = some draft := by
  have hlines : (draft.lines.map Line.toValue).mapM line? = some draft.lines :=
    mapM_map_eq_some fun line hline => line?_toValue (h line hline)
  simp [document?, Document.toValue, Fields.ofValue?, Fields.get?, fields?, field?, Value.items?,
    hlines]

/-! ## Numbers of a written draft -/

theorem isExact_nats {labels : List Label} (h : ∀ label ∈ labels, label < Word.bound) :
    (Value.nats labels).IsExact := by
  refine Value.itemsExact_iff.mpr fun item hitem => ?_
  obtain ⟨label, hlabel, rfl⟩ := List.mem_map.mp hitem
  exact ⟨label, rfl, h label hlabel⟩

theorem isExact_bindings (bindings : List Binding) :
    (Value.array (bindings.map Binding.toValue)).IsExact := by
  refine Value.itemsExact_iff.mpr fun item hitem => ?_
  obtain ⟨binding, _, rfl⟩ := List.mem_map.mp hitem
  exact ⟨trivial, trivial, trivial⟩

mutual

/-- A formula is written without numbers. -/
theorem isExact_formula : ∀ f : Formula, f.toValue.IsExact
  | .letter _ => ⟨trivial, trivial, trivial⟩
  | .predicate _ args => ⟨trivial, trivial, isExact_formulas args, trivial⟩
  | .junction _ juncts => ⟨trivial, trivial, isExact_formulas juncts, trivial⟩
  | .conditional antecedent consequent =>
    ⟨trivial, isExact_formula antecedent, isExact_formula consequent, trivial⟩
  | .biconditional left right => ⟨trivial, isExact_formula left, isExact_formula right, trivial⟩
  | .negation inner => ⟨trivial, isExact_formula inner, trivial⟩
  | .quantified bindings body =>
    ⟨trivial, isExact_bindings bindings, isExact_formula body, trivial⟩
  | .identity left right _ =>
    ⟨trivial, isExact_formula left, isExact_formula right, trivial, trivial⟩

theorem isExact_formulas : ∀ fs : List Formula, Value.ItemsExact (Formula.toValues fs)
  | [] => trivial
  | f :: fs => ⟨isExact_formula f, isExact_formulas fs⟩

end

theorem membersExact_append {members others : List (String × Value)}
    (h : Value.MembersExact members) (h' : Value.MembersExact others) :
    Value.MembersExact (members ++ others) := by
  induction members with
  | nil => exact h'
  | cons member members ih => exact ⟨h.1, ih h.2⟩

theorem membersExact_present {α : Type} {name : String} {write : α → Value} {field : Option α}
    (h : ∀ a, field = some a → (write a).IsExact) : Value.MembersExact (present name write field) := by
  cases field with
  | none => trivial
  | some a => exact ⟨h a rfl, trivial⟩

theorem isExact_rule {rule : Rule} (h : rule.InRange) : rule.toValue.IsExact := by
  have hline : Value.MembersExact (present "line" Value.nat rule.line) :=
    membersExact_present fun label hlabel => ⟨label, rfl, h.line label hlabel⟩
  have hlines : Value.MembersExact (present "lines" Value.nats rule.lines) :=
    membersExact_present fun labels hlabels => isExact_nats (h.lines labels hlabels)
  have hdischarged : Value.MembersExact (present "discharged" Value.nat rule.discharged) :=
    membersExact_present fun label hlabel => ⟨label, rfl, h.discharged label hlabel⟩
  have hinstantial : Value.MembersExact (present "variable" Value.string rule.instantial) :=
    membersExact_present fun _ _ => trivial
  exact membersExact_append (membersExact_append (membersExact_append ⟨trivial, hline⟩ hlines)
    hdischarged) hinstantial

theorem isExact_line {line : Line} (h : line.InRange) : line.toValue.IsExact := by
  cases line with
  | text content => exact ⟨trivial, trivial, trivial⟩
  | logic label deps formula rule =>
    obtain ⟨hlabel, hdeps, hrule⟩ := h
    exact ⟨trivial, ⟨label, rfl, hlabel⟩, isExact_nats hdeps, isExact_formula formula,
      isExact_rule hrule, trivial⟩

/-- The numbers of a written draft are its labels. -/
theorem isExact_document {draft : Document} (h : draft.InRange) : draft.toValue.IsExact := by
  refine ⟨Value.itemsExact_iff.mpr fun item hitem => ?_, trivial⟩
  obtain ⟨line, hline, rfl⟩ := List.mem_map.mp hitem
  exact isExact_line (h line hline)

end ProofSheet.Draft
