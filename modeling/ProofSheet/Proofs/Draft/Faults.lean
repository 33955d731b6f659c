import ProofSheet.Proofs.Draft.Meaning
import ProofSheet.Proofs.Draft.NormalForm

/-!
# The faults of a draft

A draft is a sheet if nothing is wrong with it: each symbol is one character, each junction has a junct,
each quantifier is known and each rule has what it needs. Otherwise it is refused for the first thing
that is wrong: lines in order, a formula before the rule, a node before what stands under it.

* `Draft.Document.Valid`: **the drafts that nothing is wrong with.**
* `Draft.Document.faults`: all that is wrong with a draft, in order.
* `Draft.Reports`: an outcome is the first of some faults, or there are none and it has a property.
* `Draft.Formula.accept_reports`: a formula is accepted in normal form, or its first fault is found.
* `Draft.Document.Says`: what a draft says as a sheet, line by line.
* `Draft.Document.accept_exactly_valid`: **valid drafts are accepted as what they say, and any other
  is refused for its first fault.**
-/

namespace ProofSheet.Draft

universe u

/-! ## Outcomes -/

section Reports

variable {α β : Type} {first second : List Fault} {P : α → Prop} {Q : β → Prop} {x : Except Fault α}

/-- **An outcome that reports faults**: it is the first of them; or there are none, and the result has a
property. -/
def Reports (x : Except Fault α) (faults : List Fault) (P : α → Prop) : Prop :=
  match x with
  | .ok a => faults = [] ∧ P a
  | .error fault => faults.head? = some fault

/-- What is done next may find more faults, which come after. -/
theorem Reports.bind {f : α → Except Fault β} (hx : Reports x first P)
    (hf : ∀ a, P a → Reports (f a) second Q) : Reports (x >>= f) (first ++ second) Q := by
  cases x with
  | ok a =>
    obtain ⟨rfl, ha⟩ := hx
    exact hf a ha
  | error fault =>
    have hfirst : first.head? = some fault := hx
    exact List.head?_append.trans (by rw [hfirst, Option.some_or])

theorem Reports.map {f : α → β} (hx : Reports x first P) (hf : ∀ a, P a → Q (f a)) :
    Reports (x.map f) first Q := by
  cases x with
  | ok a => exact ⟨hx.1, hf a hx.2⟩
  | error fault => exact hx

/-- The last step only puts the result together. -/
theorem Reports.bind_pure {f : α → β} (hx : Reports x first P) (hf : ∀ a, P a → Q (f a)) :
    Reports (x >>= fun a => pure (f a)) first Q :=
  hx.map hf

/-- The property of the result may be proved of the outcome. -/
theorem Reports.and_of_eq_ok {R : α → Prop} (hx : Reports x first P) (h : ∀ a, x = .ok a → R a) :
    Reports x first fun a => P a ∧ R a := by
  cases x with
  | ok a => exact ⟨hx.1, hx.2, h a rfl⟩
  | error fault => exact hx

theorem Reports.eq_nil_iff (hx : Reports x first P) : (∃ a, x = .ok a) ↔ first = [] := by
  cases x with
  | ok a => exact ⟨fun _ => hx.1, fun _ => ⟨a, rfl⟩⟩
  | error fault =>
    refine ⟨nofun, ?_⟩
    rintro rfl
    cases hx

theorem Reports.of_eq_ok (hx : Reports x first P) {a : α} (h : x = .ok a) : P a := by
  rw [h] at hx
  exact hx.2

theorem Reports.of_eq_error (hx : Reports x first P) {fault : Fault} (h : x = .error fault) :
    first.head? = some fault := by
  rw [h] at hx
  exact hx

end Reports

/-! ## Symbols and bindings -/

/-- A text is one character. -/
def IsSymbol (text : String) : Prop := text.length = 1

instance (text : String) : Decidable (IsSymbol text) := inferInstanceAs (Decidable (_ = _))

/-- The words and signs for quantifiers. -/
def quantifierWords : List String := ["forall", "∀", "exists", "∃"]

/-- What is wrong with a symbol. -/
def symbolFaults (text : String) : List Fault :=
  if IsSymbol text then [] else [.symbol text]

/-- What is wrong with a quantifier. -/
def quantifierFaults (text : String) : List Fault :=
  if text ∈ quantifierWords then [] else [.binding text]

/-- What is wrong with a binding, its quantifier before its symbol. -/
def Binding.faults (binding : Binding) : List Fault :=
  quantifierFaults binding.quantifier ++ symbolFaults binding.symbol

/-- A binding has a known quantifier, and a symbol. -/
structure Binding.Valid (binding : Binding) : Prop where
  quantifier : binding.quantifier ∈ quantifierWords
  symbol : IsSymbol binding.symbol

theorem symbolFaults_eq_nil {text : String} : symbolFaults text = [] ↔ IsSymbol text := by
  simp [symbolFaults]

theorem Binding.faults_eq_nil {binding : Binding} : binding.faults = [] ↔ binding.Valid := by
  have hquantifier : quantifierFaults binding.quantifier = [] ↔ binding.quantifier ∈ quantifierWords := by
    simp [quantifierFaults]
  rw [Binding.faults, List.append_eq_nil_iff, symbolFaults_eq_nil, hquantifier]
  exact ⟨fun ⟨hknown, hsymbol⟩ => ⟨hknown, hsymbol⟩, fun h => ⟨h.quantifier, h.symbol⟩⟩

theorem symbolOf_reports (text : String) :
    Reports (symbolOf text) (symbolFaults text) (· = letterOf text) := by
  unfold symbolOf
  split
  · rename_i symbol htext
    have hsymbol : IsSymbol text := by rw [IsSymbol, ← String.length_toList, htext]; rfl
    exact ⟨if_pos hsymbol, by rw [letterOf, htext]; rfl⟩
  · rename_i hother
    have hsymbol : ¬ IsSymbol text := by
      rw [IsSymbol, ← String.length_toList, List.length_eq_one_iff]
      exact fun ⟨symbol, htext⟩ => hother symbol htext
    rw [Reports, symbolFaults, if_neg hsymbol, List.head?_cons]

theorem toString_of_symbolOf {text : String} {symbol : Symbol} (h : symbolOf text = .ok symbol) :
    symbol.toString = text := by
  unfold symbolOf at h
  split at h
  · rename_i htext
    cases h
    rw [Char.toString_eq_singleton, ← String.toList_inj, htext, String.toList_singleton]
  · cases h

theorem quantifierOf_reports (text : String) :
    Reports (quantifierOf text) (quantifierFaults text) (· = quantifierNamed text) := by
  unfold quantifierOf quantifierFaults quantifierNamed
  by_cases huniversal : text = "forall" ∨ text = "∀"
  · have hknown : text ∈ quantifierWords := by rcases huniversal with rfl | rfl <;> decide
    rw [if_pos huniversal, if_pos huniversal]
    exact ⟨if_pos hknown, rfl⟩
  · rw [if_neg huniversal, if_neg huniversal]
    by_cases hexistential : text = "exists" ∨ text = "∃"
    · have hknown : text ∈ quantifierWords := by rcases hexistential with rfl | rfl <;> decide
      rw [if_pos hexistential]
      exact ⟨if_pos hknown, rfl⟩
    · have hunknown : text ∉ quantifierWords := by simp_all [quantifierWords]
      rw [if_neg hexistential, if_neg hunknown]
      exact List.head?_cons

theorem Binding.accept_reports (binding : Binding) :
    Reports binding.accept binding.faults (· = binding.bound) := by
  refine (quantifierOf_reports _).bind fun quantifier hquantifier =>
    (symbolOf_reports _).bind_pure fun symbol hsymbol => ?_
  rw [hquantifier, hsymbol, Binding.bound]

theorem acceptBindings_reports (bindings : List Binding) :
    Reports (acceptBindings bindings) (bindings.flatMap Binding.faults)
      (· = bindings.map Binding.bound) := by
  induction bindings with
  | nil => exact ⟨rfl, rfl⟩
  | cons binding bindings ih =>
    rw [List.flatMap_cons, List.map_cons, acceptBindings]
    refine binding.accept_reports.bind fun first hfirst => ih.bind_pure fun rest hrest => ?_
    rw [hfirst, hrest]

/-! ## Formulas -/

namespace Formula

mutual

/-- The nodes of a formula: each before what stands under it, and from left to right. -/
def nodes : Formula → List Formula
  | .letter symbol => [.letter symbol]
  | .predicate name args => .predicate name args :: nodesAll args
  | .junction conjunction juncts => .junction conjunction juncts :: nodesAll juncts
  | .conditional antecedent consequent =>
    .conditional antecedent consequent :: (nodes antecedent ++ nodes consequent)
  | .biconditional left right => .biconditional left right :: (nodes left ++ nodes right)
  | .negation inner => .negation inner :: nodes inner
  | .quantified bindings body => .quantified bindings body :: nodes body
  | .identity left right equal => .identity left right equal :: (nodes left ++ nodes right)

/-- The nodes of formulas, in order. -/
def nodesAll : List Formula → List Formula
  | [] => []
  | f :: fs => nodes f ++ nodesAll fs

end

/-- What is wrong with a node itself. -/
def ownFaults : Formula → List Fault
  | .letter symbol => symbolFaults symbol
  | .predicate name _ => symbolFaults name
  | .junction _ juncts => if juncts.isEmpty then [.emptyJunction] else []
  | .quantified bindings _ => bindings.flatMap Binding.faults
  | .conditional _ _ | .biconditional _ _ | .negation _ | .identity _ _ _ => []

/-- All that is wrong with a formula, in order. -/
def faults (f : Formula) : List Fault :=
  f.nodes.flatMap ownFaults

/-- Nothing is wrong with a node itself. -/
def Sound : Formula → Prop
  | .letter symbol => IsSymbol symbol
  | .predicate name _ => IsSymbol name
  | .junction _ juncts => juncts ≠ []
  | .quantified bindings _ => ∀ binding ∈ bindings, binding.Valid
  | .conditional _ _ | .biconditional _ _ | .negation _ | .identity _ _ _ => True

/-- **Nothing is wrong with any node of a formula.** -/
def Valid (f : Formula) : Prop :=
  ∀ node ∈ f.nodes, node.Sound

theorem ownFaults_eq_nil {f : Formula} : f.ownFaults = [] ↔ f.Sound := by
  cases f with
  | letter symbol => exact symbolFaults_eq_nil
  | predicate name args => exact symbolFaults_eq_nil
  | junction conjunction juncts => simp [ownFaults, Sound]
  | quantified bindings body =>
    rw [ownFaults, Sound, List.flatMap_eq_nil_iff]
    exact forall₂_congr fun _ _ => Binding.faults_eq_nil
  | _ => exact iff_of_true rfl trivial

theorem faults_eq_nil {f : Formula} : f.faults = [] ↔ f.Valid := by
  rw [faults, Valid, List.flatMap_eq_nil_iff]
  exact forall₂_congr fun _ _ => ownFaults_eq_nil

mutual

/-- **A formula is accepted in normal form, or its first fault is found.** -/
theorem accept_reports : ∀ f : Formula, Reports f.accept f.faults (· = f.normal)
  | .letter symbol => by
    rw [faults, nodes, List.flatMap_singleton, accept]
    exact (symbolOf_reports symbol).map fun _ => congrArg _
  | .predicate name args => by
    rw [faults, nodes, List.flatMap_cons, accept, normal, normals_eq]
    refine (symbolOf_reports name).bind fun name' hname =>
      (acceptAll_reports args).bind_pure fun args' hargs => ?_
    rw [hname, hargs]
  | .junction conjunction juncts => by
    rw [faults, nodes, List.flatMap_cons, accept, ownFaults, normal_junction]
    split
    · rfl
    · refine (acceptAll_reports juncts).map fun juncts' hjuncts => ?_
      rw [hjuncts, junctorOf]
  | .conditional antecedent consequent => by
    rw [faults, nodes, List.flatMap_cons, List.flatMap_append, accept, normal]
    refine (accept_reports antecedent).bind fun a ha =>
      (accept_reports consequent).bind_pure fun c hc => ?_
    rw [ha, hc]
  | .biconditional left right => by
    rw [faults, nodes, List.flatMap_cons, List.flatMap_append, accept, normal]
    refine (accept_reports left).bind fun l hl => (accept_reports right).bind_pure fun r hr => ?_
    rw [hl, hr]
  | .negation inner => by
    rw [faults, nodes, List.flatMap_cons, accept, normal]
    exact (accept_reports inner).map fun _ => congrArg _
  | .quantified bindings body => by
    rw [faults, nodes, List.flatMap_cons, accept, normal]
    refine (acceptBindings_reports bindings).bind fun bound hbound =>
      (accept_reports body).bind_pure fun body' hbody => ?_
    rw [hbound, hbody]
  | .identity left right equal => by
    rw [faults, nodes, List.flatMap_cons, List.flatMap_append, accept, normal]
    refine (accept_reports left).bind fun l hl => (accept_reports right).bind_pure fun r hr => ?_
    rw [hl, hr]

theorem acceptAll_reports : ∀ fs : List Formula,
    Reports (acceptAll fs) ((nodesAll fs).flatMap ownFaults) (· = fs.map normal)
  | [] => ⟨rfl, rfl⟩
  | f :: fs => by
    rw [nodesAll, List.flatMap_append, acceptAll, List.map_cons]
    refine (accept_reports f).bind fun g hg => (acceptAll_reports fs).bind_pure fun gs hgs => ?_
    rw [hg, hgs]

end

/-- **What a draft formula says**: its normal form, which is true where it is. -/
structure Says (f : Formula) (g : ProofSheet.Formula) : Prop where
  eq_normal : g = f.normal
  isNormal : g.IsNormal
  truth : ∀ (I : Interpretation.{u}) (σ : I.Assignment), Interpretation.holds σ g ↔ f.Holds σ

theorem says_of_accept {f : Formula} {g : ProofSheet.Formula} (h : f.accept = .ok g) :
    Says.{u} f g where
  eq_normal := f.accept_reports.of_eq_ok h
  isNormal := isNormal_of_accept h
  truth I σ := by
    rw [f.accept_reports.of_eq_ok h]
    exact holds_normal f σ

end Formula

/-! ## Rules -/

namespace Rule

/-- The fields of a rule other than its name. -/
inductive Field where
  | line
  | lines
  | discharged
  | instantial

/-- The fields that a rule needs, by its name. -/
def needed (name : String) : List Field :=
  match name with
  | "D" | "EIE" => [.line, .discharged]
  | "TF" => [.lines]
  | "CQ" | "UI" | "UG" | "EG" => [.line]
  | "EII" => [.line, .instantial]
  | _ => []

variable (rule : Rule)

/-- What is wrong with a field that is needed: it may not be there. -/
def absent {α : Type} (name : String) : Option α → List Fault
  | some _ => []
  | none => [.missingField rule.name name]

/-- What is wrong with a field that is needed. -/
def fieldFaults : Field → List Fault
  | .line => rule.absent "line" rule.line
  | .lines => rule.absent "lines" rule.lines
  | .discharged => rule.absent "discharged" rule.discharged
  | .instantial =>
    rule.absent "variable" rule.instantial ++ rule.instantial.toList.flatMap symbolFaults

/-- All that is wrong with a rule, in order. -/
def faults : List Fault :=
  (needed rule.name).flatMap rule.fieldFaults

/-- A rule has a field, which has to be a symbol if it is the instantial letter. -/
def Has : Field → Prop
  | .line => ∃ label, rule.line = some label
  | .lines => ∃ labels, rule.lines = some labels
  | .discharged => ∃ label, rule.discharged = some label
  | .instantial => ∃ text, rule.instantial = some text ∧ IsSymbol text

/-- **A rule has the fields that its name calls for.** -/
def Valid : Prop :=
  ∀ field ∈ needed rule.name, rule.Has field

variable {rule}

theorem absent_eq_nil {α : Type} {name : String} {field : Option α} :
    rule.absent name field = [] ↔ ∃ a, field = some a := by
  cases field <;> simp [absent]

theorem faults_eq_nil : rule.faults = [] ↔ rule.Valid := by
  rw [faults, Valid, List.flatMap_eq_nil_iff]
  refine forall₂_congr fun field _ => ?_
  cases field with
  | instantial =>
    rw [fieldFaults, Has, List.append_eq_nil_iff, absent_eq_nil]
    cases rule.instantial <;> simp [symbolFaults_eq_nil]
  | _ => exact absent_eq_nil

theorem need_reports {α : Type} (name : String) (field : Option α) :
    Reports (rule.need name field) (rule.absent name field) (field = some ·) := by
  cases field with
  | none => rfl
  | some a => exact ⟨rfl, rfl⟩

/-- A rule has the name of a draft rule, and its instantial letter. -/
structure Names (rule : Rule) (accepted : ProofSheet.Rule) : Prop where
  name : accepted.name = rule.name
  instantial : ∀ text, accepted.draft.instantial = some text → rule.instantial = some text

/-- A rule that cites one line. -/
theorem needLine_reports {make : Label → ProofSheet.Rule}
    (hneeded : needed rule.name = [.line]) (hmake : ∀ cited, rule.Names (make cited)) :
    Reports ((rule.need "line" rule.line).map make) rule.faults rule.Names := by
  rw [faults, hneeded, List.flatMap_singleton]
  exact (need_reports "line" rule.line).map fun cited _ => hmake cited

/-- A rule that cites a line and discharges another. -/
theorem needTwo_reports {make : Label → Label → ProofSheet.Rule}
    (hneeded : needed rule.name = [.line, .discharged])
    (hmake : ∀ cited discharged, rule.Names (make cited discharged)) :
    Reports (rule.needTwo make) rule.faults rule.Names := by
  rw [faults, hneeded, List.flatMap_cons, List.flatMap_singleton]
  exact (need_reports "line" rule.line).bind fun cited _ =>
    (need_reports "discharged" rule.discharged).bind_pure fun discharged _ => hmake cited discharged

/-- **A rule is accepted under its name, or its first fault is found.** -/
theorem accept_reports : Reports rule.accept rule.faults rule.Names := by
  unfold accept
  split
  case h_1 hname =>
    have hneeded : needed rule.name = [] := by rw [hname]; rfl
    rw [faults, hneeded]
    exact ⟨rfl, hname.symm, nofun⟩
  case h_2 hname | h_9 hname =>
    exact needTwo_reports (by rw [hname]; rfl) fun _ _ => ⟨hname.symm, nofun⟩
  case h_3 hname =>
    have hneeded : needed rule.name = [.lines] := by rw [hname]; rfl
    rw [faults, hneeded, List.flatMap_singleton]
    exact (need_reports "lines" rule.lines).map fun _ _ => ⟨hname.symm, nofun⟩
  case h_8 hname =>
    have hneeded : needed rule.name = [.line, .instantial] := by rw [hname]; rfl
    rw [faults, hneeded, List.flatMap_cons, List.flatMap_singleton]
    refine (need_reports "line" rule.line).bind fun cited _ =>
      (need_reports "variable" rule.instantial).bind fun text htext => ?_
    rw [htext, Option.toList_some, List.flatMap_singleton, ← List.append_nil (symbolFaults text)]
    have hsymbol := (symbolOf_reports text).and_of_eq_ok fun _ => toString_of_symbolOf
    refine hsymbol.bind fun symbol hs => ⟨rfl, hname.symm, fun written hwritten => ?_⟩
    rw [htext, ← hwritten, ← hs.2]
    rfl
  case h_10 hname =>
    have hneeded : needed rule.name = [] := by
      unfold needed
      split <;> simp_all
    rw [faults, hneeded]
    exact ⟨rfl, rfl, nofun⟩
  all_goals
    rename_i hname
    exact needLine_reports (by rw [hname]; rfl) fun _ => ⟨hname.symm, nofun⟩

/-- **What a draft rule says**: a rule of its name, with the fields that were given. -/
structure Says (rule : Rule) (accepted : ProofSheet.Rule) : Prop where
  names : rule.Names accepted
  known : accepted.IsNamed
  fields : accepted.draft.Within rule

end Rule

/-! ## Lines and drafts -/

namespace Line

/-- All that is wrong with a line, the formula before the rule. -/
def faults : Line → List Fault
  | .text _ => []
  | .logic _ _ formula rule => formula.faults ++ rule.faults

/-- Nothing is wrong with the formula and the rule of a line. -/
def Valid : Line → Prop
  | .text _ => True
  | .logic _ _ formula rule => formula.Valid ∧ rule.Valid

/-- **What a line of a draft says.** Its premises become an ascending set. -/
inductive Says : Line → ProofSheet.Line → Prop
  | text (content : String) : Says (.text content) (.text content)
  | logic {label : Label} {deps : List Label} {formula : Formula} {rule : Rule} {line : LogicLine}
      (label_eq : line.label = label) (ascending : line.deps.Pairwise (· < ·))
      (mem_deps : ∀ l, l ∈ line.deps ↔ l ∈ deps) (formula_said : Formula.Says.{u} formula line.formula)
      (rule_said : rule.Says line.rule) : Says (.logic label deps formula rule) (.logic line)

theorem faults_eq_nil {line : Line} : line.faults = [] ↔ line.Valid := by
  cases line with
  | text content => exact iff_of_true rfl trivial
  | logic label deps formula rule =>
    rw [faults, List.append_eq_nil_iff, Formula.faults_eq_nil, Rule.faults_eq_nil, Valid]

/-- **A line is accepted as what it says, or its first fault is found.** -/
theorem accept_reports (line : Line) : Reports line.accept line.faults (Says.{u} line) := by
  cases line with
  | text content => exact ⟨rfl, .text content⟩
  | logic label deps formula rule =>
    have hformula := formula.accept_reports.and_of_eq_ok fun _ => Formula.says_of_accept.{u}
    have hrule := (@Rule.accept_reports rule).and_of_eq_ok fun _ => rule_of_accept
    refine hformula.bind fun g hg => hrule.bind_pure fun accepted hr => ?_
    have hascending := Ascending.ofList_ascending deps
    exact .logic rfl (hascending.imp of_decide_eq_true) (fun _ => Ascending.mem_ofList) hg.2
      ⟨hr.1, hr.2.1, hr.2.2⟩

end Line

theorem acceptLines_reports (lines : List Line) :
    Reports (acceptLines lines) (lines.flatMap Line.faults)
      (List.Forall₂ Line.Says.{u} lines) := by
  induction lines with
  | nil => exact ⟨rfl, .nil⟩
  | cons line lines ih =>
    rw [List.flatMap_cons, acceptLines]
    exact line.accept_reports.bind fun first hfirst => ih.bind_pure fun rest hrest =>
      .cons hfirst hrest

namespace Document

/-- All that is wrong with a draft, in the order in which it is accepted. -/
def faults (draft : Document) : List Fault :=
  draft.lines.flatMap Line.faults

/-- **The drafts that nothing is wrong with.** -/
def Valid (draft : Document) : Prop :=
  ∀ line ∈ draft.lines, line.Valid

/-- **What a draft says as a sheet**, line by line. -/
def Says (draft : Document) (document : ProofSheet.Document) : Prop :=
  List.Forall₂ Line.Says.{u} draft.lines document.lines

theorem faults_eq_nil {draft : Document} : draft.faults = [] ↔ draft.Valid := by
  rw [faults, Valid, List.flatMap_eq_nil_iff]
  exact forall₂_congr fun _ _ => Line.faults_eq_nil

theorem accept_reports (draft : Document) :
    Reports draft.accept draft.faults (Says.{u} draft) :=
  (acceptLines_reports draft.lines).map fun _ => id

/-- **Valid drafts are accepted as what they say, and any other is refused for its first fault.** -/
theorem accept_exactly_valid (draft : Document) :
    ((∃ document, draft.accept = .ok document) ↔ draft.Valid) ∧
      (∀ document, draft.accept = .ok document → Says.{u} draft document) ∧
      ∀ fault, draft.accept = .error fault → draft.faults.head? = some fault := by
  have hreports := draft.accept_reports
  exact ⟨hreports.eq_nil_iff.trans faults_eq_nil, fun _ => hreports.of_eq_ok,
    fun _ => hreports.of_eq_error⟩

/-- `(∀x)(∃y)(Fx ∧ Gy ∧ A ∧ (B ∨ C))`, with two bindings to one quantifier, conjunctions in
conjunctions, and premises out of order. -/
def nestedDraft : Document where
  lines :=
    [ .text "An instance is still to come.",
      .logic 4 [3, 1, 3]
        (.quantified [⟨"forall", "x"⟩, ⟨"∃", "y"⟩]
          (.junction true
            [ .junction true [.predicate "F" [.letter "x"], .predicate "G" [.letter "y"]],
              .quantified [] (.junction true [.letter "A"]),
              .junction false [.letter "B", .letter "C"] ]))
        { name := "EII", line := some 2, instantial := some "c" } ]

/-- Its sheet. -/
def nestedSheet : ProofSheet.Document where
  lines :=
    [ .text "An instance is still to come.",
      .logic ⟨4, [1, 3],
        .quantified .universal 'x' (.quantified .existential 'y'
          (.junction .conjunction
            [ .predicate 'F' [.letter 'x'], .predicate 'G' [.letter 'y'], .letter 'A',
              .junction .disjunction [.letter 'B', .letter 'C'] ])),
        .instanceIntroduction 2 'c'⟩ ]

/-- An empty disjunction, a symbol of two letters, and a discharge of nothing. -/
def faultyDraft : Document where
  lines :=
    [ .logic 0 [] (.conditional (.junction false []) (.letter "AB")) { name := "D", line := some 0 },
      .logic 1 [] (.letter "") { name := "P" } ]

/-- The one is accepted flat, and the other refused for the disjunction. -/
theorem accept_exactly_valid_nested :
    nestedDraft.accept = .ok nestedSheet ∧ nestedDraft.Valid ∧ Says.{0} nestedDraft nestedSheet ∧
      faultyDraft.accept = .error .emptyJunction ∧
      faultyDraft.faults =
        [.emptyJunction, .symbol "AB", .missingField "D" "discharged", .symbol ""] ∧
      faultyDraft.faults.head? = some .emptyJunction := by
  have hok : nestedDraft.accept = .ok nestedSheet := rfl
  have herror : faultyDraft.accept = .error .emptyJunction := rfl
  obtain ⟨hvalid, hsays, -⟩ := accept_exactly_valid.{0} nestedDraft
  obtain ⟨-, -, hfirst⟩ := accept_exactly_valid.{0} faultyDraft
  exact ⟨hok, hvalid.mp ⟨_, hok⟩, hsays _ hok, herror, by decide, hfirst _ herror⟩

end Document

end ProofSheet.Draft
