import Mathlib.Order.MinMax
import ProofSheet.Draft.Accept
import ProofSheet.Proofs.Draft.Nesting
import ProofSheet.Proofs.Formula.Parts
import ProofSheet.Proofs.Labels.Relabelling

/-!
# Sheets in normal form

Drafts are accepted as sheets in normal form, and a sheet in normal form is accepted from its draft
as it is.

* `Formula.IsNormal`: no junction is empty, and no junct is a junction of the same kind.
* `Document.WellFormed`: **the sheets that can be written and accepted again.**
* `Draft.accept_document_draft`: **a well-formed sheet is accepted from its draft as the same sheet.**
* `Draft.document_of_accept`: **a sheet that was accepted is well formed.**
* `Draft.nesting_of_accept`: a sheet is written no deeper than a draft from which it was accepted,
  if each quantifier of that draft binds at most one symbol.
-/

namespace ProofSheet

namespace Formula

mutual

/-- No junction of a formula is empty, and no junct is a junction of the same kind. -/
def IsNormal : Formula → Prop
  | .letter _ => True
  | .predicate _ args => AllNormal args
  | .junction junctor juncts =>
    juncts ≠ [] ∧ (∀ inner, .junction junctor inner ∉ juncts) ∧ AllNormal juncts
  | .conditional a b | .biconditional a b | .identity a b _ => IsNormal a ∧ IsNormal b
  | .negation inner => IsNormal inner
  | .quantified _ _ body => IsNormal body

/-- Each formula of a list is normal. -/
def AllNormal : List Formula → Prop
  | [] => True
  | f :: fs => IsNormal f ∧ AllNormal fs

end

theorem allNormal_iff {fs : List Formula} : AllNormal fs ↔ ∀ f ∈ fs, f.IsNormal := by
  induction fs with
  | nil => simp [AllNormal]
  | cons f fs ih => rw [AllNormal, ih, List.forall_mem_cons]

/-- **Junctions of normal formulas are built normal.** -/
theorem isNormal_junctionOf {junctor : Junctor} {parts : List Formula} (hne : parts ≠ [])
    (h : ∀ part ∈ parts, part.IsNormal) : (junctionOf junctor parts).IsNormal := by
  -- each part contributes itself, or its juncts if it is a junction of this kind
  have hpart : ∀ part ∈ parts, junctsUnder junctor part ≠ [] ∧
      ∀ junct ∈ junctsUnder junctor part,
        junct.IsNormal ∧ ∀ inner, junct ≠ .junction junctor inner := by
    intro part hmem
    by_cases hjunction : ∃ inner, part = .junction junctor inner
    · obtain ⟨inner, rfl⟩ := hjunction
      obtain ⟨hinner, hkind, hnormal⟩ := h _ hmem
      rw [junctsUnder, if_pos rfl]
      exact ⟨hinner, fun junct hjunct => ⟨allNormal_iff.mp hnormal junct hjunct,
        fun inner heq => hkind inner (heq ▸ hjunct)⟩⟩
    · rw [junctsUnder_eq_singleton fun inner heq => hjunction ⟨inner, heq⟩]
      refine ⟨by simp, fun junct hjunct => ?_⟩
      cases List.mem_singleton.mp hjunct
      exact ⟨h _ hmem, fun inner heq => hjunction ⟨inner, heq⟩⟩
  refine ⟨?_, fun inner hmem => ?_, allNormal_iff.mpr fun junct hmem => ?_⟩
  · obtain ⟨part, hmem⟩ := List.exists_mem_of_ne_nil parts hne
    rw [Ne, List.flatMap_eq_nil_iff]
    exact fun hnil => (hpart part hmem).1 (hnil part hmem)
  · obtain ⟨part, hpartmem, hjunct⟩ := List.mem_flatMap.mp hmem
    exact ((hpart part hpartmem).2 _ hjunct).2 inner rfl
  · obtain ⟨part, hpartmem, hjunct⟩ := List.mem_flatMap.mp hmem
    exact ((hpart part hpartmem).2 _ hjunct).1

theorem isNormal_quantify {bindings : List (Quantifier × Symbol)} {body : Formula}
    (h : body.IsNormal) : (quantify bindings body).IsNormal := by
  induction bindings with
  | nil => exact h
  | cons binding bindings ih => exact ih

end Formula

/-- The names of the nine rules. -/
def Rule.names : List String := ["P", "D", "TF", "CQ", "UI", "UG", "EG", "EII", "EIE"]

/-- A rule that is not known is not named as one that is. -/
def Rule.IsNamed : Rule → Prop
  | .unrecognized name => name ∉ names
  | _ => True

/-- A logic line that can be written and accepted again. -/
structure LogicLine.WellFormed (line : LogicLine) : Prop where
  formula : line.formula.IsNormal
  deps : Ascending.IsAscending line.deps
  rule : line.rule.IsNamed

/-- **The sheets that can be written and accepted again.** -/
def Document.WellFormed (document : Document) : Prop :=
  ∀ line, Line.logic line ∈ document.lines → line.WellFormed

/-- Every label of a sheet fits 64 bits. -/
def Document.InRange (document : Document) : Prop :=
  ∀ l, document.Mentions l → l < Word.bound

namespace Draft

/-! ## From a sheet to its draft and back -/

theorem symbolOf_toString (symbol : Symbol) : symbolOf symbol.toString = .ok symbol := by
  simp [symbolOf, Char.toString_eq_singleton]

theorem acceptBindings_draft (quantifier : Quantifier) (symbol : Symbol) :
    acceptBindings [⟨quantifier.word, symbol.toString⟩] = .ok [(quantifier, symbol)] := by
  have hquantifier : quantifierOf quantifier.word = .ok quantifier := by
    cases quantifier <;> rfl
  rw [acceptBindings, Binding.accept, hquantifier, symbolOf_toString]
  rfl

mutual

theorem accept_draft : ∀ {f : ProofSheet.Formula}, f.IsNormal → f.draft.accept = .ok f
  | .letter symbol, _ => by
    rw [ProofSheet.Formula.draft, Formula.accept, symbolOf_toString]
    rfl
  | .predicate name args, h => by
    rw [ProofSheet.Formula.draft, Formula.accept, symbolOf_toString, acceptAll_drafts h]
    rfl
  | .junction junctor juncts, h => by
    obtain ⟨hne, hkind, hnormal⟩ := h
    have hnonempty : (ProofSheet.Formula.drafts juncts).isEmpty = false := by
      cases juncts with
      | nil => exact absurd rfl hne
      | cons junct juncts => rfl
    have hjunctor : (if decide (junctor = .conjunction) then Junctor.conjunction else .disjunction) =
        junctor := by
      cases junctor <;> rfl
    rw [ProofSheet.Formula.draft, Formula.accept, hnonempty, acceptAll_drafts hnormal, hjunctor]
    exact congrArg Except.ok (ProofSheet.Formula.junctionOf_eq hkind)
  | .conditional a b, h => by
    rw [ProofSheet.Formula.draft, Formula.accept, accept_draft h.1, accept_draft h.2]
    rfl
  | .biconditional a b, h => by
    rw [ProofSheet.Formula.draft, Formula.accept, accept_draft h.1, accept_draft h.2]
    rfl
  | .negation inner, h => by
    rw [ProofSheet.Formula.draft, Formula.accept, accept_draft (f := inner) h]
    rfl
  | .quantified quantifier symbol body, h => by
    rw [ProofSheet.Formula.draft, Formula.accept, acceptBindings_draft, accept_draft (f := body) h]
    rfl
  | .identity a b equal, h => by
    rw [ProofSheet.Formula.draft, Formula.accept, accept_draft h.1, accept_draft h.2]
    rfl

theorem acceptAll_drafts : ∀ {fs : List ProofSheet.Formula}, ProofSheet.Formula.AllNormal fs →
    Formula.acceptAll (ProofSheet.Formula.drafts fs) = .ok fs
  | [], _ => rfl
  | f :: fs, h => by
    rw [ProofSheet.Formula.drafts, Formula.acceptAll, accept_draft h.1, acceptAll_drafts h.2]
    rfl

end

theorem accept_rule_draft {rule : ProofSheet.Rule} (h : rule.IsNamed) :
    rule.draft.accept = .ok rule := by
  cases rule with
  | unrecognized name =>
    simp only [ProofSheet.Rule.IsNamed, ProofSheet.Rule.names, List.mem_cons, List.not_mem_nil,
      or_false, not_or] at h
    simp only [ProofSheet.Rule.draft, ProofSheet.Rule.name, Rule.accept]
    split <;> simp_all
  | instanceIntroduction cited instantial =>
    simp only [ProofSheet.Rule.draft, ProofSheet.Rule.name, Rule.accept, Rule.need, bind,
      Except.bind, symbolOf_toString]
    rfl
  | _ => rfl

theorem accept_line_draft {line : ProofSheet.Line}
    (h : ∀ logic, line = .logic logic → logic.WellFormed) : line.draft.accept = .ok line := by
  cases line with
  | text content => rfl
  | logic line =>
    have hline := h line rfl
    have hdeps : Ascending.ofList line.deps = line.deps :=
      Ascending.eq_of_mem_iff (Ascending.ofList_ascending _) hline.deps fun _ => Ascending.mem_ofList
    rw [ProofSheet.Line.draft, Line.accept, accept_draft hline.formula,
      accept_rule_draft hline.rule]
    simp only [bind, Except.bind, pure, Except.pure, LogicLine.make, hdeps]

/-- **A well-formed sheet is accepted from its draft as the same sheet.** -/
theorem accept_document_draft {document : ProofSheet.Document} (h : document.WellFormed) :
    document.draft.accept = .ok document := by
  obtain ⟨lines⟩ := document
  have hlines : acceptLines (lines.map ProofSheet.Line.draft) = .ok lines := by
    induction lines with
    | nil => rfl
    | cons line lines ih =>
      have hline := accept_line_draft fun logic heq => h logic (heq ▸ List.mem_cons_self)
      have hrest := ih fun logic hmem => h logic (List.mem_cons_of_mem _ hmem)
      rw [List.map_cons, acceptLines, hline, hrest]
      rfl
  rw [ProofSheet.Document.draft, Document.accept, hlines]
  rfl

/-! ## What is accepted is well formed -/

theorem length_of_acceptAll {fs : List Formula} {gs : List ProofSheet.Formula}
    (h : Formula.acceptAll fs = .ok gs) : gs.length = fs.length := by
  induction fs generalizing gs with
  | nil =>
    cases h
    rfl
  | cons f fs ih =>
    rw [Formula.acceptAll] at h
    obtain ⟨g, _, h⟩ := bind_eq_ok h
    obtain ⟨gs', hgs, h⟩ := bind_eq_ok h
    cases h
    rw [List.length_cons, List.length_cons, ih hgs]

/-- A junction is accepted from its juncts, of which there are some. -/
theorem accept_junction {conjunction : Bool} {juncts : List Formula} {g : ProofSheet.Formula}
    (h : (Formula.junction conjunction juncts).accept = .ok g) :
    ∃ gs, Formula.acceptAll juncts = .ok gs ∧ gs ≠ [] ∧
      ProofSheet.Formula.junctionOf (if conjunction then .conjunction else .disjunction) gs = g := by
  rw [Formula.accept] at h
  split at h
  · cases h
  · rename_i hne
    obtain ⟨gs, hgs, rfl⟩ := exists_of_map_eq_ok h
    refine ⟨gs, hgs, fun hnil => hne ?_, rfl⟩
    have hlength := length_of_acceptAll hgs
    rw [hnil, List.length_nil] at hlength
    exact List.isEmpty_iff.mpr (List.eq_nil_of_length_eq_zero hlength.symm)

mutual

theorem isNormal_of_accept : ∀ {f : Formula} {g : ProofSheet.Formula}, f.accept = .ok g → g.IsNormal
  | .letter symbol, g, h => by
    rw [Formula.accept] at h
    obtain ⟨_, _, rfl⟩ := exists_of_map_eq_ok h
    trivial
  | .predicate name args, g, h => by
    rw [Formula.accept] at h
    obtain ⟨_, _, h⟩ := bind_eq_ok h
    obtain ⟨args', hargs, h⟩ := bind_eq_ok h
    cases h
    exact allNormal_of_acceptAll hargs
  | .junction conjunction juncts, g, h => by
    obtain ⟨gs, hgs, hne, rfl⟩ := accept_junction h
    exact ProofSheet.Formula.isNormal_junctionOf hne
      (ProofSheet.Formula.allNormal_iff.mp (allNormal_of_acceptAll hgs))
  | .conditional a b, g, h => by
    rw [Formula.accept] at h
    obtain ⟨a', ha, h⟩ := bind_eq_ok h
    obtain ⟨b', hb, h⟩ := bind_eq_ok h
    cases h
    exact ⟨isNormal_of_accept ha, isNormal_of_accept hb⟩
  | .biconditional a b, g, h => by
    rw [Formula.accept] at h
    obtain ⟨a', ha, h⟩ := bind_eq_ok h
    obtain ⟨b', hb, h⟩ := bind_eq_ok h
    cases h
    exact ⟨isNormal_of_accept ha, isNormal_of_accept hb⟩
  | .negation inner, g, h => by
    rw [Formula.accept] at h
    obtain ⟨inner', hinner, rfl⟩ := exists_of_map_eq_ok h
    have hnormal := isNormal_of_accept hinner
    exact hnormal
  | .quantified bindings body, g, h => by
    rw [Formula.accept] at h
    obtain ⟨_, _, h⟩ := bind_eq_ok h
    obtain ⟨body', hbody, h⟩ := bind_eq_ok h
    cases h
    exact ProofSheet.Formula.isNormal_quantify (isNormal_of_accept hbody)
  | .identity a b equal, g, h => by
    rw [Formula.accept] at h
    obtain ⟨a', ha, h⟩ := bind_eq_ok h
    obtain ⟨b', hb, h⟩ := bind_eq_ok h
    cases h
    exact ⟨isNormal_of_accept ha, isNormal_of_accept hb⟩

theorem allNormal_of_acceptAll : ∀ {fs : List Formula} {gs : List ProofSheet.Formula},
    Formula.acceptAll fs = .ok gs → ProofSheet.Formula.AllNormal gs
  | [], gs, h => by
    cases h
    trivial
  | f :: fs, gs, h => by
    rw [Formula.acceptAll] at h
    obtain ⟨g, hg, h⟩ := bind_eq_ok h
    obtain ⟨gs', hgs, h⟩ := bind_eq_ok h
    cases h
    exact ⟨isNormal_of_accept hg, allNormal_of_acceptAll hgs⟩

end

/-- The fields of one rule are fields of another. -/
structure Rule.Within (part whole : Rule) : Prop where
  line : ∀ label, part.line = some label → whole.line = some label
  lines : ∀ labels, part.lines = some labels → whole.lines = some labels
  discharged : ∀ label, part.discharged = some label → whole.discharged = some label

theorem need_eq_ok {α : Type} {rule : Rule} {name : String} {field : Option α} {a : α}
    (h : rule.need name field = .ok a) : field = some a := by
  cases field with
  | none => cases h
  | some b =>
    cases h
    rfl

theorem needTwo_eq_ok {rule : Rule} {make : Label → Label → ProofSheet.Rule}
    {accepted : ProofSheet.Rule} (h : rule.needTwo make = .ok accepted) :
    ∃ cited discharged, rule.line = some cited ∧ rule.discharged = some discharged ∧
      accepted = make cited discharged := by
  obtain ⟨cited, hcited, h⟩ := bind_eq_ok h
  obtain ⟨discharged, hdischarged, h⟩ := bind_eq_ok h
  cases h
  exact ⟨cited, discharged, need_eq_ok hcited, need_eq_ok hdischarged, rfl⟩

theorem needLine_eq_ok {rule : Rule} {make : Label → ProofSheet.Rule} {accepted : ProofSheet.Rule}
    (h : (rule.need "line" rule.line).map make = .ok accepted) :
    ∃ cited, rule.line = some cited ∧ accepted = make cited := by
  obtain ⟨cited, hcited, rfl⟩ := exists_of_map_eq_ok h
  exact ⟨cited, need_eq_ok hcited, rfl⟩

/-- **A rule is accepted with the fields that were given**, under a name that is known or stands for
itself. -/
theorem rule_of_accept {rule : Rule} {accepted : ProofSheet.Rule}
    (h : rule.accept = .ok accepted) : accepted.IsNamed ∧ accepted.draft.Within rule := by
  -- apart from four rules, a rule needs the line it cites, and two of them the one discharged
  unfold Rule.accept at h
  split at h
  case h_1 =>
    cases h
    exact ⟨trivial, nofun, nofun, nofun⟩
  case h_3 =>
    obtain ⟨cited, hcited, rfl⟩ := exists_of_map_eq_ok h
    exact ⟨trivial, nofun, fun _ hl => hl ▸ need_eq_ok hcited, nofun⟩
  case h_8 =>
    obtain ⟨cited, hcited, h⟩ := bind_eq_ok h
    obtain ⟨letter, _, h⟩ := bind_eq_ok h
    obtain ⟨instantial, _, h⟩ := bind_eq_ok h
    cases h
    exact ⟨trivial, fun _ hl => hl ▸ need_eq_ok hcited, nofun, nofun⟩
  case h_10 =>
    cases h
    refine ⟨?_, nofun, nofun, nofun⟩
    simp_all [ProofSheet.Rule.IsNamed, ProofSheet.Rule.names]
  case h_2 | h_9 =>
    obtain ⟨cited, discharged, hcited, hdischarged, rfl⟩ := needTwo_eq_ok h
    exact ⟨trivial, fun _ hl => hl ▸ hcited, nofun, fun _ hl => hl ▸ hdischarged⟩
  all_goals
    obtain ⟨cited, hcited, rfl⟩ := needLine_eq_ok h
    exact ⟨trivial, fun _ hl => hl ▸ hcited, nofun, nofun⟩

theorem Rule.Within.inRange {part whole : Rule} (h : part.Within whole) (hwhole : whole.InRange) :
    part.InRange where
  line label hlabel := hwhole.line label (h.line label hlabel)
  lines labels hlabels := hwhole.lines labels (h.lines labels hlabels)
  discharged label hlabel := hwhole.discharged label (h.discharged label hlabel)

theorem line_of_accept {line : Line} {accepted : ProofSheet.Line} (h : line.accept = .ok accepted) :
    (∀ logic, accepted = .logic logic → logic.WellFormed) ∧
      (line.InRange → accepted.draft.InRange) := by
  cases line with
  | text content =>
    cases h
    exact ⟨nofun, fun _ => trivial⟩
  | logic label deps formula rule =>
    obtain ⟨formula', hformula, h⟩ := bind_eq_ok h
    obtain ⟨rule', hrule, h⟩ := bind_eq_ok h
    cases h
    obtain ⟨hnamed, hwithin⟩ := rule_of_accept hrule
    constructor
    · rintro _ ⟨⟩
      exact ⟨isNormal_of_accept hformula, Ascending.ofList_ascending deps, hnamed⟩
    · rintro ⟨hlabel, hdeps, hrange⟩
      exact ⟨hlabel, fun dep hdep => hdeps dep (Ascending.mem_ofList.mp hdep),
        hwithin.inRange hrange⟩

/-- Each line of an accepted sheet is accepted from a line of the draft. -/
theorem exists_of_mem_acceptLines {lines : List Line} {accepted : List ProofSheet.Line}
    (h : acceptLines lines = .ok accepted) :
    ∀ line ∈ accepted, ∃ source ∈ lines, source.accept = .ok line := by
  induction lines generalizing accepted with
  | nil =>
    cases h
    simp
  | cons source lines ih =>
    rw [acceptLines] at h
    obtain ⟨first, hfirst, h⟩ := bind_eq_ok h
    obtain ⟨rest, hrest, h⟩ := bind_eq_ok h
    cases h
    intro line hmem
    rcases List.mem_cons.mp hmem with rfl | hmem
    · exact ⟨source, List.mem_cons_self, hfirst⟩
    · obtain ⟨source', hsource, haccept⟩ := ih hrest line hmem
      exact ⟨source', List.mem_cons_of_mem _ hsource, haccept⟩

/-- **A sheet that was accepted is well formed**, and its labels are among those of the draft. -/
theorem document_of_accept {draft : Document} {document : ProofSheet.Document}
    (h : draft.accept = .ok document) :
    document.WellFormed ∧ (draft.InRange → document.draft.InRange) := by
  obtain ⟨lines, hlines, rfl⟩ := exists_of_map_eq_ok h
  have hsource := exists_of_mem_acceptLines hlines
  constructor
  · intro logic hmem
    obtain ⟨source, _, haccept⟩ := hsource _ hmem
    exact (line_of_accept haccept).1 logic rfl
  · intro hrange written hwritten
    obtain ⟨line, hline, rfl⟩ := List.mem_map.mp hwritten
    obtain ⟨source, hmem, haccept⟩ := hsource line hline
    exact (line_of_accept haccept).2 (hrange source hmem)

/-! ## How deep an accepted sheet is written -/

open Json (Value)
open Json.Value (itemsNesting membersNesting itemsNesting_le membersNesting_le)

mutual

/-- Each quantifier of a draft formula binds at most one symbol. -/
def Formula.BindsSingly : Formula → Prop
  | .letter _ => True
  | .predicate _ args => AllBindSingly args
  | .junction _ juncts => AllBindSingly juncts
  | .conditional a b | .biconditional a b | .identity a b _ => BindsSingly a ∧ BindsSingly b
  | .negation inner => BindsSingly inner
  | .quantified bindings body => bindings.length ≤ 1 ∧ BindsSingly body

/-- So does each quantifier of the formulas of a list. -/
def Formula.AllBindSingly : List Formula → Prop
  | [] => True
  | f :: fs => BindsSingly f ∧ AllBindSingly fs

end

/-- Each quantifier of a draft binds at most one symbol. -/
def Document.BindsSingly (draft : Document) : Prop :=
  ∀ label deps formula rule, Line.logic label deps formula rule ∈ draft.lines → formula.BindsSingly

/-- How deep a formula is written. -/
def depth (f : ProofSheet.Formula) : Nat := f.draft.toValue.nesting

theorem nesting_drafts_le {fs : List ProofSheet.Formula} {n : Nat} :
    itemsNesting (Formula.toValues (ProofSheet.Formula.drafts fs)) ≤ n ↔ ∀ f ∈ fs, depth f ≤ n := by
  induction fs with
  | nil => simp [ProofSheet.Formula.drafts, Formula.toValues, itemsNesting]
  | cons f fs ih =>
    rw [ProofSheet.Formula.drafts, Formula.toValues, itemsNesting, Nat.max_le, ih,
      List.forall_mem_cons]
    rfl

/-- Flattening a junction brings its juncts no deeper. -/
theorem depth_junctsUnder_le {junctor : Junctor} {f junct : ProofSheet.Formula}
    (h : junct ∈ ProofSheet.Formula.junctsUnder junctor f) : depth junct ≤ depth f := by
  by_cases hjunction : ∃ inner, f = .junction junctor inner
  · obtain ⟨inner, rfl⟩ := hjunction
    rw [ProofSheet.Formula.junctsUnder, if_pos rfl] at h
    have hinner := nesting_drafts_le.mp (Nat.le_refl _) junct h
    have hjunction := nesting_junction (ProofSheet.Formula.drafts inner) (junctor = .conjunction)
    exact hinner.trans ((Nat.le_add_right _ 2).trans hjunction.ge)
  · rw [ProofSheet.Formula.junctsUnder_eq_singleton fun inner heq => hjunction ⟨inner, heq⟩,
      List.mem_singleton] at h
    rw [h]

/-- One binding or none adds no more to a formula than it did to its draft. -/
theorem depth_quantify_le {bindings : List Binding} {bindings' : List (Quantifier × Symbol)}
    {body : ProofSheet.Formula} {n : Nat} (h : acceptBindings bindings = .ok bindings')
    (hsingly : bindings.length ≤ 1) (hbody : depth body ≤ n) :
    depth (ProofSheet.Formula.quantify bindings' body) ≤
      max (itemsNesting (bindings.map Binding.toValue) + 1) n + 1 := by
  cases bindings with
  | nil =>
    cases h
    rw [ProofSheet.Formula.quantify, List.foldr_nil]
    omega
  | cons binding bindings =>
    cases bindings with
    | nil =>
      obtain ⟨first, _, h⟩ := bind_eq_ok h
      cases h
      have hquantified := nesting_quantified body.draft [⟨first.1.word, first.2.toString⟩]
      have hone : ∀ binding : Binding, itemsNesting [binding.toValue] = 1 := fun _ => rfl
      simp only [List.map_cons, List.map_nil, hone] at hquantified ⊢
      exact hquantified.le.trans (Nat.succ_le_succ (max_le_max (Nat.le_refl _) hbody))
    -- bindings side by side would become quantifiers one inside the other
    | cons => simp at hsingly

mutual

theorem depth_of_accept : ∀ {f : Formula} {g : ProofSheet.Formula}, f.BindsSingly →
    f.accept = .ok g → depth g ≤ f.toValue.nesting
  | .letter symbol, g, _, h => by
    rw [Formula.accept] at h
    obtain ⟨_, _, rfl⟩ := exists_of_map_eq_ok h
    exact Nat.le_refl _
  | .predicate name args, g, hsingly, h => by
    rw [Formula.accept] at h
    obtain ⟨_, _, h⟩ := bind_eq_ok h
    obtain ⟨args', hargs, h⟩ := bind_eq_ok h
    cases h
    have := nesting_drafts_le.mpr (depths_of_acceptAll hsingly hargs)
    rw [depth, ProofSheet.Formula.draft, nesting_predicate, nesting_predicate]
    omega
  | .junction conjunction juncts, g, hsingly, h => by
    obtain ⟨gs, hgs, _, rfl⟩ := accept_junction h
    have hjuncts := depths_of_acceptAll hsingly hgs
    rw [depth, ProofSheet.Formula.junctionOf, ProofSheet.Formula.draft, nesting_junction,
      nesting_junction]
    refine Nat.add_le_add_right (nesting_drafts_le.mpr fun junct hjunct => ?_) 2
    obtain ⟨g, hg, hjunct⟩ := List.mem_flatMap.mp hjunct
    exact (depth_junctsUnder_le hjunct).trans (hjuncts g hg)
  | .conditional a b, g, hsingly, h => by
    rw [Formula.accept] at h
    obtain ⟨a', ha, h⟩ := bind_eq_ok h
    obtain ⟨b', hb, h⟩ := bind_eq_ok h
    cases h
    rw [depth, ProofSheet.Formula.draft, nesting_conditional, nesting_conditional]
    exact Nat.succ_le_succ
      (max_le_max (depth_of_accept hsingly.1 ha) (depth_of_accept hsingly.2 hb))
  | .biconditional a b, g, hsingly, h => by
    rw [Formula.accept] at h
    obtain ⟨a', ha, h⟩ := bind_eq_ok h
    obtain ⟨b', hb, h⟩ := bind_eq_ok h
    cases h
    rw [depth, ProofSheet.Formula.draft, nesting_biconditional, nesting_biconditional]
    exact Nat.succ_le_succ
      (max_le_max (depth_of_accept hsingly.1 ha) (depth_of_accept hsingly.2 hb))
  | .negation inner, g, hsingly, h => by
    rw [Formula.accept] at h
    obtain ⟨inner', hinner, rfl⟩ := exists_of_map_eq_ok h
    rw [depth, ProofSheet.Formula.draft, nesting_negation, nesting_negation]
    have hdepth := depth_of_accept (f := inner) hsingly hinner
    exact Nat.succ_le_succ hdepth
  | .quantified bindings body, g, hsingly, h => by
    rw [Formula.accept] at h
    obtain ⟨bindings', hbindings, h⟩ := bind_eq_ok h
    obtain ⟨body', hbody, h⟩ := bind_eq_ok h
    cases h
    rw [nesting_quantified]
    exact depth_quantify_le hbindings hsingly.1 (depth_of_accept hsingly.2 hbody)
  | .identity a b equal, g, hsingly, h => by
    rw [Formula.accept] at h
    obtain ⟨a', ha, h⟩ := bind_eq_ok h
    obtain ⟨b', hb, h⟩ := bind_eq_ok h
    cases h
    rw [depth, ProofSheet.Formula.draft, nesting_identity, nesting_identity]
    exact Nat.succ_le_succ
      (max_le_max (depth_of_accept hsingly.1 ha) (depth_of_accept hsingly.2 hb))

theorem depths_of_acceptAll : ∀ {fs : List Formula} {gs : List ProofSheet.Formula},
    Formula.AllBindSingly fs → Formula.acceptAll fs = .ok gs →
    ∀ g ∈ gs, depth g ≤ itemsNesting (Formula.toValues fs)
  | [], gs, _, h => by
    cases h
    simp
  | f :: fs, gs, hsingly, h => by
    rw [Formula.acceptAll] at h
    obtain ⟨g, hg, h⟩ := bind_eq_ok h
    obtain ⟨gs', hgs, h⟩ := bind_eq_ok h
    cases h
    have hfirst := depth_of_accept hsingly.1 hg
    have hrest := depths_of_acceptAll hsingly.2 hgs
    rw [Formula.toValues, itemsNesting]
    exact List.forall_mem_cons.mpr ⟨hfirst.trans (Nat.le_max_left _ _),
      fun g' hg' => (hrest g' hg').trans (Nat.le_max_right _ _)⟩

end

theorem nesting_rule_of_accept {rule : Rule} {accepted : ProofSheet.Rule}
    (h : rule.accept = .ok accepted) : accepted.draft.toValue.nesting ≤ rule.toValue.nesting := by
  refine nesting_rule_le fun labels hlabels => ?_
  have hlines := (rule_of_accept h).2.lines labels hlabels
  have hmem : ("lines", Value.nats labels) ∈ present "lines" Value.nats rule.lines := by
    simp [hlines, present]
  have hnesting := membersNesting_le.mp (Nat.le_refl _) _
    (List.mem_append_left (present "variable" Value.string rule.instantial)
      (List.mem_append_left (present "discharged" Value.nat rule.discharged)
        (List.mem_append_right (("name", .string rule.name) :: present "line" Value.nat rule.line)
          hmem)))
  exact Nat.lt_of_lt_of_le (Nat.succ_pos _) hnesting

theorem nesting_line_of_accept {line : Line} {accepted : ProofSheet.Line}
    (hsingly : ∀ label deps formula rule, line = .logic label deps formula rule → formula.BindsSingly)
    (h : line.accept = .ok accepted) : accepted.draft.toValue.nesting ≤ line.toValue.nesting := by
  cases line with
  | text content =>
    cases h
    exact Nat.le_refl _
  | logic label deps formula rule =>
    obtain ⟨formula', hformula, h⟩ := bind_eq_ok h
    obtain ⟨rule', hrule, h⟩ := bind_eq_ok h
    cases h
    rw [ProofSheet.Line.draft, nesting_logic, nesting_logic]
    exact Nat.succ_le_succ (max_le_max
      (depth_of_accept (hsingly label deps formula rule rfl) hformula) (nesting_rule_of_accept hrule))

/-- **A sheet is written no deeper than a draft from which it was accepted**, if each quantifier of
that draft binds at most one symbol. -/
theorem nesting_of_accept {draft : Document} {document : ProofSheet.Document}
    (hsingly : draft.BindsSingly) (h : draft.accept = .ok document) :
    document.draft.toValue.nesting ≤ draft.toValue.nesting := by
  obtain ⟨lines, hlines, rfl⟩ := exists_of_map_eq_ok h
  have hitems : itemsNesting ((lines.map ProofSheet.Line.draft).map Line.toValue) ≤
      itemsNesting (draft.lines.map Line.toValue) := by
    refine itemsNesting_le.mpr fun item hitem => ?_
    rw [List.map_map] at hitem
    obtain ⟨line, hline, rfl⟩ := List.mem_map.mp hitem
    obtain ⟨source, hsource, haccept⟩ := exists_of_mem_acceptLines hlines line hline
    have hnesting := nesting_line_of_accept
      (fun label deps formula rule heq => hsingly label deps formula rule (heq ▸ hsource)) haccept
    exact hnesting.trans
      (itemsNesting_le.mp (Nat.le_refl _) _ (List.mem_map_of_mem (f := Line.toValue) hsource))
  simp only [ProofSheet.Document.draft, Document.toValue, Value.nesting, membersNesting]
  omega

end Draft

end ProofSheet
