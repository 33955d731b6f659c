import ProofSheet.Proofs.Check.Accepted
import ProofSheet.Proofs.Labels.Canonical

/-!
# Labels that lead to lines

In a renumbered sheet every label that a line names leads to a logic line, so the refusal for a label that
does not is never given. It can be told from the other refusals by its wording.

* `View.Leads`: a label leads to a logic line, and to its scope.
* `Document.leads_of_named`: **every label that a line of a renumbered sheet names leads to its line.**
* `Check.unresolved`: the refusal that is never given.
* `Check.judge_resolves`: **a line whose labels lead to lines is not refused for a label.**
* `Check.universalGeneralizationOr_eq`, `Check.existentialGeneralizationOr_eq`: **a generalization never
  lacks a candidate** once its letters have been assigned.
-/

namespace ProofSheet

/-! ## Labels of a renumbered sheet -/

/-- **A label leads to a logic line**, which has that label, and to the scope of its formula. -/
def View.Leads (view : View) (label : Label) : Prop :=
  ∃ position line, view.index.position? label = some position ∧
    view.lines[position]? = some (.logic line) ∧ line.label = label ∧
    view.logic? label = some line ∧ view.scope? label = some line.formula.scope

namespace Document

variable {document : Document} {limit : Label} {memory : Memory} {index : LineIndex}

/-- The label of a line of a renumbered sheet leads to it. -/
theorem leads_of_designates (h : (document.renumber limit).outcome = .ok index) (settings : Settings)
    {label : Label} {position : Nat}
    (hlabel : (document.renumber limit).document.Designates label position) :
    ((document.renumber limit).document.view memory index settings).Leads label := by
  have hwell := wellLabelled_of_renumber h
  rw [hwell.renumber] at h hlabel ⊢
  obtain rfl : document.numberedIndex = index := Except.ok.inj h
  obtain ⟨line, hline, rfl⟩ := hlabel
  have hposition := (canonical_numbered hwell).position hline
  have hlogic :
      (document.numbered.view memory document.numberedIndex settings).logic? line.label = some line :=
    View.logic?_eq_some.mpr ⟨position, hposition, hline⟩
  have hscope :=
    @View.scope?_eq (document.numbered.view memory document.numberedIndex settings) rfl line.label
  rw [hlogic] at hscope
  exact ⟨position, line, hposition, hline, rfl, hlogic, hscope⟩

/-- **Every label that a line of a renumbered sheet names leads to a line.** -/
theorem leads_of_named (h : (document.renumber limit).outcome = .ok index) (settings : Settings)
    {line : LogicLine} (hline : Line.logic line ∈ (document.renumber limit).document.lines) {l : Label}
    (hl : l ∈ line.named) :
    ((document.renumber limit).document.view memory index settings).Leads l := by
  have hwell := wellLabelled_of_renumber h
  have hnumbered : document.numbered.WellLabelled document.length :=
    wellLabelled_of_renumber (congrArg Renumbering.outcome (renumber_numbered hwell (Nat.le_refl _)))
  have hdocument : (document.renumber limit).document = document.numbered :=
    congrArg Renumbering.document hwell.renumber
  obtain ⟨position, hposition⟩ := hnumbered.resolved line (hdocument ▸ hline) l hl
  exact leads_of_designates h settings (hdocument ▸ hposition)

end Document

namespace Check

/-! ## The refusal of a label -/

/-- The refusal of a label that leads to no logic line. -/
def unresolved (label : Label) : Flag :=
  .incorrect (Wording.lineNumber label ++ " is not a logic line.")

/-- Whether a text begins with the number of a line. -/
def startsWithNumber (text : String) : Bool :=
  text.toList[0]? == some '(' && text.toList[1]?.any Char.isDigit

theorem startsWithNumber_lineNumber (label : Label) (text : String) :
    startsWithNumber (Wording.lineNumber label ++ text) = true := by
  obtain ⟨d, ds, hdigits⟩ := List.exists_cons_of_ne_nil (@Nat.toDigits_ne_nil label 10)
  have hd : d.isDigit = true :=
    Nat.isDigit_of_mem_toDigits (by omega) (by omega) (hdigits ▸ List.mem_cons_self)
  rw [startsWithNumber, Wording.lineNumber, Nat.toString_eq_ofList_toDigits, hdigits]
  simp [hd]

/-- A text with a beginning that is not the number of a line. -/
abbrev Worded (text : String) : Prop :=
  2 ≤ text.toList.length ∧ startsWithNumber text = false

/-- A text that is written out is looked at as its list of letters. -/
theorem worded_ofList {a b : Char} {rest : List Char} (h : (a == '(' && b.isDigit) = false) :
    Worded (String.ofList (a :: b :: rest)) := by
  have hlist : (String.ofList (a :: b :: rest)).toList = a :: b :: rest := String.toList_ofList
  rw [Worded, startsWithNumber, hlist]
  refine ⟨?_, ?_⟩
  · simp
  · simpa using h

/-- However a text goes on, it begins as it begins. -/
theorem Worded.append {s t : String} (h : Worded s) : Worded (s ++ t) := by
  obtain ⟨hlength, hstart⟩ := h
  have hsame : startsWithNumber (s ++ t) = startsWithNumber s := by
    rw [startsWithNumber, startsWithNumber, String.toList_append,
      List.getElem?_append_left (by omega), List.getElem?_append_left (by omega)]
  refine ⟨?_, hsame.trans hstart⟩
  rw [String.toList_append, List.length_append]
  omega

/-- Letters are not the number of a line, whatever the letters are. -/
theorem worded_letters (letters : List Symbol) :
    Worded (Wording.letters letters ++ " must not be free in any premise. ") := by
  rw [Worded, startsWithNumber, Wording.letters, Wording.listed, String.toList_append,
    String.toList_intercalate]
  match letters with
  | [] | [a] | a :: b :: letters => simp

/-- Nor is one letter with a blank after it. -/
theorem worded_letter (a : Symbol) (rest : List Char) :
    Worded (a.toString ++ String.ofList (' ' :: rest)) := by
  rw [Worded, startsWithNumber, String.toList_append, String.toList_ofList]
  simp

variable {view : View} {line : LogicLine}

/-! ## Refusals for other reasons -/

/-- **A computation does not end in the refusal of a label.** -/
def Resolves {α : Type} : Except (List Flag) α → Prop
  | .ok _ => True
  | .error flags => ∀ flag ∈ flags, ∀ label, flag ≠ unresolved label

theorem ne_unresolved_of_kind {flag : Flag} (h : flag.kind ≠ .incorrect) (label : Label) :
    flag ≠ unresolved label :=
  fun heq => h (congrArg Flag.kind heq)

theorem ne_unresolved_of_worded {text : String} (h : Worded text) (label : Label) :
    Flag.incorrect text ≠ unresolved label := by
  intro heq
  have htext : text = Wording.lineNumber label ++ " is not a logic line." :=
    Option.some.inj (congrArg Flag.text heq)
  have hstart := h.2
  rw [htext, startsWithNumber_lineNumber] at hstart
  cases hstart

/-- The refusal of a discharge begins with the number of a line too, and ends otherwise. -/
theorem ne_unresolved_of_discharge (cited discharged label : Label) :
    Flag.incorrect (Wording.lineNumber cited ++ " must have premise " ++ Wording.premise discharged ++
      " to invoke D.") ≠ unresolved label := by
  intro heq
  have htext : Wording.lineNumber cited ++ " must have premise " ++ Wording.premise discharged ++
      " to invoke D." = Wording.lineNumber label ++ " is not a logic line." :=
    Option.some.inj (congrArg Flag.text heq)
  have hend := congrArg (fun text : String => text.toList.reverse[1]?) htext
  simp at hend

theorem premises_ne_unresolved {expected actual : List Label} :
    ∀ flag ∈ Premises.flags expected actual, ∀ label, flag ≠ unresolved label := by
  intro flag hflag
  apply ne_unresolved_of_kind
  unfold Premises.flags at hflag
  rcases List.mem_append.mp hflag with hflag | hflag
  · split at hflag
    · simp at hflag
    · rw [List.mem_singleton.mp hflag]
      nofun
  · split at hflag
    · simp at hflag
    · rw [List.mem_singleton.mp hflag]
      nofun

namespace Resolves

variable {α β : Type}

theorem refuse {text : String} (h : Worded text) :
    Resolves (α := α) (ProofSheet.refuse text) := by
  intro flag hflag
  rw [List.mem_singleton.mp hflag]
  exact ne_unresolved_of_worded h

theorem bind {x : Except (List Flag) β} {f : β → Except (List Flag) α} (hx : Resolves x)
    (hf : ∀ b, x = .ok b → Resolves (f b)) : Resolves (x >>= f) := by
  cases x with
  | error flags => exact hx
  | ok b => exact hf b rfl

theorem ite {c : Prop} [Decidable c] {x y : Except (List Flag) α} (hx : Resolves x) (hy : Resolves y) :
    Resolves (if c then x else y) := by
  split
  · exact hx
  · exact hy

theorem ite_throw {flags : List Flag} {k : β → Except (List Flag) α} {x : Except (List Flag) α}
    (hflags : ∀ flag ∈ flags, ∀ label, flag ≠ unresolved label) (hx : Resolves x) :
    Resolves (if (!flags.isEmpty) = true then throw flags >>= k else x) := by
  split
  · exact hflags
  · exact hx

/-- A label that leads to a line is not refused. -/
theorem cited {label : Label} (h : view.Leads label) : Resolves (view.cited label) := by
  obtain ⟨-, other, -, -, -, hlogic, -⟩ := h
  rw [View.cited, hlogic]
  trivial

theorem premises (expected actual : List Label) : Resolves (Premises.check expected actual) := by
  unfold Premises.check
  simp only
  split
  · trivial
  · exact premises_ne_unresolved

end Resolves

/-! ## One lemma for each checker -/

theorem discharge_resolves {cited discharged : Label} (hcited : view.Leads cited)
    (hdischarged : view.Leads discharged) : Resolves (discharge view line cited discharged) := by
  refine (Resolves.cited hcited).bind fun consequent _ => Resolves.ite_throw ?_ ?_
  · intro flag hflag
    rcases List.mem_append.mp hflag with hflag | hflag
    · exact premises_ne_unresolved flag hflag
    · split at hflag
      · simp at hflag
      · rw [List.mem_singleton.mp hflag]
        exact ne_unresolved_of_discharge cited discharged
  · refine (Resolves.cited hdischarged).bind fun antecedent _ => Resolves.ite trivial ?_
    exact Resolves.refuse (Worded.append (worded_ofList rfl))

theorem citedLines_resolves : ∀ {cited : List Label}, (∀ l ∈ cited, view.Leads l) →
    Resolves (citedLines view cited)
  | [], _ => trivial
  | label :: labels, h => by
    rw [List.forall_mem_cons] at h
    exact (Resolves.cited h.1).bind fun _ _ => (citedLines_resolves h.2).bind fun _ _ => trivial

/-- The solver warns, and calls nothing incorrect. -/
theorem solve_kind_ne_incorrect (premises : List Object) (goal : Object) (depth : Nat) :
    (Solver.solve premises goal depth).kind ≠ .incorrect := by
  unfold Solver.solve
  split
  · decide
  · cases Solver.outcome premises goal depth <;> decide

theorem truthFunctional_resolves {cited : List Label} (h : ∀ l ∈ cited, view.Leads l) :
    Resolves (truthFunctional view line cited) := by
  refine (citedLines_resolves h).bind fun lines _ => (Resolves.premises _ _).bind fun _ _ => ?_
  simp only
  split
  · trivial
  · intro flag hflag
    rw [List.mem_singleton.mp hflag]
    exact ne_unresolved_of_kind (solve_kind_ne_incorrect _ _ _)

/-- Why quantifiers do not answer each other. -/
theorem worded_of_oppositeRuns : ∀ {outer inner : Object} {text : String},
    oppositeRuns outer inner = .error text → Worded text := by
  intro outer inner
  fun_induction oppositeRuns outer inner with
  | case1 => rintro _ ⟨⟩; exact worded_ofList rfl
  | case2 => rintro _ ⟨⟩; exact worded_ofList rfl
  | case3 q x outer _ q' x' inner _ _ _ ih =>
    intro text h
    cases hrest : oppositeRuns outer inner with
    | error text' =>
      rw [hrest] at h
      cases h
      exact ih hrest
    | ok rest =>
      rw [hrest] at h
      cases h
  | case4 => rintro _ ⟨⟩

theorem worded_of_changed {outer inner : Object} {text : String}
    (h : changed outer inner = .error text) : Worded text := by
  unfold changed at h
  split at h
  · cases hruns : oppositeRuns _ inner with
    | error text' =>
      rw [hruns] at h
      cases h
      exact worded_of_oppositeRuns hruns
    | ok found =>
      obtain ⟨run, outer', inner'⟩ := found
      rw [hruns] at h
      simp only [bind, Except.bind] at h
      split at h
      · cases h
        exact worded_ofList rfl
      · split at h
        · cases h
        · cases h
        · cases h
          exact worded_ofList rfl
  · cases h
    exact worded_ofList rfl

theorem changeOfQuantifier_resolves {cited : Label} (hcited : view.Leads cited) :
    Resolves (changeOfQuantifier view line cited) := by
  refine (Resolves.cited hcited).bind fun source _ => (Resolves.premises _ _).bind fun _ _ => ?_
  simp only
  split
  · rename_i text htext
    apply Resolves.refuse
    split at htext
    · exact worded_of_changed htext
    · exact worded_of_changed htext
  · exact Resolves.ite trivial (Resolves.refuse (worded_ofList rfl))

theorem universalInstantiation_resolves {cited : Label} (hcited : view.Leads cited) :
    Resolves (universalInstantiation view line cited) := by
  refine (Resolves.cited hcited).bind fun source _ => (Resolves.premises _ _).bind fun _ _ => ?_
  refine (Resolves.refuse (worded_ofList rfl)).ite ?_
  split
  · exact Resolves.refuse (Worded.append (Worded.append (worded_ofList rfl)))
  · exact Resolves.ite trivial trivial

/-- Why there is no one-to-one assignment. -/
theorem worded_message (error : LetterMapping.Shortfall) (targets : List Symbol) :
    Worded (error.message targets) := by
  cases error with
  | noSource | incomplete | splitting => exact Worded.append (Worded.append (worded_ofList rfl))

theorem generalizedLetters_resolves {quantifier : Quantifier} {cited : LogicLine} {needed : String}
    (h : Worded needed) :
    Resolves (generalizedLetters quantifier line cited needed) := by
  refine (Resolves.refuse h).ite ?_
  split
  · exact Resolves.refuse (worded_message _ _)
  · trivial

theorem universalGeneralization_resolves {cited : Label} (hcited : view.Leads cited) :
    Resolves (universalGeneralization view line cited) := by
  refine (Resolves.cited hcited).bind fun source _ => (Resolves.premises _ _).bind fun _ _ => ?_
  refine (generalizedLetters_resolves (worded_ofList rfl)).bind fun found _ => ?_
  simp only
  split
  · trivial
  · split
    · exact Resolves.refuse (worded_message _ _)
    · exact Resolves.refuse (worded_letters _).append

theorem existentialGeneralization_resolves {cited : Label} (hcited : view.Leads cited) :
    Resolves (existentialGeneralization view line cited) := by
  refine (Resolves.cited hcited).bind fun source _ => (Resolves.premises _ _).bind fun _ _ => ?_
  refine (generalizedLetters_resolves (worded_ofList rfl)).bind fun found _ => ?_
  simp only
  split
  · trivial
  · exact Resolves.refuse (worded_message _ _)

theorem instanceIntroduction_resolves {cited : Label} {instantial : Symbol}
    (hcited : view.Leads cited) :
    Resolves (instanceIntroduction view line cited instantial) := by
  refine (Resolves.cited hcited).bind fun source _ => (Resolves.premises _ _).bind fun _ _ => ?_
  simp only
  split
  · have hletter : Worded (instantial.toString ++
        " must not be free in any line up to and including ") := worded_letter instantial _
    exact (Resolves.refuse hletter.append.append.append).ite
      (Resolves.ite trivial (Resolves.refuse (Worded.append (worded_ofList rfl))))
  · exact Resolves.refuse (worded_ofList rfl)

theorem instanceElimination_resolves {cited discharged : Label} (hcited : view.Leads cited)
    (hdischarged : view.Leads discharged) :
    Resolves (instanceElimination view line cited discharged) := by
  refine (Resolves.cited hcited).bind fun source _ => (Resolves.premises _ _).bind fun _ _ => ?_
  refine (Resolves.cited hdischarged).bind fun introduction _ => ?_
  have hpremise : ∀ {text : String}, Worded ("The discharged premise " ++ text) :=
    Worded.append (worded_ofList rfl)
  have hcitedLine : ∀ {text : String}, Worded ("The cited line " ++ text) := Worded.append (worded_ofList rfl)
  have hexpression : ∀ {text : String}, Worded ("The expression must be the same as in " ++ text) :=
    Worded.append (worded_ofList rfl)
  simp only
  split
  · rename_i instantial _
    have hletter : Worded (instantial.toString ++ " must not be free in any premise of this line. ") :=
      worded_letter instantial _
    exact (Resolves.refuse hcitedLine.append.append.append).ite
      ((Resolves.refuse hletter.append).ite
        (Resolves.ite trivial (Resolves.refuse hexpression.append.append)))
  · exact Resolves.refuse hpremise.append

/-- **A line whose labels lead to lines is not refused for a label.** -/
theorem judge_resolves (hcited : ∀ l ∈ line.rule.citations, view.Leads l)
    (hdischarged : ∀ l, line.rule.discharged? = some l → view.Leads l) :
    Resolves (judge view line) := by
  unfold judge
  cases hrule : line.rule with
  | premise => exact (Resolves.premises _ _).bind fun _ _ => trivial
  | unrecognized name =>
    intro flag hflag
    rw [List.mem_singleton.mp hflag]
    exact ne_unresolved_of_kind nofun
  | discharge cited discharged =>
    rw [hrule] at hcited hdischarged
    exact discharge_resolves (hcited _ (List.mem_singleton_self _)) (hdischarged _ rfl)
  | truthFunctional cited =>
    rw [hrule] at hcited
    exact truthFunctional_resolves hcited
  | changeOfQuantifier cited =>
    rw [hrule] at hcited
    exact changeOfQuantifier_resolves (hcited _ (List.mem_singleton_self _))
  | universalInstantiation cited =>
    rw [hrule] at hcited
    exact universalInstantiation_resolves (hcited _ (List.mem_singleton_self _))
  | universalGeneralization cited =>
    rw [hrule] at hcited
    exact universalGeneralization_resolves (hcited _ (List.mem_singleton_self _))
  | existentialGeneralization cited =>
    rw [hrule] at hcited
    exact existentialGeneralization_resolves (hcited _ (List.mem_singleton_self _))
  | instanceIntroduction cited instantial =>
    rw [hrule] at hcited
    exact instanceIntroduction_resolves (hcited _ (List.mem_singleton_self _))
  | instanceElimination cited discharged =>
    rw [hrule] at hcited hdischarged
    exact instanceElimination_resolves (hcited _ (List.mem_singleton_self _)) (hdischarged _ rfl)

/-! ## Generalizations without a candidate -/

/-- UG with something else in place of its refusal for want of a candidate. -/
def universalGeneralizationOr (other : Judgement) (view : View) (line : LogicLine) (cited : Label) :
    Judgement := do
  let cited ← view.cited cited
  Premises.check cited.deps line.deps
  let (letters, candidates) ←
    generalizedLetters .universal line cited "UG requires adding a universal quantification."
  match candidates.find? fun candidate => (view.freeIn line.deps candidate).isEmpty with
  | some candidate => return assignmentFlag candidate letters
  | none =>
    match candidates with
    | [] => other
    | first :: _ =>
      refuse (Wording.letters first ++ " must not be free in any premise. " ++
        Wording.freeLetters (view.freeIn line.deps first))

/-- EG with something else in place of its refusal for want of a candidate. -/
def existentialGeneralizationOr (other : Judgement) (view : View) (line : LogicLine) (cited : Label) :
    Judgement := do
  let cited ← view.cited cited
  Premises.check cited.deps line.deps
  let (letters, candidates) ←
    generalizedLetters .existential line cited
      "EG requires adding an existential quantification."
  match candidates with
  | candidate :: _ => return assignmentFlag candidate letters
  | [] => other

/-- A search for one-to-one mappings that succeeds has found one. -/
theorem oneOne_ne_nil {template sample : Formula} {targets : List Symbol}
    {candidates : List (List Symbol)} (h : template.oneOne sample targets = .ok candidates) :
    candidates ≠ [] := by
  unfold Formula.oneOne at h
  simp only at h
  split at h
  · cases h
  · split at h
    · cases h
    · split at h
      · cases h
      · rename_i hinjective
        rw [← Except.ok.inj h]
        exact fun hnil => hinjective (List.isEmpty_iff.mpr hnil)

theorem candidates_ne_nil {quantifier : Quantifier} {cited : LogicLine} {needed : String}
    {letters : List Symbol} {candidates : List (List Symbol)}
    (h : generalizedLetters quantifier line cited needed = .ok (letters, candidates)) :
    candidates ≠ [] := by
  unfold generalizedLetters at h
  simp only at h
  split at h
  · cases h
  · split at h
    · cases h
    · rename_i found hfound
      cases h
      exact oneOne_ne_nil hfound

/-- Two computations that go on alike from every result are alike. -/
theorem bind_congr_ok {α β : Type} {x : Except (List Flag) α} {f g : α → Except (List Flag) β}
    (h : ∀ a, x = .ok a → f a = g a) : (x >>= f) = (x >>= g) := by
  cases x with
  | error flags => rfl
  | ok a => exact h a rfl

/-- **UG never lacks a candidate**: what would be done for want of one does not matter. -/
theorem universalGeneralizationOr_eq (other : Judgement) (cited : Label) :
    universalGeneralizationOr other view line cited = universalGeneralization view line cited := by
  refine bind_congr_ok fun source _ => bind_congr_ok fun _ _ => bind_congr_ok fun found hfound => ?_
  obtain ⟨letters, candidates⟩ := found
  obtain ⟨first, rest, hcandidates⟩ := List.exists_cons_of_ne_nil (candidates_ne_nil hfound)
  subst hcandidates
  rfl

/-- **EG never lacks a candidate.** -/
theorem existentialGeneralizationOr_eq (other : Judgement) (cited : Label) :
    existentialGeneralizationOr other view line cited = existentialGeneralization view line cited := by
  refine bind_congr_ok fun source _ => bind_congr_ok fun _ _ => bind_congr_ok fun found hfound => ?_
  obtain ⟨letters, candidates⟩ := found
  obtain ⟨first, rest, hcandidates⟩ := List.exists_cons_of_ne_nil (candidates_ne_nil hfound)
  subst hcandidates
  rfl

end Check

end ProofSheet
