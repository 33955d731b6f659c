import Mathlib.Data.List.Forall2
import ProofSheet.Check.Line
import ProofSheet.Proofs.Check.Premises
import ProofSheet.Proofs.Object.Sharing

/-!
# What a judgement says

One lemma for each checker: what it found of a line that it accepts. And for all of them together: an
accepted line has a good flag, and a refusal names problems.

* `Check.premise_ok`, `Check.discharge_ok`, `Check.truthFunctional_ok`,
  `Check.instanceIntroduction_ok`, `Check.instanceElimination_ok`: accepted lines, rule by rule.
* `Check.judge_ends`: **each line is accepted with a flag `good`, or refused with problems only**, and
  not without one.
-/

namespace ProofSheet

theorem bind_eq_ok {ε α β : Type} {x : Except ε α} {f : α → Except ε β} {b : β}
    (h : (x >>= f) = .ok b) : ∃ a, x = .ok a ∧ f a = .ok b := by
  cases x with
  | error e => cases h
  | ok a => exact ⟨a, rfl, h⟩

section Tests

variable {c : Prop} [Decidable c] {α : Type} {a : α} {x : Except (List Flag) α} {text : String}

/-- A test that throws when it is met was not met. -/
theorem not_of_ite_throw {β : Type} {flags : List Flag} {k : β → Except (List Flag) α}
    (h : (if c then throw flags >>= k else x) = .ok a) : ¬ c ∧ x = .ok a := by
  split at h
  · cases h
  · exact ⟨‹_›, h⟩

theorem not_of_ite_refuse (h : (if c then refuse text else x) = .ok a) : ¬ c ∧ x = .ok a := by
  split at h
  · cases h
  · exact ⟨‹_›, h⟩

theorem of_ite_refuse (h : (if c then x else refuse text) = .ok a) : c ∧ x = .ok a := by
  split at h
  · exact ⟨‹_›, h⟩
  · cases h

end Tests

/-- What a line asserts is its formula, wherever that lies. -/
@[simp] theorem View.formula_object (view : View) (line : LogicLine) :
    (view.object line).formula = line.formula :=
  Formula.formula_laid _ line.formula

/-- What a formula that is built anew shares with a line is nothing. -/
theorem View.alike_anew_iff {dn : Bool} {view : View} {f : Formula} {line : LogicLine} :
    Object.alike dn f.anew (view.object line) = true ↔ Formula.Alike dn f line.formula :=
  Formula.alike_laid_iff fun _ _ => (Option.some_ne_none _).symm

theorem View.cited_ok {view : View} {label : Label} {line : LogicLine}
    (h : view.cited label = .ok line) : view.logic? label = some line := by
  unfold View.cited at h
  split at h
  · rename_i found hfound
    rw [hfound, Except.ok.inj h]
  · cases h

/-- A line that has the premises of a logic line it cites comes past the comparison of premises. -/
theorem View.cited_bind_check {view : View} {label : Label} {line source : LogicLine}
    {next : LogicLine → Unit → Judgement} (hsource : view.logic? label = some source)
    (hdeps : ∀ l, l ∈ line.deps ↔ l ∈ source.deps) :
    (view.cited label >>= fun source => Premises.check source.deps line.deps >>= next source) =
      next source () := by
  have hcited : view.cited label = .ok source := by rw [View.cited, hsource]
  have hcheck := Premises.check_of_mem_iff hdeps
  rw [hcited]
  show (Premises.check source.deps line.deps >>= next source) = next source ()
  rw [hcheck]
  rfl

/-- No symbol is found in the lines exactly when none is free in any. -/
theorem View.freeIn_isEmpty {view : View} {labels : List Label} {symbols : List Symbol} :
    (view.freeIn labels symbols).isEmpty = true ↔
      ∀ s ∈ symbols, ∀ l ∈ labels, view.isFreeIn s l = false := by
  simp [View.freeIn, List.filter_eq_nil_iff]

theorem Formula.quantifiedBy?_eq_some {q : Quantifier} {f body : Formula} {x : Symbol}
    (h : f.quantifiedBy? q = some (x, body)) : f = .quantified q x body := by
  cases f with
  | quantified q' y inner =>
    simp only [Formula.quantifiedBy?, Option.ite_none_right_eq_some, Option.some.injEq,
      Prod.mk.injEq] at h
    obtain ⟨rfl, rfl, rfl⟩ := h
    rfl
  | _ => simp [Formula.quantifiedBy?] at h

namespace Check

variable {view : View} {line : LogicLine} {flag : Flag}

/-! ## Accepted lines -/

/-- An accepted premise depends on itself alone. -/
theorem premise_ok (h : premise line = .ok flag) (l : Label) : l ∈ line.deps ↔ l = line.label := by
  obtain ⟨u, hu, -⟩ := bind_eq_ok h
  rw [Premises.check_ok hu, List.mem_singleton]

/-- What an accepted discharge says: the cited line depends on the discharged one, and the line is
the conditional from that to the cited line, with the other premises. -/
theorem discharge_ok {cited discharged : Label}
    (h : discharge view line cited discharged = .ok flag) :
    ∃ consequent antecedent, view.logic? cited = some consequent ∧
      view.logic? discharged = some antecedent ∧ discharged ∈ consequent.deps ∧
      (∀ l, l ∈ line.deps ↔ l ∈ consequent.deps ∧ l ≠ discharged) ∧
      Object.alike false (.conditional (view.object antecedent) (view.object consequent))
        (view.object line) = true := by
  obtain ⟨consequent, hconsequent, h⟩ := bind_eq_ok h
  obtain ⟨hflags, h⟩ := not_of_ite_throw h
  obtain ⟨antecedent, hantecedent, h⟩ := bind_eq_ok h
  obtain ⟨halike, -⟩ := of_ite_refuse h
  simp only [Bool.not_eq_true, Bool.not_eq_false', List.isEmpty_iff, List.append_eq_nil_iff] at hflags
  obtain ⟨hdeps, hdischarged⟩ := hflags
  refine ⟨consequent, antecedent, View.cited_ok hconsequent, View.cited_ok hantecedent, ?_, ?_, halike⟩
  · by_contra hnot
    simp [hnot] at hdischarged
  · intro l
    rw [Premises.mem_iff_of_flags hdeps, List.mem_filter, bne_iff_ne]

theorem citedLines_ok : ∀ {cited : List Label} {lines : List LogicLine},
    citedLines view cited = .ok lines →
      List.Forall₂ (fun label line => view.logic? label = some line) cited lines
  | [], lines, h => by
    cases h
    exact .nil
  | label :: labels, lines, h => by
    obtain ⟨line, hline, h⟩ := bind_eq_ok h
    obtain ⟨rest, hrest, h⟩ := bind_eq_ok h
    cases h
    exact .cons (View.cited_ok hline) (citedLines_ok hrest)

/-- What an accepted truth-functional step says: the solver confirms it from the cited lines, whose
premises together are those of the line. -/
theorem truthFunctional_ok {cited : List Label}
    (h : truthFunctional view line cited = .ok flag) :
    ∃ lines, List.Forall₂ (fun label line => view.logic? label = some line) cited lines ∧
      (∀ l, l ∈ line.deps ↔ ∃ other ∈ lines, l ∈ other.deps) ∧
      (Solver.solve (lines.map view.object) (view.object line)
        view.settings.truthFunctionalDepth.value).kind = .good := by
  obtain ⟨lines, hlines, h⟩ := bind_eq_ok h
  obtain ⟨u, hdeps, h⟩ := bind_eq_ok h
  refine ⟨lines, citedLines_ok hlines, fun l => ?_, ?_⟩
  · rw [Premises.check_ok hdeps, List.mem_flatMap]
  · simp only at h
    split at h
    · assumption
    · cases h

/-- What an accepted instance says: the cited line is an existential quantification, the instantial
letter is free in no line up to it, and the line is the body with that letter put in. -/
theorem instanceIntroduction_ok {cited : Label} {instantial : Symbol}
    (h : instanceIntroduction view line cited instantial = .ok flag) :
    ∃ source bound body, view.logic? cited = some source ∧
      (∀ l, l ∈ line.deps ↔ l ∈ source.deps ∨ l = line.label) ∧
      source.formula = .quantified .existential bound body ∧
      (∀ other ∈ view.lines.filterMap Line.logic?, other.label ≤ source.label →
        view.isFreeIn instantial other.label = false) ∧
      Formula.Alike false (body.substitute [bound] [some (.letter instantial)]) line.formula := by
  obtain ⟨source, hsource, h⟩ := bind_eq_ok h
  obtain ⟨u, hdeps, h⟩ := bind_eq_ok h
  simp only at h
  split at h
  · rename_i bound body hbody
    obtain ⟨hfree, h⟩ := not_of_ite_refuse h
    obtain ⟨halike, -⟩ := of_ite_refuse h
    rw [View.alike_anew_iff] at halike
    refine ⟨source, bound, body, View.cited_ok hsource, ?_, ?_, ?_, halike⟩
    · intro l
      rw [Premises.check_ok hdeps, List.mem_append, List.mem_singleton]
    · exact Formula.quantifiedBy?_eq_some hbody
    · intro other hother hle
      simp only [Bool.not_eq_true, Bool.not_eq_false', View.freeIn_isEmpty, List.mem_singleton,
        forall_eq] at hfree
      apply hfree other.label
      rw [List.mem_filter, decide_eq_true_eq]
      exact ⟨List.mem_map_of_mem hother, hle⟩
  · cases h

theorem instantialOf?_eq_some {rule : Rule} {a : Symbol} (h : instantialOf? rule = some a) :
    ∃ cited, rule = .instanceIntroduction cited a := by
  cases rule with
  | instanceIntroduction cited b => exact ⟨cited, by rw [Option.some.inj h]⟩
  | _ => simp [instantialOf?] at h

/-- What an accepted elimination says: the cited line depends on an instance whose letter is free in
no premise that stays, and the line says the same as the cited one. -/
theorem instanceElimination_ok {cited discharged : Label}
    (h : instanceElimination view line cited discharged = .ok flag) :
    ∃ source introduction from_ instantial, view.logic? cited = some source ∧
      view.logic? discharged = some introduction ∧
      introduction.rule = .instanceIntroduction from_ instantial ∧
      discharged ∈ source.deps ∧ (∀ l, l ∈ line.deps ↔ l ∈ source.deps ∧ l ≠ discharged) ∧
      (∀ l ∈ line.deps, view.isFreeIn instantial l = false) ∧
      Object.alike false (view.object source) (view.object line) = true := by
  obtain ⟨source, hsource, h⟩ := bind_eq_ok h
  obtain ⟨u, hdeps, h⟩ := bind_eq_ok h
  obtain ⟨introduction, hintroduction, h⟩ := bind_eq_ok h
  simp only at h
  split at h
  · rename_i instantial hinstantial
    obtain ⟨from_, hrule⟩ := instantialOf?_eq_some hinstantial
    obtain ⟨hdischarged, h⟩ := not_of_ite_refuse h
    obtain ⟨hfree, h⟩ := not_of_ite_refuse h
    obtain ⟨halike, -⟩ := of_ite_refuse h
    simp only [Bool.not_eq_true, Bool.not_eq_false', List.contains_iff_mem] at hdischarged
    simp only [Bool.not_eq_true, Bool.not_eq_false', View.freeIn_isEmpty, List.mem_singleton,
      forall_eq] at hfree
    refine ⟨source, introduction, from_, instantial, View.cited_ok hsource,
      View.cited_ok hintroduction, hrule, hdischarged, fun l => ?_, hfree, halike⟩
    rw [Premises.check_ok hdeps, List.mem_filter, bne_iff_ne]
  · cases h

/-! ## How a judgement ends -/

/-- **A computation ends properly**: with a result as stated, or with a refusal whose flags are all
problems, at least one. -/
def Ends {α : Type} (accepts : α → Prop) : Except (List Flag) α → Prop
  | .ok a => accepts a
  | .error flags => flags ≠ [] ∧ ∀ flag ∈ flags, flag.isProblem = true

/-- A judgement ends properly: an accepted line has a flag of the kind `good`. -/
abbrev EndsWell : Judgement → Prop :=
  Ends fun flag => flag.kind = .good

namespace Ends

variable {α β : Type} {accepts : α → Prop}

theorem refuse (text : String) : Ends accepts (ProofSheet.refuse text) :=
  ⟨List.cons_ne_nil _ _, fun _ hflag => List.mem_singleton.mp hflag ▸ rfl⟩

theorem bind {x : Except (List Flag) β} {f : β → Except (List Flag) α}
    (hx : Ends (fun _ => True) x) (hf : ∀ b, Ends accepts (f b)) : Ends accepts (x >>= f) := by
  cases x with
  | error flags => exact hx
  | ok b => exact hf b

theorem ite {c : Prop} [Decidable c] {x y : Except (List Flag) α} (hx : Ends accepts x)
    (hy : Ends accepts y) : Ends accepts (if c then x else y) := by
  split
  · exact hx
  · exact hy

/-- Flags that are thrown where there are any. -/
theorem ite_throw {flags : List Flag} {k : β → Except (List Flag) α} {x : Except (List Flag) α}
    (hflags : ∀ flag ∈ flags, flag.isProblem = true) (hx : Ends accepts x) :
    Ends accepts (if (!flags.isEmpty) = true then throw flags >>= k else x) := by
  cases flags with
  | nil => exact hx
  | cons flag flags => exact ⟨List.cons_ne_nil _ _, hflags⟩

theorem cited (view : View) (label : Label) : Ends (fun _ => True) (view.cited label) := by
  unfold View.cited
  split
  · trivial
  · exact refuse _

theorem premises (expected actual : List Label) :
    Ends (fun _ => True) (Premises.check expected actual) := by
  unfold Premises.check
  simp only
  split
  · trivial
  · rename_i hne
    exact ⟨by simpa using hne, Premises.flags_isProblem⟩

end Ends

theorem premise_ends : EndsWell (premise line) :=
  (Ends.premises _ _).bind fun _ => rfl

theorem discharge_ends {cited discharged : Label} :
    EndsWell (discharge view line cited discharged) := by
  refine (Ends.cited _ _).bind fun consequent => Ends.ite_throw ?_ ?_
  · intro flag hflag
    rcases List.mem_append.mp hflag with hflag | hflag
    · exact Premises.flags_isProblem flag hflag
    · split at hflag
      · simp at hflag
      · rw [List.mem_singleton.mp hflag]; rfl
  · exact (Ends.cited _ _).bind fun _ => Ends.ite rfl (Ends.refuse _)

theorem citedLines_ends : ∀ cited : List Label, Ends (fun _ => True) (citedLines view cited)
  | [] => trivial
  | _ :: labels => (Ends.cited _ _).bind fun _ => (citedLines_ends labels).bind fun _ => trivial

/-- The solver's flag is good or a problem. -/
theorem solve_isProblem {premises : List Object} {goal : Object} {depth : Nat}
    (h : (Solver.solve premises goal depth).kind ≠ .good) :
    (Solver.solve premises goal depth).isProblem = true := by
  unfold Solver.solve at h ⊢
  split
  · rfl
  · rename_i hpremises
    rw [if_neg hpremises] at h
    cases ho : Solver.outcome premises goal depth with
    | confirmed => simp [ho, Solver.Outcome.flag, Flag.explained] at h
    | exhausted | depthReached => rfl

theorem truthFunctional_ends {cited : List Label} :
    EndsWell (truthFunctional view line cited) := by
  refine (citedLines_ends cited).bind fun lines => (Ends.premises _ _).bind fun _ => ?_
  simp only
  split
  · rename_i hkind
    exact hkind
  · rename_i hkind
    exact ⟨List.cons_ne_nil _ _, fun _ hflag => List.mem_singleton.mp hflag ▸ solve_isProblem hkind⟩

theorem changeOfQuantifier_ends {cited : Label} :
    EndsWell (changeOfQuantifier view line cited) := by
  refine (Ends.cited _ _).bind fun _ => (Ends.premises _ _).bind fun _ => ?_
  simp only
  split
  · exact Ends.refuse _
  · exact Ends.ite rfl (Ends.refuse _)

theorem universalInstantiation_ends {cited : Label} :
    EndsWell (universalInstantiation view line cited) := by
  refine (Ends.cited _ _).bind fun _ => (Ends.premises _ _).bind fun _ => ?_
  refine (Ends.refuse _).ite ?_
  split
  · exact Ends.refuse _
  · exact Ends.ite rfl rfl

theorem generalizedLetters_ends {quantifier : Quantifier} {cited : LogicLine} {needed : String} :
    Ends (fun _ => True) (generalizedLetters quantifier line cited needed) := by
  refine (Ends.refuse _).ite ?_
  split
  · exact Ends.refuse _
  · trivial

theorem universalGeneralization_ends {cited : Label} :
    EndsWell (universalGeneralization view line cited) := by
  refine (Ends.cited _ _).bind fun _ => (Ends.premises _ _).bind fun _ => ?_
  refine generalizedLetters_ends.bind fun _ => ?_
  simp only
  split
  · exact rfl
  · split
    · exact Ends.refuse _
    · exact Ends.refuse _

theorem existentialGeneralization_ends {cited : Label} :
    EndsWell (existentialGeneralization view line cited) := by
  refine (Ends.cited _ _).bind fun _ => (Ends.premises _ _).bind fun _ => ?_
  refine generalizedLetters_ends.bind fun _ => ?_
  simp only
  split
  · exact rfl
  · exact Ends.refuse _

theorem instanceIntroduction_ends {cited : Label} {instantial : Symbol} :
    EndsWell (instanceIntroduction view line cited instantial) := by
  refine (Ends.cited _ _).bind fun _ => (Ends.premises _ _).bind fun _ => ?_
  simp only
  split
  · exact (Ends.refuse _).ite (Ends.ite rfl (Ends.refuse _))
  · exact Ends.refuse _

theorem instanceElimination_ends {cited discharged : Label} :
    EndsWell (instanceElimination view line cited discharged) := by
  refine (Ends.cited _ _).bind fun _ => (Ends.premises _ _).bind fun _ => ?_
  refine (Ends.cited _ _).bind fun _ => ?_
  simp only
  split
  · exact (Ends.refuse _).ite ((Ends.refuse _).ite (Ends.ite rfl (Ends.refuse _)))
  · exact Ends.refuse _

/-- **Each line is accepted with a flag `good`, or refused with problems only.** -/
theorem judge_ends : EndsWell (judge view line) := by
  unfold judge
  split
  · exact premise_ends
  · exact discharge_ends
  · exact truthFunctional_ends
  · exact changeOfQuantifier_ends
  · exact universalInstantiation_ends
  · exact universalGeneralization_ends
  · exact existentialGeneralization_ends
  · exact instanceIntroduction_ends
  · exact instanceElimination_ends
  · exact ⟨List.cons_ne_nil _ _, fun _ hflag => List.mem_singleton.mp hflag ▸ rfl⟩

end Check

end ProofSheet
