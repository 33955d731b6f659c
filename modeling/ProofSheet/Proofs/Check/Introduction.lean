import ProofSheet.Proofs.Check.Accepted
import ProofSheet.Proofs.Formula.Capture
import ProofSheet.Proofs.Object.Freshness

/-!
# What an instance asserts

EII puts its letter in the place of the quantified one by substitution, which does not look at scopes. The
letter is free in no line so far; but a quantifier inside the formula may bind it all the same, and then it
is captured there.

* `Check.Introduced`: **what an accepted instance asserts**, and what it asserts where nothing is captured.
* `Check.instanceIntroduction_introduced`: every accepted instance asserts this.
* `Check.instanceIntroduction_captures`: an accepted instance whose letter is captured.
-/

namespace ProofSheet.Check

open Formula (Alike Built CaptureFree IsInstance rebindings rebuilt replaceFree)

/-- **What an accepted instance asserts** of what stands under the quantifier: this, with the letter put in
the place of the quantified one wherever that is free. No other letters are free in it. Where no quantifier
captures the letter, it is an instance, and has each of these letters free. -/
structure Introduced (x a : Symbol) (body asserted : Formula) : Prop where
  rebuilt : Alike false (replaceFree [x] [a] [] body).rebuilt asserted
  replaced : Built body → Alike false (replaceFree [x] [a] [] body) asserted
  free_subset : ∀ s ∈ asserted.scope.free, ∃ t ∈ body.scope.free, assigned [x] [a] t = s
  isInstance : Built body → CaptureFree [x] [a] [] body → IsInstance [x] [a] body asserted
  free_eq : CaptureFree [x] [a] [] body →
    asserted.scope.free = Ascending.ofList (body.scope.free.map (assigned [x] [a]))

/-- The letters left free come with the letters that were free. -/
theorem Introduced.of_rebuilt {x a : Symbol} {body asserted : Formula}
    (h : Alike false (replaceFree [x] [a] [] body).rebuilt asserted) :
    Introduced x a body asserted := by
  have hliteral : Built body → Alike false (replaceFree [x] [a] [] body) asserted :=
    fun hbuilt => hbuilt.rebuilt_replaceFree ▸ h
  have hfree : ∀ s, s ∈ asserted.scope.free ↔ Formula.FreeIn s (replaceFree [x] [a] [] body) := by
    intro s
    rw [← Object.free_eq_of_formulas h, Formula.mem_scope_free, Formula.freeIn_rebuilt]
  refine ⟨h, hliteral, ?_, fun hbuilt hcapture => ⟨hcapture, hliteral hbuilt⟩, ?_⟩
  · intro s hs
    obtain ⟨t, -, ht, hts⟩ :=
      Formula.exists_freeIn_of_replaceFree List.not_mem_nil ((hfree s).mp hs)
    exact ⟨t, Formula.mem_scope_free.mpr ht, hts⟩
  · intro hcapture
    apply Ascending.eq_of_mem_iff (Formula.scope_free_ascending _) (Ascending.ofList_ascending _)
    intro s
    rw [hfree, Formula.freeIn_replaceFree hcapture, Ascending.mem_ofList, List.mem_map]
    exact exists_congr fun t => and_congr_left' Formula.mem_scope_free.symm

/-- **Every instance that EII accepts asserts this**, if no quantifier of the cited formula stands inside
the scope of another over the same letter. -/
theorem instanceIntroduction_introduced (view : View) (line : LogicLine) (cited : Label) (a : Symbol)
    (flag : Flag) (h : instanceIntroduction view line cited a = .ok flag) :
    ∃ source x body, view.logic? cited = some source ∧
      source.formula = .quantified .existential x body ∧
      (rebindings [] source.formula = [] → Introduced x a body line.formula) := by
  obtain ⟨source, x, body, hsource, -, hformula, -, halike⟩ := instanceIntroduction_ok h
  refine ⟨source, x, body, hsource, hformula, fun hfresh => ?_⟩
  rw [hformula, Formula.rebindings_quantified_eq_nil] at hfresh
  have hbinders : ∀ y ∈ [x], y ∉ Formula.binders body := by
    intro y hy
    obtain rfl := List.mem_singleton.mp hy
    exact Formula.not_mem_binders List.mem_cons_self hfresh.2
  have hletters : Formula.withLetters [x] [a] body = (replaceFree [x] [a] [] body).rebuilt :=
    Formula.withLetters_eq_rebuilt (fun _ _ => List.not_mem_nil) hbinders
  exact .of_rebuilt (hletters ▸ halike)

/-- `(∃x)(Fx ∧ (∃y)Rxy)`, from a premise. -/
def witnessedSource : LogicLine :=
  ⟨0, [0], .quantified .existential 'x' (.junctionOf .conjunction
    [.predicate 'F' [.letter 'x'],
      .quantified .existential 'y' (.predicate 'R' [.letter 'x', .letter 'y'])]), .premise⟩

/-- `(∃z)Raz ∧ Fa`, by EII from it. -/
def witnessedInstance : LogicLine :=
  ⟨1, [0, 1], .junctionOf .conjunction
    [.quantified .existential 'z' (.predicate 'R' [.letter 'a', .letter 'z']),
      .predicate 'F' [.letter 'a']], .instanceIntroduction 0 'a'⟩

/-- The instance has the letter `a` free, which replaces `x`, and no other. -/
theorem instanceIntroduction_introduced_witnessed :
    instanceIntroduction
        (Document.view ⟨[.logic witnessedSource, .logic witnessedInstance]⟩ .apart ⟨[0, 1]⟩ .standard)
        witnessedInstance 0 'a' = .ok .good ∧
      witnessedInstance.formula.scope.free = Ascending.ofList (['x'].map (assigned ['x'] ['a'])) := by
  have haccepted : instanceIntroduction
      (Document.view ⟨[.logic witnessedSource, .logic witnessedInstance]⟩ .apart ⟨[0, 1]⟩ .standard)
      witnessedInstance 0 'a' = .ok .good := rfl
  refine ⟨haccepted, ?_⟩
  obtain ⟨source, x, body, hsource, hformula, hintroduced⟩ :=
    instanceIntroduction_introduced _ _ _ _ _ haccepted
  obtain rfl : witnessedSource = source := Option.some.inj hsource
  obtain ⟨-, rfl, rfl⟩ := Formula.quantified.inj hformula
  refine (hintroduced rfl).free_eq ?_
  simp [Formula.junctionOf, Formula.junctsUnder, CaptureFree, Formula.CaptureFreeAll, assigned,
    List.idxOf?_cons]

/-! ## A letter that is captured -/

/-- `(∃x)(∃a)Fxa`, from a premise. -/
def nestedSource : LogicLine :=
  ⟨0, [0], .quantified .existential 'x'
    (.quantified .existential 'a' (.predicate 'F' [.letter 'x', .letter 'a'])), .premise⟩

/-- `(∃a)Faa`, by EII from it. -/
def capturedInstance : LogicLine :=
  ⟨1, [0, 1], .quantified .existential 'a' (.predicate 'F' [.letter 'a', .letter 'a']),
    .instanceIntroduction 0 'a'⟩

/-- **An accepted instance whose letter is captured.** The quantifier over `a` inside `(∃x)(∃a)Fxa` binds the
letter that replaces `x`: this is no instance, and `a` is not free in it, though it replaces a letter that
was. No quantifier stands inside the scope of another over the same letter, and the sheet has a good
report. -/
theorem instanceIntroduction_captures :
    instanceIntroduction
        (Document.view ⟨[.logic nestedSource, .logic capturedInstance]⟩ .apart ⟨[0, 1]⟩ .standard)
        capturedInstance 0 'a' = .ok .good ∧
      rebindings [] nestedSource.formula = [] ∧
      ¬ IsInstance ['x'] ['a'] (.quantified .existential 'a' (.predicate 'F' [.letter 'x', .letter 'a']))
        capturedInstance.formula ∧
      capturedInstance.formula.scope.free = [] ∧
      (Formula.quantified .existential 'a'
        (.predicate 'F' [.letter 'x', .letter 'a'])).scope.free.map (assigned ['x'] ['a']) = ['a'] ∧
      ({} : Session).verdict? ⟨[.logic nestedSource, .logic capturedInstance]⟩ .apart =
        some .good := by
  refine ⟨rfl, rfl, fun h => ?_, by decide, by decide, rfl⟩
  simp [IsInstance, CaptureFree, Formula.CaptureFreeAll, assigned, List.idxOf?_cons] at h

end ProofSheet.Check
