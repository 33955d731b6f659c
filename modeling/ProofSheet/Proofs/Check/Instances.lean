import ProofSheet.Proofs.Check.Accepted
import ProofSheet.Proofs.Formula.Replacement
import ProofSheet.Proofs.Mapping.Alignment

/-!
# What instantiation and generalization accept

UI, UG and EG accept a line as soon as some assignment of the quantified letters is found. An
assignment comes from an alignment, which does not compare the letters that are not quantified. So
what they accept has the shape of an instance, and need not be one.

* `Check.Stripped`: the run of quantifiers that a rule takes off.
* `Check.universalInstantiation_ok`, `Check.universalGeneralization_ok`,
  `Check.existentialGeneralization_ok`: accepted lines, rule by rule.
* `Check.accepted_aligned`: **what the three rules accept is aligned**, and it is an instance exactly
  when the letters that are not compared agree too.
* `Check.accepted_without_instance`: accepted lines that are no instances.
-/

namespace ProofSheet.Check

open Formula (Aligned AlignedExactly IsInstance)

/-! ## Runs of quantifiers -/

/-- **A run of quantifiers taken off a formula**: its letters, and what stands under it. The run stops
short of a quantifier over the letter that the other formula begins with. -/
structure Stripped (quantifier : Quantifier) (other whole : Formula) (letters : List Symbol)
    (body : Formula) : Prop where
  run : stripRun quantifier (headBinder quantifier other) whole = (letters, body)
  /-- The run and what stands under it make up the formula. -/
  whole_eq : whole = Formula.quantify (letters.map fun x => (quantifier, x)) body
  nonempty : letters ≠ []

theorem eq_quantify_of_stripRun {quantifier : Quantifier} {stop : Option Symbol} {f : Formula} :
    ∀ {letters : List Symbol} {body : Formula}, stripRun quantifier stop f = (letters, body) →
      f = Formula.quantify (letters.map fun x => (quantifier, x)) body := by
  induction f using Formula.inductionOn with
  | quantified q x inner ih =>
    intro letters body h
    rw [stripRun] at h
    split at h
    · rename_i htest
      simp only [Bool.and_eq_true, decide_eq_true_eq] at htest
      obtain ⟨rfl, rfl⟩ := Prod.mk.inj h
      have hinner := ih (Prod.ext rfl rfl)
      rw [htest.1]
      exact congrArg (Formula.quantified quantifier x) hinner
    · obtain ⟨rfl, rfl⟩ := Prod.mk.inj h
      rfl
  | _ =>
    intro letters body h
    obtain ⟨rfl, rfl⟩ := Prod.mk.inj h
    rfl

theorem stripped_of_stripRun {quantifier : Quantifier} {other whole body : Formula}
    {letters : List Symbol}
    (h : stripRun quantifier (headBinder quantifier other) whole = (letters, body))
    (hne : ¬ letters.isEmpty = true) : Stripped quantifier other whole letters body :=
  ⟨h, eq_quantify_of_stripRun h, by simpa using hne⟩

/-! ## Accepted lines -/

variable {view : View} {line : LogicLine} {cited : Label} {flag : Flag}

theorem universalInstantiation_ok (h : universalInstantiation view line cited = .ok flag) :
    ∃ source targets body letters, view.logic? cited = some source ∧
      Stripped .universal line.formula source.formula targets body ∧
      letters.length = targets.length ∧ Aligned targets letters body line.formula := by
  obtain ⟨source, hsource, h⟩ := bind_eq_ok h
  obtain ⟨u, -, h⟩ := bind_eq_ok h
  generalize hrun : stripRun .universal (headBinder .universal line.formula) source.formula = run at h
  obtain ⟨targets, body⟩ := run
  obtain ⟨hne, h⟩ := not_of_ite_refuse h
  split at h
  · cases h
  · rename_i m ms hmappings
    have hm : m ∈ body.mappings line.formula targets := by simp [hmappings]
    obtain ⟨letters, hlen, haligned⟩ := Formula.aligned_of_mem_mappings hm
    exact ⟨source, targets, body, letters, View.cited_ok hsource, stripped_of_stripRun hrun hne, hlen,
      haligned⟩

theorem generalizedLetters_ok {quantifier : Quantifier} {source : LogicLine} {needed : String}
    {targets : List Symbol} {candidates : List (List Symbol)}
    (h : generalizedLetters quantifier line source needed = .ok (targets, candidates)) :
    ∃ body, Stripped quantifier source.formula line.formula targets body ∧
      ∀ letters ∈ candidates, letters.length = targets.length ∧ letters.Nodup ∧
        Aligned targets letters body source.formula := by
  unfold generalizedLetters at h
  generalize hrun : stripRun quantifier (headBinder quantifier source.formula) line.formula = run at h
  obtain ⟨run, body⟩ := run
  obtain ⟨hne, h⟩ := not_of_ite_refuse h
  split at h
  · cases h
  · rename_i found hfound
    obtain ⟨rfl, rfl⟩ := Prod.mk.inj (Except.ok.inj h)
    exact ⟨body, stripped_of_stripRun hrun hne, Formula.aligned_of_oneOne hfound⟩

theorem universalGeneralization_ok (h : universalGeneralization view line cited = .ok flag) :
    ∃ source targets body letters, view.logic? cited = some source ∧
      Stripped .universal source.formula line.formula targets body ∧
      letters.length = targets.length ∧ letters.Nodup ∧
      Aligned targets letters body source.formula ∧
      ∀ a ∈ letters, ∀ l ∈ line.deps, view.isFreeIn a l = false := by
  obtain ⟨source, hsource, h⟩ := bind_eq_ok h
  obtain ⟨u, -, h⟩ := bind_eq_ok h
  obtain ⟨⟨targets, candidates⟩, hletters, h⟩ := bind_eq_ok h
  obtain ⟨body, hstripped, hall⟩ := generalizedLetters_ok hletters
  simp only at h
  split at h
  · rename_i letters hfind
    obtain ⟨hlen, hnodup, haligned⟩ := hall letters (List.mem_of_find?_eq_some hfind)
    have hempty : (view.freeIn line.deps letters).isEmpty = true := by
      simpa using List.find?_some hfind
    have hfresh := View.freeIn_isEmpty.mp hempty
    exact ⟨source, targets, body, letters, View.cited_ok hsource, hstripped, hlen, hnodup, haligned,
      hfresh⟩
  · split at h
    · cases h
    · cases h

theorem existentialGeneralization_ok (h : existentialGeneralization view line cited = .ok flag) :
    ∃ source targets body letters, view.logic? cited = some source ∧
      Stripped .existential source.formula line.formula targets body ∧
      letters.length = targets.length ∧ letters.Nodup ∧
      Aligned targets letters body source.formula := by
  obtain ⟨source, hsource, h⟩ := bind_eq_ok h
  obtain ⟨u, -, h⟩ := bind_eq_ok h
  obtain ⟨⟨targets, candidates⟩, hletters, h⟩ := bind_eq_ok h
  obtain ⟨body, hstripped, hall⟩ := generalizedLetters_ok hletters
  simp only at h
  split at h
  · rename_i letters rest
    obtain ⟨hlen, hnodup, haligned⟩ := hall letters List.mem_cons_self
    exact ⟨source, targets, body, letters, View.cited_ok hsource, hstripped, hlen, hnodup, haligned⟩
  · cases h

/-- **What the three rules accept is aligned.** A line accepted by UI is aligned with what stands under
the quantifiers taken off the cited formula; a formula that UG or EG generalizes is aligned with what
stands under those taken off the line, by letters all different, and for UG free in no premise. It is
an instance exactly when it is aligned in all letters. -/
theorem accepted_aligned (view : View) (line : LogicLine) (cited : Label) (flag : Flag) :
    (universalInstantiation view line cited = .ok flag →
      ∃ source targets body letters, view.logic? cited = some source ∧
        Stripped .universal line.formula source.formula targets body ∧
        letters.length = targets.length ∧ Aligned targets letters body line.formula ∧
        (IsInstance targets letters body line.formula ↔
          AlignedExactly targets letters body line.formula)) ∧
    (universalGeneralization view line cited = .ok flag →
      ∃ source targets body letters, view.logic? cited = some source ∧
        Stripped .universal source.formula line.formula targets body ∧
        letters.length = targets.length ∧ letters.Nodup ∧
        Aligned targets letters body source.formula ∧
        (IsInstance targets letters body source.formula ↔
          AlignedExactly targets letters body source.formula) ∧
        ∀ a ∈ letters, ∀ l ∈ line.deps, view.isFreeIn a l = false) ∧
    (existentialGeneralization view line cited = .ok flag →
      ∃ source targets body letters, view.logic? cited = some source ∧
        Stripped .existential source.formula line.formula targets body ∧
        letters.length = targets.length ∧ letters.Nodup ∧
        Aligned targets letters body source.formula ∧
        (IsInstance targets letters body source.formula ↔
          AlignedExactly targets letters body source.formula)) := by
  refine ⟨fun h => ?_, fun h => ?_, fun h => ?_⟩
  · obtain ⟨source, targets, body, letters, hsource, hstripped, hlen, haligned⟩ :=
      universalInstantiation_ok h
    exact ⟨source, targets, body, letters, hsource, hstripped, hlen, haligned,
      Formula.isInstance_iff⟩
  · obtain ⟨source, targets, body, letters, hsource, hstripped, hlen, hnodup, haligned, hfresh⟩ :=
      universalGeneralization_ok h
    exact ⟨source, targets, body, letters, hsource, hstripped, hlen, hnodup, haligned,
      Formula.isInstance_iff, hfresh⟩
  · obtain ⟨source, targets, body, letters, hsource, hstripped, hlen, hnodup, haligned⟩ :=
      existentialGeneralization_ok h
    exact ⟨source, targets, body, letters, hsource, hstripped, hlen, hnodup, haligned,
      Formula.isInstance_iff⟩

/-! ## Lines that are no instances -/

/-- The predicate `F` of two letters. -/
def related (a b : Symbol) : Formula :=
  .predicate 'F' [.letter a, .letter b]

/-- `Fac`, by UI from `(∀x)Fxb`. -/
def looseInstance : LogicLine :=
  ⟨1, [0], related 'a' 'c', .universalInstantiation 0⟩

/-- `(∀y)Fya`, by UG from `Fac`. -/
def looseUniversal : LogicLine :=
  ⟨2, [0], .quantified .universal 'y' (related 'y' 'a'), .universalGeneralization 1⟩

/-- `(∃z)Fzd`, by EG from `Fac`. -/
def looseExistential : LogicLine :=
  ⟨3, [0], .quantified .existential 'z' (related 'z' 'd'), .existentialGeneralization 1⟩

/-- These lines, from the premise `(∀x)Fxb`. -/
def looseSheet : Document where
  lines :=
    [ .logic ⟨0, [0], .quantified .universal 'x' (related 'x' 'b'), .premise⟩, .logic looseInstance,
      .logic looseUniversal, .logic looseExistential ]

/-- The sheet of these lines, as the checkers see it. -/
def looseView : View :=
  looseSheet.view .apart ⟨[0, 1, 2, 3]⟩ .standard

/-- Letters that are neither targets nor alike are in no instance. -/
theorem not_isInstance_related {x b a c : Symbol} (hx : x ≠ b) (hbc : b ≠ c) (letters : List Symbol) :
    ¬ IsInstance [x] letters (related x b) (related a c) := by
  rw [Formula.isInstance_iff]
  intro h
  have hargs := Formula.corresponds_predicate.mp h
  simp only [List.forall₂_cons, Formula.corresponds_letter] at hargs
  have hb := hargs.2.1
  simp [Formula.Exact, BoundPairs.lefts, assigned, List.idxOf?_cons, hx, hbc] at hb

/-- **Accepted lines that are no instances.** UI accepts `Fac` from `(∀x)Fxb`, UG accepts `(∀y)Fya`
from `Fac` and EG accepts `(∃z)Fzd` from it; but no letters turn `Fxb`, `Fya` or `Fzd` into `Fac`, and
the letter that `y` generalizes is free in `(∀y)Fya`. -/
theorem accepted_without_instance :
    (∃ flag, universalInstantiation looseView looseInstance 0 = .ok flag) ∧
    (∀ letters, ¬ IsInstance ['x'] letters (related 'x' 'b') looseInstance.formula) ∧
    (∃ flag, universalGeneralization looseView looseUniversal 1 = .ok flag) ∧
    (∀ letters, ¬ IsInstance ['y'] letters (related 'y' 'a') looseInstance.formula) ∧
    (∀ letters, Aligned ['y'] letters (related 'y' 'a') looseInstance.formula →
      ∃ a ∈ letters, Formula.FreeIn a looseUniversal.formula) ∧
    (∃ flag, existentialGeneralization looseView looseExistential 1 = .ok flag) ∧
    (∀ letters, ¬ IsInstance ['z'] letters (related 'z' 'd') looseInstance.formula) := by
  refine ⟨⟨_, rfl⟩, not_isInstance_related (by decide) (by decide), ⟨_, rfl⟩,
    not_isInstance_related (by decide) (by decide), ?_, ⟨_, rfl⟩,
    not_isInstance_related (by decide) (by decide)⟩
  intro letters h
  have hargs := Formula.corresponds_predicate.mp h
  simp only [List.forall₂_cons, Formula.corresponds_letter] at hargs
  have hletter : letters[0]? = some 'a' := hargs.1 (by simp) 0 (by decide)
  exact ⟨'a', List.mem_of_getElem? hletter,
    by simp [looseUniversal, related, Formula.FreeIn, Formula.FreeInSome]⟩

/-- The accepted lines are aligned all the same. -/
theorem accepted_aligned_loose :
    (∃ source targets body letters, looseView.logic? 0 = some source ∧
      Stripped .universal looseInstance.formula source.formula targets body ∧
      letters.length = targets.length ∧ Aligned targets letters body looseInstance.formula) ∧
    (∃ source targets body letters, looseView.logic? 1 = some source ∧
      Stripped .universal source.formula looseUniversal.formula targets body ∧
      letters.length = targets.length ∧ letters.Nodup ∧
      Aligned targets letters body source.formula) ∧
    ∃ source targets body letters, looseView.logic? 1 = some source ∧
      Stripped .existential source.formula looseExistential.formula targets body ∧
      letters.length = targets.length ∧ letters.Nodup ∧
      Aligned targets letters body source.formula := by
  refine ⟨?_, ?_, ?_⟩
  · obtain ⟨source, targets, body, letters, h₁, h₂, h₃, h₄, -⟩ :=
      (accepted_aligned looseView looseInstance 0 _).1 rfl
    exact ⟨source, targets, body, letters, h₁, h₂, h₃, h₄⟩
  · obtain ⟨source, targets, body, letters, h₁, h₂, h₃, h₄, h₅, -⟩ :=
      (accepted_aligned looseView looseUniversal 1 _).2.1 rfl
    exact ⟨source, targets, body, letters, h₁, h₂, h₃, h₄, h₅⟩
  · obtain ⟨source, targets, body, letters, h₁, h₂, h₃, h₄, h₅, -⟩ :=
      (accepted_aligned looseView looseExistential 1 _).2.2 rfl
    exact ⟨source, targets, body, letters, h₁, h₂, h₃, h₄, h₅⟩

end ProofSheet.Check
