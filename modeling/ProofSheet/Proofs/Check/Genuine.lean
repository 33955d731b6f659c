import ProofSheet.Proofs.Check.Instances
import ProofSheet.Proofs.Mapping.Instance

/-!
# Genuine instances are accepted

UI, UG and EG look for an assignment of the letters of a run of quantifiers. The run ends where the other
formula begins with a quantifier over the same letter, so what is taken off a formula depends on the
other one. For an instance it is the run whose letters were replaced, and the assignment is found among
all that there are.

* `Check.Instantiates`: **an instance of a run of quantifiers.**
* `Check.Instantiates.stripRun_eq`: exactly that run is taken off.
* `Check.universalInstantiation_genuine`: **UI accepts every instance**, of the whole run or of its
  first quantifiers.
* `Check.generalization_genuine`: **EG and UG accept every generalization of an instance**, UG if the
  letters generalized are free in no premise.
-/

namespace ProofSheet

/-- A letter is free in no line that a label leads to, as the checkers see the sheet. -/
theorem Document.isFreeIn_view_eq_false {document : Document} {memory : Memory} {index : LineIndex}
    {settings : Settings} {a : Symbol} {l : Label}
    (h : ∀ line, (document.view memory index settings).logic? l = some line →
      ¬ Formula.FreeIn a line.formula) :
    (document.view memory index settings).isFreeIn a l = false := by
  have hscope : (document.view memory index settings).scope? l = _ := View.scope?_eq rfl l
  rw [View.isFreeIn, hscope]
  cases hline : (document.view memory index settings).logic? l with
  | none => rfl
  | some line =>
    show line.formula.scope.isFree a = false
    rw [← Bool.not_eq_true, Formula.scope_isFree]
    exact h line hline

namespace Check

open Formula (Built FreeIn quantify rebindings withLetters)

/-! ## The run that is taken off -/

section Runs

variable {q : Quantifier} {xs letters : List Symbol} {f : Formula}

theorem headBinder_eq_some {x : Symbol} :
    headBinder q f = some x ↔ ∃ body, f = .quantified q x body := by
  rw [headBinder, Option.map_eq_some_iff]
  constructor
  · rintro ⟨⟨_, body⟩, hf, rfl⟩
    exact ⟨body, Formula.quantifiedBy?_eq_some hf⟩
  · rintro ⟨body, rfl⟩
    exact ⟨(x, body), if_pos rfl, rfl⟩

/-- An instance begins with a quantifier if the formula does. -/
theorem headBinder_withLetters :
    headBinder q (withLetters xs letters f) = (headBinder q f).map (assigned xs letters) := by
  cases f with
  | letter s =>
    rw [Formula.withLetters_letter]
    rfl
  | quantified q' x body =>
    rw [Formula.withLetters_quantified]
    simp only [headBinder, Formula.quantifiedBy?]
    split
    · rfl
    · rfl
  | _ => rfl

/-- A run is taken off as far as a quantifier of another kind or over the letter to stop at. -/
theorem stripRun_quantify {stop : Option Symbol} (hrun : ∀ x ∈ xs, stop ≠ some x)
    (hend : ∀ x body, f = .quantified q x body → stop = some x) :
    stripRun q stop (quantify (xs.map fun x => (q, x)) f) = (xs, f) := by
  induction xs with
  | nil =>
    cases f with
    | quantified q' x body =>
      have htest : ¬ (q' = q && stop != some x) = true := by
        intro htest
        simp only [Bool.and_eq_true, decide_eq_true_eq, bne_iff_ne] at htest
        obtain ⟨rfl, hne⟩ := htest
        exact hne (hend x body rfl)
      show stripRun q stop (.quantified q' x body) = ([], .quantified q' x body)
      rw [stripRun, if_neg htest]
    | _ => rfl
  | cons x xs ih =>
    obtain ⟨hx, hrest⟩ := List.forall_mem_cons.mp hrun
    have htest : (q = q && stop != some x) = true := by simp [hx]
    show stripRun q stop (.quantified q x (quantify (xs.map fun x => (q, x)) f)) = (x :: xs, f)
    rw [stripRun, if_pos htest, ih hrest]

theorem quantify_append (bindings rest : List (Quantifier × Symbol)) :
    quantify (bindings ++ rest) f = quantify bindings (quantify rest f) :=
  List.foldr_append

end Runs

/-! ## Instances of a run -/

/-- **An instance of a run of quantifiers**: letters put for those of the run, in what stands under it. The
formula is as the constructors build it, and binds no letter again within its scope. -/
structure Instantiates (q : Quantifier) (xs letters : List Symbol) (inner whole sample : Formula) :
    Prop where
  whole_eq : whole = quantify (xs.map fun x => (q, x)) inner
  sample_eq : sample = withLetters xs letters inner
  length_eq : letters.length = xs.length
  nonempty : xs ≠ []
  built : Built whole
  fresh : rebindings [] whole = []

namespace Instantiates

variable {q : Quantifier} {xs letters : List Symbol} {inner whole sample : Formula}
  (h : Instantiates q xs letters inner whole sample)
include h

theorem built_inner : Built inner :=
  (h.whole_eq ▸ h.built).of_quantify

theorem not_isEmpty : ¬ xs.isEmpty = true :=
  fun hempty => h.nonempty (List.isEmpty_iff.mp hempty)

theorem nodup_fresh : xs.Nodup ∧ rebindings xs.reverse inner = [] := by
  have hfresh := h.fresh
  rw [h.whole_eq] at hfresh
  obtain ⟨hnodup, -, hinner⟩ := Formula.rebindings_quantify hfresh
  rw [List.append_nil] at hinner
  exact ⟨hnodup, hinner⟩

/-- A quantifier at the head of what stands under the run is over another letter, which the instance
keeps. -/
theorem headBinder_sample :
    headBinder q sample = headBinder q inner ∧ ∀ x ∈ xs, headBinder q inner ≠ some x := by
  have hother : ∀ x ∈ xs, headBinder q inner ≠ some x := by
    intro x hx hhead
    obtain ⟨body, rfl⟩ := headBinder_eq_some.mp hhead
    exact (Formula.rebindings_quantified_eq_nil.mp h.nodup_fresh.2).1 (List.mem_reverse.mpr hx)
  refine ⟨?_, hother⟩
  rw [h.sample_eq, headBinder_withLetters]
  cases hhead : headBinder q inner with
  | none => rfl
  | some y =>
    have hy : y ∉ xs := fun hmem => hother y hmem hhead
    rw [Option.map_some, Formula.assigned_of_not_mem hy]

/-- **The run whose letters were replaced is the one taken off**, also if another quantifier of the kind
follows. -/
theorem stripRun_eq : stripRun q (headBinder q sample) whole = (xs, inner) := by
  obtain ⟨hhead, hother⟩ := h.headBinder_sample
  rw [hhead, h.whole_eq]
  refine stripRun_quantify hother fun x body hinner => ?_
  exact headBinder_eq_some.mpr ⟨body, hinner⟩

theorem exists_mapping : ∃ m ms, inner.mappings sample xs = m :: ms := by
  obtain ⟨hnodup, hfresh⟩ := h.nodup_fresh
  have hmem := Formula.mem_mappings_withLetters h.length_eq hnodup
    (fun x hx => List.mem_reverse.mpr hx) h.built_inner hfresh
  rw [← h.sample_eq] at hmem
  exact List.exists_cons_of_ne_nil (List.ne_nil_of_mem hmem)

theorem exists_candidates (hfree : ∀ x ∈ xs, FreeIn x inner) (hown : letters.Nodup) :
    ∃ candidates, inner.oneOne sample xs = .ok candidates ∧ letters ∈ candidates := by
  obtain ⟨hnodup, hfresh⟩ := h.nodup_fresh
  rw [h.sample_eq]
  exact Formula.oneOne_withLetters h.length_eq hnodup (fun x hx => List.mem_reverse.mpr hx)
    h.built_inner hfresh hfree hown

end Instantiates

/-! ## Instantiation -/

/-- **UI accepts every instance.** Letters are put for the first `k` letters of the run of universal
quantifiers that the cited formula begins with, in what remains after those quantifiers. The letters may
be any, equal or not, and need not occur. -/
theorem universalInstantiation_genuine (view : View) (line source : LogicLine) (cited : Label)
    (hsource : view.logic? cited = some source) (hdeps : ∀ l, l ∈ line.deps ↔ l ∈ source.deps)
    (hbuilt : Built source.formula) (hfresh : rebindings [] source.formula = [])
    (xs letters : List Symbol) (body : Formula)
    (hrun : source.formula = quantify (xs.map fun x => (.universal, x)) body)
    (k : Nat) (hone : 1 ≤ k) (hk : k ≤ xs.length) (hletters : letters.length = k)
    (hline : line.formula = withLetters (xs.take k) letters
      (quantify ((xs.drop k).map fun x => (.universal, x)) body)) :
    ∃ flag, universalInstantiation view line cited = .ok flag ∧ flag.kind = .good := by
  have hlen : (xs.take k).length = k := by rw [List.length_take]; omega
  have h : Instantiates .universal (xs.take k) letters
      (quantify ((xs.drop k).map fun x => (.universal, x)) body) source.formula line.formula := by
    refine ⟨?_, hline, by omega, fun hnil => ?_, hbuilt, hfresh⟩
    · rw [hrun, ← quantify_append, ← List.map_append, List.take_append_drop]
    · rw [hnil, List.length_nil] at hlen
      omega
  obtain ⟨m, ms, hmappings⟩ := h.exists_mapping
  rw [universalInstantiation, View.cited_bind_check hsource hdeps]
  simp only [h.stripRun_eq, if_neg h.not_isEmpty, hmappings]
  split
  · exact ⟨_, rfl, rfl⟩
  · exact ⟨_, rfl, rfl⟩

/-- `(∀x)(∀y)(∃z)(Rxz ↔ (Fy ∧ Fx))`. -/
def relatedSource : LogicLine :=
  ⟨0, [0], quantify [(.universal, 'x'), (.universal, 'y'), (.existential, 'z')]
    (.biconditional (.predicate 'R' [.letter 'x', .letter 'z'])
      (.junctionOf .conjunction [.predicate 'F' [.letter 'y'], .predicate 'F' [.letter 'x']])), .premise⟩

/-- `(∀y)(∃z)(Raz ↔ (Fy ∧ Fa))`, by UI from it. -/
def relatedInstance : LogicLine :=
  ⟨1, [0], quantify [(.universal, 'y'), (.existential, 'z')]
    (.biconditional (.predicate 'R' [.letter 'a', .letter 'z'])
      (.junctionOf .conjunction [.predicate 'F' [.letter 'y'], .predicate 'F' [.letter 'a']])),
    .universalInstantiation 0⟩

/-- The sheet of the two lines, as the checkers see it. -/
def relatedView : View :=
  ({ lines := [.logic relatedSource, .logic relatedInstance] } : Document).view .apart ⟨[0, 1]⟩ .standard

theorem built_relatedSource : Built relatedSource.formula := by
  refine .quantified (.quantified (.quantified (.biconditional (.predicate ?_) (.junction ?_))))
  · simp [Built.letter]
  · simp only [List.forall_mem_cons, List.not_mem_nil, false_implies, implies_true, and_true]
    exact ⟨.predicate (by simp [Built.letter]), .predicate (by simp [Built.letter])⟩

/-- UI accepts the instance, for the first letter of the run alone. -/
theorem universalInstantiation_genuine_first :
    ∃ flag, universalInstantiation relatedView relatedInstance 0 = .ok flag ∧ flag.kind = .good :=
  universalInstantiation_genuine relatedView relatedInstance relatedSource 0 rfl (fun _ => Iff.rfl)
    built_relatedSource rfl ['x', 'y'] ['a'] _ rfl 1 (by decide) (by decide) rfl rfl

/-! ## Generalization -/

theorem generalizedLetters_genuine {q : Quantifier} {xs letters : List Symbol} {inner : Formula}
    {line source : LogicLine} (h : Instantiates q xs letters inner line.formula source.formula)
    (hfree : ∀ x ∈ xs, FreeIn x inner) (hown : letters.Nodup) (needed : String) :
    ∃ candidates, generalizedLetters q line source needed = .ok (xs, candidates) ∧
      letters ∈ candidates := by
  obtain ⟨candidates, hcandidates, hmem⟩ := h.exists_candidates hfree hown
  refine ⟨candidates, ?_, hmem⟩
  simp only [generalizedLetters, h.stripRun_eq, if_neg h.not_isEmpty, hcandidates]

section Generalization

variable {view : View} {line source : LogicLine} {cited : Label}
  (hsource : view.logic? cited = some source) (hdeps : ∀ l, l ∈ line.deps ↔ l ∈ source.deps)
  {xs letters : List Symbol} {inner : Formula}
include hsource hdeps

theorem existentialGeneralization_good
    (h : Instantiates .existential xs letters inner line.formula source.formula)
    (hfree : ∀ x ∈ xs, FreeIn x inner) (hown : letters.Nodup) :
    ∃ flag, existentialGeneralization view line cited = .ok flag ∧ flag.kind = .good := by
  obtain ⟨candidates, hletters, hmem⟩ := generalizedLetters_genuine h hfree hown
    "EG requires adding an existential quantification."
  obtain ⟨candidate, rest, rfl⟩ := List.exists_cons_of_ne_nil (List.ne_nil_of_mem hmem)
  refine ⟨assignmentFlag candidate xs, ?_, rfl⟩
  rw [existentialGeneralization, View.cited_bind_check hsource hdeps, hletters]
  rfl

theorem universalGeneralization_good
    (h : Instantiates .universal xs letters inner line.formula source.formula)
    (hfree : ∀ x ∈ xs, FreeIn x inner) (hown : letters.Nodup)
    (hpremises : ∀ a ∈ letters, ∀ l ∈ line.deps, view.isFreeIn a l = false) :
    ∃ flag, universalGeneralization view line cited = .ok flag ∧ flag.kind = .good := by
  obtain ⟨candidates, hletters, hmem⟩ := generalizedLetters_genuine h hfree hown
    "UG requires adding a universal quantification."
  -- another assignment that will do may be found before this one
  have hfind : (candidates.find? fun candidate =>
      (view.freeIn line.deps candidate).isEmpty).isSome = true :=
    List.find?_isSome.mpr ⟨letters, hmem, View.freeIn_isEmpty.mpr hpremises⟩
  obtain ⟨candidate, hcandidate⟩ := Option.isSome_iff_exists.mp hfind
  refine ⟨assignmentFlag candidate xs, ?_, rfl⟩
  rw [universalGeneralization, View.cited_bind_check hsource hdeps, hletters]
  simp only [bind, Except.bind, hcandidate]
  rfl

end Generalization

/-- **EG and UG accept every generalization of an instance**, if each letter of the run is free in what
stands under it and has a letter of its own put for it. UG calls for letters that are free in no
premise, as the checkers see the premises; in a sheet, in no line that the premises listed lead to. -/
theorem generalization_genuine (view : View) (line source : LogicLine) (cited : Label)
    (hsource : view.logic? cited = some source) (hdeps : ∀ l, l ∈ line.deps ↔ l ∈ source.deps)
    (q : Quantifier) (xs letters : List Symbol) (inner : Formula)
    (h : Instantiates q xs letters inner line.formula source.formula)
    (hfree : ∀ x ∈ xs, FreeIn x inner) (hown : letters.Nodup) :
    (q = .existential →
      ∃ flag, existentialGeneralization view line cited = .ok flag ∧ flag.kind = .good) ∧
    (q = .universal → (∀ a ∈ letters, ∀ l ∈ line.deps, view.isFreeIn a l = false) →
      ∃ flag, universalGeneralization view line cited = .ok flag ∧ flag.kind = .good) ∧
    (q = .universal → ∀ document memory index settings,
      view = Document.view document memory index settings →
      (∀ a ∈ letters, ∀ l ∈ line.deps, ∀ other, view.logic? l = some other →
        ¬ FreeIn a other.formula) →
      ∃ flag, universalGeneralization view line cited = .ok flag ∧ flag.kind = .good) := by
  refine ⟨?_, ?_, ?_⟩
  · rintro rfl
    exact existentialGeneralization_good hsource hdeps h hfree hown
  · rintro rfl hpremises
    exact universalGeneralization_good hsource hdeps h hfree hown hpremises
  · rintro rfl document memory index settings rfl hpremises
    refine universalGeneralization_good hsource hdeps h hfree hown fun a ha l hl => ?_
    exact Document.isFreeIn_view_eq_false fun other hother => hpremises a ha l hl other hother

/-- `(∀w)(Rsw ∧ Raw)`, or the same with `∃`. -/
def pairUnder (q : Quantifier) (s : Symbol) : Formula :=
  .quantified q 'w' (.junctionOf .conjunction
    [.predicate 'R' [.letter s, .letter 'w'], .predicate 'R' [.letter 'a', .letter 'w']])

/-- `(∀w)(Rcw ∧ Raw)`, from a premise. -/
def pairSource (q : Quantifier) : LogicLine :=
  ⟨1, [0], pairUnder q 'c', .truthFunctional [0]⟩

/-- `(∀x)(∀w)(Rxw ∧ Raw)`, generalized from it. -/
def pairGeneral (q : Quantifier) : LogicLine :=
  ⟨2, [0], .quantified q 'x' (pairUnder q 'x'), .universalGeneralization 1⟩

/-- The two lines after the premise `Raa`, as the checkers see them. -/
def pairView (q : Quantifier) : View :=
  ({ lines := [.logic ⟨0, [0], .predicate 'R' [.letter 'a', .letter 'a'], .premise⟩,
      .logic (pairSource q), .logic (pairGeneral q)] } : Document).view .apart ⟨[0, 1, 2]⟩ .standard

theorem instantiates_pairGeneral (q : Quantifier) :
    Instantiates q ['x'] ['c'] (pairUnder q 'x') (pairGeneral q).formula (pairSource q).formula := by
  refine ⟨rfl, rfl, rfl, by decide, .quantified (.quantified (.junction ?_)), rfl⟩
  simp only [List.forall_mem_cons, List.not_mem_nil, false_implies, implies_true, and_true]
  exact ⟨.predicate (by simp [Built.letter]), .predicate (by simp [Built.letter])⟩

/-- EG and UG accept the generalization, though what is generalized begins with a quantifier of their
kind, and `a`, which is free in the premise, is the first letter found for `x`. -/
theorem generalization_genuine_pair :
    ((pairUnder .universal 'x').oneOne (pairUnder .universal 'c') ['x'] = .ok [['a'], ['c']] ∧
      (pairView .universal).isFreeIn 'a' 0 = true) ∧
    (∃ flag, existentialGeneralization (pairView .existential) (pairGeneral .existential) 1 = .ok flag ∧
      flag.kind = .good) ∧
    ∃ flag, universalGeneralization (pairView .universal) (pairGeneral .universal) 1 = .ok flag ∧
      flag.kind = .good := by
  have hfree : ∀ q, ∀ x ∈ ['x'], FreeIn x (pairUnder q 'x') := by
    intro q x hx
    obtain rfl := List.mem_singleton.mp hx
    exact ⟨by decide, .inl (.inl rfl)⟩
  refine ⟨⟨rfl, rfl⟩, ?_, ?_⟩
  · exact (generalization_genuine (pairView .existential) (pairGeneral .existential)
      (pairSource .existential) 1 rfl (fun _ => Iff.rfl) .existential ['x'] ['c'] _
      (instantiates_pairGeneral .existential) (hfree .existential) (by decide)).1 rfl
  · refine (generalization_genuine (pairView .universal) (pairGeneral .universal)
      (pairSource .universal) 1 rfl (fun _ => Iff.rfl) .universal ['x'] ['c'] _
      (instantiates_pairGeneral .universal) (hfree .universal) (by decide)).2.2 rfl _ _ _ _ rfl ?_
    intro a ha l hl other hother
    obtain rfl := List.mem_singleton.mp ha
    obtain rfl := List.mem_singleton.mp hl
    obtain rfl := Option.some.inj hother
    simp [FreeIn, Formula.FreeInSome]

end Check

end ProofSheet
