import ProofSheet.Proofs.Solver.Stages

/-!
# What pairs of negations hide

The solver compares formulas up to pairs of negations, but a template meets a junction, a conditional
or a negated junction only as it stands. A pair of negations around such a formula hides it. Formulas
that are alike and hide the same from the table are matched in the same ways, and what a rule gives
from either is hidden on both sides or on neither.

* `Solver.hidden`, `Solver.openWithin`: where a pair of negations hides something.
* `Solver.SeenAlike`: two formulas are alike, and pairs of negations hide the same from the table.
* `Solver.SeenAlike.exists_match`: **templates of the table match both in the same ways.**
* `Solver.Gives.seen`: a rule gives something alike when it takes formulas that are seen alike.
* `Solver.seenAlike_of_gives`: **what one rule gives is seen alike** if it is alike.
-/

namespace ProofSheet.Solver

open Object (Like substitute)

variable {rule : Inference} {f g : Object} {letters : List Symbol} {m m' : Mapping Object}

/-! ## Hidden formulas -/

/-- Whether a formula is of a form that antecedents of the table ask for: a junction, a conditional or
a negated junction. -/
def sought (f : Object) : Bool :=
  decide (f.kind = .junction) || decide (f.kind = .conditional) ||
    decide ((opposite f).kind = .junction)

/-- **Whether a pair of negations hides a formula from the table**: without its outermost pairs it is
of a form that is asked for. -/
def hidden (f : Object) : Bool := decide (f.core ≠ f) && sought f.core

mutual

/-- Whether each conditional that templates may come to, inside a formula, shows a conditional that is
its consequent, with no pair of negations before it. -/
def openWithin : Object → Bool
  | .junction _ juncts _ => openWithinAll juncts
  | .conditional p q _ =>
    openWithin p && openWithin q && (decide (q.core = q) || decide (q.core.kind ≠ .conditional))
  | .negation f _ => openWithin f
  | _ => true

/-- Whether this is so of each of some formulas. -/
def openWithinAll : List Object → Bool
  | [] => true
  | f :: fs => openWithin f && openWithinAll fs

end

theorem openWithinAll_iff {fs : List Object} :
    openWithinAll fs = true ↔ ∀ f ∈ fs, openWithin f = true := by
  induction fs with
  | nil => simp [openWithinAll]
  | cons f fs ih => rw [openWithinAll, Bool.and_eq_true, ih, List.forall_mem_cons]

theorem openWithin_conditional {p q : Object} {r : Option Place} :
    openWithin (.conditional p q r) = true ↔ openWithin p = true ∧ openWithin q = true ∧
      (q.core.kind = .conditional → q.core = q) := by
  simp only [openWithin, Bool.and_eq_true, Bool.or_eq_true, decide_eq_true_eq, and_assoc,
    and_congr_right_iff]
  intro _ _
  tauto

theorem openWithin_core (h : openWithin f = true) : openWithin f.core = true := by
  induction f using Object.faceInduction true with
  | negation f _ hf _ => rwa [Object.core_negation (hf rfl)]
  | doubled f _ _ _ ih =>
    rw [Object.core_doubled]
    exact ih h
  | _ => exact h

/-- Being open within passes to the parts that templates take. -/
theorem passes_openWithin : PassesToParts fun f => openWithin f = true where
  core := openWithin_core
  opposite {f} h := by
    cases f with
    | negation f => exact h
    | _ => exact h
  juncts h := openWithinAll_iff.mp h
  sides h := ⟨(openWithin_conditional.mp h).1, (openWithin_conditional.mp h).2.1⟩

/-- **Two formulas are seen alike by the table**: they are alike, both or neither are hidden, and both
are open within. -/
structure SeenAlike (f g : Object) : Prop where
  like : Like f g
  hidden : hidden f = hidden g
  left : openWithin f = true
  right : openWithin g = true

theorem SeenAlike.symm (h : SeenAlike f g) : SeenAlike g f :=
  ⟨h.like.symm, h.hidden.symm, h.right, h.left⟩

/-! ## Cores and their opposites -/

/-- What a core negates is no negation. -/
theorem ne_negation_of_core {p : Option Place} (h : (Object.negation f p).core = .negation f p)
    (k : Object) (q : Option Place) : f ≠ .negation k q := by
  rintro rfl
  rw [Object.core_doubled] at h
  exact Object.core_ne_doubled k k p q h

theorem core_opposite (h : f.core = f) : (opposite f).core = opposite f := by
  cases f with
  | negation f p => exact Object.core_of_ne fun k q => ne_negation_of_core h k q
  | _ => rfl

/-- A negation is a core if what it negates is no negation. -/
theorem core_negation_iff {p : Option Place} :
    (Object.negation f p).core = .negation f p ↔ f.kind ≠ .negation := by
  constructor
  · intro hcore
    cases f with
    | negation k q => exact absurd rfl (ne_negation_of_core hcore k q)
    | _ => nofun
  · intro hkind
    exact Object.core_negation fun k q hk => hkind (hk ▸ rfl)

/-- Cores that are alike are both asked for or neither is. -/
theorem sought_eq_of_like (hf : f.core = f) (hg : g.core = g) (hfg : Like f g) :
    sought f = sought g := by
  have hkind := hfg.kind_core
  have hopposite := (like_opposite hfg).kind_core
  rw [hf, hg] at hkind
  rw [core_opposite hf, core_opposite hg] at hopposite
  rw [sought, sought, hkind, hopposite]

theorem hidden_of_core (h : f.core = f) : hidden f = false := by
  simp [hidden, h]

/-- What is asked for and not hidden is its own core. -/
theorem core_eq_of_not_hidden (h : hidden f = false) (hsought : sought f.core = true) :
    f.core = f := by
  simpa [hidden, hsought] using h

/-- A formula that is seen alike to one that is asked for as it stands is its own core. -/
theorem SeenAlike.core_eq (h : SeenAlike f g) (hf : f.core = f) (hsought : sought f = true) :
    g.core = g := by
  refine core_eq_of_not_hidden (h.hidden ▸ hidden_of_core hf) ?_
  have hlike : Like f g.core := Object.like_core_right.mpr h.like
  rwa [← sought_eq_of_like hf (Object.core_core g) hlike]

/-! ## Matches -/

/-- Whether a template is a letter behind negations. -/
def plain : Formula → Bool
  | .letter _ => true
  | .negation t => plain t
  | _ => false

/-- Whether a template is of a form that antecedents of the table have. -/
def shallow : Formula → Bool
  | .junction _ ts => ts.all plain
  | .negation (.junction _ ts) => ts.all plain
  | .conditional p (.conditional q r) => plain p && plain q && plain r
  | .conditional p q => plain p && plain q
  | t => plain t

theorem table_shallow (hrule : rule ∈ table) : ∀ t ∈ rule.antecedents, shallow t = true := by
  have hall : ∀ rule ∈ table, ∀ t ∈ rule.antecedents, shallow t = true := by decide
  exact hall rule hrule

/-- Nothing is hidden from a letter behind negations. -/
theorem bare_of_plain {t : Formula} (h : plain t = true) : ∀ g, bare t g = true := by
  induction t using Formula.inductionOn with
  | letter s => intro g; rfl
  | negation t ih => intro g; exact ih h (opposite g)
  | _ => cases h

theorem bareToAll_of_plain {ts : List Formula} (h : ts.all plain = true) (g : Object) :
    bareToAll ts g = true :=
  bareToAll_iff.mpr fun t ht => bare_of_plain (List.all_eq_true.mp h t ht) g

/-- A junction of plain templates meets whatever is its own core. -/
theorem bare_junction_of_core {junctor : Junctor} {ts : List Formula} (h : ts.all plain = true)
    (hg : g.core = g) : bare (.junction junctor ts) g = true := by
  rw [bare, hg]
  cases g with
  | junction junctor' gs _ => simp [bareToAll_of_plain h]
  | _ => rfl

/-- A template for a conditional meets what is its own core, if its parts meet the sides. -/
theorem bare_conditional_of_core {t u : Formula} (hg : g.core = g)
    (hsides : ∀ p q r, g = .conditional p q r → bare t p = true ∧ bare u q = true) :
    bare (.conditional t u) g = true := by
  rw [bare, hg]
  cases g with
  | conditional p q r =>
    obtain ⟨hp, hq⟩ := hsides p q r rfl
    simp [hp, hq]
  | _ => rfl

/-- **A formula hides nothing from a template** that matches one seen alike to it. -/
theorem SeenAlike.bare (h : SeenAlike f g) {t : Formula} (ht : shallow t = true)
    (hm : m ∈ matchTemplate letters t f) : bare t g = true := by
  revert ht hm
  fun_cases shallow t with
  | case1 junctor ts =>
    intro ht hm
    obtain ⟨fs, _, rfl, -⟩ := mem_matchTemplate_junction hm
    exact bare_junction_of_core ht (h.core_eq rfl rfl)
  | case2 junctor ts =>
    intro ht hm
    rw [matchTemplate_negation] at hm
    obtain ⟨fs, q, hopposite, -⟩ := mem_matchTemplate_junction hm
    obtain ⟨p, rfl⟩ : ∃ p, f = .negation (.junction junctor fs q) p := by
      cases f with
      | negation f p => exact ⟨p, by rw [← hopposite]; rfl⟩
      | _ => cases hopposite
    have hg : g.core = g := h.core_eq rfl rfl
    rw [Solver.bare]
    exact bare_junction_of_core ht (core_opposite hg)
  | case3 t u v =>
    intro ht hm
    simp only [Bool.and_eq_true] at ht
    obtain ⟨p, q, _, rfl, hm⟩ := mem_matchTemplate_conditional hm
    have hg : g.core = g := h.core_eq rfl rfl
    refine bare_conditional_of_core hg fun p' q' _ hsides => ⟨bare_of_plain ht.1.1 p', ?_⟩
    subst hsides
    -- the consequent is a conditional on this side, so on the other side without pairs of negations
    obtain ⟨_, -, n, hn, -⟩ := Mapping.mem_joinAll.mp hm
    obtain ⟨q₁, q₂, _, rfl, -⟩ := mem_matchTemplate_conditional hn
    have hkind := (Object.like_conditional.mp h.like).2.kind_core
    refine bare_conditional_of_core ((openWithin_conditional.mp h.right).2.2 hkind.symm) ?_
    exact fun a b _ _ => ⟨bare_of_plain ht.1.2 a, bare_of_plain ht.2 b⟩
  | case4 t u =>
    intro ht hm
    rw [Bool.and_eq_true] at ht
    obtain ⟨p, q, _, rfl, -⟩ := mem_matchTemplate_conditional hm
    refine bare_conditional_of_core (h.core_eq rfl rfl) fun a b _ _ => ?_
    exact ⟨bare_of_plain ht.1 a, bare_of_plain ht.2 b⟩
  | case5 t =>
    intro ht _
    exact bare_of_plain ht g

/-- **Templates of the table match what is seen alike in the same ways.** -/
theorem SeenAlike.exists_match (h : SeenAlike f g) (hrule : rule ∈ table) {t : Formula}
    (ht : t ∈ rule.antecedents) (hm : m ∈ matchTemplate letters t f) :
    ∃ n ∈ matchTemplate letters t g, Mapping.Akin m n :=
  exists_akin_match ((table_schematic hrule).1 t ht)
    (.inr ⟨h.like, h.bare (table_shallow hrule t ht) hm⟩) hm

/-- A rule gives something alike when it takes formulas that are seen alike. -/
theorem Gives.seen (hrule : rule ∈ table) {used used' : List Object} (h : Gives rule used f)
    (hused : List.Forall₂ SeenAlike used used') : ∃ g, Gives rule used' g ∧ Like f g := by
  refine h.matched hrule (hused.imp fun x y hxy t ht m hm => ?_)
  exact hxy.exists_match hrule ht hm

/-! ## What rules give -/

/-- Whether a template is of a form that consequents of the table have. -/
def presentable : Formula → Bool
  | .junction _ ts => ts.all plain
  | .conditional t u => presentable t && presentable u && decide (u.kind ≠ .negation)
  | t => plain t

theorem table_presentable (hrule : rule ∈ table) : presentable rule.consequent = true := by
  have hall : ∀ rule ∈ table, presentable rule.consequent = true := by decide
  exact hall rule hrule

/-- What stands in place of a letter is a core. -/
theorem core_substitute_letter (hm : Mapping.Akin m m) (s : Symbol) :
    (substitute letters m (.letter s)).core = substitute letters m (.letter s) := by
  have hrel : Option.Rel Object.Akin (replacementFor letters m s) (replacementFor letters m s) :=
    Mapping.akin_replacementFor hm s
  rw [substitute]
  cases he : replacementFor letters m s with
  | none => rfl
  | some e =>
    rw [he] at hrel
    cases hrel with
    | some hakin => exact hakin.left

/-- Instances of a template that are alike are of one kind. -/
theorem kind_substitute (hm : Mapping.Akin m m) (hm' : Mapping.Akin m' m') (t : Formula)
    (hlike : Like (substitute letters m t) (substitute letters m' t)) :
    (substitute letters m t).kind = (substitute letters m' t).kind := by
  cases t with
  | letter s =>
    have hkind := hlike.kind_core
    rwa [core_substitute_letter hm, core_substitute_letter hm'] at hkind
  | _ => rfl

/-- Of instances of a template that are alike both are cores or neither is. -/
theorem core_substitute_iff (hm : Mapping.Akin m m) (hm' : Mapping.Akin m' m') (t : Formula)
    (hlike : Like (substitute letters m t) (substitute letters m' t)) :
    (substitute letters m t).core = substitute letters m t ↔
      (substitute letters m' t).core = substitute letters m' t := by
  cases t with
  | letter s => simp only [core_substitute_letter hm, core_substitute_letter hm']
  | negation t =>
    rw [substitute, substitute, Object.like_negation] at hlike
    rw [substitute, substitute, core_negation_iff, core_negation_iff, kind_substitute hm hm' t hlike]
  | _ => exact iff_of_true rfl rfl

/-- A junction is open within if what it is built from is. -/
theorem openWithin_junctionOf {junctor : Junctor} {fs : List Object}
    (h : ∀ f ∈ fs, openWithin f = true) : openWithin (Object.junctionOf junctor fs) = true := by
  refine openWithinAll_iff.mpr fun junct hjunct => ?_
  obtain ⟨f, hf, hjunct⟩ := List.mem_flatMap.mp hjunct
  cases hjoined : Object.joinedBy junctor f with
  | true =>
    obtain ⟨juncts, p, rfl⟩ := Object.joinedBy_iff.mp hjoined
    rw [Object.junctsUnder_junction] at hjunct
    exact passes_openWithin.juncts (h _ hf) junct hjunct
  | false =>
    rw [Object.junctsUnder_of_not_joined hjoined, List.mem_singleton] at hjunct
    exact hjunct ▸ h f hf

section Open

variable (hm : Mapping.Akin m m) (hopen : Mapping.Agrees (fun _ e => openWithin e = true) m)
include hopen

theorem openWithin_substitute_plain {t : Formula} (ht : plain t = true) :
    openWithin (substitute letters m t) = true := by
  induction t using Formula.inductionOn with
  | letter s =>
    rw [substitute]
    cases he : replacementFor letters m s with
    | none => rfl
    | some e =>
      obtain ⟨k, -, hk⟩ := replacementFor_eq_some.mp he
      exact hopen k e hk
  | negation t ih => exact ih ht
  | _ => cases ht

include hm

/-- **What is put together from cores that are open within is open within.** -/
theorem openWithin_substitute {t : Formula} (ht : presentable t = true) :
    openWithin (substitute letters m t) = true := by
  fun_induction presentable t with
  | case1 junctor ts =>
    rw [substitute, Object.substituteAll_eq]
    refine openWithin_junctionOf (List.forall_mem_map.mpr fun t hmem => ?_)
    exact openWithin_substitute_plain hopen (List.all_eq_true.mp ht t hmem)
  | case2 t u iht ihu =>
    simp only [Bool.and_eq_true, decide_eq_true_eq] at ht
    rw [substitute]
    refine openWithin_conditional.mpr ⟨iht ht.1.1, ihu ht.1.2, fun _ => ?_⟩
    -- the consequent is a letter's core, a junction or a conditional
    cases u with
    | letter s => exact core_substitute_letter hm s
    | negation => exact absurd rfl ht.2
    | _ => rfl
  | case3 t => exact openWithin_substitute_plain hopen ht

end Open

/-- Formulas that are alike hide the same if both are cores or neither is. -/
theorem hidden_eq_of_like (hfg : Like f g) (hcore : f.core = f ↔ g.core = g) :
    hidden f = hidden g := by
  have hcores : Like f.core g.core :=
    Object.like_core_left.mpr (Object.like_core_right.mpr hfg)
  rw [hidden, hidden, sought_eq_of_like (Object.core_core f) (Object.core_core g) hcores,
    decide_eq_decide.mpr (not_congr hcore)]

/-- **What one rule gives is seen alike if it is alike**, and of one kind, if what the rule takes is
open within. -/
theorem seenAlike_of_gives (hrule : rule ∈ table) {used used' : List Object}
    (hf : Gives rule used f) (hg : Gives rule used' g) (hlike : Like f g)
    (hused : ∀ x ∈ used, openWithin x = true) (hused' : ∀ x ∈ used', openWithin x = true) :
    SeenAlike f g ∧ f.kind = g.kind := by
  obtain ⟨m, hm, hopen, rfl⟩ := hf.exists_contents hrule passes_openWithin hused
  obtain ⟨m', hm', hopen', rfl⟩ := hg.exists_contents hrule passes_openWithin hused'
  have hpresentable := table_presentable hrule
  refine ⟨⟨hlike, ?_, ?_, ?_⟩, kind_substitute hm hm' _ hlike⟩
  · exact hidden_eq_of_like hlike (core_substitute_iff hm hm' _ hlike)
  · exact openWithin_substitute hm hopen hpresentable
  · exact openWithin_substitute hm' hopen' hpresentable

end ProofSheet.Solver
