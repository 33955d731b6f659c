import ProofSheet.Proofs.Places.Pairing
import ProofSheet.Proofs.Solver.Stages

/-!
# Searches by place

A search of the solver by place: the rules worth trying are found on shelves, one for each kind of formula,
and read from the table by their places. The formulas after the one used first are a slice of the known
ones. The matrices of all three searches for mappings come with it.

* `Places.assignments?_alignRows`, `Places.assignments?_matchRows`: **the matrices of juncts** are run by
  place, those of letters and those of templates.
* `Places.conclusions?`, `Places.fresh?`: what a rule gives, and what of it is new, with their slices.
* `Places.worthPlaces?`, `Places.discover?`: the rules of a round, by their kinds and places.
* `Places.search?_eq`: **a search never leaves its lists**, whatever is searched for.
-/

namespace ProofSheet.Places

open Solver

/-! ## Matrices and slots -/

section Builders

variable {α : Type}

/-- The slot of a designated letter is one of the slots. -/
theorem put?_unfilled {letters : List Symbol} {letter : Symbol} {index : Nat}
    (h : letters.idxOf? letter = some index) (content : α) :
    put? (Mapping.unfilled letters.length) index (some content) =
      some (Mapping.filledAt letters.length index content) := by
  obtain ⟨hindex, -, -⟩ := List.findIdx?_eq_some_iff_getElem.mp h
  have hlength : (Mapping.unfilled (α := α) letters.length).length = letters.length :=
    List.length_replicate
  exact put?_eq (Nat.lt_of_lt_of_eq hindex hlength.symm) (some content)

/-- Juncts of a template against juncts of an instance. -/
theorem assignments?_alignRows (targets : List Symbol) (bound : BoundPairs) (ts is : List Formula)
    (base : List LetterMapping) :
    assignments? base (LetterMapping.alignRows targets bound ts is) =
      some (Mapping.assignments base (LetterMapping.alignRows targets bound ts is)) := by
  rw [LetterMapping.alignRows_eq]
  exact assignments?_table _ ts is base

/-- Juncts of a template of the solver against juncts of a formula. -/
theorem assignments?_matchRows (letters : List Symbol) (ts : List Formula) (fs : List Object)
    (base : List (Mapping Object)) :
    assignments? base (matchRows letters ts fs) =
      some (Mapping.assignments base (matchRows letters ts fs)) := by
  rw [matchRows_eq]
  exact assignments?_table _ ts fs base

end Builders

/-! ## What a rule gives -/

section Conclusions

variable {rule : Inference} {known : List Object} {first : Object} {index : Nat}

/-- What a rule gives when the formula at a place is the first one used. The others are taken from the slice
after it. -/
def conclusionsAt? (rule : Inference) (known : List Object) (index : Nat) : Option (List Object) := do
  let first ← known[index]?
  collect? (fun (antecedent, place) =>
    let base := matchTemplate rule.letters antecedent first
    if base.isEmpty then some []
    else do
      let later ← suffix? known (index + 1)
      let matrix := (rule.antecedents.eraseIdx place).map fun other =>
        later.map (matchTemplate rule.letters other)
      let found ← assignments? base matrix
      return found.map (Object.substitute rule.letters · rule.consequent)) rule.antecedents.zipIdx

/-- **What a rule gives by place**: each formula of the frontier in turn is the first one used. -/
def conclusions? (rule : Inference) (frontier : Nat) (known : List Object) : Option (List Object) :=
  collect? (conclusionsAt? rule known) (List.range (min frontier known.length))

/-- **The slice after a known formula is in range.** -/
theorem conclusionsAt?_eq (h : known[index]? = some first) :
    conclusionsAt? rule known index = some (conclusionsAt rule first (known.drop (index + 1))) := by
  have hindex : index + 1 ≤ known.length := (List.getElem?_eq_some_iff.mp h).1
  rw [conclusionsAt?, h, Option.bind_eq_bind, Option.bind_some]
  apply collect?_eq
  rintro ⟨antecedent, place⟩ -
  simp only
  split
  · rfl
  · have htable := assignments?_table (matchTemplate rule.letters) (rule.antecedents.eraseIdx place)
      (known.drop (index + 1)) (matchTemplate rule.letters antecedent first)
    rw [suffix?_eq hindex]
    simp only [Option.bind_eq_bind, Option.bind_some, htable]
    rfl

/-- The places of the frontier from one on, by induction on what is known from there on. -/
theorem conclusions?_from (rule : Inference) : ∀ (later before : List Object) (frontier : Nat),
    collect? (conclusionsAt? rule (before ++ later))
        (List.range' before.length (min frontier later.length)) =
      some (conclusions rule frontier later)
  | [], before, frontier => by rw [List.length_nil, Nat.min_zero, conclusions]; rfl
  | first :: later, before, 0 => by rw [Nat.zero_min, conclusions]; rfl
  | first :: later, before, frontier + 1 => by
    have hfirst : (before ++ first :: later)[before.length]? = some first := by simp
    have hlater : (before ++ first :: later).drop (before.length + 1) = later := by simp
    have hrest := conclusions?_from rule later (before ++ [first]) frontier
    rw [List.append_assoc, List.singleton_append, List.length_append, List.length_singleton] at hrest
    rw [List.length_cons, Nat.add_min_add_right, List.range'_succ, collect?, conclusionsAt?_eq hfirst,
      hlater, hrest, conclusions]
    rfl

theorem conclusions?_eq (rule : Inference) (frontier : Nat) (known : List Object) :
    conclusions? rule frontier known = some (conclusions rule frontier known) := by
  rw [conclusions?, List.range_eq_range']
  exact conclusions?_from rule known [] frontier

end Conclusions

/-! ## A round -/

section Rounds

variable {test : Inference → Bool}

/-- The discovery at a place, if it is new: each is compared with what is known and with the slice of the
discoveries before it. -/
def freshAt? (known discovered : List Object) (index : Nat) : Option (List Object) := do
  let f ← discovered[index]?
  let earlier ← before? discovered index
  return if knownAmong (known ++ earlier) f then [] else [f]

/-- **New discoveries by place.** -/
def fresh? (known discovered : List Object) : Option (List Object) :=
  collect? (freshAt? known discovered) (List.range discovered.length)

/-- The discoveries from a place on. What comes before them is known by then. -/
theorem fresh?_from (known later before : List Object) :
    collect? (freshAt? known (before ++ later)) (List.range' before.length later.length) =
      some (freshAmong (known ++ before) later) := by
  induction later generalizing before with
  | nil =>
    rw [freshAmong]
    rfl
  | cons f later ih =>
    have hf : (before ++ f :: later)[before.length]? = some f := by simp
    have hearlier : before? (before ++ f :: later) before.length = some before := by
      rw [before?_eq (by simp), List.take_left]
    have hrest := ih (before ++ [f])
    rw [List.append_assoc, List.singleton_append, List.length_append, List.length_singleton] at hrest
    have hsame : freshAmong (known ++ (before ++ [f])) later =
        freshAmong (f :: (known ++ before)) later := by
      apply freshAmong_congr
      intro g
      rw [← List.append_assoc, knownAmong_append, knownAmong_cons, or_comm, knownAmong_cons]
      simp [knownAmong]
    rw [List.length_cons, List.range'_succ, collect?, freshAt?, hf, hearlier, hrest, freshAmong, hsame]
    simp only [Option.bind_eq_bind, Option.bind_some]
    split <;> rfl

theorem fresh?_eq (known discovered : List Object) :
    fresh? known discovered = some (freshAmong known discovered) := by
  have hall := fresh?_from known discovered []
  rw [List.append_nil] at hall
  rw [fresh?, List.range_eq_range']
  exact hall

end Rounds

/-! ## Rules by kind -/

section Shelves

variable {test : Inference → Bool}

/-- All kinds of formulas, each at its index. -/
def kinds : List Formula.Kind :=
  [.letter, .predicate, .junction, .conditional, .biconditional, .negation, .quantified, .identity]

/-- A shelf for each kind, with the places of the rules that have something of the kind. -/
def shelves (has : Inference → Formula.Kind → Bool) : List (List Nat) :=
  kinds.map fun kind => placesWhere fun rule => has rule kind

/-- **There is a shelf for each kind.** -/
theorem getElem?_shelves (has : Inference → Formula.Kind → Bool) (kind : Formula.Kind) :
    (shelves has)[kind.index]? = some (placesWhere fun rule => has rule kind) := by
  cases kind <;> rfl

theorem contains_placesWhere {place : Nat} {rule : Inference} (h : table[place]? = some rule) :
    (placesWhere test).contains place = test rule := by
  rw [Bool.eq_iff_iff, List.contains_iff_mem, placesWhere, List.mem_filterMap]
  constructor
  · rintro ⟨⟨other, place'⟩, hmem, hplace⟩
    rw [Option.ite_none_right_eq_some, Option.some.injEq] at hplace
    obtain ⟨htest, rfl⟩ := hplace
    have hother : table[place']? = some other := List.mk_mem_zipIdx_iff_getElem?.mp hmem
    rw [h] at hother
    rwa [Option.some.inj hother]
  · intro htest
    exact ⟨(rule, place), List.mk_mem_zipIdx_iff_getElem?.mpr h, if_pos htest⟩

/-- The places at which a test is passed, picked from all places of a list. -/
theorem filter_range_eq {α : Type} {pass : α → Bool} {pick : Nat → Bool} : ∀ later before : List α,
    (∀ place a, (before ++ later)[place]? = some a → pick place = pass a) →
    (List.range' before.length later.length).filter pick =
      (later.zipIdx before.length).filterMap fun (a, place) => if pass a then some place else none
  | [], _, _ => rfl
  | a :: later, before, h => by
    have ha : pick before.length = pass a := h _ a (by simp)
    have hrest := filter_range_eq later (before ++ [a]) (by rwa [List.append_assoc])
    rw [List.length_append, List.length_singleton] at hrest
    rw [List.length_cons, List.range'_succ, List.zipIdx_cons]
    by_cases hpass : pass a = true
    · rw [List.filter_cons_of_pos (ha.trans hpass)]
      simp only [List.filterMap_cons, hpass, if_true, hrest]
    · rw [List.filter_cons_of_neg (by rwa [ha])]
      simpa only [List.filterMap_cons, hpass, Bool.false_eq_true, if_false] using hrest

theorem filter_places_eq {pick : Nat → Bool}
    (h : ∀ place rule, table[place]? = some rule → pick place = test rule) :
    (List.range table.length).filter pick = placesWhere test := by
  rw [List.range_eq_range']
  exact filter_range_eq table [] h

/-- The test that a rule passes if it is worth trying. -/
def worth (frontier : List Object) (rule : Inference) : Bool :=
  rule.hasAntecedent .letter || frontier.any fun f => rule.hasAntecedent f.kind

/-- The test that a rule passes if it is worth trying in the last round. -/
def worthLast (frontier : List Object) (goal : Object) (rule : Inference) : Bool :=
  (rule.hasConsequent .letter || rule.hasConsequent goal.kind) && worth frontier rule

/-- **The places of the rules worth trying**, from the shelves of the kinds on the frontier. -/
def worthPlaces? (frontier : List Object) : Option (List Nat) := do
  let bare ← (shelves Inference.hasAntecedent)[Formula.Kind.letter.index]?
  let found ← frontier.mapM fun f => (shelves Inference.hasAntecedent)[f.kind.index]?
  return (List.range table.length).filter fun place =>
    bare.contains place || found.any fun shelf => shelf.contains place

/-- The places of those worth trying in the last round, from the shelf of the kind of the goal besides. -/
def worthLastPlaces? (frontier : List Object) (goal : Object) : Option (List Nat) := do
  let places ← worthPlaces? frontier
  let bare ← (shelves Inference.hasConsequent)[Formula.Kind.letter.index]?
  let own ← (shelves Inference.hasConsequent)[goal.kind.index]?
  return places.filter fun place => bare.contains place || own.contains place

theorem worthPlaces?_eq (frontier : List Object) :
    worthPlaces? frontier = some (placesWhere (worth frontier)) := by
  have hfound : (frontier.mapM fun f => (shelves Inference.hasAntecedent)[f.kind.index]?) =
      some (frontier.map fun f => placesWhere fun rule => rule.hasAntecedent f.kind) := by
    simp only [getElem?_shelves]
    exact List.mapM_pure
  rw [worthPlaces?, getElem?_shelves, hfound]
  refine congrArg some (filter_places_eq fun place rule hrule => ?_)
  have hshelf : ∀ f : Object, (placesWhere fun rule => rule.hasAntecedent f.kind).contains place =
      rule.hasAntecedent f.kind := fun f => contains_placesWhere hrule
  rw [contains_placesWhere hrule, List.any_map, worth]
  simp only [Function.comp_def, hshelf]

theorem worthLastPlaces?_eq (frontier : List Object) (goal : Object) :
    worthLastPlaces? frontier goal = some (placesWhere (worthLast frontier goal)) := by
  have hplaces : (List.range table.length).filter (placesWhere (worth frontier)).contains =
      placesWhere (worth frontier) := filter_places_eq fun place rule hrule => contains_placesWhere hrule
  rw [worthLastPlaces?, worthPlaces?_eq, getElem?_shelves, getElem?_shelves]
  refine congrArg some ?_
  rw [← hplaces, List.filter_filter]
  refine filter_places_eq fun place rule hrule => ?_
  rw [contains_placesWhere hrule, contains_placesWhere hrule, contains_placesWhere hrule, worthLast]

end Shelves

/-! ## A search -/

section Searches

/-- The places at which a test is passed are in range. -/
theorem collect?_places {α β : Type} (pass : α → Bool) (run : α → List β) : ∀ later before : List α,
    collect? (fun place => (before ++ later)[place]?.map run)
        ((later.zipIdx before.length).filterMap fun (a, place) => if pass a then some place else none) =
      some ((later.filter pass).flatMap run)
  | [], _ => rfl
  | a :: later, before => by
    have ha : (before ++ a :: later)[before.length]? = some a := by simp
    have hrest := collect?_places pass run later (before ++ [a])
    rw [List.append_assoc, List.singleton_append, List.length_append, List.length_singleton] at hrest
    rw [List.zipIdx_cons]
    by_cases hpass : pass a = true
    · rw [List.filter_cons_of_pos hpass]
      simp only [List.filterMap_cons, hpass, if_true, collect?, ha, hrest]
      rfl
    · rw [List.filter_cons_of_neg hpass]
      simpa only [List.filterMap_cons, hpass, Bool.false_eq_true, if_false] using hrest

/-- The discoveries of a round by place: the rules at some places are read from the table. -/
def discover? (places : List Nat) (frontier explored : List Object) : Option (List Object) :=
  collect? (fun place => do
    let rule ← table[place]?
    conclusions? rule frontier.length (frontier ++ explored)) places

/-- **The rules that pass a test are there.** -/
theorem discover?_eq (test : Inference → Bool) (frontier explored : List Object) :
    discover? (placesWhere test) frontier explored =
      some (discover (table.filter test) frontier explored) := by
  have hplaces := collect?_places test
    (fun rule => conclusions rule frontier.length (frontier ++ explored)) table []
  have hrule : ∀ place : Nat, (table[place]?.bind fun rule =>
      conclusions? rule frontier.length (frontier ++ explored)) =
      table[place]?.map fun rule => conclusions rule frontier.length (frontier ++ explored) := by
    intro place
    cases table[place]? with
    | none => rfl
    | some rule => exact conclusions?_eq rule _ _
  rw [discover?, Option.bind_eq_bind, funext hrule]
  exact hplaces

/-- **A search by place.** -/
def search? (goal : Object) (explored frontier : List Object) : Nat → Option Outcome
  | 0 => some .depthReached
  | 1 => do
    let places ← worthLastPlaces? frontier goal
    let discovered ← discover? places frontier explored
    return if discovered.isEmpty then .exhausted
      else if knownAmong discovered goal then .confirmed
      else .depthReached
  | rounds + 2 => do
    let places ← worthPlaces? frontier
    let discovered ← discover? places frontier explored
    if discovered.isEmpty then return .exhausted
    else if knownAmong discovered goal then return .confirmed
    else
      let explored := explored ++ frontier
      let fresh ← fresh? explored discovered
      search? goal explored fresh (rounds + 1)

/-- **A search never leaves its lists.** The induction is on the rounds that are left. -/
theorem search?_eq (goal : Object) (explored frontier : List Object) (rounds : Nat) :
    search? goal explored frontier rounds = some (search goal explored frontier rounds) := by
  have hlast : ∀ frontier, table.filter (worthLast frontier goal) = finalCandidates frontier goal :=
    fun _ => List.filter_filter.symm
  have hround : ∀ frontier, table.filter (worth frontier) = candidates frontier := fun _ => rfl
  induction rounds using Nat.strongRecOn generalizing explored frontier with
  | _ rounds ih =>
    match rounds with
    | 0 => rfl
    | 1 =>
      rw [search?, worthLastPlaces?_eq, Option.bind_eq_bind, Option.bind_some, discover?_eq, hlast, search]
      rfl
    | rounds + 2 =>
      have hrest := ih (rounds + 1) (Nat.lt_succ_self _) (explored ++ frontier)
      rw [search?, worthPlaces?_eq, Option.bind_eq_bind, Option.bind_some, discover?_eq, hround, search]
      simp only [Option.bind_eq_bind, Option.bind_some]
      split
      · rfl
      · split
        · rfl
        · rw [fresh?_eq, Option.bind_some]
          exact hrest _

end Searches

end ProofSheet.Places
