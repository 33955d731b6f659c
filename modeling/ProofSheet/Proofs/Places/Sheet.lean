import ProofSheet.Proofs.Places.Access
import ProofSheet.Proofs.Reach.Trails
import ProofSheet.Session

/-!
# A check by place

The check of a renumbered sheet by place: one pass that follows references, over closures and nodes that are
read by position, and two passes that add flags at the position of each line. A reference that has no
position is not passed over here, it makes the run fail.

* `Places.reach?_eq`: **no reference is skipped and no closure is out of range**, where every reference has
  a position.
* `Places.pass?_eq`: a pass over the lines that adds flags at each position.
* `Places.report?_eq`: **the check by place gives the report.**
-/

namespace ProofSheet.Places

/-! ## Reach -/

section Reach

open ProofSheet.Reach (Trail forwardFlag extend)

variable {index : LineIndex} {closures : List (List Nat)} {nodes : List Nat} {position : Nat}
  {line : LogicLine}

/-- Follows one reference by place. A reference without a position is not passed over. -/
def follow? (index : LineIndex) (nodes : List Nat) (closures : List (List Nat)) (position : Nat)
    (line : LogicLine) (trail : Trail) (label : Label) : Option Trail := do
  let referenced ← index.position? label
  if position < referenced then
    return { trail with flags := trail.flags ++ [forwardFlag line label] }
  else if referenced < position then do
    let closure ← closures[referenced]?
    let source ← nodes[position]?
    let target ← nodes[referenced]?
    return { trail with
      closure := Ascending.union trail.closure closure
      edges :=
        if trail.edges.contains (source, target) then trail.edges
        else trail.edges ++ [(source, target)] }
  else return trail

/-- Adds the line at the next position by place. -/
def extend? (index : LineIndex) (nodes : List Nat) (reach : Reach) (line : Line) : Option Reach := do
  let position := reach.closures.length
  let start : Trail := { closure := [position], flags := [], edges := reach.edges }
  let trail ←
    match line with
    | .logic logic =>
      logic.references.foldlM (follow? index nodes reach.closures position logic) start
    | .text _ => some start
  return { closures := reach.closures ++ [trail.closure]
           flags := reach.flags ++ [trail.flags]
           edges := trail.edges }

/-- **The reach of every line by place**, with a node for each position. -/
def reach? (document : Document) (index : LineIndex) : Option Reach :=
  document.lines.foldlM (extend? index (List.range document.length)) {}

/-- A line has a position for each label that it refers to. -/
def Referring (index : LineIndex) (line : Line) : Prop :=
  ∀ logic, line = .logic logic → ∀ l ∈ logic.references, ∃ referenced, index.position? l = some referenced

/-- **The closure of an earlier line is there.** So are its node and that of the line. -/
theorem follow?_eq {count : Nat} {label : Label} {referenced : Nat}
    (hposition : position < count) (hclosures : closures.length = position)
    (hlabel : index.position? label = some referenced) (trail : Trail) :
    follow? index (List.range count) closures position line trail label =
      some (trail.follow index closures position line label) := by
  rw [follow?, Trail.follow, hlabel, Option.bind_eq_bind, Option.bind_some]
  simp only
  split
  · rfl
  · split
    · rename_i hback
      have hclosure : closures[referenced]? = some closures[referenced] :=
        List.getElem?_eq_getElem (by omega)
      have hsource : (List.range count)[position]? = some position := List.getElem?_range hposition
      have htarget : (List.range count)[referenced]? = some referenced :=
        List.getElem?_range (by omega)
      rw [hclosure, hsource, htarget]
      rfl
    · rfl

/-- Steps that do not fail lead where they lead. -/
theorem foldlM_eq_some {σ α : Type} {step? : σ → α → Option σ} {step : σ → α → σ} {as : List α}
    (h : ∀ a ∈ as, ∀ s, step? s a = some (step s a)) : ∀ s, as.foldlM step? s = some (as.foldl step s) := by
  induction as with
  | nil => exact fun _ => rfl
  | cons a as ih =>
    intro s
    rw [List.forall_mem_cons] at h
    rw [List.foldlM_cons, h.1 s, List.foldl_cons]
    exact ih h.2 (step s a)

/-- The step past a line. -/
theorem extend?_eq {count : Nat} {reach : Reach} {line : Line} (hcount : reach.closures.length < count)
    (hline : Referring index line) :
    extend? index (List.range count) reach line = some (extend index reach line) := by
  cases line with
  | text content => rfl
  | logic logic =>
    have hfollow : ∀ l ∈ logic.references, ∀ trail : Trail,
        follow? index (List.range count) reach.closures reach.closures.length logic trail l =
          some (trail.follow index reach.closures reach.closures.length logic l) := by
      intro l hl trail
      obtain ⟨referenced, hreferenced⟩ := hline logic rfl l hl
      exact follow?_eq hcount rfl hreferenced trail
    rw [extend?, foldlM_eq_some hfollow]
    rfl

/-- The pass over the lines that are left. There are as many nodes as lines. -/
theorem reach?_from {count : Nat} {lines : List Line} (hlines : ∀ line ∈ lines, Referring index line) :
    ∀ {reach : Reach}, reach.closures.length + lines.length = count →
      lines.foldlM (extend? index (List.range count)) reach = some (lines.foldl (extend index) reach) := by
  induction lines with
  | nil => exact fun _ => rfl
  | cons line lines ih =>
    intro reach hcount
    rw [List.forall_mem_cons] at hlines
    rw [List.length_cons] at hcount
    have hlength : (extend index reach line).closures.length = reach.closures.length + 1 :=
      List.length_append
    have hrest := @ih hlines.2 (extend index reach line) (by omega)
    rw [List.foldlM_cons, extend?_eq (by omega) hlines.1, List.foldl_cons]
    exact hrest

/-- **No reference is skipped and no closure is out of range**, where every reference has a position. -/
theorem reach?_eq {document : Document} (h : ∀ line ∈ document.lines, Referring index line) :
    reach? document index = some (document.reach index) :=
  reach?_from h (Nat.zero_add _)

end Reach

/-! ## Flags -/

section Flags

/-- Adds flags to those at a position. -/
def flag? (flags : List (List Flag)) (position : Nat) (more : List Flag) : Option (List (List Flag)) := do
  let found ← flags[position]?
  put? flags position (found ++ more)

/-- The flags for the letters of a line. -/
def letterFlags : Line → List Flag
  | .logic logic => logic.formula.scope.flags
  | .text _ => []

/-- The flags that a line has for its rule, or for being text. -/
def ruleFlags (view : View) : Line → List Flag
  | .logic logic => Check.line view logic
  | .text _ => [.comment]

/-- Adds flags to the line at a position, and takes note of the line with all that it has then. -/
def passAt? {σ : Type} (more : Line → List Flag) (note : σ → Line → List Flag → σ)
    (state : List (List Flag) × σ) (line : Line × Nat) : Option (List (List Flag) × σ) := do
  let flags ← flag? state.1 line.2 (more line.1)
  let found ← flags[line.2]?
  return (flags, note state.2 line.1 found)

/-- A pass over the lines with their positions. -/
def pass? {σ : Type} (more : Line → List Flag) (note : σ → Line → List Flag → σ) (lines : List Line)
    (state : List (List Flag) × σ) : Option (List (List Flag) × σ) :=
  lines.zipIdx.foldlM (passAt? more note) state

/-- **The check of a renumbered sheet by place**: the pass over references, one for the letters of each
line, and one in which each line is judged and counted. -/
def report? (document : Document) (memory : Memory) (index : LineIndex) (settings : Settings) :
    Option Report := do
  let reach ← reach? document index
  let (flags, _) ← pass? letterFlags (fun _ _ _ => ()) document.lines (reach.flags, ())
  let (flags, tally) ←
    pass? (ruleFlags (document.view memory index settings))
      (fun tally line found => tally + Tally.ofLine line found) document.lines (flags, {})
  return { document, flags, reach, tally }

/-- What is written after the flags of the lines before. -/
theorem flag?_after (before : List (List Flag)) (found : List Flag) (flags : List (List Flag))
    (more : List Flag) : flag? (before ++ found :: flags) before.length more =
      some (before ++ (found ++ more) :: flags) := by
  have hfound : (before ++ found :: flags)[before.length]? = some found := by simp
  have hput : put? (before ++ found :: flags) before.length (found ++ more) =
      some (before ++ (found ++ more) :: flags) := by
    rw [put?_eq (by simp), List.set_append_right _ _ (Nat.le_refl _), Nat.sub_self, List.set_cons_zero]
  rw [flag?, hfound]
  exact hput

/-- The flags after a pass. -/
def flagged (more : Line → List Flag) (lines : List Line) (flags : List (List Flag)) : List (List Flag) :=
  List.zipWith (fun line found => found ++ more line) lines flags

theorem length_flagged (more : Line → List Flag) {lines : List Line} {flags : List (List Flag)}
    (h : lines.length = flags.length) : lines.length = (flagged more lines flags).length := by
  rw [flagged, List.length_zipWith, ← h, Nat.min_self]

/-- **The flags of each line are there at its position**, by induction on the lines that are left. -/
theorem pass?_from {σ : Type} (more : Line → List Flag) (note : σ → Line → List Flag → σ) :
    ∀ {lines : List Line} {flags : List (List Flag)} (before : List (List Flag)) (noted : σ),
      lines.length = flags.length →
        (lines.zipIdx before.length).foldlM (passAt? more note) (before ++ flags, noted) =
          some (before ++ flagged more lines flags,
            (lines.zip (flagged more lines flags)).foldl (fun noted line => note noted line.1 line.2)
              noted)
  | [], [], before, noted, _ => rfl
  | line :: lines, found :: flags, before, noted, h => by
    have hrest := @pass?_from σ more note lines flags (before ++ [found ++ more line])
      (note noted line (found ++ more line)) (Nat.succ.inj h)
    rw [List.append_assoc, List.append_assoc, List.length_append, List.length_singleton] at hrest
    have hread : (before ++ (found ++ more line) :: flags)[before.length]? = some (found ++ more line) := by
      simp
    rw [List.zipIdx_cons, List.foldlM_cons, passAt?, flag?_after]
    simp only [Option.bind_eq_bind, Option.bind_some, hread]
    exact hrest

theorem pass?_eq {σ : Type} (more : Line → List Flag) (note : σ → Line → List Flag → σ)
    {lines : List Line} {flags : List (List Flag)} (noted : σ) (h : lines.length = flags.length) :
    pass? more note lines (flags, noted) = some (flagged more lines flags,
      (lines.zip (flagged more lines flags)).foldl (fun noted line => note noted line.1 line.2) noted) :=
  pass?_from more note [] noted h

/-- A line has its flags stage by stage. -/
theorem lineFlags_eq (view : View) (line : Line) (references : List Flag) :
    view.lineFlags line references = references ++ letterFlags line ++ ruleFlags view line := by
  cases line with
  | logic logic => rfl
  | text content => rw [letterFlags, List.append_nil]; rfl

/-- The pass for letters and the pass for rules together. -/
theorem flagged_flagged (view : View) : ∀ (lines : List Line) (flags : List (List Flag)),
    flagged (ruleFlags view) lines (flagged letterFlags lines flags) =
      List.zipWith view.lineFlags lines flags
  | [], _ => rfl
  | _ :: _, [] => rfl
  | line :: lines, found :: flags => by
    have hrest := flagged_flagged view lines flags
    rw [List.zipWith_cons_cons, lineFlags_eq, ← hrest]
    rfl

/-- The lines with their flags are counted one by one. -/
theorem foldl_zip_eq (lines : List Line) (flags : List (List Flag)) (tally : Tally) :
    (lines.zip flags).foldl (fun tally line => tally + Tally.ofLine line.1 line.2) tally =
      (List.zipWith Tally.ofLine lines flags).foldl (· + ·) tally := by
  rw [← List.map_uncurry_zip_eq_zipWith, List.foldl_map]
  rfl

/-- **The check by place gives the report**, where every reference has a position. -/
theorem report?_eq {document : Document} {index : LineIndex} (memory : Memory) (settings : Settings)
    (h : ∀ line ∈ document.lines, Referring index line) :
    report? document memory index settings = some (document.reportOn memory index settings) := by
  have hlength : document.lines.length = (document.reach index).flags.length :=
    (Reach.length_reach document index).2.symm
  have hletters := pass?_eq letterFlags (fun _ _ _ => ()) () hlength
  have hrules := pass?_eq (ruleFlags (document.view memory index settings))
    (fun tally line found => tally + Tally.ofLine line found) {} (length_flagged letterFlags hlength)
  rw [flagged_flagged, foldl_zip_eq] at hrules
  rw [report?, reach?_eq h, Option.bind_eq_bind, Option.bind_some, hletters, Option.bind_eq_bind,
    Option.bind_some]
  simp only
  rw [hrules]
  rfl

end Flags

end ProofSheet.Places
