import Mathlib.Data.Prod.Basic
import ProofSheet.Proofs.Comments.Weaving
import ProofSheet.Proofs.Report.Accounts

/-!
# Comments are inert

Putting comments into a sheet that can be checked changes nothing in its report but positions. The
lines have the flags they had and reach the lines they reached, where these have moved; each comment has
the flag of a comment and reaches itself; and the counts and the summary are the same.

* `View.Agrees`: **two views in which a checker finds the same answers**, and so gives the same
  judgement (`View.Agrees.judge`).
* `Reach.Follows`: the reach of the lines before a position, without and with the comments.
* `Reach.Follows.texts`, `Reach.Follows.line`: a step of the sheet with comments, past a block of
  comments and past a line.
* `Reach.Follows.foldl`: **the reach of all lines.**
* `Session.check_annotated`: **the check of a sheet with comments.**
-/

namespace ProofSheet

/-! ## What a checker sees -/

/-- **Two views agree** in all that a checker asks of a view: its logic lines in order, the line and the
scope that a label leads to, the settings, and where the lines lie in memory. -/
structure View.Agrees (view view' : View) : Prop where
  logic : ∀ l, view'.logic? l = view.logic? l
  scope : ∀ l, view'.scope? l = view.scope? l
  logicLines : view'.lines.filterMap Line.logic? = view.lines.filterMap Line.logic?
  settings : view'.settings = view.settings
  memory : view'.memory = view.memory

namespace View.Agrees

variable {view view' : View}

theorem cited (h : view.Agrees view') : view'.cited = view.cited := by
  funext l
  rw [View.cited, View.cited, h.logic l]

theorem object (h : view.Agrees view') : view'.object = view.object := by
  funext line
  rw [View.object, View.object, h.memory]

theorem freeIn (h : view.Agrees view') : view'.freeIn = view.freeIn := by
  have hfree : view'.isFreeIn = view.isFreeIn := by
    funext s l
    rw [View.isFreeIn, View.isFreeIn, h.scope l]
  funext labels symbols
  rw [View.freeIn, View.freeIn, hfree]

theorem citedLines (h : view.Agrees view') (labels : List Label) :
    Check.citedLines view' labels = Check.citedLines view labels := by
  induction labels with
  | nil => rfl
  | cons l labels ih => rw [Check.citedLines, Check.citedLines, h.cited, ih]

/-- **Views that agree give the same judgements.** -/
theorem judge (h : view.Agrees view') (line : LogicLine) :
    Check.judge view' line = Check.judge view line := by
  have hcited := h.cited
  have hfree := h.freeIn
  have hobject := h.object
  unfold Check.judge
  cases line.rule with
  | premise | unrecognized name => rfl
  | discharge c d => simp only [Check.discharge, hcited, hobject]
  | truthFunctional cs => simp only [Check.truthFunctional, h.citedLines, h.settings, hobject]
  | changeOfQuantifier c => simp only [Check.changeOfQuantifier, hcited, hobject]
  | universalInstantiation c => simp only [Check.universalInstantiation, hcited]
  | universalGeneralization c => simp only [Check.universalGeneralization, hcited, hfree]
  | existentialGeneralization c => simp only [Check.existentialGeneralization, hcited]
  | instanceIntroduction c a =>
    simp only [Check.instanceIntroduction, hcited, hfree, h.logicLines, hobject]
  | instanceElimination c d => simp only [Check.instanceElimination, hcited, hfree, hobject]

/-- So a line has the same flags in both. -/
theorem lineFlags (h : view.Agrees view') : view'.lineFlags = view.lineFlags := by
  funext line references
  cases line with
  | text content => rfl
  | logic logic => simp only [View.lineFlags, Check.line, h.judge logic]

end View.Agrees

namespace Comments

variable (comments : Comments)

theorem position?_reindex (index : LineIndex) (l : Label) :
    (comments.reindex index).position? l = (index.position? l).map comments.moved := by
  simp [reindex, LineIndex.position?]

theorem length_texts (i : Nat) : (comments.texts i).length = (comments.before i).length :=
  List.length_map _

/-- **A checker sees no comments.** -/
theorem view_agrees (document : Document) (memory : Memory) (index : LineIndex) (settings : Settings) :
    (document.view memory index settings).Agrees
      ((document.annotated comments).view memory (comments.reindex index) settings) := by
  have hlines : ∀ k, (document.annotated comments).lines[comments.moved k]? = document.lines[k]? :=
    getElem?_weave comments.length_texts document.lines
  -- a label leads to the line it led to, at the place where that has moved
  refine ⟨fun l => ?_, fun l => ?_, ?_, rfl, rfl⟩
  · simp only [View.logic?, Document.view, position?_reindex]
    cases index.position? l with
    | none => rfl
    | some k => simp only [Option.map_some, hlines k]
  · simp only [View.scope?, Document.view, position?_reindex, Document.scopes]
    cases index.position? l with
    | none => rfl
    | some k => simp only [Option.map_some, List.getElem?_map, hlines k]
  · refine filterMap_weave ?_ document.lines 0
    intro i line hline
    obtain ⟨content, -, rfl⟩ := List.mem_map.mp hline
    rfl

/-- The closures of the comments before a position: each reaches itself. -/
def closures (i : Nat) : List (List Nat) :=
  (List.range' (comments.start i) (comments.before i).length).map fun position => [position]

/-- The flags of references of the comments before a position: there are none. -/
def references (i : Nat) : List (List Flag) :=
  (comments.before i).map fun _ => []

/-- The flags of the comments before a position. -/
def flags (i : Nat) : List (List Flag) :=
  (comments.before i).map fun _ => [.comment]

end Comments

/-! ## Reach -/

namespace Reach

variable {comments : Comments} {index : LineIndex}

/-- A trail, with each line where it has moved. -/
def Trail.moved (comments : Comments) (trail : Trail) : Trail where
  closure := trail.closure.map comments.moved
  flags := trail.flags
  edges := trail.edges.map (Prod.map comments.moved comments.moved)

/-- **The reach of the lines before a position, without and with the comments**: each line has been
followed to the lines it was followed to, where these have moved. With the comments, the lines before
`position` have been followed. -/
structure Follows (comments : Comments) (i position : Nat) (reach reach' : Reach) : Prop where
  length : reach.closures.length = i
  length' : reach'.closures.length = position
  closures : ∀ k < i, reach'.closures[comments.moved k]? =
    reach.closures[k]?.map (List.map comments.moved)
  edges : reach'.edges = reach.edges.map (Prod.map comments.moved comments.moved)

/-- The union of what two lines reach moves with them. -/
theorem union_moved (xs ys : List Nat) :
    Ascending.union (xs.map comments.moved) (ys.map comments.moved) =
      (Ascending.union xs ys).map comments.moved := by
  refine Ascending.union_map (fun a b => ?_) xs ys
  simp [Ranked.before, comments.moved_strictMono.lt_iff_lt]

/-- No two edges become one. -/
theorem contains_moved (edges : List (Nat × Nat)) (i k : Nat) :
    (edges.map (Prod.map comments.moved comments.moved)).contains
      (comments.moved i, comments.moved k) = edges.contains (i, k) := by
  have hinjective : Function.Injective (Prod.map comments.moved comments.moved) :=
    comments.moved_strictMono.injective.prodMap comments.moved_strictMono.injective
  rw [Bool.eq_iff_iff, List.contains_iff_mem, List.contains_iff_mem]
  exact List.mem_map_of_injective (a := (i, k)) hinjective

/-- **A reference is followed as it was**: lines keep their order where they move. -/
theorem Trail.follow_moved {closures closures' : List (List Nat)} {i : Nat}
    (hclosures : ∀ k < i, closures'[comments.moved k]? =
      closures[k]?.map (List.map comments.moved))
    (line : LogicLine) (trail : Trail) (label : Label) :
    (trail.moved comments).follow (comments.reindex index) closures' (comments.moved i) line label =
      (trail.follow index closures i line label).moved comments := by
  unfold Trail.follow
  rw [comments.position?_reindex]
  cases index.position? label with
  | none => rfl
  | some k =>
    simp only [Option.map_some, comments.moved_strictMono.lt_iff_lt]
    by_cases hforward : i < k
    · rw [if_pos hforward, if_pos hforward]
      rfl
    · rw [if_neg hforward, if_neg hforward]
      by_cases hback : k < i
      · have hreached : closures'[comments.moved k]?.getD [] =
            (closures[k]?.getD []).map comments.moved := by
          rw [hclosures k hback]
          cases closures[k]? <;> rfl
        rw [if_pos hback, if_pos hback, hreached]
        simp only [Trail.moved, union_moved, contains_moved]
        -- the edge is new exactly if it was
        by_cases hedge : trail.edges.contains (i, k) = true
        · simp only [hedge, if_true]
        · simp only [hedge, if_false, Bool.false_eq_true, List.map_append, List.map_cons,
            List.map_nil, Prod.map_apply]
      · rw [if_neg hback, if_neg hback]

/-- Comments add themselves and nothing else. -/
theorem foldl_texts (contents : List String) : ∀ reach : Reach,
    (contents.map Line.text).foldl (extend index) reach =
      { closures := reach.closures ++
          (List.range' reach.closures.length contents.length).map fun position => [position]
        flags := reach.flags ++ contents.map fun _ => []
        edges := reach.edges } := by
  induction contents with
  | nil => intro reach; simp
  | cons content contents ih =>
    intro reach
    rw [List.map_cons, List.foldl_cons, ih]
    simp [extend, List.range'_succ]

/-- The comments before a line, at their place. -/
theorem foldl_block {reach : Reach} {i : Nat} (hlength : reach.closures.length = comments.start i) :
    (comments.texts i).foldl (extend index) reach =
      { closures := reach.closures ++ comments.closures i
        flags := reach.flags ++ comments.references i
        edges := reach.edges } := by
  rw [Comments.texts, foldl_texts, hlength]
  rfl

namespace Follows

variable {i : Nat} {reach reach' : Reach}

/-- **The step past the comments before a line**: the lines before them have all been followed. -/
theorem texts (h : Follows comments i (comments.start i) reach reach') (flags : List (List Flag)) :
    Follows comments i (comments.moved i) reach
      ⟨reach'.closures ++ comments.closures i, flags, reach'.edges⟩ := by
  refine ⟨h.length, ?_, fun k hk => ?_, h.edges⟩
  · simp [h.length', Comments.closures, Comments.moved]
  · have hlt : comments.moved k < reach'.closures.length := by
      rw [h.length']
      exact comments.moved_lt_start hk
    rw [List.getElem?_append_left hlt, h.closures k hk]

/-- A line adds its closure at the next position, and with the comments where it has moved. -/
theorem push (h : Follows comments i (comments.moved i) reach reach') (closure : List Nat)
    (flags flags' : List (List Flag)) (edges : List (Nat × Nat)) :
    Follows comments (i + 1) (comments.start (i + 1)) ⟨reach.closures ++ [closure], flags, edges⟩
      ⟨reach'.closures ++ [closure.map comments.moved], flags',
        edges.map (Prod.map comments.moved comments.moved)⟩ := by
  refine ⟨by simp [h.length], by simp [h.length', Comments.start_succ], fun k hk => ?_, rfl⟩
  -- the closure just added, or one of those before it
  by_cases hki : k = i
  · have hlast : (reach.closures ++ [closure])[i]? = some closure := by
      rw [← h.length]
      exact List.getElem?_concat_length
    have hlast' : (reach'.closures ++ [closure.map comments.moved])[comments.moved i]? =
        some (closure.map comments.moved) := by
      rw [← h.length']
      exact List.getElem?_concat_length
    rw [hki, hlast, hlast']
    rfl
  · have hlt : k < i := by omega
    have hmoved : comments.moved k < reach'.closures.length := by
      rw [h.length']
      exact comments.moved_strictMono hlt
    have hold : k < reach.closures.length := by
      rw [h.length]
      exact hlt
    simp only [List.getElem?_append_left hmoved, List.getElem?_append_left hold]
    exact h.closures k hlt

/-- **The step past a line**: it reaches what it reached, where that has moved, with the same flags. -/
theorem line (h : Follows comments i (comments.moved i) reach reach') (line : Line) :
    ∃ closure flags edges,
      extend index reach line = ⟨reach.closures ++ [closure], reach.flags ++ [flags], edges⟩ ∧
      extend (comments.reindex index) reach' line =
        ⟨reach'.closures ++ [closure.map comments.moved], reach'.flags ++ [flags],
          edges.map (Prod.map comments.moved comments.moved)⟩ := by
  cases line with
  | text content =>
    refine ⟨[i], [], reach.edges, ?_, ?_⟩
    · simp [extend, h.length]
    · simp [extend, h.length', h.edges]
  | logic logic =>
    let start : Trail := ⟨[i], [], reach.edges⟩
    let trail := logic.references.foldl (Trail.follow index reach.closures i logic) start
    have hstart : (⟨[comments.moved i], [], reach'.edges⟩ : Trail) = start.moved comments := by
      rw [h.edges]
      rfl
    have htrail : logic.references.foldl
        (Trail.follow (comments.reindex index) reach'.closures (comments.moved i) logic)
        ⟨[comments.moved i], [], reach'.edges⟩ = trail.moved comments := by
      rw [hstart]
      exact List.foldl_hom (Trail.moved comments) fun trail label =>
        Trail.follow_moved h.closures logic trail label
    refine ⟨trail.closure, trail.flags, trail.edges, ?_, ?_⟩
    · simp only [extend, h.length]
      rfl
    · simp only [extend, h.length', htrail]
      rfl

/-- **The reach of all lines**, without and with the comments. -/
theorem foldl (lines : List Line) : ∀ {i : Nat} {reach reach' : Reach},
    Follows comments i (comments.start i) reach reach' →
    ∃ closures flags edges,
      lines.foldl (extend index) reach =
        ⟨reach.closures ++ closures, reach.flags ++ flags, edges⟩ ∧
      (weave comments.texts i lines).foldl (extend (comments.reindex index)) reach' =
        ⟨reach'.closures ++ weave comments.closures i (closures.map (List.map comments.moved)),
          reach'.flags ++ weave comments.references i flags,
          edges.map (Prod.map comments.moved comments.moved)⟩ := by
  induction lines with
  | nil =>
    intro i reach reach' h
    refine ⟨[], [], reach.edges, ?_, ?_⟩
    · simp
    · rw [weave, foldl_block h.length', h.edges]
      rfl
  | cons line lines ih =>
    intro i reach reach' h
    -- past the comments, then past the line, which is then at the place it moved to
    have htexts := h.texts (reach'.flags ++ comments.references i)
    obtain ⟨closure, flags, edges, hline, hline'⟩ := @Follows.line comments index _ _ _ htexts line
    have hnext := htexts.push closure (reach.flags ++ [flags])
      (reach'.flags ++ comments.references i ++ [flags]) edges
    obtain ⟨closures, rest, edges, hfold, hfold'⟩ := ih hnext
    refine ⟨closure :: closures, flags :: rest, edges, ?_, ?_⟩
    · rw [List.foldl_cons, hline, hfold]
      simp
    · rw [weave, List.foldl_append, foldl_block h.length', List.foldl_cons, hline', hfold']
      simp [weave]

end Follows

/-- **Comments shift the reach of the lines**, and add that of their own. -/
theorem reach_annotated (document : Document) (index : LineIndex) :
    (document.annotated comments).reach (comments.reindex index) =
      { closures := weave comments.closures 0
          ((document.reach index).closures.map (List.map comments.moved))
        flags := weave comments.references 0 (document.reach index).flags
        edges := (document.reach index).edges.map (Prod.map comments.moved comments.moved) } := by
  have hstart : Follows comments 0 (comments.start 0) {} {} :=
    ⟨rfl, rfl, fun k hk => absurd hk (Nat.not_lt_zero k), rfl⟩
  obtain ⟨closures, flags, edges, hfold, hfold'⟩ :=
    @Follows.foldl comments index document.lines 0 {} {} hstart
  have hreach : document.reach index = ⟨closures, flags, edges⟩ := hfold
  rw [hreach]
  exact hfold'

end Reach

/-! ## Reports -/

namespace Tally

/-- The same counts, but for the number of lines. -/
def SameCounts (t t' : Tally) : Prop :=
  t' = { t with lines := t'.lines }

theorem SameCounts.add {t t' : Tally} (h : t.SameCounts t') (a : Tally) :
    (t + a).SameCounts (t' + a) := by
  unfold SameCounts at h ⊢
  rw [h]
  rfl

theorem SameCounts.add_text {t t' : Tally} (h : t.SameCounts t') :
    t.SameCounts (t' + { lines := 1 }) := by
  unfold SameCounts at h ⊢
  rw [h]
  rfl

theorem SameCounts.foldl_texts {as : List Tally} (has : ∀ a ∈ as, a = { lines := 1 }) :
    ∀ {t t' : Tally}, t.SameCounts t' → t.SameCounts (as.foldl (· + ·) t') := by
  induction as with
  | nil => exact fun h => h
  | cons a as ih =>
    intro t t' h
    rw [List.foldl_cons, has a List.mem_cons_self]
    exact ih (fun b hb => has b (List.mem_cons_of_mem a hb)) h.add_text

/-- Counts of text lines add nothing but lines. -/
theorem SameCounts.foldl_weave {block : Nat → List Tally}
    (hblock : ∀ i, ∀ a ∈ block i, a = { lines := 1 }) (ts : List Tally) :
    ∀ {i : Nat} {t t' : Tally}, t.SameCounts t' →
      (ts.foldl (· + ·) t).SameCounts ((weave block i ts).foldl (· + ·) t') := by
  induction ts with
  | nil =>
    intro i t t' h
    exact h.foldl_texts (hblock i)
  | cons a ts ih =>
    intro i t t' h
    have htexts := h.foldl_texts (hblock i)
    rw [weave, List.foldl_append, List.foldl_cons, List.foldl_cons]
    exact ih (htexts.add a)

end Tally

/-- **What a check finds of a sheet with comments**, beside what it finds of the sheet without. -/
structure Comments.Reported (comments : Comments) (report report' : Report) : Prop where
  /-- Each line is relabelled as it was. -/
  document : report'.document = report.document.annotated comments
  /-- Each line has the flags it had, and each comment the one flag of a comment. -/
  flags : report'.flags = weave comments.flags 0 report.flags
  /-- Each line reaches what it reached, where that has moved, and each comment itself. -/
  closures : report'.reach.closures =
    weave comments.closures 0 (report.reach.closures.map (List.map comments.moved))
  edges : report'.reach.edges = report.reach.edges.map (Prod.map comments.moved comments.moved)
  /-- Flags and closures are those of the lines, one by one. -/
  aligned : report.flags.length = report.document.length ∧
    report.reach.closures.length = report.document.length
  verdict : report'.verdict = report.verdict
  /-- All counts are the same, but for the number of lines. -/
  tally : report'.tally = { report.tally with lines := report'.document.length }

namespace Comments

variable (comments : Comments)

/-- The comments before a position, each taken with the same flags. -/
theorem zipWith_texts {γ : Type} (f : Line → List Flag → γ) (found : List Flag) (i : Nat) :
    List.zipWith f (comments.texts i) ((comments.before i).map fun _ => found) =
      (comments.before i).map fun content => f (.text content) found := by
  rw [texts, List.zipWith_map, List.zipWith_self]

variable (document : Document) (memory : Memory) (index : LineIndex) (settings : Settings)

/-- **Each line has the flags it had.** -/
theorem flags_reportOn :
    ((document.annotated comments).reportOn memory (comments.reindex index) settings).flags =
      weave comments.flags 0 (document.reportOn memory index settings).flags := by
  have hview := (comments.view_agrees document memory index settings).lineFlags
  have hblock : (fun i => List.zipWith (document.view memory index settings).lineFlags (comments.texts i)
      (comments.references i)) = comments.flags := by
    funext i
    exact comments.zipWith_texts _ [] i
  have hlen : ∀ i, (comments.texts i).length = (comments.references i).length := by
    intro i
    simp [texts, references]
  have hreferences := (Reach.length_reach document index).2
  simp only [Document.reportOn, hview, Reach.reach_annotated]
  rw [Document.annotated, zipWith_weave _ hlen 0 hreferences.symm, hblock]

/-- **The counts are those of the lines.** -/
theorem tally_reportOn :
    ((document.annotated comments).reportOn memory (comments.reindex index) settings).tally =
      { (document.reportOn memory index settings).tally with
        lines := (document.annotated comments).length } := by
  have hflags := comments.flags_reportOn document memory index settings
  have hlength := Document.length_flags_reportOn document memory index settings
  have hlen : ∀ i, (comments.texts i).length = (comments.flags i).length := by
    intro i
    simp [texts, Comments.flags]
  have hblock : ∀ i, ∀ a ∈ List.zipWith Tally.ofLine (comments.texts i) (comments.flags i),
      a = { lines := 1 } := by
    intro i a ha
    rw [Comments.flags, zipWith_texts] at ha
    obtain ⟨content, -, rfl⟩ := List.mem_map.mp ha
    rfl
  have hsame : (document.reportOn memory index settings).tally.SameCounts
      ((document.annotated comments).reportOn memory (comments.reindex index) settings).tally := by
    rw [Document.tally_reportOn, Document.tally_reportOn, hflags, Document.annotated,
      zipWith_weave _ hlen 0 hlength.symm]
    exact Tally.SameCounts.foldl_weave hblock _ rfl
  rw [hsame, Document.lines_tally_reportOn]

/-- **The report on a sheet with comments.** -/
theorem reportOn_annotated : comments.Reported (document.reportOn memory index settings)
    ((document.annotated comments).reportOn memory (comments.reindex index) settings) := by
  have hflags := comments.flags_reportOn document memory index settings
  have hclosures := (Reach.length_reach document index).1
  refine ⟨rfl, hflags, ?_, ?_, ⟨document.length_flags_reportOn memory index settings, hclosures⟩,
    ?_, comments.tally_reportOn document memory index settings⟩
  · simp only [Document.reportOn, Reach.reach_annotated]
  · simp only [Document.reportOn, Reach.reach_annotated]
  · -- the flag of a comment is no problem
    unfold Report.verdict
    rw [hflags, any_weave]
    intro i found hfound
    obtain ⟨content, -, rfl⟩ := List.mem_map.mp hfound
    rfl

end Comments

/-- **Comments are inert.** If a sheet is checked, so is the sheet with any comments put in at any place,
and nothing of its report changes but positions. -/
theorem Session.check_annotated (session : Session) (document : Document) (memory : Memory)
    (comments : Comments) (report : Report) (h : (session.check document memory).2 = .ok report) :
    ∃ report', session.check (document.annotated comments) memory =
        ({ session with tally := session.tally + report'.tally }, .ok report') ∧
      comments.Reported report report' := by
  have hcheck := Session.check_ok h
  unfold Document.check at hcheck
  obtain ⟨index, hindex, rfl⟩ := exists_of_map_eq_ok hcheck
  refine ⟨_, ?_, comments.reportOn_annotated _ memory index session.settings⟩
  have hrenumber := comments.renumber_annotated hindex
  simp only [Session.check, Document.check, hrenumber, Except.map]

/-- `B` from `A → B` and `A`, with a blank line, and a reference too many to a line that comes later. -/
def detachmentSheet : Document where
  lines :=
    [ .logic ⟨6, [6], .conditional (.letter 'A') (.letter 'B'), .premise⟩,
      .text "",
      .logic ⟨2, [2], .letter 'A', .premise⟩,
      .logic ⟨4, [2, 6], .letter 'B', .truthFunctional [2, 6, 5]⟩,
      .logic ⟨5, [5], .letter 'B', .premise⟩ ]

/-- Comments at the beginning, within and at the end of that sheet. -/
def asides : Comments where
  before
    | 0 => ["A conditional,"]
    | 2 => ["its antecedent,", "and what follows."]
    | 5 => ["End."]
    | _ => []
  nonblank := by
    intro i content hcontent
    split at hcontent
    · rw [List.mem_singleton.mp hcontent]
      rfl
    · rcases List.mem_pair.mp hcontent with rfl | rfl <;> rfl
    · rw [List.mem_singleton.mp hcontent]
      rfl
    · simp at hcontent

/-- With the comments the sheet has the problem it had, and the step reaches the same two lines. -/
theorem Session.check_annotated_detachment :
    ({} : Session).verdict? detachmentSheet .apart = some .problems ∧
      ∃ report', (({} : Session).check (detachmentSheet.annotated asides) .apart).2 = .ok report' ∧
        report'.verdict = .problems ∧
        report'.reach.closures = [[0], [1], [2], [3], [4], [5], [1, 5, 6], [7], [8]] := by
  have hverdict : ({} : Session).verdict? detachmentSheet .apart = some .problems := rfl
  obtain ⟨report, hcheck, hproblems⟩ := Session.verdict?_eq_some hverdict
  obtain ⟨report', hcheck', hreported⟩ :=
    Session.check_annotated {} detachmentSheet .apart asides report hcheck
  have hclosures : report.reach.closures = [[0], [1], [2], [0, 2, 3], [4]] := by
    have hreach : (({} : Session).check detachmentSheet .apart).2.toOption.map (·.reach.closures) =
        some [[0], [1], [2], [0, 2, 3], [4]] := rfl
    simpa [hcheck, Except.toOption] using hreach
  refine ⟨hverdict, report', by rw [hcheck'], hreported.verdict.trans hproblems, ?_⟩
  rw [hreported.closures, hclosures]
  rfl

end ProofSheet
