import ProofSheet.Proofs.Report.Accounts

/-!
# Sessions step by step

A session checks sheets and changes settings in any order. A step that fails leaves no trace.

* `Session.Step`, `Session.after`: the steps of a session, and the session after some of them.
* `Session.step_of_fails`, `Session.tally_step`, `Session.settings_step`: what one step does.
* `Session.tally_after`: **the counts of a session are those of its reports together.**
* `Session.after_consistent`: **flags, summaries, counts and settings agree at every point of a
  session.**
-/

namespace ProofSheet

/-! ## Settings -/

/-- A setting takes a value exactly if that lies within its bounds. -/
theorem Setting.set?_eq_some {setting setting' : Setting} {value : Nat} :
    setting.set? value = some setting' ↔
      (setting.min ≤ value ∧ value ≤ setting.max) ∧ setting' = { setting with value } := by
  simp only [Setting.set?, Setting.admits, decide_eq_true_eq, Option.ite_none_right_eq_some,
    Option.some.injEq]
  exact and_congr_right fun _ => eq_comm

namespace Settings

variable {settings settings' : Settings} {name : Name} {value : Nat}

/-- Every setting lies within its bounds. -/
def Within (settings : Settings) : Prop :=
  ∀ name, (settings.get name).min ≤ (settings.get name).value ∧
    (settings.get name).value ≤ (settings.get name).max

/-- Two settings differ in nothing but their values. -/
def SameBounds (settings settings' : Settings) : Prop :=
  ∀ name, settings'.get name = { settings.get name with value := (settings'.get name).value }

/-- **What a change does**: one setting has the new value, which is within its bounds, and the other is
as it was. -/
theorem get_of_set? (h : settings.set? name value = some settings') (other : Name) :
    (settings'.get other = { settings.get other with value } ∧
      (settings.get other).min ≤ value ∧ value ≤ (settings.get other).max) ∨
    settings'.get other = settings.get other := by
  cases name with
  | truthFunctionalDepth =>
    obtain ⟨setting, hset, rfl⟩ := Option.map_eq_some_iff.mp h
    obtain ⟨hbounds, rfl⟩ := Setting.set?_eq_some.mp hset
    cases other with
    | truthFunctionalDepth => exact Or.inl ⟨rfl, hbounds⟩
    | labelLimit => exact Or.inr rfl
  | labelLimit =>
    obtain ⟨setting, hset, rfl⟩ := Option.map_eq_some_iff.mp h
    obtain ⟨hbounds, rfl⟩ := Setting.set?_eq_some.mp hset
    cases other with
    | truthFunctionalDepth => exact Or.inr rfl
    | labelLimit => exact Or.inl ⟨rfl, hbounds⟩

/-- A change is refused exactly if the value is out of bounds. -/
theorem set?_eq_none : settings.set? name value = none ↔
    ¬ ((settings.get name).min ≤ value ∧ value ≤ (settings.get name).max) := by
  cases name <;> simp [set?, get, Setting.set?, Setting.admits]

theorem Within.set? (hw : settings.Within) (h : settings.set? name value = some settings') :
    settings'.Within := by
  intro other
  rcases get_of_set? h other with ⟨hget, hbounds⟩ | hget
  · rw [hget]
    exact hbounds
  · rw [hget]
    exact hw other

theorem SameBounds.set? {start : Settings} (hs : start.SameBounds settings)
    (h : settings.set? name value = some settings') : start.SameBounds settings' := by
  intro other
  rcases get_of_set? h other with ⟨hget, -⟩ | hget
  · rw [hget, hs other]
  · rw [hget]
    exact hs other

end Settings

/-! ## Steps -/

namespace Session

/-- A step of a session. -/
inductive Step where
  /-- A sheet is checked, whose lines lie in memory. -/
  | check (document : Document) (memory : Memory)
  /-- A setting is given a value. -/
  | set (name : Settings.Name) (value : Nat)

/-- A session that begins, under some settings. -/
def opened (settings : Settings) : Session :=
  { settings }

/-- The session after a step. -/
def step (session : Session) : Step → Session
  | .check document memory => (session.check document memory).1
  | .set name value => (session.set name value).1

/-- The session after some steps. -/
def after (session : Session) (steps : List Step) : Session :=
  steps.foldl step session

/-- A step fails: the sheet cannot be checked, or the value is refused. -/
def Fails (session : Session) : Step → Prop
  | .check document memory => ∃ error, (session.check document memory).2 = .error error
  | .set name value => (session.set name value).2 = false

/-- The report of a step, if it is a check that succeeds. -/
def report? (session : Session) : Step → Option Report
  | .check document memory => (session.check document memory).2.toOption
  | .set _ _ => none

/-- The reports of some steps, in order. -/
def reports (session : Session) : List Step → List Report
  | [] => []
  | first :: steps => (session.report? first).toList ++ (session.step first).reports steps

/-- The counts of some reports, on top of what was counted before. -/
def counted (tally : Tally) (reports : List Report) : Tally :=
  reports.foldl (fun tally report => tally + report.tally) tally

variable {session : Session}

/-- **What a check does** to a session: it adds the counts of its report, if there is one. -/
theorem check_cases (session : Session) (document : Document) (memory : Memory) :
    (∃ error, session.check document memory = (session, .error error)) ∨
      ∃ report, document.check memory session.settings = .ok report ∧
        session.check document memory =
          ({ session with tally := session.tally + report.tally }, .ok report) := by
  unfold check
  cases hcheck : document.check memory session.settings with
  | error error => exact Or.inl ⟨error, rfl⟩
  | ok report => exact Or.inr ⟨report, rfl, rfl⟩

/-- **What a change of a setting does** to a session. -/
theorem set_cases (session : Session) (name : Settings.Name) (value : Nat) :
    (session.settings.set? name value = none ∧ session.set name value = (session, false)) ∨
      ∃ settings, session.settings.set? name value = some settings ∧
        session.set name value = ({ session with settings }, true) := by
  unfold set
  cases hset : session.settings.set? name value with
  | none => exact Or.inl ⟨rfl, rfl⟩
  | some settings => exact Or.inr ⟨settings, rfl, rfl⟩

/-- **A step that fails changes nothing.** -/
theorem step_of_fails {s : Step} (h : session.Fails s) : session.step s = session := by
  cases s with
  | check document memory =>
    rcases session.check_cases document memory with ⟨error, hcheck⟩ | ⟨report, -, hcheck⟩
    · rw [step, hcheck]
    · obtain ⟨error, herror⟩ := h
      rw [hcheck] at herror
      cases herror
  | set name value =>
    rcases session.set_cases name value with ⟨-, hset⟩ | ⟨settings, -, hset⟩
    · rw [step, hset]
    · rw [Fails, hset] at h
      cases h

/-- A step adds the counts of its report, if there is one. -/
theorem tally_step (session : Session) (s : Step) :
    (session.step s).tally = counted session.tally (session.report? s).toList := by
  cases s with
  | check document memory =>
    rcases session.check_cases document memory with ⟨error, hcheck⟩ | ⟨report, -, hcheck⟩
    · rw [step, report?, hcheck]
      rfl
    · rw [step, report?, hcheck]
      rfl
  | set name value =>
    rcases session.set_cases name value with ⟨-, hset⟩ | ⟨settings, -, hset⟩
    · rw [step, hset]
      rfl
    · rw [step, hset]
      rfl

/-- A step changes the settings as a change of one of them does, or not at all. -/
theorem settings_step (session : Session) (s : Step) :
    (session.step s).settings = session.settings ∨
      ∃ name value, session.settings.set? name value = some (session.step s).settings := by
  cases s with
  | check document memory =>
    rcases session.check_cases document memory with ⟨error, hcheck⟩ | ⟨report, -, hcheck⟩
    · exact Or.inl (by rw [step, hcheck])
    · exact Or.inl (by rw [step, hcheck])
  | set name value =>
    rcases session.set_cases name value with ⟨-, hset⟩ | ⟨settings, hsome, hset⟩
    · exact Or.inl (by rw [step, hset])
    · exact Or.inr ⟨name, value, by rw [step, hset, hsome]⟩

/-! ## Runs -/

/-- **The counts of a session are those of its reports together.** -/
theorem tally_after (steps : List Step) : ∀ session : Session,
    (session.after steps).tally = counted session.tally (session.reports steps) := by
  induction steps with
  | nil => intro session; rfl
  | cons first steps ih =>
    intro session
    have hrest := ih (session.step first)
    rw [tally_step] at hrest
    rw [after, List.foldl_cons, reports, counted, List.foldl_append]
    exact hrest

/-- What holds of the settings and is kept by every change of one of them holds after all steps. -/
theorem settings_after {P : Settings → Prop}
    (hset : ∀ {settings settings' name value}, settings.set? name value = some settings' →
      P settings → P settings') (steps : List Step) :
    ∀ session : Session, P session.settings → P (session.after steps).settings := by
  induction steps with
  | nil => exact fun _ h => h
  | cons first steps ih =>
    intro session h
    refine ih (session.step first) ?_
    rcases session.settings_step first with hsame | ⟨name, value, hchanged⟩
    · rw [hsame]
      exact h
    · exact hset hchanged h

/-- **A session whose accounts agree**, after some steps from the settings it began with. -/
structure Consistent (start : Settings) (steps : List Step) (session : Session) : Prop where
  /-- Every setting is within its bounds, and these are as they were. -/
  within : session.settings.Within
  bounds : start.SameBounds session.settings
  /-- The counts are those of all reports so far, together. -/
  tally : session.tally = counted {} ((opened start).reports steps)
  /-- A check that succeeds gives a report whose accounts agree, and adds its counts. -/
  checked : ∀ document memory report, (session.check document memory).2 = .ok report →
    report.Accounts document ∧
      session.step (.check document memory) = { session with tally := session.tally + report.tally }
  /-- A sheet that cannot be checked, and a value that is refused, change nothing. -/
  unchanged : ∀ s, session.Fails s → session.step s = session
  /-- A value is refused exactly if it is out of bounds. -/
  refused : ∀ name value, session.Fails (.set name value) ↔
    ¬ ((start.get name).min ≤ value ∧ value ≤ (start.get name).max)

/-- **Flags, summaries, counts and settings agree at every point of a session**, whatever was checked and
set before. -/
theorem after_consistent (settings : Settings) (h : settings.Within) (steps : List Step) :
    Consistent settings steps ((opened settings).after steps) := by
  have hbounds : settings.SameBounds ((opened settings).after steps).settings :=
    settings_after (fun hset hs => hs.set? hset) steps (opened settings) fun _ => rfl
  refine ⟨?_, hbounds, ?_, ?_, fun s => step_of_fails, ?_⟩
  · exact settings_after (fun hset hw => hw.set? hset) steps (opened settings) h
  · exact tally_after steps (opened settings)
  · intro document memory report hok
    rcases ((opened settings).after steps).check_cases document memory with
      ⟨error, hcheck⟩ | ⟨report', hreport, hcheck⟩
    · rw [hcheck] at hok
      cases hok
    · rw [hcheck] at hok
      obtain rfl : report' = report := Except.ok.inj hok
      exact ⟨Document.check_accounts hreport, by rw [step, hcheck]⟩
  · intro name value
    have hset := @Settings.set?_eq_none ((opened settings).after steps).settings name value
    rw [hbounds name] at hset
    rw [← hset]
    rcases ((opened settings).after steps).set_cases name value with
      ⟨hnone, hrefused⟩ | ⟨settings', hsome, hdone⟩
    · simp [Fails, hrefused, hnone]
    · simp [Fails, hdone, hsome]

/-- A sheet with a premise, a comment and a line that does not follow from it. -/
def unsupportedSheet : Document where
  lines :=
    [ .logic ⟨7, [7], .letter 'A', .premise⟩,
      .text "What follows does not.",
      .logic ⟨9, [7], .letter 'B', .truthFunctional [7]⟩ ]

/-- The sheet is checked, a depth is refused, the label limit is lowered below the labels of the sheet,
and it is checked in vain. -/
def twoChecks : List Step :=
  [.check unsupportedSheet .apart, .set .truthFunctionalDepth 9, .set .labelLimit 8,
    .check unsupportedSheet .apart]

/-- The session has counted the first of the two checks and kept its depth. -/
theorem after_consistent_twoChecks :
    Settings.standard.Within ∧
      ((opened .standard).after twoChecks).tally =
        { lines := 3, logicLines := 2, good := 1, problems := 1, truthFunctional := 1 } ∧
      ((opened .standard).after twoChecks).settings.truthFunctionalDepth.value = 2 ∧
      Consistent .standard twoChecks ((opened .standard).after twoChecks) := by
  have hstandard : Settings.standard.Within := by
    intro name
    cases name <;> decide
  exact ⟨hstandard, rfl, rfl, after_consistent .standard hstandard twoChecks⟩

end Session

end ProofSheet
