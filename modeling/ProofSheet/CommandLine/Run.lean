import ProofSheet.CommandLine.Options
import ProofSheet.Document.Exchange
import ProofSheet.Session

/-!
# The command

What the command prints and how it exits, given its arguments and the file they name. Exit codes are
0 for a sheet without problems, 1 for a sheet with problems and 2 when there is nothing to judge.
-/

namespace ProofSheet.CommandLine

/-- The name and version of the command. -/
def version : String := "deduction_lint 0.1.0"

/-- Text for standard output, and an exit code. -/
structure Answer where
  output : String
  exit : Nat
  deriving DecidableEq

/-- A message, and the exit code for nothing to judge. -/
def failure (message : String) : Answer :=
  ⟨message ++ "\n", 2⟩

/-- What came of opening a file. -/
inductive Content where
  | missing
  /-- It was opened and could not be read. -/
  | unreadable
  | bytes (bytes : List UInt8)

/-! ## Settings -/

/-- Sets a value given on the command line. -/
def configure (option : String) (name : Settings.Name) (value : Option Nat)
    (settings : Settings) : Except Answer Settings :=
  match value with
  | none => .ok settings
  | some value =>
    match settings.set? name value with
    | some settings => .ok settings
    | none =>
      let setting := settings.get name
      .error (failure (option ++ " requires a value between " ++ toString setting.min ++ " and " ++
        toString setting.max))

/-- The settings that options ask for. -/
def settingsOf (options : Options) : Except Answer Settings := do
  let settings ← configure "tf-depth" .truthFunctionalDepth options.tfDepth .standard
  configure "label-limit" .labelLimit options.labelLimit settings

/-! ## Output -/

/-- The colour of a kind of flag, by its number among 256. -/
def colour : Flag.Kind → Nat
  | .good => 10
  | .comment => 8
  | .tfWarning | .unlinted => 11
  | .unrecognized | .tfError => 13
  | _ => 9

/-- A word in bold and in colour. -/
def painted (colour : Nat) (word : String) : String :=
  "\x1b[38;5;" ++ toString colour ++ "m\x1b[1m" ++ word ++ "\x1b[0m"

/-- A number set to the right of four places. -/
def aligned (n : Nat) : String :=
  let digits := toString n
  "".pushn ' ' (4 - digits.length) ++ digits

/-- A flag under its line. -/
def flagLine (plain : Bool) (flag : Flag) : String :=
  let kind := if plain then flag.kind.words else painted (colour flag.kind) flag.kind.words
  "       " ++ kind ++
    (match flag.text with
      | some text => ": " ++ text
      | none => "") ++ "\n"

/-- Each line with its flags; a text line shows none. -/
def lineListing (plain : Bool) (report : Report) : String :=
  String.join <| report.lines.zipIdx.map fun ((line, flags), position) =>
    aligned position ++ " " ++ line.written ++ "\n" ++
      String.join ((flags.filter fun flag => flag.kind != .comment).map (flagLine plain))

/-- What each line reaches. -/
def reachListing (reach : Reach) : String :=
  String.join <| reach.closures.zipIdx.map fun (closure, position) =>
    "r " ++ aligned position ++ ": " ++ String.intercalate " " (closure.map toString) ++ "\n"

/-- A span of time in the largest unit that it fills, with two decimals. -/
def spanText (nanoseconds : Nat) : String :=
  let (unit, name) :=
    if 1000000000 ≤ nanoseconds then (1000000000, "s")
    else if 1000000 ≤ nanoseconds then (1000000, "ms")
    else if 1000 ≤ nanoseconds then (1000, "µs")
    else (1, "ns")
  let hundredths := (nanoseconds * 100 + unit / 2) / unit
  let decimals := hundredths % 100
  toString (hundredths / 100) ++ "." ++ toString (decimals / 10) ++ toString (decimals % 10) ++ name

/-- The counts of a check, and the time it took. -/
def statsListing (tally : Tally) (nanoseconds : Nat) : String :=
  "c LINES             " ++ toString tally.lines ++ "\n" ++
  "c LOGIC LINES       " ++ toString tally.logicLines ++ "\n" ++
  "c GOOD              " ++ toString tally.good ++ "\n" ++
  "c PROBLEMS          " ++ toString tally.problems ++ "\n" ++
  "c TRUTH-FUNCTIONAL  " ++ toString tally.truthFunctional ++ "\n" ++
  "c TIME              " ++ spanText nanoseconds ++ "\n"

/-- All that options ask to see of a report. -/
def listing (options : Options) (report : Report) (nanoseconds : Nat) : String :=
  lineListing options.plain report ++
    (if options.reach then reachListing report.reach else "") ++
    (if options.dot then report.reach.dot ++ "\n" else "") ++
    (if options.stats then statsListing report.tally nanoseconds else "")

/-- The last line and the exit code. -/
def conclusion (verdict : Verdict) : Answer :=
  ⟨"s " ++ verdict.word ++ "\n",
    match verdict with
    | .good => 0
    | .problems => 1⟩

/-! ## Running -/

/-- The report on a file, or the answer that there is none. -/
def inspect (settings : Settings) (file : String) (content : Content) : Except Answer Report :=
  let unread (error : ReadError) : Answer :=
    failure ("Failed to read \"" ++ file ++ "\": " ++ error.message)
  match content with
  | .missing => .error (failure "No file was found.")
  | .unreadable => .error (unread .malformed)
  | .bytes bytes =>
    match Document.read bytes with
    | .error error => .error (unread error)
    | .ok document =>
      match document.check .apart settings with
      | .ok report => .ok report
      | .error error =>
        .error (failure ("Check aborted at line " ++ toString error.position ++ ": " ++
          error.message))

/-- What the command does with a report. -/
inductive Action where
  /-- It answers. -/
  | answer (answer : Answer)
  /-- It prints, saves the report, and then concludes. -/
  | save (output : String) (path : String) (content : String) (verdict : Verdict)

/-- Shows a report as options ask. -/
def present (options : Options) (report : Report) (nanoseconds : Nat) : Action :=
  let output := listing options report nanoseconds
  match options.json with
  | some path => .save output path report.toValue.pretty report.verdict
  | none =>
    let last := conclusion report.verdict
    .answer ⟨output ++ last.output, last.exit⟩

/-- The end of the command after an attempt to save the report. -/
def afterSaving (verdict : Verdict) (saved : Except String Unit) : Answer :=
  match saved with
  | .ok () => conclusion verdict
  | .error message => failure ("Failed to write report: " ++ message)

/-- **What arguments ask for**: an answer at once, or a file to look at under settings. -/
def start (arguments : List String) : Except Answer (Options × Settings × String) :=
  match parse arguments with
  | .error .version => .error ⟨version ++ "\n", 0⟩
  | .error .usage => .error ⟨"", 2⟩
  | .ok (options, file) => (settingsOf options).map fun settings => (options, settings, file)

end ProofSheet.CommandLine
