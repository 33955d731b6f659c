import ProofSheet.Word

/-!
# Command-line options

Arguments are read from left to right. A file may stand anywhere among the options; `--` ends the
options. One-letter options may share a dash, and the value of an option may follow an equals sign.
No option may be given twice. Asking for the version ends the reading there and then, so only what
stands before it can be wrong.
-/

namespace ProofSheet.CommandLine

/-- What the command was asked to do. -/
structure Options where
  file : Option String := none
  /-- Show what each line reaches. -/
  reach : Bool := false
  /-- Show the counts. -/
  stats : Bool := false
  /-- Show the references in the dot language. -/
  dot : Bool := false
  /-- Write without colour. -/
  plain : Bool := false
  /-- Where to save the report. -/
  json : Option String := none
  tfDepth : Option Nat := none
  labelLimit : Option Nat := none
  deriving DecidableEq

/-- Why reading the arguments stops early. -/
inductive Stop where
  /-- The version was asked for. -/
  | version
  /-- The arguments make no sense. -/
  | usage
  deriving DecidableEq

/-- The options that are on or off. -/
inductive Switch where
  | reach
  | stats
  | dot
  | plain
  | version
  deriving DecidableEq

/-- The options with a value. -/
inductive Valued where
  | json
  | tfDepth
  | labelLimit
  deriving DecidableEq

/-- Turns an option on, once. -/
def Switch.turnOn (switch : Switch) (options : Options) : Except Stop Options :=
  match switch with
  | .version => .error .version
  | .reach => if options.reach then .error .usage else .ok { options with reach := true }
  | .stats => if options.stats then .error .usage else .ok { options with stats := true }
  | .dot => if options.dot then .error .usage else .ok { options with dot := true }
  | .plain => if options.plain then .error .usage else .ok { options with plain := true }

/-- A number of at most 64 bits: digits, after a plus sign or none. -/
def number? (text : String) : Option Nat :=
  let digits :=
    match text.toList with
    | '+' :: digits => digits
    | digits => digits
  let isDigit (c : Char) := decide ('0' ≤ c ∧ c ≤ '9')
  if digits.isEmpty || !digits.all isDigit then none
  else
    let n := digits.foldl (fun n c => n * 10 + (c.toNat - '0'.toNat)) 0
    if n < Word.bound then some n else none

/-- Gives an option its value, once. -/
def Valued.assign (valued : Valued) (text : String) (options : Options) : Except Stop Options :=
  match valued with
  | .json =>
    if options.json.isSome || text.isEmpty then .error .usage
    else .ok { options with json := some text }
  | .tfDepth =>
    match options.tfDepth, number? text with
    | none, some n => .ok { options with tfDepth := some n }
    | _, _ => .error .usage
  | .labelLimit =>
    match options.labelLimit, number? text with
    | none, some n => .ok { options with labelLimit := some n }
    | _, _ => .error .usage

/-- Takes the file, of which there is one. -/
def takeFile (text : String) (options : Options) : Except Stop Options :=
  if options.file.isSome || text.isEmpty then .error .usage
  else .ok { options with file := some text }

/-- An option by its long name. -/
def long? (name : String) : Option (Switch ⊕ Valued) :=
  if name = "reach" then some (.inl .reach)
  else if name = "stats" then some (.inl .stats)
  else if name = "dot" then some (.inl .dot)
  else if name = "plain" then some (.inl .plain)
  else if name = "version" then some (.inl .version)
  else if name = "json" then some (.inr .json)
  else if name = "tf-depth" then some (.inr .tfDepth)
  else if name = "label-limit" then some (.inr .labelLimit)
  else none

/-- An option by its letter. -/
def short? (letter : Char) : Option Switch :=
  if letter = 'r' then some .reach
  else if letter = 's' then some .stats
  else if letter = 'V' then some .version
  else none

/-- Turns on the options of the letters after one dash. -/
def takeLetters (options : Options) : List Char → Except Stop Options
  | [] => .ok options
  | letter :: letters =>
    match short? letter with
    | none => .error .usage
    | some switch => do
      let options ← switch.turnOn options
      takeLetters options letters

/-- What is left to do after an argument. -/
inductive Pending where
  /-- Nothing. -/
  | none
  /-- The next argument is the value of an option. -/
  | value (valued : Valued)
  /-- All further arguments are files. -/
  | files
  deriving DecidableEq

/-- Whether an argument looks like an option, and so cannot be the value of one. -/
def looksLikeOption (argument : String) : Bool :=
  match argument.toList with
  | '-' :: _ :: _ => true
  | _ => false

/-- Takes an option by its long name, with the value after an equals sign if there is one. -/
def takeLong (options : Options) (body : List Char) : Except Stop (Options × Pending) :=
  let name := String.ofList (body.takeWhile (· != '='))
  match long? name, body.dropWhile (· != '=') with
  | some (.inl switch), [] => (switch.turnOn options).map (·, .none)
  | some (.inr valued), [] => .ok (options, .value valued)
  | some (.inr valued), _ :: value => (valued.assign (String.ofList value) options).map (·, .none)
  | _, _ => .error .usage

/-- Takes one argument. -/
def takeArgument (options : Options) (pending : Pending) (argument : String) :
    Except Stop (Options × Pending) :=
  match pending with
  | .files => (takeFile argument options).map (·, .files)
  | .value valued =>
    if looksLikeOption argument then .error .usage
    else (valued.assign argument options).map (·, .none)
  | .none =>
    match argument.toList with
    | ['-', '-'] => .ok (options, .files)
    | '-' :: '-' :: body => takeLong options body
    | '-' :: letter :: letters => (takeLetters options (letter :: letters)).map (·, .none)
    | _ => (takeFile argument options).map (·, .none)

/-- Takes arguments in order. -/
def takeArguments (options : Options) (pending : Pending) :
    List String → Except Stop Options
  | [] =>
    match pending with
    | .value _ => .error .usage
    | _ => .ok options
  | argument :: arguments => do
    let (options, pending) ← takeArgument options pending argument
    takeArguments options pending arguments

/-- **The options that arguments give**, with the file they name. -/
def parse (arguments : List String) : Except Stop (Options × String) := do
  let options ← takeArguments {} .none arguments
  match options.file with
  | some file => return (options, file)
  | none => throw .usage

end ProofSheet.CommandLine
