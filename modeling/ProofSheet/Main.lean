import ProofSheet.CommandLine.Run

/-!
# The program

Opens the file named on the command line, prints the answer, and saves the report where that is
asked for.
-/

namespace ProofSheet

open CommandLine

/-- Opens and reads a file. -/
def contentOf (file : String) : IO Content := do
  let handle? ← (some <$> IO.FS.Handle.mk file .read) <|> pure none
  match handle? with
  | none => return .missing
  | some handle =>
    try
      let bytes ← handle.readBinToEnd
      return .bytes bytes.toList
    catch _ => return .unreadable

/-- The words of the operating system for a failure, with its number. -/
def reasonOf : IO.Error → String
  | .noFileOrDirectory _ code details | .permissionDenied _ code details
  | .inappropriateType _ code details | .noSuchThing _ code details
  | .invalidArgument _ code details => details ++ " (os error " ++ toString code ++ ")"
  | error => toString error

/-- Saves a text. -/
def save (path content : String) : IO (Except String Unit) := do
  try
    IO.FS.writeFile path content
    return .ok ()
  catch error => return .error (reasonOf error)

/-- Prints an answer and gives its exit code. -/
def reply (answer : Answer) : IO UInt32 := do
  IO.print answer.output
  return answer.exit.toUInt32

end ProofSheet

open ProofSheet CommandLine in
/-- The command line of the program. -/
def main (arguments : List String) : IO UInt32 := do
  match start arguments with
  | .error answer => reply answer
  | .ok (options, settings, file) =>
    let content ← contentOf file
    let begun ← IO.monoNanosNow
    match inspect settings file content with
    | .error answer => reply answer
    | .ok report =>
      let ended ← IO.monoNanosNow
      match present options report (ended - begun) with
      | .answer answer => reply answer
      | .save output path content verdict =>
        IO.print output
        reply (afterSaving verdict (← save path content))
