import ProofSheet.Draft.Accept
import ProofSheet.Draft.Decode
import ProofSheet.Draft.Encode
import ProofSheet.Json.Parse
import ProofSheet.Json.Write

/-!
# Reading and writing sheets

A sheet is exchanged as the JSON text of its draft. Reading refuses a text that is not such JSON
before it looks for faults of the draft. Members of the outermost object other than the lines are
passed over.
-/

namespace ProofSheet

/-- Why a text is no sheet. -/
inductive ReadError where
  /-- The text is not JSON of the right shape. -/
  | malformed
  /-- The draft has a fault. -/
  | faulty (fault : Draft.Fault)
  deriving DecidableEq

/-- The error in words. -/
def ReadError.message : ReadError → String
  | .malformed => "Malformed document: not the JSON text of a sheet"
  | .faulty fault => fault.message

namespace Document

/-- How deep the JSON of a sheet may nest. -/
def nestingLimit : Nat := 127

/-- What is asked of the JSON of a sheet. -/
def demand : Json.Demand where
  limit := nestingLimit
  wanted name := name == "lines"

/-- The sheet that a JSON value says. -/
def ofValue (value : Json.Value) : Except ReadError Document :=
  match Draft.document? value with
  | none => .error .malformed
  | some draft =>
    match draft.accept with
    | .error fault => .error (.faulty fault)
    | .ok document => .ok document

/-- **Reads a sheet** from the bytes of a JSON text. -/
def read (bytes : List UInt8) : Except ReadError Document :=
  match Json.parse? demand bytes with
  | none => .error .malformed
  | some value => ofValue value

/-- **Writes a sheet** as a JSON text over several lines. -/
def write (document : Document) : String :=
  document.draft.toValue.pretty

end Document

end ProofSheet
