/-!
# Settings

A setting is a number within bounds. A value out of bounds is refused and changes nothing.
-/

namespace ProofSheet

/-- A number that may be set within bounds. -/
structure Setting where
  name : String
  min : Nat
  max : Nat
  value : Nat
  deriving DecidableEq

namespace Setting

/-- Whether a value lies within the bounds. -/
def admits (setting : Setting) (value : Nat) : Bool :=
  decide (setting.min ≤ value ∧ value ≤ setting.max)

/-- The setting with a new value, if that lies within the bounds. -/
def set? (setting : Setting) (value : Nat) : Option Setting :=
  if setting.admits value then some { setting with value } else none

end Setting

/-- What may be set for a check. -/
structure Settings where
  /-- The number of rounds the truth-functional solver may take. -/
  truthFunctionalDepth : Setting
  /-- The greatest label an author may use. -/
  labelLimit : Setting
  deriving DecidableEq

namespace Settings

/-- The settings of a check that sets none. -/
def standard : Settings where
  truthFunctionalDepth := { name := "truth_functional_depth", min := 1, max := 8, value := 2 }
  labelLimit := { name := "label_limit", min := 1, max := 4294967295, value := 65536 }

instance : Inhabited Settings := ⟨standard⟩

/-- A setting by its role. -/
inductive Name where
  | truthFunctionalDepth
  | labelLimit
  deriving DecidableEq

/-- The setting of a role. -/
def get (settings : Settings) : Name → Setting
  | .truthFunctionalDepth => settings.truthFunctionalDepth
  | .labelLimit => settings.labelLimit

/-- The settings with one value changed, if the value lies within its bounds. -/
def set? (settings : Settings) (name : Name) (value : Nat) : Option Settings :=
  match name with
  | .truthFunctionalDepth =>
    (settings.truthFunctionalDepth.set? value).map fun setting =>
      { settings with truthFunctionalDepth := setting }
  | .labelLimit =>
    (settings.labelLimit.set? value).map fun setting => { settings with labelLimit := setting }

end Settings

end ProofSheet
