import Sift.Decimal
import Sift.Json.Reader

/-!
# Limits on untrusted rules

Rules come from outside, so their number, their nesting and the size of their text are limited. The
limits have defaults; a settings file may replace some of them, and variables of the environment may
replace those. Variables are read in the order of `Limits.environmentVariables`, and the first bad
one is reported.
-/

namespace Sift

/-- The limits on one list of rules. -/
structure Limits where
  /-- The greatest number of rules, nested ones included. -/
  rules : Nat
  /-- The greatest depth of nesting. -/
  depth : Nat
  /-- The greatest size of a JSON text, in bytes. -/
  bytes : Nat
deriving DecidableEq, Repr

/-- Why no limits could be determined. -/
inductive LimitsError
  /-- The settings file cannot be read. -/
  | unreadable (path : String)
  /-- The settings file does not hold settings. -/
  | malformed (path : String)
  /-- A variable does not hold a count. -/
  | invalidVariable (name written : String) (fault : Numeral.Fault)
deriving DecidableEq, Repr

namespace LimitsError

/-- What went wrong. -/
def message : LimitsError → String
  | unreadable path => "Failed to read config file: " ++ path
  | malformed path => "Failed to parse config file: " ++ path
  | invalidVariable name written _ => "Invalid value for " ++ name ++ ": " ++ written

/-- What went wrong and, where it is known, why. -/
def detailedMessage : LimitsError → String
  | invalidVariable name written fault =>
    (invalidVariable name written fault).message ++ ": " ++ fault.message
  | error => error.message

end LimitsError

/-- What is known of a settings file. -/
inductive SettingsFile
  /-- None was asked for. -/
  | absent
  /-- One was asked for but cannot be read. -/
  | unreadable (path : String)
  /-- The content of one. -/
  | content (path text : String)

namespace Limits

/-- The limits where nothing else is said. -/
def default : Limits := ⟨50, 8, 64 * 1024⟩

/-- Counts are below this bound. -/
def countBound : Nat := Nat.pow 2 64

/-! ## Settings -/

/-- The value of a setting: a count, or `null` for none. -/
def setting? : Json → Option (Option Nat)
  | .null => some none
  | .number (.integer value) => if 0 ≤ value then some (some value.toNat) else none
  | _ => none

/-- The names of the settings, in the order of the limits. -/
def settingNames : List String := ["max_rules", "max_depth", "max_json_bytes"]

/-- The limits that the values of the three settings, in the order of the limits, leave. -/
def ofSettings? (rules depth bytes : Json) : Option Limits := do
  let rules ← setting? rules
  let depth ← setting? depth
  let bytes ← setting? bytes
  some ⟨rules.getD default.rules, depth.getD default.depth, bytes.getD default.bytes⟩

/-- The limits that a settings value gives: an object with settings by name and nothing else, or an
array of all three. -/
def ofJson? : Json → Option Limits
  | .object members =>
    let value := fun name => (members.lookup name).getD .null
    if (Keyed.keys members).all settingNames.contains then
      ofSettings? (value "max_rules") (value "max_depth") (value "max_json_bytes")
    else none
  | .array [rules, depth, bytes] => ofSettings? rules depth bytes
  | _ => none

/-- The limits that a settings file gives. -/
def ofFile : SettingsFile → Except LimitsError Limits
  | .absent => .ok default
  | .unreadable path => .error (.unreadable path)
  | .content path text =>
    match (Json.read? .settings text).bind ofJson? with
    | some limits => .ok limits
    | none => .error (.malformed path)

/-! ## Environment -/

/-- The variables of the environment, with the limit that each replaces. -/
def environmentVariables : List (String × (Limits → Nat → Limits)) :=
  [("HAS_FILTERS_MAX_RULES", fun limits count => { limits with rules := count }),
    ("HAS_FILTERS_MAX_DEPTH", fun limits count => { limits with depth := count }),
    ("HAS_FILTERS_MAX_JSON_BYTES", fun limits count => { limits with bytes := count })]

/-- Replaces one limit if its variable is set. Blanks around the count do not matter. -/
def replace (environment : String → Option String) (limits : Limits)
    (entry : String × (Limits → Nat → Limits)) : Except LimitsError Limits :=
  match environment entry.1 with
  | none => .ok limits
  | some written =>
    match Numeral.natural countBound (Text.trimChars written.toList) with
    | .ok count => .ok (entry.2 limits count)
    | .error fault => .error (.invalidVariable entry.1 written fault)

/-- Replaces the limits whose variables are set. -/
def withEnvironment (limits : Limits) (environment : String → Option String) :
    Except LimitsError Limits :=
  environmentVariables.foldlM (replace environment) limits

/-- The limits in force: those of the settings file with those of the environment in their place. -/
def inForce (file : SettingsFile) (environment : String → Option String) :
    Except LimitsError Limits := do
  let limits ← ofFile file
  limits.withEnvironment environment

end Limits

end Sift
