import Sift.Limits
import Sift.Rule.Basic

/-!
# Reading rules

Rules arrive as JSON values that nobody has checked. A list is read from left to right. Each rule is
counted before it is looked at, and the count runs on from one list to the next as long as the same
reader is used, also behind a rejected list; so the limit bounds the work of its whole life.

The shape of an object decides what it is: a column that is an allowed scope makes a scope rule,
else the member `rules` makes a composite, and everything else must be a leaf.
-/

namespace Sift

/-- What a reader knows. -/
structure RuleReader where
  /-- The scopes that rules may call. -/
  allowedScopes : List String
  /-- The limits that hold. -/
  limits : Limits

/-- A reading step: it counts rules and may fail. The count is kept when it fails. -/
abbrev Reading := ExceptT Rejection (StateM Nat)

/-- The members of the objects in a list of rules; null stands for an empty object. Anything else is
no list of rules. -/
def ruleObjects? : Json → Option (List (Keyed Json))
  | .array elements => elements.mapM fun element =>
    match element with
    | .null => some []
    | .object members => some members
    | _ => none
  | _ => none

/-- The conjunction of a composite; without one all its rules must hold. -/
def conjunctionOf (members : Keyed Json) : Except Rejection Conjunction :=
  match members.lookup "conjunction" with
  | none => .ok .exclusive
  | some .null => .ok .exclusive
  | some (.string written) => Conjunction.ofText written
  | some value => .error (.invalid (.unknownConjunction value.text))

/-- The leaf that an object describes: a column and an operator as texts, and any parameter. -/
def leafOf (members : Keyed Json) : Except Rejection Rule :=
  match members.lookup "column", members.lookup "operator", members.lookup "param" with
  | some (.string column), some (.string name), some param =>
    match Operator.ofName? name with
    | some operator => .ok (.leaf column ⟨operator, param, isFlagSet (members.lookup "invert")⟩)
    | none => .error (.invalid (.unknownOperator name))
  | _, _, _ => .error (.invalid (.malformedRule members))

namespace RuleReader

/-- Counts one more rule. -/
def count (reader : RuleReader) : Reading Unit := do
  let counted := (← get) + 1
  set counted
  if reader.limits.rules < counted then
    throw (.invalid (.tooManyRules reader.limits.rules))

/-- The allowed scope that an object names. -/
def scopeName? (reader : RuleReader) (members : Keyed Json) : Option String :=
  ((members.lookup "column").bind Json.string?).filter reader.allowedScopes.contains

/-- Reads one rule; what is nested in it is read by `nested`. -/
def rule (reader : RuleReader) (nested : Keyed Json → Json → Reading Rule)
    (members : Keyed Json) : Reading Rule := do
  reader.count
  if members.isEmpty then return .blank
  match reader.scopeName? members with
  | some name => return .scope name ((members.lookup "param").getD .null)
  | none =>
    match members.lookup "rules" with
    | some rules => nested members rules
    | none => leafOf members

/-- Reads a list of rules, all of which must be objects before any of them is read. -/
def list (reader : RuleReader) (nested : Keyed Json → Json → Reading Rule) (value : Json) :
    Reading (List Rule) :=
  match ruleObjects? value with
  | some objects => objects.mapM (reader.rule nested)
  | none => throw (.invalid .notRuleList)

/-- Reads a composite where `levels` more levels of nesting are allowed. -/
def composite (reader : RuleReader) : (levels : Nat) → Keyed Json → Json → Reading Rule
  | 0, _, _ => throw (.invalid (.tooDeep reader.limits.depth))
  | levels + 1, members, rules => do
    let conjunction ← conjunctionOf members
    let nested ← reader.list (reader.composite levels) rules
    return .composite nested conjunction

/-- Reads a list of rules from a value. -/
def read (reader : RuleReader) (value : Json) : Reading (List Rule) :=
  reader.list (reader.composite reader.limits.depth) value

/-- Reads a list of rules from a text that a decoder makes a value of. The size of the text is
checked before anything else. -/
def readTextWith (reader : RuleReader) (decode : Json.Decoder) (text : String) :
    Reading (List Rule) :=
  if reader.limits.bytes < text.utf8ByteSize then
    throw (.invalid (.oversizedText reader.limits.bytes))
  else
    match decode text with
    | some value => reader.read value
    | none => throw (.invalid .malformedText)

/-- Reads a list of rules from a JSON text. -/
def readText (reader : RuleReader) (text : String) : Reading (List Rule) :=
  reader.readTextWith (Json.read? .value) text

end RuleReader

/-- The result of a reading step with a fresh count. -/
def Reading.result {α : Type} (reading : Reading α) : Except Rejection α :=
  (reading.run.run 0).1

end Sift
