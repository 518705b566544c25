import Sift.Json.Token

/-!
# Reading JSON text

The tokens of a text are read one by one with a stack of the arrays and objects that are open. The
depth of the stack is bounded, and what becomes of a name that an object gives twice is left to the
caller: values keep the last of its values, settings refuse it.

A numeral with a fraction or an exponent becomes the nearest double. Decoders that read such numerals
quicker may give a neighbour of it, so whatever reads rules from a text takes the decoder as a
parameter, and this reader is one of them.
-/

namespace Sift.Json

/-- Gives the value that a text stands for, or refuses the text. -/
abbrev Decoder := String → Option Json

/-- An open array or object whose next element or member value is being read. What it already holds
is kept latest first. -/
inductive Frame
  | array (elements : List Json)
  | object (members : List (String × Json)) (name : String)

/-- What the tokens read so far call for next. -/
inductive Demand
  /-- A value. -/
  | beforeValue (stack : List Frame)
  /-- The first element of an array, or its end. -/
  | beforeElement (stack : List Frame)
  /-- The first name of an object, or its end. -/
  | beforeFirstName (stack : List Frame)
  /-- The next name of an object, behind a comma. -/
  | beforeName (members : List (String × Json)) (stack : List Frame)
  /-- A colon behind a name. -/
  | beforeColon (members : List (String × Json)) (name : String) (stack : List Frame)
  /-- What may stand behind a complete value: a comma, the end of the innermost open array or
  object, or the end of the text. -/
  | afterValue (value : Json) (stack : List Frame)

/-- The settings of the reader. -/
structure Format where
  /-- How many arrays and objects may be open at once. -/
  depth : Nat
  /-- What becomes of the members of an object in the order of the text. -/
  members : List (String × Json) → Option (Keyed Json)

/-- Keeps a member given twice at its first place with its last value. -/
def keepLast (members : List (String × Json)) : Option (Keyed Json) :=
  some (Keyed.ofList members)

/-- Refuses an object that gives a member twice. -/
def refuseRepeated (members : List (String × Json)) : Option (Keyed Json) :=
  if (Keyed.keys members).Nodup then some members else none

/-- Untrusted values: 127 open arrays and objects, and the last value of a member counts. -/
def Format.value : Format := ⟨127, keepLast⟩

/-- Settings: as for values, but no member may be given twice. -/
def Format.settings : Format := ⟨127, refuseRepeated⟩

namespace Demand

/-- A token where a value must begin. -/
def beginValue (format : Format) (stack : List Frame) : Token → Option Demand
  | .scalar value => some (.afterValue value stack)
  | .string text => some (.afterValue (.string text) stack)
  | .arrayOpen => if stack.length < format.depth then some (.beforeElement stack) else none
  | .objectOpen => if stack.length < format.depth then some (.beforeFirstName stack) else none
  | _ => none

/-- A token behind a complete value in the innermost open array or object. -/
def continueFrame (format : Format) (value : Json) (stack : List Frame) :
    Frame → Token → Option Demand
  | .array elements, .comma => some (.beforeValue (.array (value :: elements) :: stack))
  | .array elements, .arrayClose => some (.afterValue (.array (value :: elements).reverse) stack)
  | .object members name, .comma => some (.beforeName ((name, value) :: members) stack)
  | .object members name, .objectClose =>
    (format.members ((name, value) :: members).reverse).map fun kept =>
      .afterValue (.object kept) stack
  | _, _ => none

/-- One token. -/
def step (format : Format) : Demand → Token → Option Demand
  | .beforeValue stack, token => beginValue format stack token
  | .beforeElement stack, .arrayClose => some (.afterValue (.array []) stack)
  | .beforeElement stack, token => beginValue format (.array [] :: stack) token
  | .beforeFirstName stack, .objectClose => some (.afterValue (.object []) stack)
  | .beforeFirstName stack, .string name => some (.beforeColon [] name stack)
  | .beforeName members stack, .string name => some (.beforeColon members name stack)
  | .beforeColon members name stack, .colon => some (.beforeValue (.object members name :: stack))
  | .afterValue value (frame :: stack), token => continueFrame format value stack frame token
  | _, _ => none

/-- The value, once all tokens are read. -/
def finish : Demand → Option Json
  | .afterValue value [] => some value
  | _ => none

end Demand

/-- The value that a sequence of tokens denotes. -/
def ofTokens? (format : Format) (tokens : List Token) : Option Json :=
  (tokens.foldlM (Demand.step format) (.beforeValue [])).bind Demand.finish

/-- The value that a text denotes. -/
def read? (format : Format) : Decoder := fun text =>
  (tokens? text).bind (ofTokens? format)

end Sift.Json
