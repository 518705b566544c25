import Sift.Json.Basic

/-!
# Pieces of a statement

A statement is a list of pieces: texts, which are fixed by the scope, and parameters, whose values
never become part of the text. Numbering the parameters from left to right gives the text with
placeholders, and reading them off in the same order gives the values to bind; so the number of a
placeholder is always the place of its value.
-/

namespace Sift

/-- A piece of a statement. -/
inductive Piece
  /-- A text. -/
  | text (characters : String)
  /-- A parameter with its value. -/
  | param (value : Json)

namespace Piece

/-- The value of a parameter. -/
def value? : Piece → Option Json
  | text _ => none
  | param value => some value

/-- The values of the parameters, from left to right. -/
def values (pieces : List Piece) : List Json :=
  pieces.filterMap value?

/-- The text of the pieces with the parameters numbered from `next` on and written by
`placeholder`. -/
def renderFrom (placeholder : Nat → String) (next : Nat) : List Piece → String
  | [] => ""
  | text characters :: rest => characters ++ renderFrom placeholder next rest
  | param _ :: rest => placeholder next ++ renderFrom placeholder (next + 1) rest

/-- The text of the pieces; the first parameter has the number one. -/
def render (placeholder : Nat → String) (pieces : List Piece) : String :=
  renderFrom placeholder 1 pieces

@[simp] theorem values_nil : values [] = [] := rfl

@[simp] theorem values_append (first second : List Piece) :
    values (first ++ second) = values first ++ values second := by
  simp [values]

@[simp] theorem values_text (characters : String) (rest : List Piece) :
    values (text characters :: rest) = values rest := by
  simp [values, List.filterMap_cons, value?]

@[simp] theorem values_param (value : Json) (rest : List Piece) :
    values (param value :: rest) = value :: values rest := by
  simp [values, value?]

/-- The parameters of the second part are numbered behind those of the first. -/
theorem renderFrom_append (placeholder : Nat → String) (next : Nat) (first second : List Piece) :
    renderFrom placeholder next (first ++ second) =
      renderFrom placeholder next first ++
        renderFrom placeholder (next + (values first).length) second := by
  induction first generalizing next with
  | nil => simp [renderFrom]
  | cons piece rest ih =>
    cases piece with
    | text characters => simp [renderFrom, ih, String.append_assoc]
    | param value =>
      simp [renderFrom, ih, String.append_assoc, Nat.add_assoc, Nat.add_comm 1]

end Piece

end Sift
