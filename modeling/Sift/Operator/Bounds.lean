import Sift.Rejection

/-!
# Bounds of a range

The parameter of a range is a list of values of one kind, or an object that names the two ends. The
range goes from the least to the greatest of the values. Numbers compare as `Number.order` says, and
texts by their code points. Of values that compare as equal the earliest is kept.
-/

namespace Sift.Bounds

/-- How two values compare, if they are both numbers or both texts. -/
def order? : Json → Json → Option Ordering
  | .number a, .number b => some (a.order b)
  | .string a, .string b => some (compare a b)
  | _, _ => none

/-- Takes one more value into a pair of bounds. -/
def widen (bounds : Json × Json) (value : Json) : Option (Json × Json) := do
  let below ← order? value bounds.1
  let above ← order? value bounds.2
  some (if below = .lt then value else bounds.1, if above = .gt then value else bounds.2)

/-- The least and the greatest of the values, unless there is none or two of them do not compare. -/
def extremes? : List Json → Option (Json × Json)
  | [] => none
  | first :: rest => rest.foldlM widen (first, first) |>.filter fun _ => (order? first first).isSome

/-- The names under which an object may give the ends of a range; the first complete pair counts. -/
def endNames : List (String × String) :=
  [("min", "max"), ("from", "to"), ("begin", "end")]

/-- The ends that an object gives. -/
def ends? (members : Keyed Json) : Option (List Json) :=
  endNames.findSome? fun names => do
    let low ← members.lookup names.1
    let high ← members.lookup names.2
    some [low, high]

/-- The bounds that a parameter gives. -/
def ofParam? : Json → Option (Json × Json)
  | .array values => extremes? values
  | .object members => (ends? members).bind extremes?
  | _ => none

/-- The bounds that a parameter gives, or the error that it gives none. -/
def ofParam (param : Json) : Except Rejection (Json × Json) :=
  match ofParam? param with
  | some bounds => .ok bounds
  | none => .error (.badParam .notRange)

end Sift.Bounds
