/-!
# Identifiers

Names of tables, columns and aliases are written into queries as they are. Only a name made of
ASCII letters, digits and underscores that does not begin with a digit is safe there.
-/

namespace Sift.Text

/-- Whether a character may begin an identifier. -/
def isIdentifierStart (c : Char) : Bool :=
  c.isAlpha || c == '_'

/-- Whether a character may stand after the first character of an identifier. -/
def isIdentifierRest (c : Char) : Bool :=
  c.isAlphanum || c == '_'

/-- Whether the characters of a name form an identifier: a start, then any number of others. -/
def isIdentifierChars : List Char → Bool
  | [] => false
  | c :: rest => isIdentifierStart c && rest.all isIdentifierRest

/-- Whether a name can be written into a query as an identifier. -/
def isIdentifier (name : String) : Bool :=
  isIdentifierChars name.toList

theorem isIdentifierRest_of_start {c : Char} (h : isIdentifierStart c = true) :
    isIdentifierRest c = true := by
  simp only [isIdentifierStart, isIdentifierRest, Char.isAlphanum, Bool.or_eq_true] at h ⊢
  exact h.imp_left Or.inl

/-- Identifiers with an underscore between them are an identifier. -/
theorem isIdentifier_underscore {first second : String} (h : isIdentifier first = true)
    (hsecond : isIdentifier second = true) : isIdentifier (first ++ "_" ++ second) = true := by
  unfold isIdentifier at h hsecond ⊢
  rw [String.toList_append, String.toList_append]
  cases hfirst : first.toList with
  | nil => simp [hfirst, isIdentifierChars] at h
  | cons start rest =>
    cases hother : second.toList with
    | nil => simp [hother, isIdentifierChars] at hsecond
    | cons next others =>
      simp only [hfirst, hother, isIdentifierChars, Bool.and_eq_true] at h hsecond
      have hunderscore : isIdentifierRest '_' = true := by decide
      simp [isIdentifierChars, h, hsecond, isIdentifierRest_of_start hsecond.1, hunderscore]

end Sift.Text
