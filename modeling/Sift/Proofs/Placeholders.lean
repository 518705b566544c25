import Sift.Proofs.BoundValues

/-!
# Placeholders and the values that they stand for

A database sees a text with placeholders and a list of values, and has to find out which placeholder
stands for which value. Where all placeholders are question marks they are counted from left to
right; where they have numbers behind a dollar sign, the number is as long as there are digits.

If no name and no expression in a scope has a question mark or a dollar sign in it, the database
finds as many placeholders as there are values, in their order. Numbers end where they should, since
behind a placeholder a statement goes on with a blank or a parenthesis and never with a digit.
-/

namespace Sift

/-! ## Texts with placeholders -/

/-- A text without question marks and dollar signs. -/
def Unmarked (text : String) : Prop :=
  '?' ∉ text.toList ∧ '$' ∉ text.toList

instance (text : String) : Decidable (Unmarked text) :=
  inferInstanceAs (Decidable ('?' ∉ text.toList ∧ '$' ∉ text.toList))

/-- The numbers in a text as they are written: behind each dollar sign, all the digits that follow
it. -/
def dollarNumbers : List Char → List (List Char)
  | [] => []
  | c :: rest =>
    if c = '$' then rest.takeWhile Char.isDigit :: dollarNumbers rest else dollarNumbers rest

/-- Writes texts in the place of the question marks, which are counted from `next` on. -/
def fillMarks (written : Nat → String) : (next : Nat) → List Char → List Char
  | _, [] => []
  | next, c :: rest =>
    if c = '?' then (written next).toList ++ fillMarks written (next + 1) rest
    else c :: fillMarks written next rest

/-- Writes texts in the place of the dollar signs with their numbers; `inside` says whether the
digits that follow belong to a number. -/
def fillNumbers (written : Nat → String) : (inside : Bool) → List Char → List Char
  | _, [] => []
  | inside, c :: rest =>
    if c = '$' then
      (written (Nat.ofDigitChars 10 (rest.takeWhile Char.isDigit) 0)).toList ++
        fillNumbers written true rest
    else if inside && c.isDigit then fillNumbers written true rest
    else c :: fillNumbers written false rest

/-- Writes texts in the place of the placeholders as a database reads them. -/
def Database.fill (database : Database) (written : Nat → String) (text : String) : String :=
  String.ofList <|
    match database with
    | .sqlite => fillMarks written 1 text.toList
    | .postgres => fillNumbers written false text.toList
    | .duckdb => fillMarks written 1 text.toList

/-- A text is unmarked if its parts are. -/
theorem unmarked_append {first second : String} :
    Unmarked (first ++ second) ↔ Unmarked first ∧ Unmarked second := by
  simp only [Unmarked, String.toList_append, List.mem_append]
  tauto

/-- A number is written with digits alone, so its end can be told from what follows. -/
theorem isDigit_of_mem_toString {n : Nat} {c : Char} (h : c ∈ (toString n).toList) :
    c.isDigit = true := by
  rw [Nat.toString_eq_ofList_toDigits, String.toList_ofList] at h
  exact Nat.isDigit_of_mem_toDigits (by decide) (by decide) h

/-- A written number has no mark in it. -/
theorem unmarked_toString (n : Nat) : Unmarked (toString n) := by
  constructor
  · intro h
    exact absurd (isDigit_of_mem_toString h) (by decide)
  · intro h
    exact absurd (isDigit_of_mem_toString h) (by decide)

/-- Reading the digits of a written number gives the number back. -/
theorem ofDigitChars_toString (n : Nat) : Nat.ofDigitChars 10 (toString n).toList 0 = n := by
  rw [Nat.toString_eq_ofList_toDigits, String.toList_ofList, Nat.ofDigitChars_ten_toDigits]

section

variable {chars rest : List Char}

/-- What has no question mark is passed as it is, and no parameter is counted. -/
theorem fillMarks_append (written : Nat → String) (next : Nat) (h : '?' ∉ chars) :
    fillMarks written next (chars ++ rest) = chars ++ fillMarks written next rest := by
  induction chars with
  | nil => rfl
  | cons c chars ih =>
    obtain ⟨hc, hchars⟩ := List.ne_and_not_mem_of_not_mem_cons h
    rw [List.cons_append, fillMarks, if_neg hc.symm, ih hchars, List.cons_append]

/-- What has no dollar sign has no placeholder number. -/
theorem dollarNumbers_append (h : '$' ∉ chars) :
    dollarNumbers (chars ++ rest) = dollarNumbers rest := by
  induction chars with
  | nil => rfl
  | cons c chars ih =>
    obtain ⟨hc, hchars⟩ := List.ne_and_not_mem_of_not_mem_cons h
    rw [List.cons_append, dollarNumbers, if_neg hc.symm, ih hchars]

/-- Outside a placeholder, what has no dollar sign is passed as it is. -/
theorem fillNumbers_append (written : Nat → String) (h : '$' ∉ chars) :
    fillNumbers written false (chars ++ rest) = chars ++ fillNumbers written false rest := by
  induction chars with
  | nil => rfl
  | cons c chars ih =>
    obtain ⟨hc, hchars⟩ := List.ne_and_not_mem_of_not_mem_cons h
    have hnone : ¬(false && c.isDigit) = true := by simp
    rw [List.cons_append, fillNumbers, if_neg hc.symm, if_neg hnone, ih hchars, List.cons_append]

/-- A number ends in front of these characters. -/
def EndsNumber (chars : List Char) : Prop :=
  ∀ c ∈ chars.head?, c.isDigit = false

/-- A run of digits ends where the number ends, if what follows begins with no digit. -/
theorem EndsNumber.takeWhile_eq (h : EndsNumber rest) {digits : List Char}
    (hdigits : ∀ c ∈ digits, c.isDigit = true) :
    (digits ++ rest).takeWhile Char.isDigit = digits := by
  have hrest : rest.takeWhile Char.isDigit = [] := by
    cases rest with
    | nil => rfl
    | cons c rest =>
      have hc : c.isDigit = false := h c rfl
      rw [List.takeWhile_cons, hc]
      rfl
  rw [List.takeWhile_append_of_pos hdigits, hrest, List.append_nil]

/-- Behind a dollar sign the digits of the number are dropped, and none of what follows. -/
theorem EndsNumber.fillNumbers_eq (h : EndsNumber rest) (written : Nat → String)
    {digits : List Char} (hdigits : ∀ c ∈ digits, c.isDigit = true) :
    fillNumbers written true (digits ++ rest) = fillNumbers written false rest := by
  induction digits with
  | nil =>
    cases rest with
    | nil => rfl
    | cons c rest =>
      have hc : c.isDigit = false := h c rfl
      simp [fillNumbers, hc]
  | cons c digits ih =>
    obtain ⟨hc, hdigits⟩ := List.forall_mem_cons.mp hdigits
    have hdollar : c ≠ '$' := by
      rintro rfl
      exact absurd hc (by decide)
    simp [fillNumbers, hdollar, hc, ih hdigits]

end

/-! ## Pieces -/

namespace Piece

/-- The text of the pieces with each value written in its own place. -/
def inlined (write : Json → String) : List Piece → String
  | [] => ""
  | text characters :: rest => characters ++ inlined write rest
  | param value :: rest => write value ++ inlined write rest

/-- The piece brings no placeholder into the text but a parameter. -/
def Unmarked : Piece → Prop
  | text characters => Sift.Unmarked characters
  | param _ => True

/-- The pieces do not go on with a digit. -/
def EndNumber : List Piece → Prop
  | [] => True
  | text characters :: _ => ∃ c rest, characters.toList = c :: rest ∧ c.isDigit = false
  | param _ :: _ => True

/-- Behind no parameter the text goes on with a digit. -/
def Spaced : List Piece → Prop
  | [] => True
  | text _ :: rest => Spaced rest
  | param _ :: rest => EndNumber rest ∧ Spaced rest

/-- The pieces of a text whose placeholders can be told apart. -/
structure Legible (pieces : List Piece) : Prop where
  unmarked : ∀ piece ∈ pieces, piece.Unmarked
  spaced : Spaced pieces

variable {pieces first second : List Piece}

/-- What follows a first text does not matter for the end of a number before it. -/
theorem EndNumber.text_append {start characters : String} (h : EndNumber [text start]) :
    EndNumber (text (start ++ characters) :: pieces) := by
  obtain ⟨c, rest, hstart, hc⟩ := h
  refine ⟨c, rest ++ characters.toList, ?_, hc⟩
  rw [String.toList_append, hstart, List.cons_append]

/-- Pieces that end a number still do if others that do so are put behind them; both are needed, as
the first ones may be empty. -/
theorem EndNumber.append (hfirst : EndNumber first) (hsecond : EndNumber second) :
    EndNumber (first ++ second) := by
  cases first with
  | nil => exact hsecond
  | cons piece rest =>
    cases piece with
    | text characters => exact hfirst
    | param value => trivial

/-- Spaced pieces stay so if what is put behind them ends the number of their last parameter. -/
theorem Spaced.append (hfirst : Spaced first) (hsecond : Spaced second)
    (hnext : EndNumber second) : Spaced (first ++ second) := by
  induction first with
  | nil => exact hsecond
  | cons piece rest ih =>
    cases piece with
    | text characters => exact ih hfirst
    | param value => exact ⟨hfirst.1.append hnext, ih hfirst.2⟩

/-- No pieces are legible. -/
theorem legible_nil : Legible [] := ⟨fun _ h => absurd h List.not_mem_nil, trivial⟩

/-- A text in front is legible if it is unmarked. -/
theorem legible_text {characters : String} {rest : List Piece} :
    Legible (text characters :: rest) ↔ Sift.Unmarked characters ∧ Legible rest := by
  constructor
  · intro h
    obtain ⟨hcharacters, hrest⟩ := List.forall_mem_cons.mp h.unmarked
    exact ⟨hcharacters, hrest, h.spaced⟩
  · rintro ⟨hcharacters, hrest⟩
    exact ⟨List.forall_mem_cons.mpr ⟨hcharacters, hrest.unmarked⟩, hrest.spaced⟩

/-- A parameter in front is legible if what follows ends its number. -/
theorem legible_param {value : Json} {rest : List Piece} :
    Legible (param value :: rest) ↔ EndNumber rest ∧ Legible rest := by
  constructor
  · intro h
    obtain ⟨-, hrest⟩ := List.forall_mem_cons.mp h.unmarked
    exact ⟨h.spaced.1, hrest, h.spaced.2⟩
  · rintro ⟨hnext, hrest⟩
    exact ⟨List.forall_mem_cons.mpr ⟨trivial, hrest.unmarked⟩, hnext, hrest.spaced⟩

/-- Legible pieces can be put together where the second ones end a number that the first ones may
leave open. -/
theorem Legible.append (hfirst : Legible first) (hsecond : Legible second)
    (hnext : EndNumber second) : Legible (first ++ second) where
  unmarked := List.forall_mem_append.mpr ⟨hfirst.unmarked, hsecond.unmarked⟩
  spaced := hfirst.spaced.append hsecond.spaced hnext

/-! ### Reading the text of pieces -/

/-- If the placeholders are written as the values are, the numbered text is the text with the values
in it. -/
theorem renderFrom_eq_inlined {placeholder : Nat → String} {write : Json → String} {next : Nat}
    (h : ∀ i value, (values pieces)[i]? = some value → placeholder (next + i) = write value) :
    renderFrom placeholder next pieces = inlined write pieces := by
  induction pieces generalizing next with
  | nil => rfl
  | cons piece rest ih =>
    cases piece with
    | text characters =>
      rw [values_text] at h
      exact congrArg (characters ++ ·) (ih h)
    | param value =>
      -- the values behind this one are counted from the next number on
      rw [values_param] at h
      have hfirst : placeholder next = write value := h 0 value rfl
      have hrest : renderFrom placeholder (next + 1) rest = inlined write rest := by
        refine ih fun i value hvalue => ?_
        rw [Nat.add_assoc, Nat.add_comm 1 i]
        exact h (i + 1) value hvalue
      rw [renderFrom, inlined, hfirst, hrest]

/-- Pieces that end a number still do so as a text. -/
theorem endsNumber_renderFrom (h : EndNumber pieces) (next : Nat) :
    EndsNumber (renderFrom (Database.placeholder .postgres) next pieces).toList := by
  cases pieces with
  | nil => exact fun _ hmem => absurd hmem (Option.not_mem_none _)
  | cons piece rest =>
    intro c hmem
    cases piece with
    | text characters =>
      obtain ⟨first, others, hcharacters, hfirst⟩ := h
      rw [renderFrom, String.toList_append, hcharacters] at hmem
      cases hmem
      exact hfirst
    | param value =>
      rw [renderFrom, Database.placeholder, String.toList_append, String.toList_append] at hmem
      cases hmem
      rfl

/-- Legible pieces have one question mark for each value: none comes from a text. -/
theorem count_renderFrom (h : Legible pieces) (next : Nat) :
    (renderFrom (fun _ => "?") next pieces).toList.count '?' = (values pieces).length := by
  induction pieces generalizing next with
  | nil => rfl
  | cons piece rest ih =>
    cases piece with
    | text characters =>
      obtain ⟨hcharacters, hrest⟩ := legible_text.mp h
      rw [renderFrom, String.toList_append, List.count_append, ih hrest, values_text,
        List.count_eq_zero.mpr hcharacters.1, Nat.zero_add]
    | param value =>
      have hmark : ("?".toList).count '?' = 1 := rfl
      rw [renderFrom, String.toList_append, List.count_append, ih (legible_param.mp h).2,
        values_param, List.length_cons, hmark, Nat.add_comm]

/-- Filling the question marks of a text, from left to right, is writing the parameters by their
numbers. -/
theorem fillMarks_renderFrom (h : Legible pieces) (written : Nat → String) (next : Nat) :
    fillMarks written next (renderFrom (fun _ => "?") next pieces).toList =
      (renderFrom written next pieces).toList := by
  induction pieces generalizing next with
  | nil => rfl
  | cons piece rest ih =>
    cases piece with
    | text characters =>
      obtain ⟨hcharacters, hrest⟩ := legible_text.mp h
      rw [renderFrom, renderFrom, String.toList_append, String.toList_append,
        fillMarks_append _ _ hcharacters.1, ih hrest]
    | param value =>
      have hmark : "?".toList = ['?'] := rfl
      rw [renderFrom, renderFrom, String.toList_append, String.toList_append, hmark,
        List.singleton_append, fillMarks, if_pos rfl, ih (legible_param.mp h).2]

/-- A numbered placeholder is a dollar sign and the digits of the number. -/
theorem toList_placeholder_postgres (n : Nat) :
    (Database.placeholder .postgres n).toList = '$' :: (toString n).toList := by
  rw [Database.placeholder, String.toList_append]
  rfl

/-- The numbers behind the dollar signs are those of the parameters. -/
theorem dollarNumbers_renderFrom (h : Legible pieces) (next : Nat) :
    dollarNumbers (renderFrom (Database.placeholder .postgres) next pieces).toList =
      (List.range' next (values pieces).length).map fun number => (toString number).toList := by
  induction pieces generalizing next with
  | nil => rfl
  | cons piece rest ih =>
    cases piece with
    | text characters =>
      obtain ⟨hcharacters, hrest⟩ := legible_text.mp h
      rw [renderFrom, String.toList_append, dollarNumbers_append hcharacters.2, ih hrest,
        values_text]
    | param value =>
      -- the number is all of the digits behind the sign, as what follows begins with no digit
      obtain ⟨hnext, hrest⟩ := legible_param.mp h
      have hdigits : ∀ c ∈ (toString next).toList, c.isDigit = true :=
        fun _ => isDigit_of_mem_toString
      have hends := endsNumber_renderFrom hnext (next + 1)
      rw [renderFrom, String.toList_append, toList_placeholder_postgres, List.cons_append,
        dollarNumbers, if_pos rfl, hends.takeWhile_eq hdigits,
        dollarNumbers_append (unmarked_toString next).2, ih hrest, values_param, List.length_cons,
        List.range'_succ, List.map_cons]

/-- Filling numbered placeholders is writing the parameters by their numbers; that the numbers are
read back right needs that each of them ends. -/
theorem fillNumbers_renderFrom (h : Legible pieces) (written : Nat → String) (next : Nat) :
    fillNumbers written false (renderFrom (Database.placeholder .postgres) next pieces).toList =
      (renderFrom written next pieces).toList := by
  induction pieces generalizing next with
  | nil => rfl
  | cons piece rest ih =>
    cases piece with
    | text characters =>
      obtain ⟨hcharacters, hrest⟩ := legible_text.mp h
      rw [renderFrom, renderFrom, String.toList_append, String.toList_append,
        fillNumbers_append _ hcharacters.2, ih hrest]
    | param value =>
      obtain ⟨hnext, hrest⟩ := legible_param.mp h
      have hdigits : ∀ c ∈ (toString next).toList, c.isDigit = true :=
        fun _ => isDigit_of_mem_toString
      have hends := endsNumber_renderFrom hnext (next + 1)
      rw [renderFrom, renderFrom, String.toList_append, String.toList_append,
        toList_placeholder_postgres, List.cons_append, fillNumbers, if_pos rfl,
        hends.takeWhile_eq hdigits, ofDigitChars_toString, hends.fillNumbers_eq written hdigits,
        ih hrest]

end Piece

/-- In every database, filling the placeholders of legible pieces gives the text in which the
parameters are written that way from the start. -/
theorem Database.fill_render (database : Database) {pieces : List Piece} (h : Piece.Legible pieces)
    (written : Nat → String) :
    database.fill written (Piece.render database.placeholder pieces) =
      Piece.render written pieces := by
  have hmarks := congrArg String.ofList (Piece.fillMarks_renderFrom h written 1)
  have hnumbers := congrArg String.ofList (Piece.fillNumbers_renderFrom h written 1)
  rw [String.ofList_toList] at hmarks hnumbers
  cases database with
  | sqlite => exact hmarks
  | postgres => exact hnumbers
  | duckdb => exact hmarks

/-! ## The words of a scope -/

/-- The names or the expression in an operand. -/
def Operand.words : Operand → List String
  | .column source => [source.qualifier, source.name]
  | .expression sql => [sql]

/-- The names in a join. -/
def Join.words (join : Join) : List String :=
  [join.table, join.qualifier, join.left.qualifier, join.left.name, join.right.qualifier,
    join.right.name]

mutual

/-- The names and expressions in a condition, also in the scopes inside it. -/
def Condition.words : Condition → List String
  | .compares lhs _ _ => lhs.words
  | .isNull lhs => lhs.words
  | .contains lhs _ => lhs.words
  | .impossible => []
  | .isAmong lhs scope _ => lhs.words ++ scope.words
  | .anyOf members => wordsOf members

/-- The names and expressions in a scope that become part of statements. -/
def Scope.words : Scope → List String
  | ⟨_, table, primaryKey, joins, conditions, _, _⟩ =>
    table :: primaryKey :: (joins.flatMap Join.words ++ wordsOf conditions)

def wordsOf : List Condition → List String
  | [] => []
  | condition :: rest => condition.words ++ wordsOf rest

end

/-! ## Statements -/

/-- A column has no mark if its two names have none. -/
theorem Column.unmarked_text {column : Column} (hqualifier : Unmarked column.qualifier)
    (hname : Unmarked column.name) : Unmarked column.text := by
  have hdot : Unmarked "." := by decide
  exact unmarked_append.mpr ⟨unmarked_append.mpr ⟨hqualifier, hdot⟩, hname⟩

/-- An operand has no mark if its words have none; the expression of a virtual column is such a
word. -/
theorem Operand.unmarked_text {operand : Operand} (h : ∀ word ∈ operand.words, Unmarked word) :
    Unmarked operand.text := by
  cases operand with
  | column source =>
    have hqualifier : Unmarked source.qualifier := h _ (List.mem_cons_self ..)
    have hname : Unmarked source.name := h _ (List.mem_cons_of_mem _ (List.mem_cons_self ..))
    exact Column.unmarked_text hqualifier hname
  | expression sql =>
    have hsql : Unmarked sql := h _ (List.mem_cons_self ..)
    exact unmarked_append.mpr ⟨unmarked_append.mpr ⟨by decide, hsql⟩, by decide⟩

/-- A join has no mark if its words have none. -/
theorem Join.unmarked_text {join : Join} (h : ∀ word ∈ join.words, Unmarked word) :
    Unmarked join.text := by
  obtain ⟨htable, hqualifier, hleft, hleftName, hright, hrightName, -⟩ :
      Unmarked join.table ∧ Unmarked join.qualifier ∧ Unmarked join.left.qualifier ∧
        Unmarked join.left.name ∧ Unmarked join.right.qualifier ∧ Unmarked join.right.name ∧
          ∀ word ∈ ([] : List String), Unmarked word := by
    simpa only [words, List.forall_mem_cons] using h
  have hleftText := Column.unmarked_text hleft hleftName
  have hrightText := Column.unmarked_text hright hrightName
  have htarget : Unmarked
      (if join.qualifier = join.table then join.table
        else join.table ++ " AS " ++ join.qualifier) := by
    split
    · exact htable
    · exact unmarked_append.mpr ⟨unmarked_append.mpr ⟨htable, by decide⟩, hqualifier⟩
  have hjoin : Unmarked "LEFT JOIN " := by decide
  have hon : Unmarked " ON " := by decide
  have hequal : Unmarked " = " := by decide
  simp only [Join.text, unmarked_append]
  exact ⟨⟨⟨⟨⟨hjoin, htarget⟩, hon⟩, hleftText⟩, hequal⟩, hrightText⟩

/-- A page is written with words and numbers, and no database needs a mark for it. -/
theorem Database.unmarked_pageClause {database : Database} {limit offset : Option Nat}
    {clause : String} (h : database.pageClause limit offset = some clause) : Unmarked clause := by
  have hlimit : Unmarked "LIMIT " := by decide
  have hoffset : Unmarked " OFFSET " := by decide
  have hall : Unmarked "LIMIT -1 OFFSET " := by decide
  have hafter : Unmarked "OFFSET " := by decide
  cases limit with
  | none =>
    cases offset with
    | none => cases h
    | some offset =>
      -- the only clause in which the databases differ
      cases database <;> cases h <;>
        exact unmarked_append.mpr ⟨by assumption, unmarked_toString offset⟩
  | some limit =>
    have hcount := unmarked_append.mpr ⟨hlimit, unmarked_toString limit⟩
    cases offset with
    | none =>
      cases h
      exact hcount
    | some offset =>
      cases h
      exact unmarked_append.mpr
        ⟨unmarked_append.mpr ⟨hcount, hoffset⟩, unmarked_toString offset⟩

open Piece (Legible EndNumber legible_nil legible_text legible_param)

/-- A selection has texts only, and these are unmarked if its words are. -/
theorem legible_selection {verb table primaryKey : String} {joins : List Join}
    (hverb : Unmarked verb) (htable : Unmarked table) (hkey : Unmarked primaryKey)
    (hjoins : ∀ word ∈ joins.flatMap Join.words, Unmarked word) :
    Legible (selection verb table primaryKey joins) := by
  have hblank : Unmarked " " := by decide
  have hfrom : Unmarked " FROM " := by decide
  have hcolumn : Unmarked (Column.text ⟨table, primaryKey⟩) := Column.unmarked_text htable hkey
  refine legible_text.mpr ⟨?_, ?_⟩
  · simp only [unmarked_append]
    exact ⟨⟨⟨⟨hverb, hblank⟩, hcolumn⟩, hfrom⟩, htable⟩
  · induction joins with
    | nil => exact legible_nil
    | cons join rest ih =>
      rw [List.flatMap_cons] at hjoins
      obtain ⟨hjoin, hrest⟩ := List.forall_mem_append.mp hjoins
      have hclause := unmarked_append.mpr ⟨hblank, Join.unmarked_text hjoin⟩
      exact legible_text.mpr ⟨hclause, ih hrest⟩

/-- Conditions stay legible behind one another if the connective starts with a blank. -/
theorem legible_connect {connective : String} (hconnective : Unmarked connective)
    (hstart : EndNumber [.text connective]) {conditions : List (List Piece)}
    (h : ∀ condition ∈ conditions, Legible condition) :
    Legible (connect connective conditions) := by
  induction conditions with
  | nil => exact legible_nil
  | cons first rest ih =>
    obtain ⟨hfirst, hrest⟩ := List.forall_mem_cons.mp h
    cases rest with
    | nil =>
      have hsingle : connect connective [first] = first := List.intercalate_singleton
      rw [hsingle]
      exact hfirst
    | cons second rest =>
      rw [connect_cons_cons]
      exact hfirst.append (legible_text.mpr ⟨hconnective, ih hrest⟩) hstart

/-- A clause of legible conditions is legible, and its first blank ends a number before it. -/
theorem legible_whereClause {conditions : List (List Piece)}
    (h : ∀ condition ∈ conditions, Legible condition) :
    Legible (whereClause conditions) ∧ EndNumber (whereClause conditions) := by
  cases conditions with
  | nil => exact ⟨legible_nil, trivial⟩
  | cons first rest =>
    have hconnective : Unmarked " AND " := by decide
    have hconnected := legible_connect hconnective ⟨' ', _, rfl, rfl⟩ h
    exact ⟨legible_text.mpr ⟨by decide, hconnected⟩, ' ', _, rfl, rfl⟩

section

variable (database : Database)

/-- A parameter between two texts is legible if the second text ends a number. -/
theorem legible_around {opening closing : String} (hopening : Unmarked opening)
    (hclosing : Unmarked closing) (hend : EndNumber [.text closing]) (value : Json) :
    Legible [.text opening, .param value, .text closing] :=
  legible_text.mpr ⟨hopening, legible_param.mpr ⟨hend, legible_text.mpr ⟨hclosing, legible_nil⟩⟩⟩

/-- A search for a parameter is legible: a closing bracket follows the placeholder in every
database. -/
theorem Database.legible_contains {expression : String} (h : Unmarked expression) (needle : Json) :
    Legible (database.contains expression (.param needle)) := by
  have hwrapped : ∀ {before behind : String}, Unmarked before → Unmarked behind →
      Unmarked (before ++ expression ++ behind) :=
    fun hbefore hbehind => unmarked_append.mpr ⟨unmarked_append.mpr ⟨hbefore, h⟩, hbehind⟩
  cases database with
  | sqlite =>
    exact legible_around (hwrapped (by decide) (by decide)) (by decide) ⟨')', _, rfl, rfl⟩ needle
  | postgres =>
    -- only here the expression stands behind the placeholder
    have hend : EndNumber [.text ") IN lower("] := ⟨')', _, rfl, rfl⟩
    exact legible_around (by decide) (hwrapped (by decide) (by decide))
      hend.text_append.text_append needle
  | duckdb =>
    exact legible_around (hwrapped (by decide) (by decide)) (by decide) ⟨')', _, rfl, rfl⟩ needle

mutual

/-- A condition is legible if the words in it and in the scopes inside it are unmarked. The three
statements go through conditions and scopes together. -/
theorem Condition.legible_pieces : (condition : Condition) →
    (∀ word ∈ condition.words, Unmarked word) → Legible (condition.pieces database)
  | .compares lhs comparison value, h => by
    rw [Condition.words] at h
    have hsign : Unmarked comparison.sign := by cases comparison <;> decide
    have hblank : Unmarked " " := by decide
    rw [Condition.pieces]
    refine legible_text.mpr ⟨?_, legible_param.mpr ⟨trivial, legible_nil⟩⟩
    simp only [unmarked_append]
    exact ⟨⟨⟨Operand.unmarked_text h, hblank⟩, hsign⟩, hblank⟩
  | .isNull lhs, h => by
    rw [Condition.words] at h
    rw [Condition.pieces]
    exact legible_text.mpr
      ⟨unmarked_append.mpr ⟨Operand.unmarked_text h, by decide⟩, legible_nil⟩
  | .contains lhs needle, h => by
    rw [Condition.words] at h
    rw [Condition.pieces]
    exact database.legible_contains (Operand.unmarked_text h) needle
  | .impossible, _ => by
    rw [Condition.pieces]
    exact legible_text.mpr ⟨by decide, legible_nil⟩
  | .isAmong lhs scope negated, h => by
    rw [Condition.words] at h
    obtain ⟨hlhs, hscope⟩ := List.forall_mem_append.mp h
    have hkeyword : Unmarked (if negated then " NOT IN (" else " IN (") := by
      cases negated <;> decide
    have hclose : Legible [.text ")"] := legible_text.mpr ⟨by decide, legible_nil⟩
    rw [Condition.pieces]
    refine legible_text.mpr ⟨unmarked_append.mpr ⟨Operand.unmarked_text hlhs, hkeyword⟩, ?_⟩
    exact (scope.legible_subquery hscope).append hclose ⟨')', _, rfl, rfl⟩
  | .anyOf [], _ => by
    rw [Condition.pieces]
    exact legible_text.mpr ⟨by decide, legible_nil⟩
  | .anyOf (first :: rest), h => by
    rw [Condition.words] at h
    have hmembers : ∀ condition ∈ conditionPieces database (first :: rest), Legible condition :=
      legible_conditionPieces (first :: rest) h
    have hconnective : Unmarked " OR " := by decide
    have hconnected := legible_connect hconnective ⟨' ', _, rfl, rfl⟩ hmembers
    have hclose : Legible [.text ")"] := legible_text.mpr ⟨by decide, legible_nil⟩
    rw [Condition.pieces]
    exact legible_text.mpr ⟨by decide, hconnected.append hclose ⟨')', _, rfl, rfl⟩⟩

/-- A subquery is legible if the words of its scope are unmarked. -/
theorem Scope.legible_subquery : (scope : Scope) → (∀ word ∈ scope.words, Unmarked word) →
    Legible (scope.subquery database)
  | ⟨_, table, primaryKey, joins, conditions, _, _⟩, h => by
    rw [Scope.words] at h
    obtain ⟨htable, h⟩ := List.forall_mem_cons.mp h
    obtain ⟨hkey, h⟩ := List.forall_mem_cons.mp h
    obtain ⟨hjoins, hconditions⟩ := List.forall_mem_append.mp h
    have hwhere := legible_whereClause (legible_conditionPieces conditions hconditions)
    rw [Scope.subquery]
    exact (legible_selection (by decide) htable hkey hjoins).append hwhere.1 hwhere.2

/-- Conditions are legible one by one. -/
theorem legible_conditionPieces : (conditions : List Condition) →
    (∀ word ∈ wordsOf conditions, Unmarked word) →
      ∀ condition ∈ conditionPieces database conditions, Legible condition
  | [], _ => fun _ h => absurd h List.not_mem_nil
  | condition :: rest, h => by
    rw [wordsOf] at h
    obtain ⟨hcondition, hrest⟩ := List.forall_mem_append.mp h
    exact List.forall_mem_cons.mpr
      ⟨condition.legible_pieces hcondition, legible_conditionPieces rest hrest⟩

end

namespace Scope

/-- The last clauses are legible and end a number before them. -/
theorem legible_orderAndPage {scope : Scope} (htable : Unmarked scope.table)
    (hkey : Unmarked scope.primaryKey) :
    Legible (scope.orderAndPage database) ∧ EndNumber (scope.orderAndPage database) := by
  have hcolumn : Unmarked scope.key.text := Column.unmarked_text htable hkey
  have horder : Unmarked (" ORDER BY " ++ scope.key.text) :=
    unmarked_append.mpr ⟨by decide, hcolumn⟩
  have hstart : EndNumber [.text " ORDER BY "] := ⟨' ', _, rfl, rfl⟩
  unfold orderAndPage
  cases hclause : database.pageClause scope.limit scope.offset with
  | none => exact ⟨legible_text.mpr ⟨horder, legible_nil⟩, hstart.text_append⟩
  | some clause =>
    have hpage := unmarked_append.mpr
      ⟨(by decide : Unmarked " "), Database.unmarked_pageClause hclause⟩
    exact ⟨legible_text.mpr ⟨horder, legible_text.mpr ⟨hpage, legible_nil⟩⟩, hstart.text_append⟩

/-- A statement is legible if no word of its scope has a mark in it. -/
theorem legible_statement {scope : Scope} (h : ∀ word ∈ scope.words, Unmarked word) :
    Legible (scope.statement database) := by
  have hwords : scope.words = scope.table :: scope.primaryKey ::
      (scope.joins.flatMap Join.words ++ wordsOf scope.conditions) := by
    cases scope
    rw [words]
  rw [hwords] at h
  obtain ⟨htable, h⟩ := List.forall_mem_cons.mp h
  obtain ⟨hkey, h⟩ := List.forall_mem_cons.mp h
  obtain ⟨hjoins, hconditions⟩ := List.forall_mem_append.mp h
  have hwhere := legible_whereClause (legible_conditionPieces database scope.conditions hconditions)
  have hpage := legible_orderAndPage database htable hkey
  have hverb : Unmarked "SELECT DISTINCT" := by decide
  have hselection := legible_selection hverb htable hkey hjoins
  exact (hselection.append hwhere.1 hwhere.2).append hpage.1 hpage.2

end Scope

end

/-- The value that a placeholder with a number stands for, written out. -/
def Scope.writtenParam (scope : Scope) (database : Database) (write : Json → String)
    (number : Nat) : String :=
  ((scope.params database)[number - 1]?).elim "" write

/-- Question marks are as many as the values, and numbers run from one to as many. The values are
those in the conditions from left to right, and each placeholder stands for the value of its own
comparison or search: with the values in the place of the placeholders, the text is the statement
with each value written where it belongs. -/
theorem Scope.placeholders_sql {scope : Scope} (h : ∀ word ∈ scope.words, Unmarked word) :
    (∀ database : Database, database ≠ .postgres →
      (scope.sql database).toList.count '?' = (scope.params database).length) ∧
    dollarNumbers (scope.sql .postgres).toList =
      (List.range' 1 (scope.params .postgres).length).map
        (fun number => (toString number).toList) ∧
    ∀ database : Database, scope.params database = scope.boundValues ∧
      ∀ write : Json → String,
        database.fill (scope.writtenParam database write) (scope.sql database) =
          Piece.inlined write (scope.statement database) := by
  refine ⟨fun database hdatabase => ?_, ?_, fun database => ⟨?_, fun write => ?_⟩⟩
  · -- the two databases with question marks
    have hcount := Piece.count_renderFrom (legible_statement database h) 1
    cases database with
    | sqlite => exact hcount
    | postgres => exact absurd rfl hdatabase
    | duckdb => exact hcount
  · exact Piece.dollarNumbers_renderFrom (legible_statement .postgres h) 1
  · exact scope.params_eq_boundValues database
  · -- the parameter with a number is the value in that place
    have hfill := database.fill_render (legible_statement database h)
      (scope.writtenParam database write)
    have hinlined : Piece.render (scope.writtenParam database write) (scope.statement database) =
        Piece.inlined write (scope.statement database) := by
      refine Piece.renderFrom_eq_inlined fun i value hvalue => ?_
      have hparam : (scope.params database)[1 + i - 1]? = some value := by
        rw [Nat.add_sub_cancel_left]
        exact hvalue
      rw [writtenParam, hparam]
      rfl
    exact hfill.trans hinlined

/-! ### A page of offers -/

/-- Offers that cost what one of ten prices says and whose total mentions a text, or that belong to
a shop outside the first cities; nothing but the tenth and the eleventh of them. -/
def pricedOffers : Scope where
  model := "Offer"
  table := "offers"
  primaryKey := "id"
  joins := [⟨"shops", "shop", ⟨"shop", "id"⟩, ⟨"offers", "shop_id"⟩⟩]
  conditions := [
    .anyOf ((List.range 10).map fun price =>
      .compares (.column ⟨"offers", "price"⟩) .equal (.number (.integer price))),
    .anyOf [.contains (.expression "price * amount") (.string "$7?"),
      .isAmong (.column ⟨"shop", "city_id"⟩)
        ⟨"City", "cities", "id", [],
          [.compares (.column ⟨"cities", "id"⟩) .atMost (.number (.integer 3))], some 1, none⟩
        true]]
  limit := some 2
  offset := some 9

/-- There are twelve parameters, so the first number is also the start of later ones; the text that
is searched for has a dollar sign and a question mark, which do no harm. -/
theorem placeholders_sql_pricedOffers :
    (∀ word ∈ pricedOffers.words, Unmarked word) ∧
    (pricedOffers.params .postgres).length = 12 ∧
    (pricedOffers.sql .sqlite).toList.count '?' = 12 ∧
    dollarNumbers (pricedOffers.sql .postgres).toList =
      (List.range' 1 12).map (fun number => (toString number).toList) ∧
    pricedOffers.params .postgres = pricedOffers.boundValues ∧
    Database.fill .postgres (pricedOffers.writtenParam .postgres Json.text)
      (pricedOffers.sql .postgres) =
        Piece.inlined Json.text (pricedOffers.statement .postgres) := by
  have hwords : ∀ word ∈ pricedOffers.words, Unmarked word := by decide
  obtain ⟨hmarks, hnumbers, hvalues⟩ := Scope.placeholders_sql hwords
  exact ⟨hwords, rfl, hmarks .sqlite (by decide), hnumbers, (hvalues .postgres).1,
    (hvalues .postgres).2 Json.text⟩

end Sift
