import Mathlib.Data.List.Basic

/-!
# Texts with parentheses

A text is nested if its parentheses are: none is closed that was not opened, and none stays open.
Outside of all parentheses a text can be split at a separator, as a reader of the text would do.

A text is *calm* if it is nested and, outside of parentheses, no blank in it has the start of a
connective behind it. Splitting at a connective passes over calm texts as a whole, whatever stands
behind them. So calm texts with a connective between them are split into the same texts again.
-/

namespace Sift

/-! ## Depth -/

/-- The number of open parentheses behind a character. -/
def nextDepth (depth : Nat) (c : Char) : Nat :=
  if c = '(' then depth + 1 else if c = ')' then depth - 1 else depth

/-- The number of open parentheses behind some characters, unless one is closed that was not
opened. -/
def depthAfter? : (depth : Nat) → List Char → Option Nat
  | depth, [] => some depth
  | depth, c :: rest =>
    if c = ')' ∧ depth = 0 then none else depthAfter? (nextDepth depth c) rest

/-- The parentheses of a text are nested. -/
def Nested (text : String) : Prop :=
  depthAfter? 0 text.toList = some 0

instance (text : String) : Decidable (Nested text) :=
  inferInstanceAs (Decidable (depthAfter? 0 text.toList = some 0))

/-- A text occurs in another one outside of all parentheses. -/
def OccursOutside (part text : String) : Prop :=
  ∃ before after, text.toList = before ++ part.toList ++ after ∧ depthAfter? 0 before = some 0

section

variable {depth : Nat} {first second chars : List Char}

/-- The depth behind two parts is that behind the second one, begun where the first one ended. -/
theorem depthAfter?_append :
    depthAfter? depth (first ++ second) =
      (depthAfter? depth first).bind fun between => depthAfter? between second := by
  induction first generalizing depth with
  | nil => rfl
  | cons c rest ih =>
    rw [List.cons_append, depthAfter?, depthAfter?]
    split
    · rfl
    · exact ih

/-- Deeper inside, a character changes the depth by the same. -/
theorem nextDepth_add {c : Char} (hopen : ¬(c = ')' ∧ depth = 0)) (more : Nat) :
    nextDepth (depth + more) c = nextDepth depth c + more := by
  unfold nextDepth
  by_cases hopening : c = '('
  · rw [if_pos hopening, if_pos hopening]
    omega
  · rw [if_neg hopening, if_neg hopening]
    by_cases hclosing : c = ')'
    · have hpos : depth ≠ 0 := fun hzero => hopen ⟨hclosing, hzero⟩
      rw [if_pos hclosing, if_pos hclosing]
      omega
    · rw [if_neg hclosing, if_neg hclosing]

/-- With more open parentheses around it a text ends as much deeper as it starts. -/
theorem depthAfter?_add {after : Nat} (h : depthAfter? depth chars = some after) (more : Nat) :
    depthAfter? (depth + more) chars = some (after + more) := by
  induction chars generalizing depth with
  | nil =>
    cases h
    rfl
  | cons c rest ih =>
    rw [depthAfter?] at h ⊢
    by_cases hclose : c = ')' ∧ depth = 0
    · rw [if_pos hclose] at h
      cases h
    · have hdeeper : ¬(c = ')' ∧ depth + more = 0) := fun hboth =>
        hclose ⟨hboth.1, (Nat.add_eq_zero_iff.mp hboth.2).1⟩
      rw [if_neg hclose] at h
      rw [if_neg hdeeper, nextDepth_add hclose]
      exact ih h

end

/-! ## Splitting -/

/-- Splits characters at a separator outside of parentheses; `skipped` characters are left out
first. -/
def splitFrom (separator : List Char) : (depth skipped : Nat) → List Char → List (List Char)
  | _, _, [] => [[]]
  | depth, skipped + 1, _ :: rest => splitFrom separator depth skipped rest
  | depth, 0, c :: rest =>
    if depth = 0 ∧ separator <+: c :: rest then
      [] :: splitFrom separator depth (separator.length - 1) rest
    else (splitFrom separator (nextDepth depth c) 0 rest).modifyHead (c :: ·)

/-- The parts of a text between the places where a separator stands outside of all parentheses. -/
def splitOutside (separator text : String) : List String :=
  (splitFrom separator.toList 0 0 text.toList).map String.ofList

section

variable {separator : List Char}

theorem splitFrom_ne_nil (separator : List Char) (depth skipped : Nat) (chars : List Char) :
    splitFrom separator depth skipped chars ≠ [] := by
  induction chars generalizing depth skipped with
  | nil => exact List.cons_ne_nil _ _
  | cons c rest ih =>
    cases skipped with
    | succ skipped => exact ih depth skipped
    | zero =>
      rw [splitFrom]
      split
      · exact List.cons_ne_nil _ _
      · exact fun hnil => ih (nextDepth depth c) 0 (List.modifyHead_eq_nil_iff.mp hnil)

/-- What is skipped leaves no trace in the parts. -/
theorem splitFrom_skip (depth : Nat) (first second : List Char) :
    splitFrom separator depth first.length (first ++ second) =
      splitFrom separator depth 0 second := by
  induction first with
  | nil => rfl
  | cons c rest ih => exact ih

/-- In front of a separator outside of parentheses a text is split. -/
theorem splitFrom_separator (hne : separator ≠ []) (chars : List Char) :
    splitFrom separator 0 0 (separator ++ chars) = [] :: splitFrom separator 0 0 chars := by
  cases separator with
  | nil => exact absurd rfl hne
  | cons c rest =>
    have hprefix : 0 = 0 ∧ c :: rest <+: c :: (rest ++ chars) := ⟨rfl, List.prefix_append _ _⟩
    rw [List.cons_append, splitFrom, if_pos hprefix]
    exact congrArg _ (splitFrom_skip 0 rest chars)

/-- Where a separator occurs outside of parentheses, a text has more than one part. -/
theorem one_lt_length_splitFrom (hne : separator ≠ []) {depth : Nat} {before : List Char}
    (h : depthAfter? depth before = some 0) (after : List Char) :
    1 < (splitFrom separator depth 0 (before ++ separator ++ after)).length := by
  induction before generalizing depth with
  | nil =>
    -- the separator is next: one part ends, and another one begins
    cases h
    have hrest := List.length_pos_iff.mpr (splitFrom_ne_nil separator 0 0 after)
    rw [List.nil_append, splitFrom_separator hne, List.length_cons]
    omega
  | cons c rest ih =>
    rw [depthAfter?] at h
    have hopen : ¬(c = ')' ∧ depth = 0) := by
      intro hclose
      rw [if_pos hclose] at h
      cases h
    rw [if_neg hopen] at h
    rw [List.cons_append, List.cons_append, splitFrom]
    split
    · -- an earlier occurrence
      have hrest := List.length_pos_iff.mpr
        (splitFrom_ne_nil separator depth (separator.length - 1) (rest ++ separator ++ after))
      rw [List.length_cons]
      omega
    · rw [List.length_modifyHead]
      exact ih h

end

/-- What a text is not split at does not occur in it outside of parentheses. -/
theorem not_occursOutside {separator text : String} (hne : separator.toList ≠ [])
    (h : splitFrom separator.toList 0 0 text.toList = [text.toList]) :
    ¬OccursOutside separator text := by
  rintro ⟨before, after, htext, hdepth⟩
  have hlength := one_lt_length_splitFrom hne hdepth after
  rw [← htext, h, List.length_singleton] at hlength
  exact absurd hlength (Nat.lt_irrefl 1)

/-! ## Calm texts -/

/-- A character that is neither a blank nor a parenthesis. -/
def IsPlain (c : Char) : Prop :=
  c ≠ ' ' ∧ c ≠ '(' ∧ c ≠ ')'

/-- A text of characters that are neither blanks nor parentheses. -/
def Plain (text : String) : Prop :=
  ∀ c ∈ text.toList, IsPlain c

instance (c : Char) : Decidable (IsPlain c) :=
  inferInstanceAs (Decidable (c ≠ ' ' ∧ c ≠ '(' ∧ c ≠ ')'))

instance (text : String) : Decidable (Plain text) :=
  List.decidableBAll _ text.toList

/-- What conditions are connected by. -/
def connectives : List String :=
  [" AND ", " OR "]

/-- Whether the character behind a blank is not the first of a connective. -/
def startsNoConnective : List Char → Bool
  | [] => false
  | c :: _ => c != 'A' && c != 'O'

/-- The number of open parentheses behind characters that are calm. -/
def calmAfter? : (depth : Nat) → List Char → Option Nat
  | depth, [] => some depth
  | depth, c :: rest =>
    if c = ')' ∧ depth = 0 ∨ c = ' ' ∧ depth = 0 ∧ startsNoConnective rest = false then none
    else calmAfter? (nextDepth depth c) rest

/-- A text is nested, and outside of parentheses no blank in it has the start of a connective
behind it. -/
def Calm (text : String) : Prop :=
  calmAfter? 0 text.toList = some 0

instance (text : String) : Decidable (Calm text) :=
  inferInstanceAs (Decidable (calmAfter? 0 text.toList = some 0))

section

variable {depth after : Nat} {first second chars : List Char}

/-- What is calm can be taken one step further at a time. -/
theorem calmAfter?_cons {c : Char} (h : calmAfter? depth (c :: chars) = some after) :
    ¬(c = ')' ∧ depth = 0) ∧ ¬(c = ' ' ∧ depth = 0 ∧ startsNoConnective chars = false) ∧
      calmAfter? (nextDepth depth c) chars = some after := by
  rw [calmAfter?] at h
  split at h
  · cases h
  · next hnone => exact ⟨fun hclose => hnone (Or.inl hclose), fun hblank => hnone (Or.inr hblank), h⟩

/-- A calm text goes on from the depth that the first part leads to. -/
theorem calmAfter?_append (h : calmAfter? depth first = some after) :
    calmAfter? depth (first ++ second) = calmAfter? after second := by
  induction first generalizing depth with
  | nil =>
    cases h
    rfl
  | cons c rest ih =>
    obtain ⟨hclose, hblank, hrest⟩ := calmAfter?_cons h
    -- a blank has its next character in the first part, so it is the same in the whole
    have hblank_whole : ¬(c = ' ' ∧ depth = 0 ∧ startsNoConnective (rest ++ second) = false) := by
      rintro ⟨hc, hdepth, hstart⟩
      refine hblank ⟨hc, hdepth, ?_⟩
      cases rest with
      | nil => rfl
      | cons next others => exact hstart
    rw [List.cons_append, calmAfter?, if_neg (not_or.mpr ⟨hclose, hblank_whole⟩)]
    exact ih hrest

/-- Inside of parentheses everything nested is calm. -/
theorem calmAfter?_inside (h : depthAfter? depth chars = some after) :
    calmAfter? (depth + 1) chars = some (after + 1) := by
  induction chars generalizing depth with
  | nil =>
    cases h
    rfl
  | cons c rest ih =>
    rw [depthAfter?] at h
    by_cases hclose : c = ')' ∧ depth = 0
    · rw [if_pos hclose] at h
      cases h
    · have hinside : ¬(c = ')' ∧ depth + 1 = 0 ∨
          c = ' ' ∧ depth + 1 = 0 ∧ startsNoConnective rest = false) := by
        rintro (⟨-, hzero⟩ | ⟨-, hzero, -⟩) <;> exact Nat.succ_ne_zero depth hzero
      rw [if_neg hclose] at h
      rw [calmAfter?, if_neg hinside, nextDepth_add hclose]
      exact ih h

/-- What is calm is balanced. -/
theorem depthAfter?_of_calm (h : calmAfter? depth chars = some after) :
    depthAfter? depth chars = some after := by
  induction chars generalizing depth with
  | nil => exact h
  | cons c rest ih =>
    obtain ⟨hclose, -, hrest⟩ := calmAfter?_cons h
    rw [depthAfter?, if_neg hclose]
    exact ih hrest

/-- Plain characters are calm at every depth, which they do not change. -/
theorem calmAfter?_of_plain (h : ∀ c ∈ chars, IsPlain c) (depth : Nat) :
    calmAfter? depth chars = some depth := by
  induction chars with
  | nil => rfl
  | cons c rest ih =>
    obtain ⟨⟨hblank, hopen, hclose⟩, hrest⟩ := List.forall_mem_cons.mp h
    have hnext : nextDepth depth c = depth := by
      rw [nextDepth, if_neg hopen, if_neg hclose]
    rw [calmAfter?, if_neg, hnext]
    · exact ih hrest
    · rintro (⟨heq, -⟩ | ⟨heq, -⟩)
      · exact hclose heq
      · exact hblank heq

/-- A connective begins with a blank and the first character of its word. -/
theorem exists_of_mem_connectives {connective : String} (h : connective ∈ connectives) :
    ∃ c rest, connective.toList = ' ' :: c :: rest ∧ (c = 'A' ∨ c = 'O') := by
  rcases List.mem_cons.mp h with rfl | h
  · exact ⟨'A', _, rfl, Or.inl rfl⟩
  · rw [List.mem_singleton.mp h]
    exact ⟨'O', _, rfl, Or.inr rfl⟩

/-- Splitting at a connective passes over what is calm. -/
theorem splitFrom_append {connective : String} (hconnective : connective ∈ connectives)
    (h : calmAfter? depth first = some after) (second : List Char) :
    splitFrom connective.toList depth 0 (first ++ second) =
      (splitFrom connective.toList after 0 second).modifyHead (first ++ ·) := by
  induction first generalizing depth with
  | nil =>
    cases h
    exact (congrFun List.modifyHead_id _).symm
  | cons c rest ih =>
    obtain ⟨-, hblank, hrest⟩ := calmAfter?_cons h
    have hnone : ¬(depth = 0 ∧ connective.toList <+: c :: (rest ++ second)) := by
      rintro ⟨hdepth, hprefix⟩
      obtain ⟨start, others, hchars, hstart⟩ := exists_of_mem_connectives hconnective
      rw [hchars, List.cons_prefix_cons] at hprefix
      obtain ⟨hc, hprefix⟩ := hprefix
      refine hblank ⟨hc.symm, hdepth, ?_⟩
      cases rest with
      | nil => rfl
      | cons next behind =>
        obtain ⟨rfl, -⟩ := List.cons_prefix_cons.mp hprefix
        rcases hstart with rfl | rfl <;> rfl
    rw [List.cons_append, splitFrom, if_neg hnone, ih hrest, List.modifyHead_modifyHead]
    rfl

end

/-- What is calm on the outer level is calm inside of brackets. -/
theorem Calm.nested {text : String} (h : Calm text) : Nested text :=
  depthAfter?_of_calm h

/-- Inside of brackets, a nested text is calm at every depth. -/
theorem Nested.calm_inside {text : String} (h : Nested text) (depth : Nat) :
    calmAfter? (depth + 1) text.toList = some (depth + 1) := by
  have hdeeper := depthAfter?_add h depth
  rw [Nat.zero_add] at hdeeper
  exact calmAfter?_inside hdeeper

/-- The same for texts that are put together. -/
theorem calmAfter?_text {depth between after : Nat} {first second : String}
    (hfirst : calmAfter? depth first.toList = some between)
    (hsecond : calmAfter? between second.toList = some after) :
    calmAfter? depth (first ++ second).toList = some after := by
  rw [String.toList_append, calmAfter?_append hfirst]
  exact hsecond

/-- Characters of a kind without blanks and parentheses are plain. -/
theorem isPlain_of_kind {kind : Char → Bool}
    (hnone : kind ' ' = false ∧ kind '(' = false ∧ kind ')' = false) {c : Char}
    (h : kind c = true) : IsPlain c := by
  obtain ⟨hblank, hopen, hclose⟩ := hnone
  refine ⟨?_, ?_, ?_⟩
  · rintro rfl
    exact Bool.false_ne_true (hblank.symm.trans h)
  · rintro rfl
    exact Bool.false_ne_true (hopen.symm.trans h)
  · rintro rfl
    exact Bool.false_ne_true (hclose.symm.trans h)

theorem Plain.append {first second : String} (hfirst : Plain first) (hsecond : Plain second) :
    Plain (first ++ second) := by
  rw [Plain, String.toList_append]
  exact List.forall_mem_append.mpr ⟨hfirst, hsecond⟩

theorem Plain.calm {text : String} (h : Plain text) : Calm text :=
  calmAfter?_of_plain h 0

theorem Plain.nested {text : String} (h : Plain text) : Nested text :=
  h.calm.nested

/-! ## Connected texts -/

/-- No connective is empty, so splitting at one goes forward. -/
theorem connective_ne_nil {connective : String} (h : connective ∈ connectives) :
    connective.toList ≠ [] := by
  obtain ⟨c, rest, hchars, -⟩ := exists_of_mem_connectives h
  rw [hchars]
  exact List.cons_ne_nil _ _

/-- A connective may stand inside of brackets. -/
theorem nested_connective {connective : String} (h : connective ∈ connectives) :
    Nested connective := by
  rcases List.mem_cons.mp h with rfl | h
  · decide
  · rw [List.mem_singleton.mp h]
    decide

theorem Nested.append {first second : String} (hfirst : Nested first) (hsecond : Nested second) :
    Nested (first ++ second) := by
  rw [Nested, String.toList_append, depthAfter?_append, hfirst]
  exact hsecond

variable {connective : String} {parts : List String}

/-- Nested parts with connectives between them are nested. -/
theorem nested_intercalate (hconnective : connective ∈ connectives)
    (h : ∀ part ∈ parts, Nested part) : Nested (connective.intercalate parts) := by
  induction parts with
  | nil => rfl
  | cons part rest ih =>
    obtain ⟨hpart, hrest⟩ := List.forall_mem_cons.mp h
    by_cases hnil : rest = []
    · rw [hnil, String.intercalate_singleton]
      exact hpart
    · rw [String.intercalate_cons_of_ne_nil hnil]
      exact (hpart.append (nested_connective hconnective)).append (ih hrest)

/-- A calm text is not split at all. -/
theorem splitFrom_calm (hconnective : connective ∈ connectives) {text : String} (h : Calm text) :
    splitFrom connective.toList 0 0 text.toList = [text.toList] := by
  have hwhole := splitFrom_append hconnective h []
  rw [List.append_nil] at hwhole
  rw [hwhole]
  simp [splitFrom]

/-- Calm texts with a connective between them are split into the same texts again. -/
theorem splitOutside_intercalate (hconnective : connective ∈ connectives) (hne : parts ≠ [])
    (h : ∀ part ∈ parts, Calm part) :
    splitOutside connective (connective.intercalate parts) = parts := by
  suffices hsplit : splitFrom connective.toList 0 0 (connective.intercalate parts).toList =
      parts.map String.toList by
    rw [splitOutside, hsplit, List.map_map]
    simp
  induction parts with
  | nil => exact absurd rfl hne
  | cons part rest ih =>
    obtain ⟨hpart, hrest⟩ := List.forall_mem_cons.mp h
    by_cases hnil : rest = []
    · rw [hnil, String.intercalate_singleton, splitFrom_calm hconnective hpart]
      rfl
    · rw [String.intercalate_cons_of_ne_nil hnil, String.toList_append, String.toList_append,
        List.append_assoc, splitFrom_append hconnective hpart,
        splitFrom_separator (connective_ne_nil hconnective), ih hnil hrest]
      simp

/-- A text in front of whose first blank there is a dot, a parenthesis or an equality sign; so its
first word is no connective. -/
def Headed (text : String) : Prop :=
  ∃ word c rest, text.toList = word ++ c :: rest ∧ ' ' ∉ word ∧ c ∈ ['.', '(', '=']

/-- What follows does not change how a text begins. -/
theorem Headed.append {first : String} (h : Headed first) (second : String) :
    Headed (first ++ second) := by
  obtain ⟨word, c, rest, hfirst, hword, hc⟩ := h
  refine ⟨word, c, rest ++ second.toList, ?_, hword, hc⟩
  rw [String.toList_append, hfirst, List.append_assoc, List.cons_append]

/-- A text can stand between connectives: it is calm and its first word is no connective. -/
structure Connectable (text : String) : Prop where
  calm : Calm text
  headed : Headed text

/-- Joined parts begin as the first of them does. -/
theorem headed_intercalate (hne : parts ≠ []) (h : ∀ part ∈ parts, Headed part) :
    Headed (connective.intercalate parts) := by
  cases parts with
  | nil => exact absurd rfl hne
  | cons part rest =>
    obtain ⟨hpart, -⟩ := List.forall_mem_cons.mp h
    by_cases hnil : rest = []
    · rw [hnil, String.intercalate_singleton]
      exact hpart
    · rw [String.intercalate_cons_of_ne_nil hnil]
      exact (hpart.append _).append _

/-- A blank in front of a headed text does not begin an ` OR `. -/
theorem Headed.not_prefix {text : String} (h : Headed text) :
    ¬" OR ".toList <+: ' ' :: text.toList := by
  obtain ⟨word, c, behind, htext, hword, hc⟩ := h
  have hchars : " OR ".toList = [' ', 'O', 'R', ' '] := rfl
  rw [htext, hchars]
  -- the character that ends the first word is not in the connective, and no blank is before it
  match word, hword with
  | [], _ =>
    rintro hprefix
    obtain ⟨rfl, -⟩ : 'O' = c ∧ _ := by simpa using hprefix
    exact absurd hc (by decide)
  | [first], _ =>
    intro hprefix
    obtain ⟨-, rfl, -⟩ : 'O' = first ∧ 'R' = c ∧ _ := by simpa using hprefix
    exact absurd hc (by decide)
  | [first, second], _ =>
    intro hprefix
    obtain ⟨-, -, rfl⟩ : 'O' = first ∧ 'R' = second ∧ ' ' = c := by simpa using hprefix
    exact absurd hc (by decide)
  | first :: second :: third :: others, hword =>
    intro hprefix
    obtain ⟨-, -, rfl⟩ : 'O' = first ∧ 'R' = second ∧ ' ' = third := by simpa using hprefix
    simp at hword

/-- A character at which no connective begins belongs to the first part. -/
theorem splitFrom_cons {separator chars : List Char} {c : Char}
    (hnone : ¬separator <+: c :: chars) (hnext : nextDepth 0 c = 0) :
    splitFrom separator 0 0 (c :: chars) =
      (splitFrom separator 0 0 chars).modifyHead (c :: ·) := by
  rw [splitFrom, if_neg fun hboth => hnone hboth.2, hnext]

/-- A text that starts no connective is not split behind another connective either. -/
theorem splitFrom_and {text : String} (h : Headed text) :
    splitFrom " OR ".toList 0 0 (" AND ".toList ++ text.toList) =
      (splitFrom " OR ".toList 0 0 text.toList).modifyHead (" AND ".toList ++ ·) := by
  have hconnective : " OR " ∈ connectives := by decide
  have hchars : " AND ".toList = [' ', 'A', 'N', 'D', ' '] := rfl
  have hfirst : ¬" OR ".toList <+: ' ' :: (['A', 'N', 'D'] ++ ' ' :: text.toList) := by
    simp
  have hword : calmAfter? 0 ['A', 'N', 'D'] = some 0 := rfl
  have hmiddle := splitFrom_append hconnective hword (' ' :: text.toList)
  rw [splitFrom_cons h.not_prefix rfl] at hmiddle
  rw [hchars]
  show splitFrom " OR ".toList 0 0 (' ' :: (['A', 'N', 'D'] ++ ' ' :: text.toList)) = _
  rw [splitFrom_cons hfirst rfl, hmiddle, List.modifyHead_modifyHead, List.modifyHead_modifyHead]
  rfl

/-- With one connective between texts no other one occurs there. -/
theorem not_occursOutside_or (h : ∀ part ∈ parts, Connectable part) :
    ¬OccursOutside " OR " (" AND ".intercalate parts) := by
  have hconnective : " OR " ∈ connectives := by decide
  refine not_occursOutside (connective_ne_nil hconnective) ?_
  induction parts with
  | nil => rfl
  | cons part rest ih =>
    obtain ⟨⟨hpart, -⟩, hrest⟩ := List.forall_mem_cons.mp h
    by_cases hnil : rest = []
    · rw [hnil, String.intercalate_singleton, splitFrom_calm hconnective hpart]
    · rw [String.intercalate_cons_of_ne_nil hnil, String.toList_append, String.toList_append,
        List.append_assoc, splitFrom_append hconnective hpart,
        splitFrom_and (headed_intercalate hnil fun part hmem => (hrest part hmem).headed),
        ih hrest]
      rfl

end Sift
