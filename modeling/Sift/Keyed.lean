/-!
# Keyed lists

A keyed list holds values under text keys, in the order in which the keys were first written.
Writing a key again replaces its value and keeps its place. Look-up is `List.lookup`.

The members of a JSON object, the columns of a table and the filters of a model are keyed lists.
The main statements say what a look-up finds after a write, and that written lists name each key
once.
-/

namespace Sift

/-- Values under text keys, in order. -/
abbrev Keyed (α : Type) := List (String × α)

namespace Keyed

variable {α : Type}

/-- The keys, in order. -/
def keys (entries : Keyed α) : List String :=
  entries.map Prod.fst

/-- Writes `value` under `key`: in the place of the old value if there is one, else at the end. -/
def insert (entries : Keyed α) (key : String) (value : α) : Keyed α :=
  match entries with
  | [] => [(key, value)]
  | entry :: rest =>
    if entry.1 = key then (key, value) :: rest else entry :: insert rest key value

/-- Writes the entries one after the other, so that the last value of a key counts and its first
place. -/
def ofList (entries : List (String × α)) : Keyed α :=
  entries.foldl (fun written entry => written.insert entry.1 entry.2) []

theorem mem_of_lookup {entries : Keyed α} {key : String} {value : α}
    (h : entries.lookup key = some value) : (key, value) ∈ entries := by
  obtain ⟨before, after, hentries, -⟩ := List.lookup_eq_some_iff.mp h
  rw [hentries]
  exact List.mem_append_right before (List.mem_cons_self ..)

theorem lookup_insert_self (entries : Keyed α) (key : String) (value : α) :
    (entries.insert key value).lookup key = some value := by
  induction entries with
  | nil => simp [insert]
  | cons entry rest ih =>
    obtain ⟨first, old⟩ := entry
    by_cases h : first = key
    · simp [insert, h]
    · have differs : (key == first) = false := by simpa using fun e => h e.symm
      simpa [insert, h, List.lookup_cons, differs] using ih

theorem lookup_insert_of_ne (entries : Keyed α) {key other : String} (value : α)
    (ne : other ≠ key) : (entries.insert key value).lookup other = entries.lookup other := by
  have differs : (other == key) = false := by simpa using ne
  induction entries with
  | nil => simp [insert, List.lookup_cons, differs]
  | cons entry rest ih =>
    obtain ⟨first, old⟩ := entry
    by_cases h : first = key
    · simp [insert, h, List.lookup_cons, differs]
    · simp only [insert, if_neg h, List.lookup_cons, ih]

theorem mem_keys_insert {entries : Keyed α} {key other : String} {value : α} :
    other ∈ (entries.insert key value).keys ↔ other = key ∨ other ∈ entries.keys := by
  induction entries with
  | nil => simp [insert, keys]
  | cons entry rest ih =>
    by_cases h : entry.1 = key
    · subst h; simp [insert, keys]
    · have := ih
      simp only [keys] at this ⊢
      simp only [insert, if_neg h, List.map_cons, List.mem_cons, this]
      constructor <;> rintro (h | h | h) <;> simp [h]

theorem nodup_keys_insert {entries : Keyed α} (nodup : entries.keys.Nodup) (key : String)
    (value : α) : (entries.insert key value).keys.Nodup := by
  induction entries with
  | nil => simp [insert, keys]
  | cons entry rest ih =>
    have split : entry.1 ∉ Keyed.keys rest ∧ (Keyed.keys rest).Nodup := by
      simpa [keys] using nodup
    by_cases h : entry.1 = key
    · subst h; simpa [insert, keys] using nodup
    · have other : entry.1 ∉ (Keyed.insert rest key value).keys := by
        simp [mem_keys_insert, h, split.1]
      have tail := ih split.2
      simp only [keys] at other tail
      simp only [insert, if_neg h, keys, List.map_cons, List.nodup_cons]
      exact ⟨other, tail⟩

/-- A list written entry by entry names each key once. -/
theorem nodup_keys_ofList (entries : List (String × α)) : (ofList entries).keys.Nodup := by
  suffices h : ∀ written : Keyed α, written.keys.Nodup →
      (entries.foldl (fun written entry => written.insert entry.1 entry.2) written).keys.Nodup from
    h [] (by simp [keys])
  induction entries with
  | nil => exact fun _ h => h
  | cons entry rest ih => exact fun written h => ih _ (nodup_keys_insert h _ _)

/-- Writing entry by entry reaches the value of a key that was written last. -/
theorem lookup_foldl_insert (entries : List (String × α)) (written : Keyed α) (key : String) :
    (entries.foldl (fun written entry => written.insert entry.1 entry.2) written).lookup key =
      (entries.reverse.lookup key).or (written.lookup key) := by
  induction entries generalizing written with
  | nil => simp
  | cons entry rest ih =>
    obtain ⟨first, value⟩ := entry
    rw [List.foldl_cons, ih, List.reverse_cons, List.lookup_append, Option.or_assoc]
    congr 1
    by_cases h : key = first
    · subst h; simp [lookup_insert_self]
    · have differs : (key == first) = false := by simpa using h
      simp [lookup_insert_of_ne _ _ h, List.lookup_cons, differs]

/-- Of the values that a list gives to a key, the last one is kept. -/
theorem lookup_ofList (entries : List (String × α)) (key : String) :
    (ofList entries).lookup key = entries.reverse.lookup key := by
  simp [ofList, lookup_foldl_insert]

theorem mem_of_mem_insert {entries : Keyed α} {key : String} {value : α} {entry : String × α}
    (h : entry ∈ entries.insert key value) : entry = (key, value) ∨ entry ∈ entries := by
  induction entries with
  | nil => exact Or.inl (List.mem_singleton.mp h)
  | cons first rest ih =>
    unfold insert at h
    split at h
    · exact (List.mem_cons.mp h).imp_right (List.mem_cons_of_mem first)
    · rcases List.mem_cons.mp h with rfl | h
      · exact Or.inr (List.mem_cons_self ..)
      · exact (ih h).imp_right (List.mem_cons_of_mem first)

/-- A list written entry by entry holds nothing but its entries. -/
theorem mem_of_mem_ofList {entries : List (String × α)} {entry : String × α}
    (h : entry ∈ ofList entries) : entry ∈ entries := by
  suffices hwritten : ∀ written : Keyed α,
      entry ∈ entries.foldl (fun written entry => written.insert entry.1 entry.2) written →
        entry ∈ entries ∨ entry ∈ written from
    (hwritten [] h).resolve_right List.not_mem_nil
  clear h
  induction entries with
  | nil => exact fun _ h => Or.inr h
  | cons first rest ih =>
    intro written h
    rcases ih _ h with h | h
    · exact Or.inl (List.mem_cons_of_mem first h)
    · rcases mem_of_mem_insert h with rfl | h
      · exact Or.inl (List.mem_cons_self ..)
      · exact Or.inr h

/-- A list written entry by entry has the keys of its entries. -/
theorem mem_keys_ofList (entries : List (String × α)) (key : String) :
    key ∈ (ofList entries).keys ↔ key ∈ entries.map Prod.fst := by
  suffices h : ∀ written : Keyed α,
      key ∈ (entries.foldl (fun written entry => written.insert entry.1 entry.2) written).keys ↔
        key ∈ entries.map Prod.fst ∨ key ∈ written.keys by
    simpa [keys, ofList] using h []
  induction entries with
  | nil => simp
  | cons entry rest ih =>
    intro written
    rw [List.foldl_cons, ih, mem_keys_insert, List.map_cons, List.mem_cons]
    exact ⟨fun h => h.elim (.inl ∘ .inr) (·.elim (.inl ∘ .inl) .inr),
      fun h => h.elim (·.elim (.inr ∘ .inl) .inl) (.inr ∘ .inr)⟩

end Keyed

end Sift
