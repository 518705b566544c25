import Mathlib.Data.List.Forall2

/-!
# Outcomes

When a computation that may be rejected succeeds or fails in terms of its parts.
-/

namespace Sift

variable {ε α β : Type}

/-- A sequence succeeds if the first step does and the next one does on its value. With this lemma
an outcome is peeled apart step by step, without unfolding. -/
theorem bind_eq_ok {outcome : Except ε α} {next : α → Except ε β} {result : β} :
    outcome >>= next = .ok result ↔ ∃ value, outcome = .ok value ∧ next value = .ok result := by
  cases outcome with
  | error rejection =>
    constructor
    · intro h
      cases h
    · rintro ⟨value, h, -⟩
      cases h
  | ok value => exact ⟨fun h => ⟨value, rfl, h⟩, fun ⟨_, h, hnext⟩ => Except.ok.inj h ▸ hnext⟩

/-- A sequence is rejected by its first step, or by the next one behind a success. -/
theorem bind_eq_error {outcome : Except ε α} {next : α → Except ε β} {rejection : ε} :
    outcome >>= next = .error rejection ↔
      outcome = .error rejection ∨ ∃ value, outcome = .ok value ∧ next value = .error rejection := by
  cases outcome with
  | error other =>
    constructor
    · intro h
      cases h
      exact Or.inl rfl
    · rintro (h | ⟨value, h, -⟩) <;> cases h
      rfl
  | ok value =>
    constructor
    · exact fun h => Or.inr ⟨value, rfl, h⟩
    · rintro (h | ⟨found, h, hnext⟩) <;> cases h
      exact hnext

/-- A function changes the value of a success. -/
theorem map_eq_ok {outcome : Except ε α} {f : α → β} {result : β} :
    outcome.map f = .ok result ↔ ∃ value, outcome = .ok value ∧ f value = result := by
  cases outcome with
  | error rejection => simp [Except.map]
  | ok value => simp [Except.map]

/-- A function leaves a rejection as it is. -/
theorem map_eq_error {outcome : Except ε α} {f : α → β} {rejection : ε} :
    outcome.map f = .error rejection ↔ outcome = .error rejection := by
  cases outcome <;> simp [Except.map]

/-- Computing a list of results succeeds if each of them is computed. -/
theorem mapM_eq_ok {f : α → Except ε β} {inputs : List α} {results : List β} :
    inputs.mapM f = .ok results ↔
      List.Forall₂ (fun input result => f input = .ok result) inputs results := by
  induction inputs generalizing results with
  | nil =>
    rw [List.forall₂_nil_left_iff]
    exact ⟨fun h => (Except.ok.inj h).symm, fun h => congrArg Except.ok h.symm⟩
  | cons input rest ih =>
    rw [List.mapM_cons, bind_eq_ok, List.forall₂_cons_left_iff]
    constructor
    · rintro ⟨result, hresult, h⟩
      obtain ⟨others, hothers, h⟩ := bind_eq_ok.mp h
      cases h
      exact ⟨result, others, hresult, ih.mp hothers, rfl⟩
    · rintro ⟨result, others, hresult, hothers, rfl⟩
      exact ⟨result, hresult, bind_eq_ok.mpr ⟨others, ih.mpr hothers, rfl⟩⟩

/-- Checking a list succeeds if each member passes. -/
theorem forM_eq_ok {check : α → Except ε Unit} {inputs : List α} :
    inputs.forM check = .ok () ↔ ∀ input ∈ inputs, check input = .ok () := by
  induction inputs with
  | nil => exact ⟨fun _ _ h => absurd h List.not_mem_nil, fun _ => rfl⟩
  | cons input rest ih =>
    have hcons : (input :: rest).forM check = check input >>= fun _ => rest.forM check := rfl
    rw [hcons, bind_eq_ok, List.forall_mem_cons, ← ih]
    exact ⟨fun ⟨_, hinput, hrest⟩ => ⟨hinput, hrest⟩, fun ⟨hinput, hrest⟩ => ⟨_, hinput, hrest⟩⟩

/-- Checking a list fails as the first member fails that does not pass. -/
theorem forM_eq_error {check : α → Except ε Unit} {inputs : List α} {rejection : ε} :
    inputs.forM check = .error rejection ↔
      ∃ before input after, inputs = before ++ input :: after ∧
        (∀ earlier ∈ before, check earlier = .ok ()) ∧ check input = .error rejection := by
  constructor
  · intro h
    induction inputs with
    | nil => cases h
    | cons first rest ih =>
      rcases bind_eq_error.mp h with hfirst | ⟨_, hfirst, hrest⟩
      · exact ⟨[], first, rest, rfl, fun _ hmem => absurd hmem List.not_mem_nil, hfirst⟩
      · obtain ⟨before, input, after, rfl, hbefore, hinput⟩ := ih hrest
        exact ⟨first :: before, input, after, rfl, List.forall_mem_cons.mpr ⟨hfirst, hbefore⟩,
          hinput⟩
  · rintro ⟨before, input, after, rfl, hbefore, hinput⟩
    rw [List.forM_eq_forM, List.forM_append, ← List.forM_eq_forM, forM_eq_ok.mpr hbefore]
    exact bind_eq_error.mpr (Or.inr ⟨(), rfl, bind_eq_error.mpr (Or.inl hinput)⟩)

/-- Every result in a list comes from an input. -/
theorem exists_mem_left_of_forall₂ {relation : α → β → Prop} {first : List α} {second : List β}
    (h : List.Forall₂ relation first second) {b : β} (hmem : b ∈ second) :
    ∃ a ∈ first, relation a b := by
  induction h with
  | nil => exact absurd hmem List.not_mem_nil
  | cons hrelated _ ih =>
    rcases List.mem_cons.mp hmem with rfl | hmem
    · exact ⟨_, List.mem_cons_self .., hrelated⟩
    · obtain ⟨a, ha, hrelated⟩ := ih hmem
      exact ⟨a, List.mem_cons_of_mem _ ha, hrelated⟩

/-- Related lists have members of related kinds: it does not matter in which of the two one looks.
-/
theorem exists_mem_congr_of_forall₂ {relation : α → β → Prop} {p : α → Prop} {q : β → Prop}
    {first : List α} {second : List β} (h : List.Forall₂ relation first second)
    (hpq : ∀ a b, relation a b → (p a ↔ q b)) : (∃ a ∈ first, p a) ↔ ∃ b ∈ second, q b := by
  induction h with
  | nil => simp
  | cons hrelated _ ih =>
    simp only [List.mem_cons, or_and_right, exists_or, exists_eq_left, hpq _ _ hrelated, ih]

/-- Functions that agree on related members give the same joined list. -/
theorem flatMap_eq_of_forall₂ {γ : Type} {relation : α → β → Prop} {first : List α}
    {second : List β} {f : α → List γ} {g : β → List γ} (h : List.Forall₂ relation first second)
    (hfg : ∀ a b, relation a b → f a = g b) : first.flatMap f = second.flatMap g := by
  induction h with
  | nil => rfl
  | cons hrelated _ ih => rw [List.flatMap_cons, List.flatMap_cons, hfg _ _ hrelated, ih]

/-- Every result of a traversal is that of one of the inputs. -/
theorem exists_input_of_mapM {f : α → Except ε β} {inputs : List α} {results : List β}
    (h : inputs.mapM f = .ok results) {result : β} (hresult : result ∈ results) :
    ∃ input ∈ inputs, f input = .ok result :=
  exists_mem_left_of_forall₂ (mapM_eq_ok.mp h) hresult

/-- Every input of a successful traversal has a result among the others. -/
theorem exists_result_of_mapM {f : α → Except ε β} {inputs : List α} {results : List β}
    (h : inputs.mapM f = .ok results) {input : α} (hinput : input ∈ inputs) :
    ∃ result ∈ results, f input = .ok result :=
  exists_mem_left_of_forall₂ (mapM_eq_ok.mp h).flip hinput

end Sift
