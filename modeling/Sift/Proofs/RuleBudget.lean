import Sift.Proofs.RuleGrammar

/-!
# The budget of a reader

A reader may be used for many lists, and all of them are counted together, rejected ones included.
So the limit on the number of rules is a budget for the whole life of a reader: what it accepts in
all is within the limit, and once the budget is spent, each further list costs at most one step.
-/

namespace Sift

/-- What a reader is asked to read. -/
inductive Submission
  /-- A value. -/
  | value (value : Json)
  /-- A text, with what makes a value of it. -/
  | text (decode : Json.Decoder) (text : String)

/-- The number of rules that an answer gives. -/
def acceptedNodes : Except Rejection (List Rule) → Nat
  | .ok rules => nodesOf rules
  | .error _ => 0

def acceptedNodesOf : List (Except Rejection (List Rule)) → Nat
  | [] => 0
  | answer :: rest => acceptedNodes answer + acceptedNodesOf rest

namespace RuleReader

/-- Reads what is submitted. -/
def answer (reader : RuleReader) : Submission → Reading (List Rule)
  | .value value => reader.read value
  | .text decode text => reader.readTextWith decode text

/-- The answers to submissions one after the other from a count on, and the count at the end. -/
def answers (reader : RuleReader) :
    List Submission → (count : Nat) → List (Except Rejection (List Rule)) × Nat
  | [], count => ([], count)
  | submission :: rest, count =>
    let first := (reader.answer submission).run.run count
    let others := reader.answers rest first.2
    (first.1 :: others.1, others.2)

/-! ## One submission -/

/-- What an answer does to the count. -/
structure Charges (reader : RuleReader) (count : Nat)
    (answered : Except Rejection (List Rule) × Nat) : Prop where
  le : count ≤ answered.2
  le_limit : answered.2 ≤ max count reader.limits.rules + 1
  eq_of_ok : ∀ rules, answered.1 = .ok rules → answered.2 = count + nodesOf rules
  fits : acceptedNodes answered.1 = 0 ∨ answered.2 ≤ reader.limits.rules

variable {reader : RuleReader} {count : Nat}

open Reading (Reads)

/-- A reading that is known to count nodes charges them. -/
theorem charges_of_reads {denotes : List Rule → Prop} {reading : Reading (List Rule)}
    (h : Reads reader.limits.rules denotes nodesOf reading) (count : Nat) :
    reader.Charges count (reading.run.run count) := by
  obtain ⟨fault, counted, hrun, hle, hbound⟩ | ⟨rules, hrun, -, hfits⟩ := h.run_cases count
  · rw [hrun]
    exact ⟨hle, hbound, nofun, .inl rfl⟩
  · rw [hrun]
    have hbound : count + nodesOf rules ≤ max count reader.limits.rules + 1 := by omega
    refine ⟨Nat.le_add_right _ _, hbound, fun other hother => ?_, hfits⟩
    cases hother
    rfl

/-- Every submission is charged to the budget. -/
theorem charges_answer (reader : RuleReader) (submission : Submission) (count : Nat) :
    reader.Charges count ((reader.answer submission).run.run count) := by
  cases submission with
  | value value => exact charges_of_reads (reader.reads_read value) count
  | text decode text => exact charges_of_reads (reader.reads_readTextWith decode text) count

/-- What was accepted is never more than what is charged. -/
theorem Charges.add_accepted_le {answered : Except Rejection (List Rule) × Nat}
    (h : reader.Charges count answered) : count + acceptedNodes answered.1 ≤ answered.2 := by
  obtain ⟨outcome, counted⟩ := answered
  cases outcome with
  | error rejection => exact h.le
  | ok rules => exact Nat.le_of_eq (h.eq_of_ok rules rfl).symm

/-! ## A whole life -/

/-- What the answers to a number of submissions do to the count. -/
structure ChargesAll (reader : RuleReader) (count submitted : Nat)
    (answered : List (Except Rejection (List Rule)) × Nat) : Prop where
  le : count ≤ answered.2
  le_limit : answered.2 ≤ max count reader.limits.rules + submitted
  fits : acceptedNodesOf answered.1 = 0 ∨
    count + acceptedNodesOf answered.1 ≤ reader.limits.rules

/-- Submissions are charged one after the other. -/
theorem ChargesAll.cons {first : Except Rejection (List Rule) × Nat} {submitted : Nat}
    {others : List (Except Rejection (List Rule)) × Nat} (hfirst : reader.Charges count first)
    (hothers : reader.ChargesAll first.2 submitted others) :
    reader.ChargesAll count (submitted + 1) (first.1 :: others.1, others.2) := by
  have hle := hfirst.le
  have hle_others := hothers.le
  have hlimit := hfirst.le_limit
  have hlimit_others := hothers.le_limit
  have haccepted := hfirst.add_accepted_le
  refine ⟨Nat.le_trans hle hle_others, ?_, ?_⟩
  · dsimp only
    omega
  · dsimp only
    rw [acceptedNodesOf]
    -- what the later submissions give fits behind the first one, whose count was kept
    rcases hothers.fits with hnone | hfits
    · rw [hnone, Nat.add_zero]
      rcases hfirst.fits with hzero | hfits
      · exact .inl hzero
      · exact .inr (by omega)
    · exact .inr (by omega)

theorem chargesAll_answers (reader : RuleReader) (submissions : List Submission) (count : Nat) :
    reader.ChargesAll count submissions.length (reader.answers submissions count) := by
  induction submissions generalizing count with
  | nil => exact ⟨Nat.le_refl count, Nat.le_max_left _ _, .inl rfl⟩
  | cons submission rest ih => exact .cons (reader.charges_answer submission count) (ih _)

/-- No submission takes anything back, one that is accepted is charged for the rules in its answer,
and none goes further than one rule beyond the limit or beyond what was counted before. So all the
rules that a reader gives in its life are within the limit. -/
theorem budget_of_answers (reader : RuleReader) :
    (∀ (submission : Submission) (count : Nat),
      count ≤ ((reader.answer submission).run.run count).2 ∧
      ((reader.answer submission).run.run count).2 ≤ max count reader.limits.rules + 1 ∧
      ∀ rules, ((reader.answer submission).run.run count).1 = .ok rules →
        ((reader.answer submission).run.run count).2 = count + nodesOf rules) ∧
    ∀ submissions : List Submission,
      acceptedNodesOf (reader.answers submissions 0).1 ≤ reader.limits.rules ∧
      (reader.answers submissions 0).2 ≤ reader.limits.rules + submissions.length := by
  refine ⟨fun submission count => ?_, fun submissions => ?_⟩
  · have hcharges := reader.charges_answer submission count
    exact ⟨hcharges.le, hcharges.le_limit, hcharges.eq_of_ok⟩
  · have hcharges := reader.chargesAll_answers submissions 0
    have hlimit := hcharges.le_limit
    have hfits := hcharges.fits
    exact ⟨by omega, by omega⟩

/-! ### Six lists for one reader -/

/-- Two rules; three, the last of which is none; a text with one; two, then one, beyond the limit;
and none at all. -/
def sixSubmissions : List Submission :=
  [.value (.array [.null, .object []]),
    .value (.array [.object [("rules", .array [.null, .object [("column", .string "age")]])]]),
    .text (Json.read? .value) "[null]", .value (.array [.null, .null]), .value (.array [.null]),
    .value (.array [])]

/-- The rejected lists are charged, too, but only for the rules up to the one at fault. -/
theorem budget_of_answers_six :
    let reader : RuleReader := ⟨[], ⟨6, 1, 100⟩⟩
    (reader.answers sixSubmissions 0).1.map acceptedNodes = [2, 0, 1, 0, 0, 0] ∧
    (reader.answers sixSubmissions 0).2 = 8 ∧
    acceptedNodesOf (reader.answers sixSubmissions 0).1 ≤ reader.limits.rules ∧
    (reader.answers sixSubmissions 0).2 ≤ reader.limits.rules + 6 := by
  intro reader
  have hbudget := (reader.budget_of_answers).2 sixSubmissions
  exact ⟨rfl, rfl, hbudget.1, hbudget.2⟩

end RuleReader

end Sift
