import Tether.Wire.Reader

namespace Tether.Wire.Reader

variable {α β : Type}

theorem bind_done (reader : Reader α) : reader.bind .done = reader := by
  induction reader with
  | done value => rfl
  | fail cause => rfl
  | take count what next ih => exact congrArg (take count what) (funext ih)

theorem run_bind_eq_ok {reader : Reader α} {rest : α → Reader β} {input left : Bytes} {value : β} :
    (reader.bind rest).run input = (.ok value, left) ↔
      ∃ first between, reader.run input = (.ok first, between) ∧
        (rest first).run between = (.ok value, left) := by
  rw [run_bind]
  constructor
  · intro ran
    split at ran
    · rename_i first between read
      exact ⟨first, between, read, ran⟩
    · cases ran
  · rintro ⟨first, between, read, ran⟩
    rw [read]
    exact ran

theorem run_done_eq_ok {input left : Bytes} {first value : α} :
    (done first).run input = (.ok value, left) ↔ first = value ∧ input = left := by
  simp [run]

theorem run_fail_ne_ok {cause : Malformed} {input left : Bytes} {value : α} :
    (fail cause : Reader α).run input ≠ (.ok value, left) := by
  simp [run]

theorem run_bytes_eq_ok {count : Nat} {what : String} {input left : Bytes}
    {value : FixedBytes count} :
    (bytes count what).run input = (.ok value, left) ↔ input = value.val ++ left := by
  obtain ⟨taken, length⟩ := value
  simp only [bytes, run]
  constructor
  · intro ran
    split at ran
    · cases ran
    · cases ran
      exact (List.take_append_drop count input).symm
  · rintro rfl
    subst length
    have enough : ¬(taken ++ left).length < taken.length := by
      rw [List.length_append]
      omega
    rw [dif_neg enough]
    simp

theorem run_number_eq_ok {width : Nat} {what : String} {input left : Bytes} {value : Nat} :
    (number width what).run input = (.ok value, left) ↔
      ∃ digits : FixedBytes width, input = digits.val ++ left ∧ Bytes.toNatBE digits.val = value := by
  have split : number width what =
      (bytes width what).bind fun digits => .done (Bytes.toNatBE digits.val) := rfl
  simp only [split, run_bind_eq_ok, run_bytes_eq_ok, run_done_eq_ok]
  constructor
  · rintro ⟨digits, _, front, same, rfl⟩
    exact ⟨digits, front, same⟩
  · rintro ⟨digits, front, same⟩
    exact ⟨digits, left, front, same, rfl⟩

theorem runAll_eq_ok {reader : Reader α} {input : Bytes} {value : α} :
    reader.runAll input = .ok value ↔ reader.run input = (.ok value, []) := by
  unfold runAll
  split
  · rename_i ran
    simp [ran]
  · rename_i ran
    simp [ran]
  · rename_i more ran
    simpa [ran] using fun _ => more

theorem runAll_bind_done (reader : Reader α) (into : α → β) (input : Bytes) :
    (reader.bind fun value => .done (into value)).runAll input =
      (reader.runAll input).map into := by
  rw [runAll, runAll, run_bind]
  rcases reader.run input with ⟨cause | value, left⟩
  · rfl
  · cases left <;> rfl

/-- What stands behind the bytes that are read is left as it is. -/
theorem run_append {reader : Reader α} {input left : Bytes} {value : α}
    (ran : reader.run input = (.ok value, left)) (more : Bytes) :
    reader.run (input ++ more) = (.ok value, left ++ more) := by
  induction reader generalizing input with
  | done other =>
    cases ran
    rfl
  | fail cause => cases ran
  | take count what next ih =>
    rw [run] at ran
    split at ran
    · cases ran
    · rename_i enough
      have long : ¬(input ++ more).length < count := by
        rw [List.length_append]
        omega
      have taken : (input ++ more).take count = input.take count :=
        List.take_append_of_le_length (Nat.le_of_not_lt enough)
      have behind : (input ++ more).drop count = input.drop count ++ more :=
        List.drop_append_of_le_length (Nat.le_of_not_lt enough)
      rw [run, dif_neg long]
      simp only [taken, behind]
      exact ih _ ran

/-- A read that needs its whole input finds nothing wrong with the front of it, but that it is too
short. -/
theorem run_front {reader : Reader α} {front missing : Bytes} {value : α}
    (ran : reader.run (front ++ missing) = (.ok value, [])) (cut : missing ≠ []) :
    ∃ what left, reader.run front = (.error (.truncated what), left) := by
  induction reader generalizing front with
  | done other =>
    obtain ⟨-, whole⟩ := Prod.mk.inj ran
    exact absurd (List.append_eq_nil_iff.mp whole).2 cut
  | fail cause => cases ran
  | take count what next ih =>
    rw [run] at ran ⊢
    split at ran
    · cases ran
    · by_cases short : front.length < count
      · exact ⟨what, front, dif_pos short⟩
      · -- The bytes of this take are there, so the read goes on with the same bytes.
        have taken : (front ++ missing).take count = front.take count :=
          List.take_append_of_le_length (Nat.le_of_not_lt short)
        have behind : (front ++ missing).drop count = front.drop count ++ missing :=
          List.drop_append_of_le_length (Nat.le_of_not_lt short)
        simp only [taken, behind] at ran
        rw [dif_neg short]
        exact ih _ ran

theorem runAll_append {reader : Reader α} {input more : Bytes} {value : α}
    (read : reader.runAll input = .ok value) (extended : more ≠ []) :
    reader.runAll (input ++ more) = .error (.trailing more.length) := by
  rw [runAll, run_append (runAll_eq_ok.mp read) more, List.nil_append]
  cases more with
  | nil => exact absurd rfl extended
  | cons byte more => rfl

theorem runAll_front {reader : Reader α} {front missing : Bytes} {value : α}
    (read : reader.runAll (front ++ missing) = .ok value) (cut : missing ≠ []) :
    ∃ what, reader.runAll front = .error (.truncated what) := by
  obtain ⟨what, left, ran⟩ := run_front (runAll_eq_ok.mp read) cut
  exact ⟨what, by rw [runAll, ran]⟩

end Tether.Wire.Reader
