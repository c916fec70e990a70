import Mathlib.Data.List.Basic

namespace Thermometer.Polling

variable {σ α ε : Type*}

/-- A loop that works on one answer after the other until an answer is the last, or
an exception leaves the loop. There is no result as long as it goes on. -/
def poll (body : σ → α → Except ε σ) (last : α → Bool) (next : Nat → α) :
    Nat → Nat → σ → Option (Except ε σ)
  | 0, _, _ => none
  | fuel + 1, k, s =>
      match body s (next k) with
      | .error e => some (.error e)
      | .ok t => if last (next k) then some (.ok t) else poll body last next fuel (k + 1) t

def answers (next : Nat → α) (k n : Nat) : List α := (List.range' k n).map next

theorem answers_succ (next : Nat → α) (k n : Nat) :
    answers next k (n + 1) = next k :: answers next (k + 1) n := by
  rw [answers, List.range'_succ, List.map_cons]
  rfl

variable {body : σ → α → Except ε σ} {last : α → Bool} {next : Nat → α}

theorem poll_eq_none_iff {fuel k : Nat} {s : σ} :
    poll body last next fuel k s = none ↔
      (∀ i < fuel, last (next (k + i)) = false) ∧
        ∃ t, (answers next k fuel).foldlM body s = .ok t := by
  induction fuel generalizing k s with
  | zero => exact ⟨fun _ => ⟨by simp, s, rfl⟩, fun _ => rfl⟩
  | succ fuel ih =>
    rw [answers_succ, List.foldlM_cons, poll]
    cases hbody : body s (next k) with
    | error e =>
      constructor
      · intro h
        cases h
      · rintro ⟨-, t, h⟩
        cases h
    | ok t =>
      cases hlast : last (next k) with
      | true =>
        constructor
        · intro h
          cases h
        · rintro ⟨hbefore, -⟩
          exact absurd (hbefore 0 (Nat.succ_pos fuel)) (by simp [hlast])
      | false =>
        refine (ih (k := k + 1) (s := t)).trans (and_congr_left fun _ => ?_)
        constructor
        · rintro hrest (_ | i) hi
          · exact hlast
          · rw [← Nat.add_assoc, Nat.add_right_comm]
            exact hrest i (Nat.lt_of_succ_lt_succ hi)
        · intro hall i hi
          have h := hall (i + 1) (Nat.succ_lt_succ hi)
          rwa [← Nat.add_assoc, Nat.add_right_comm] at h

theorem poll_of_last {n fuel k : Nat} {s : σ} (hbefore : ∀ i < n, last (next (k + i)) = false)
    (hlast : last (next (k + n)) = true) (hfuel : n < fuel) :
    poll body last next fuel k s = some ((answers next k (n + 1)).foldlM body s) := by
  induction n generalizing fuel k s with
  | zero =>
    obtain ⟨fuel, rfl⟩ := Nat.exists_eq_succ_of_ne_zero (Nat.ne_of_gt hfuel)
    rw [answers_succ, List.foldlM_cons, poll]
    cases body s (next k) with
    | error e => rfl
    | ok t => exact if_pos hlast
  | succ n ih =>
    obtain ⟨fuel, rfl⟩ := Nat.exists_eq_succ_of_ne_zero (Nat.ne_of_gt (Nat.zero_lt_of_lt hfuel))
    rw [answers_succ, List.foldlM_cons, poll]
    cases body s (next k) with
    | error e => rfl
    | ok t =>
      have hgo : last (next k) = false := hbefore 0 (Nat.succ_pos n)
      refine (if_neg (by simp [hgo])).trans (ih (fun i hi => ?_) ?_ (Nat.lt_of_succ_lt_succ hfuel))
      · have h := hbefore (i + 1) (Nat.succ_lt_succ hi)
        rwa [← Nat.add_assoc, Nat.add_right_comm] at h
      · rwa [← Nat.add_assoc, Nat.add_right_comm] at hlast

/-- The loop ends with the last answer or with an exception, and in no other way. -/
theorem ends_iff {k : Nat} {s : σ} :
    (∃ fuel, poll body last next fuel k s ≠ none) ↔
      (∃ i, last (next (k + i)) = true) ∨
        ∃ n e, (answers next k n).foldlM body s = .error e := by
  constructor
  · rintro ⟨fuel, hends⟩
    by_contra hgo
    obtain ⟨hnever, hquiet⟩ := not_or.mp hgo
    apply hends
    rw [poll_eq_none_iff]
    refine ⟨fun i _ => Bool.eq_false_iff.mpr fun h => hnever ⟨i, h⟩, ?_⟩
    cases hfold : (answers next k fuel).foldlM body s with
    | error e => exact (hquiet ⟨fuel, e, hfold⟩).elim
    | ok t => exact ⟨t, rfl⟩
  · rintro (⟨i, hi⟩ | ⟨n, e, he⟩)
    · refine ⟨i + 1, fun hnone => ?_⟩
      have h := (poll_eq_none_iff.mp hnone).1 i (Nat.lt_succ_self i)
      rw [hi] at h
      cases h
    · refine ⟨n, fun hnone => ?_⟩
      obtain ⟨t, ht⟩ := (poll_eq_none_iff.mp hnone).2
      rw [he] at ht
      cases ht

end Thermometer.Polling
