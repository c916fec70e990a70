import Thermometer.Publisher

namespace Thermometer.Publisher

open Thermometer.Transition

variable {T X H : Type}

def Op.ofPublish : Op T X H → Bool
  | .send | .unlock => true
  | _ => false

def QueueCall.sent : QueueCall H → Option (QueueHandle H)
  | .send q => some q
  | _ => none

def State.sends (s : State T X H) : List (QueueHandle H) := s.calls.filterMap QueueCall.sent

def State.rank (s : State T X H) : Nat :=
  match s.publishing with
  | some (_, qs) => qs.length + 1
  | none => 0

structure Publishing (all : List (QueueHandle H)) (s : State T X H) : Prop where
  locked : s.publishing.isSome
  sends : ∀ data qs, s.publishing = some (data, qs) → s.sends ++ qs = all

theorem Publishing.rank_pos {all : List (QueueHandle H)} {s : State T X H}
    (hs : Publishing all s) : 0 < s.rank := by
  obtain ⟨⟨data, qs⟩, hm⟩ := Option.isSome_iff_exists.mp hs.locked
  simp [State.rank, hm]

variable [DecidableEq X] [DecidableEq H] {depth : Nat} {s t : State T X H} {a : Op T X H}

/-- The mutex keeps all other steps away from the list and the loop. -/
theorem Publishing.step {all : List (QueueHandle H)} (hs : Publishing all s)
    (h : s.step depth a = some t) :
    (t.publishing.isSome → t.rank + (if a.ofPublish then 1 else 0) ≤ s.rank ∧ Publishing all t) ∧
    (t.publishing = none → t.sends = all) := by
  obtain ⟨hlocked, hsends⟩ := hs
  obtain ⟨⟨data, qs⟩, hm⟩ := Option.isSome_iff_exists.mp hlocked
  have hall := hsends data qs hm
  have hframe : ∀ t : State T X H, t.publishing = s.publishing → t.sends = s.sends →
      (t.publishing.isSome → t.rank + 0 ≤ s.rank ∧ Publishing all t) ∧
      (t.publishing = none → t.sends = all) := by
    intro t hpub hsame
    have hrank : t.rank = s.rank := by simp only [State.rank, hpub]
    refine ⟨fun hsome => ⟨hrank.le, hsome, fun data qs hq => ?_⟩, fun hnone => ?_⟩
    · rw [hsame]
      exact hsends data qs (hpub ▸ hq)
    · simp [← hpub, hnone] at hlocked
  cases State.steps_of_step h with
  | create | wait =>
    exact hframe _ rfl (by simp [State.sends, List.filterMap_append, QueueCall.sent])
  | moveConstruct | selfAssign | moveAssign | discard => exact hframe _ rfl rfl
  | insert x q hfree | destroy x k hfree | lock data' hfree => simp [hfree] at hlocked
  | send data' q rest hloop =>
    obtain ⟨rfl, rfl⟩ : data = data' ∧ qs = q :: rest := by simpa [hm] using hloop
    refine ⟨fun hsome => ⟨by simp [State.rank, hm, Op.ofPublish], hsome, fun data'' qs' hq => ?_⟩,
      by simp⟩
    obtain ⟨-, rfl⟩ : data = data'' ∧ rest = qs' := by simpa using hq
    rw [← hall]
    simp [State.sends, List.filterMap_append, QueueCall.sent]
  | unlock data' hloop =>
    obtain ⟨-, rfl⟩ : data = data' ∧ qs = [] := by simpa [hm] using hloop
    refine ⟨by simp, fun _ => ?_⟩
    rw [List.append_nil] at hall
    exact hall

/-- A call of `publish` sends once to each handle that is in the list when it takes
the mutex, and to no other, and ends after as many steps of its own as it has
sends, and one more. Neither a full queue nor another task holds it up. -/
theorem publish_sends {data : T} {s' : State T X H} {as : List (Op T X H)}
    (hlock : s.step depth (.lock data) = some s') (h : run (State.step depth) s' as = some t) :
    (t.publishing.isSome → ∃ a, a.ofPublish = true ∧ (t.step depth a).isSome) ∧
    (s.queues.length + 1 ≤ as.countP Op.ofPublish →
      ∃ bs cs u, as = bs ++ cs ∧ bs.countP Op.ofPublish ≤ s.queues.length + 1 ∧
        run (State.step depth) s' bs = some u ∧ u.publishing = none ∧
        u.sends = s.sends ++ s.queues) := by
  constructor
  · intro hlocked
    obtain ⟨⟨data', qs⟩, hm⟩ := Option.isSome_iff_exists.mp hlocked
    cases qs with
    | nil => exact ⟨.unlock, rfl, by simp [State.step, hm]⟩
    | cons q qs => exact ⟨.send, rfl, by simp [State.step, hm]⟩
  · intro hown
    obtain ⟨hpublishing, hrank⟩ : Publishing (s.sends ++ s.queues) s' ∧
        s'.rank = s.queues.length + 1 := by
      cases State.steps_of_step hlock with
      | lock data hfree =>
        refine ⟨⟨rfl, fun data' qs hq => ?_⟩, rfl⟩
        obtain ⟨-, rfl⟩ : data = data' ∧ s.queues = qs := by simpa using hq
        rfl
    obtain ⟨bs, a, cs, u, v, rfl, hlt, hbs, hu, hv, hdone⟩ :=
      ends_of_rank (Publishing (s.sends ++ s.queues)) State.rank Op.ofPublish (fun _ => True)
        (fun _ hs => hs.rank_pos) (fun _ _ _ _ hs ht hbusy => ((hs.step ht).1 hbusy.locked).1)
        (fun _ _ => trivial) hpublishing h (hrank ▸ hown)
    have hnone : v.publishing = none := by
      by_contra hsome
      exact hdone ((hu.step hv).1 (Option.isSome_iff_ne_none.mpr hsome)).2
    refine ⟨bs ++ [a], cs, v, by simp, ?_, run_append hbs (run_singleton hv), hnone,
      (hu.step hv).2 hnone⟩
    rw [List.countP_append, List.countP_singleton]
    split <;> omega

def twoSubscribers : List (Op Char Bool Nat) :=
  [.create false (some 1), .insert false, .create true (some 2), .insert true, .lock '0', .send,
    .send, .unlock, .wait true]

/-- The first subscriber has not taken the item before. -/
def slowSubscriber : List (Op Char Bool Nat) :=
  [.send, .wait false, .send, .wait true, .unlock, .destroy false]

theorem publish_sends_slowSubscriber :
    ∃ s s' : State Char Bool Nat, run (State.step 1) .init twoSubscribers = some s ∧
      s.step 1 (.lock '1') = some s' ∧
      ∃ bs cs u, slowSubscriber = bs ++ cs ∧ bs.countP Op.ofPublish ≤ 3 ∧
        run (State.step 1) s' bs = some u ∧ u.publishing = none ∧
        u.sends = s.sends ++ [some 1, some 2] := by
  obtain ⟨s, s', t, hs, hqueues, hlock, ht⟩ : ∃ s s' t : State Char Bool Nat,
      run (State.step 1) .init twoSubscribers = some s ∧ s.queues = [some 1, some 2] ∧
      s.step 1 (.lock '1') = some s' ∧ run (State.step 1) s' slowSubscriber = some t :=
    ⟨_, _, _, rfl, rfl, rfl, rfl⟩
  have hcount : s.queues.length + 1 ≤ slowSubscriber.countP Op.ofPublish := by
    rw [hqueues]
    decide
  obtain ⟨bs, cs, u, hsplit, hle, hbs, hnone, hsends⟩ := (publish_sends hlock ht).2 hcount
  rw [hqueues] at hle hsends
  exact ⟨s, s', hs, hlock, bs, cs, u, hsplit, hle, hbs, hnone, hsends⟩

end Thermometer.Publisher
