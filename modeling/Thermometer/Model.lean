import Thermometer.SequenceQuiet
import Thermometer.QueueRegistry

namespace Thermometer.Model

open Thermometer.Transition

variable {ι R H : Type} {V : ι → Type}

/-- Where the task in `Model::write` is. The copy of the readings is the write
of the sequence lock, and `publish('1')` follows it. -/
inductive Writer where
  | idle | write | publish | sending
  deriving DecidableEq

/-- Where a subscriber task is: its loop is `wait(); read();`. -/
inductive Subscriber where
  | outside | subscribing | waiting | reading
  deriving DecidableEq

/-- The model with its writer and its subscriber tasks. The last two fields
count the publish calls that took the mutex, in all and at each insertion. -/
structure State (V : ι → Type) (R H : Type) where
  lock : SequenceLock.System V R
  publisher : Publisher.State Char R H
  writer : Writer
  subscribers : R → Subscriber
  published : Nat
  subscribedAt : R → Nat

inductive Label (ι R H : Type) where
  | write (a : SequenceLock.WriteAccess ι)
  | lock | send | unlock
  | create (r : R) (h : H)
  | insert (r : R)
  | wait (r : R)
  | read (r : R) (a : SequenceLock.ReadAccess ι)

def State.init (version : Nat → ∀ i, V i) : State V R H where
  lock := .init version
  publisher := .init
  writer := .idle
  subscribers := fun _ => .outside
  published := 0
  subscribedAt := fun _ => 0

variable [DecidableEq ι] [Fintype ι] [DecidableEq R] [DecidableEq H]

def finished : SequenceLock.Writer V → Bool
  | .idle => true
  | _ => false

def afterRead : SequenceLock.ReadAccess ι → Subscriber
  | .ret => .waiting
  | _ => .reading

/-- One step of one task. The queues have depth 1. -/
def State.step (version : Nat → ∀ i, V i) (s : State V R H) :
    Label ι R H → Option (State V R H)
  | .write a =>
      if s.writer = .idle ∨ s.writer = .write then
        (s.lock.step version (.writer a)).map fun l =>
          { s with lock := l, writer := if finished l.writer then .publish else .write }
      else none
  | .lock =>
      if s.writer = .publish then
        (s.publisher.step 1 (.lock '1')).map fun p =>
          { s with publisher := p, writer := .sending, published := s.published + 1 }
      else none
  | .send =>
      if s.writer = .sending then
        (s.publisher.step 1 .send).map fun p => { s with publisher := p }
      else none
  | .unlock =>
      if s.writer = .sending then
        (s.publisher.step 1 .unlock).map fun p => { s with publisher := p, writer := .idle }
      else none
  | .create r h =>
      if s.subscribers r = .outside then
        (s.publisher.step 1 (.create r (some h))).map fun p =>
          { s with
            publisher := p
            subscribers := Function.update s.subscribers r .subscribing }
      else none
  | .insert r =>
      if s.subscribers r = .subscribing then
        (s.publisher.step 1 (.insert r)).map fun p =>
          { s with
            publisher := p
            subscribers := Function.update s.subscribers r .waiting
            subscribedAt := Function.update s.subscribedAt r s.published }
      else none
  | .wait r =>
      if s.subscribers r = .waiting then
        (s.publisher.step 1 (.wait r)).map fun p =>
          { s with
            publisher := p
            subscribers := Function.update s.subscribers r .reading }
      else none
  | .read _ (.call false) => none
  | .read r a =>
      if s.subscribers r = .reading then
        (s.lock.step version (.reader r a)).map fun l =>
          { s with
            lock := l
            subscribers := Function.update s.subscribers r (afterRead a) }
      else none

inductive State.Steps (version : Nat → ∀ i, V i) (s : State V R H) :
    Label ι R H → State V R H → Prop where
  | write (a l) (hp : s.writer = .idle ∨ s.writer = .write)
      (h : s.lock.step version (.writer a) = some l) : Steps version s (.write a)
      { s with lock := l, writer := if finished l.writer then .publish else .write }
  | lock (p) (hp : s.writer = .publish) (h : s.publisher.step 1 (.lock '1') = some p) :
      Steps version s .lock
      { s with publisher := p, writer := .sending, published := s.published + 1 }
  | send (p) (hp : s.writer = .sending) (h : s.publisher.step 1 .send = some p) :
      Steps version s .send { s with publisher := p }
  | unlock (p) (hp : s.writer = .sending) (h : s.publisher.step 1 .unlock = some p) :
      Steps version s .unlock { s with publisher := p, writer := .idle }
  | create (r k p) (hp : s.subscribers r = .outside)
      (h : s.publisher.step 1 (.create r (some k)) = some p) : Steps version s (.create r k)
      { s with
        publisher := p
        subscribers := Function.update s.subscribers r .subscribing }
  | insert (r p) (hp : s.subscribers r = .subscribing)
      (h : s.publisher.step 1 (.insert r) = some p) : Steps version s (.insert r)
      { s with
        publisher := p
        subscribers := Function.update s.subscribers r .waiting
        subscribedAt := Function.update s.subscribedAt r s.published }
  | wait (r p) (hp : s.subscribers r = .waiting)
      (h : s.publisher.step 1 (.wait r) = some p) : Steps version s (.wait r)
      { s with
        publisher := p
        subscribers := Function.update s.subscribers r .reading }
  | read (r a l) (hp : s.subscribers r = .reading)
      (h : s.lock.step version (.reader r a) = some l) : Steps version s (.read r a)
      { s with
        lock := l
        subscribers := Function.update s.subscribers r (afterRead a) }

theorem State.steps_of_step {version : Nat → ∀ i, V i} {s t : State V R H} {a : Label ι R H}
    (h : s.step version a = some t) : s.Steps version a t := by
  cases a with
  | read r a =>
    have hread : s.subscribers r = .reading ∧ ∃ l, s.lock.step version (.reader r a) = some l ∧
        { s with lock := l, subscribers := Function.update s.subscribers r (afterRead a) } = t := by
      cases a with
      | call loop =>
        cases loop with
        | false => simp [State.step] at h
        | true =>
          simpa [State.step, Option.ite_none_right_eq_some, Option.map_eq_some_iff] using h
      | _ => simpa [State.step, Option.ite_none_right_eq_some, Option.map_eq_some_iff] using h
    obtain ⟨hp, l, hl, rfl⟩ := hread
    exact .read r a l hp hl
  | write a =>
    simp only [State.step, Option.ite_none_right_eq_some, Option.map_eq_some_iff] at h
    obtain ⟨hp, l, hl, rfl⟩ := h
    exact .write a l hp hl
  | lock =>
    simp only [State.step, Option.ite_none_right_eq_some, Option.map_eq_some_iff] at h
    obtain ⟨hp, p, hq, rfl⟩ := h
    exact .lock p hp hq
  | send =>
    simp only [State.step, Option.ite_none_right_eq_some, Option.map_eq_some_iff] at h
    obtain ⟨hp, p, hq, rfl⟩ := h
    exact .send p hp hq
  | unlock =>
    simp only [State.step, Option.ite_none_right_eq_some, Option.map_eq_some_iff] at h
    obtain ⟨hp, p, hq, rfl⟩ := h
    exact .unlock p hp hq
  | create r k =>
    simp only [State.step, Option.ite_none_right_eq_some, Option.map_eq_some_iff] at h
    obtain ⟨hp, p, hq, rfl⟩ := h
    exact .create r k p hp hq
  | insert r =>
    simp only [State.step, Option.ite_none_right_eq_some, Option.map_eq_some_iff] at h
    obtain ⟨hp, p, hq, rfl⟩ := h
    exact .insert r p hp hq
  | wait r =>
    simp only [State.step, Option.ite_none_right_eq_some, Option.map_eq_some_iff] at h
    obtain ⟨hp, p, hq, rfl⟩ := h
    exact .wait r p hp hq

/-- The lock of the model goes through a run of the sequence lock. -/
theorem run_lock {version : Nat → ∀ i, V i} {s : State V R H} {as : List (Label ι R H)}
    (h : run (State.step version) (State.init version) as = some s) :
    ∃ bs, run (SequenceLock.System.step version) (.init version) bs = some s.lock := by
  refine run_project State.lock (fun s a t ht => ?_) h
  cases State.steps_of_step ht with
  | write a l hp hl => exact .inr ⟨.writer a, hl⟩
  | read r a l hp hl => exact .inr ⟨.reader r a, hl⟩
  | _ => exact .inl rfl

end Thermometer.Model
