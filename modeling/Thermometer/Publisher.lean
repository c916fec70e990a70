import Thermometer.Transition
import Thermometer.Ownership
import Mathlib.Data.List.Nodup
import Mathlib.Data.Set.Insert

namespace Thermometer.Publisher

variable {T X H : Type}

/-- `QueueHandle_t`, with `none` for the null handle. -/
abbrev QueueHandle (H : Type) := Option H

/-- The queues that exist in the kernel, with their contents. -/
abbrev Kernel (T H : Type) := H → Option (List T)

/-- A `Subscriber` object. The flag tells whether the weak pointer `_parent`
still refers to the publisher. -/
structure Subscriber (H : Type) where
  parent : Bool
  queue : QueueHandle H

inductive QueueCall (H : Type) where
  | create (q : QueueHandle H)
  | send (q : QueueHandle H)
  | receive (q : QueueHandle H)
  | delete (q : QueueHandle H)
  deriving DecidableEq

/-- The publisher, its subscribers and the kernel. `publishing` is the holder of
the mutex inside `publish`, with the handles its loop has not reached; `pending`
holds the `subscribe` calls between queue creation and insertion. -/
structure State (T X H : Type) where
  queues : List (QueueHandle H)
  publishing : Option (T × List (QueueHandle H))
  kernel : Kernel T H
  pending : X → Option (QueueHandle H)
  subscribers : X → Option (Subscriber H)
  received : X → List T
  calls : List (QueueCall H)

/-- `X` names the places where Subscriber objects live. -/
inductive Op (T X H : Type) where
  | create (x : X) (q : QueueHandle H)
  | insert (x : X)
  | moveConstruct (dst src : X)
  | moveAssign (dst src : X)
  | destroy (x : X)
  | lock (data : T)
  | send
  | unlock
  | wait (x : X)

def State.init : State T X H where
  queues := []
  publishing := none
  kernel := fun _ => none
  pending := fun _ => none
  subscribers := fun _ => none
  received := fun _ => []
  calls := []

variable [DecidableEq X] [DecidableEq H]

/-- A queue that is created did not exist before, but its handle may have been
the one of a queue deleted earlier. -/
def fresh (kernel : Kernel T H) : QueueHandle H → Bool
  | none => true
  | some h => (kernel h).isNone

def xQueueCreate (kernel : Kernel T H) : QueueHandle H → Kernel T H
  | none => kernel
  | some h => Function.update kernel h (some [])

/-- A send with timeout 0 drops the item when the queue is full. -/
def xQueueSend (depth : Nat) (kernel : Kernel T H) (data : T) : QueueHandle H → Kernel T H
  | none => kernel
  | some h =>
      match kernel h with
      | none => kernel
      | some items =>
          if items.length < depth then Function.update kernel h (some (items ++ [data]))
          else kernel

/-- A receive with timeout `portMAX_DELAY` blocks on an empty queue, which is
no result here. On a handle without a queue nothing is received. -/
def xQueueReceive (kernel : Kernel T H) : QueueHandle H → Option (List T × Kernel T H)
  | none => some ([], kernel)
  | some h =>
      match kernel h with
      | none => some ([], kernel)
      | some [] => none
      | some (data :: rest) => some ([data], Function.update kernel h (some rest))

def vQueueDelete (kernel : Kernel T H) : QueueHandle H → Kernel T H
  | none => kernel
  | some h => Function.update kernel h none

def State.unsubscribe (s : State T X H) (q : QueueHandle H) : State T X H :=
  if q ∈ s.queues then
    { s with
      queues := s.queues.erase q
      kernel := vQueueDelete s.kernel q
      calls := s.calls ++ [.delete q] }
  else s

/-- The defaulted moves copy the raw handle and clear the weak pointer of the
source. -/
def State.moveSubscriber (s : State T X H) (dst src : X) (o : Subscriber H) : State T X H :=
  { s with
    subscribers := Function.update
      (Function.update s.subscribers src (some { o with parent := false })) dst (some o) }

def State.step (depth : Nat) (s : State T X H) : Op T X H → Option (State T X H)
  | .create x q =>
      if (s.pending x).isNone && (s.subscribers x).isNone && fresh s.kernel q then
        some { s with
          kernel := xQueueCreate s.kernel q
          pending := Function.update s.pending x (some q)
          calls := s.calls ++ [.create q] }
      else none
  | .insert x =>
      match s.publishing, s.pending x with
      | none, some q =>
          some { s with
            queues := s.queues ++ [q]
            pending := Function.update s.pending x none
            subscribers := Function.update s.subscribers x (some ⟨true, q⟩) }
      | _, _ => none
  | .moveConstruct dst src =>
      match s.subscribers dst, s.pending dst, s.subscribers src with
      | none, none, some o => some (s.moveSubscriber dst src o)
      | _, _, _ => none
  | .moveAssign dst src =>
      match s.subscribers dst, s.subscribers src with
      | some _, some o =>
          -- a weak pointer that is assigned to itself stays what it is
          if dst = src then some s else some (s.moveSubscriber dst src o)
      | _, _ => none
  | .destroy x =>
      match s.subscribers x with
      | none => none
      | some o =>
          let rest := { s with subscribers := Function.update s.subscribers x none }
          if o.queue.isSome && o.parent then
            -- `unsubscribe` needs the mutex
            if s.publishing.isSome then none else some (rest.unsubscribe o.queue)
          else some rest
  | .lock data =>
      match s.publishing with
      | none => some { s with publishing := some (data, s.queues) }
      | some _ => none
  | .send =>
      match s.publishing with
      | some (data, q :: qs) =>
          some { s with
            publishing := some (data, qs)
            kernel := xQueueSend depth s.kernel data q
            calls := s.calls ++ [.send q] }
      | _ => none
  | .unlock =>
      match s.publishing with
      | some (_, []) => some { s with publishing := none }
      | _ => none
  | .wait x =>
      match s.subscribers x with
      | none => none
      | some o =>
          (xQueueReceive s.kernel o.queue).map fun p =>
            { s with
              kernel := p.2
              received := Function.update s.received x (s.received x ++ p.1)
              calls := s.calls ++ [.receive o.queue] }

def State.destructorAborts (s : State T X H) : Bool := !s.queues.isEmpty

inductive State.Steps (depth : Nat) (s : State T X H) : Op T X H → State T X H → Prop where
  | create (x q) (hp : s.pending x = none) (hx : s.subscribers x = none)
      (hf : fresh s.kernel q = true) : Steps depth s (.create x q)
      { s with
        kernel := xQueueCreate s.kernel q
        pending := Function.update s.pending x (some q)
        calls := s.calls ++ [.create q] }
  | insert (x q) (hm : s.publishing = none) (hp : s.pending x = some q) :
      Steps depth s (.insert x)
      { s with
        queues := s.queues ++ [q]
        pending := Function.update s.pending x none
        subscribers := Function.update s.subscribers x (some ⟨true, q⟩) }
  | moveConstruct (dst src o) (hd : s.subscribers dst = none) (hp : s.pending dst = none)
      (hs : s.subscribers src = some o) :
      Steps depth s (.moveConstruct dst src) (s.moveSubscriber dst src o)
  | selfAssign (x o) (hx : s.subscribers x = some o) : Steps depth s (.moveAssign x x) s
  | moveAssign (dst src old o) (hne : dst ≠ src) (hd : s.subscribers dst = some old)
      (hs : s.subscribers src = some o) :
      Steps depth s (.moveAssign dst src) (s.moveSubscriber dst src o)
  | discard (x o) (hx : s.subscribers x = some o) (ho : o.queue = none ∨ o.parent = false) :
      Steps depth s (.destroy x)
      { s with subscribers := Function.update s.subscribers x none }
  | destroy (x h) (hm : s.publishing = none) (hx : s.subscribers x = some ⟨true, some h⟩) :
      Steps depth s (.destroy x)
      (State.unsubscribe { s with subscribers := Function.update s.subscribers x none } (some h))
  | lock (data) (hm : s.publishing = none) : Steps depth s (.lock data)
      { s with publishing := some (data, s.queues) }
  | send (data q qs) (hm : s.publishing = some (data, q :: qs)) : Steps depth s .send
      { s with
        publishing := some (data, qs)
        kernel := xQueueSend depth s.kernel data q
        calls := s.calls ++ [.send q] }
  | unlock (data) (hm : s.publishing = some (data, [])) : Steps depth s .unlock
      { s with publishing := none }
  | wait (x o items kernel) (hx : s.subscribers x = some o)
      (hr : xQueueReceive s.kernel o.queue = some (items, kernel)) : Steps depth s (.wait x)
      { s with
        kernel := kernel
        received := Function.update s.received x (s.received x ++ items)
        calls := s.calls ++ [.receive o.queue] }

theorem State.steps_of_step {depth : Nat} {s t : State T X H} {a : Op T X H}
    (h : s.step depth a = some t) : s.Steps depth a t := by
  cases a with
  | create x q =>
    simp only [State.step, Bool.and_eq_true, Option.isNone_iff_eq_none,
      Option.ite_none_right_eq_some, Option.some.injEq] at h
    obtain ⟨⟨⟨hp, hx⟩, hf⟩, rfl⟩ := h
    exact .create x q hp hx hf
  | insert x =>
    simp only [State.step] at h
    split at h
    · rename_i q hm hp
      cases h
      exact .insert x q hm hp
    · cases h
  | moveConstruct dst src =>
    simp only [State.step] at h
    split at h
    · rename_i o hd hp hs
      cases h
      exact .moveConstruct dst src o hd hp hs
    · cases h
  | moveAssign dst src =>
    simp only [State.step] at h
    split at h
    · rename_i old o hd hs
      split at h
      · rename_i he
        subst he
        cases h
        exact .selfAssign dst o hs
      · rename_i hne
        cases h
        exact .moveAssign dst src old o hne hd hs
    · cases h
  | destroy x =>
    simp only [State.step] at h
    split at h
    · cases h
    · rename_i o hx
      obtain ⟨parent, queue⟩ := o
      split at h
      · rename_i hown
        split at h
        · cases h
        · rename_i hm
          simp only [Bool.and_eq_true] at hown
          obtain ⟨hq, rfl⟩ := hown
          obtain ⟨h', rfl⟩ := Option.isSome_iff_exists.mp hq
          cases h
          exact .destroy x h' (by simpa using hm) hx
      · rename_i hown
        cases h
        apply Steps.discard x _ hx
        cases queue with
        | none => exact .inl rfl
        | some q => exact .inr (by simpa using hown)
  | lock data =>
    simp only [State.step] at h
    split at h
    · rename_i hm
      cases h
      exact .lock data hm
    · cases h
  | send =>
    simp only [State.step] at h
    split at h
    · rename_i data q qs hm
      cases h
      exact .send data q qs hm
    · cases h
  | unlock =>
    simp only [State.step] at h
    split at h
    · rename_i data hm
      cases h
      exact .unlock data hm
    · cases h
  | wait x =>
    simp only [State.step] at h
    split at h
    · cases h
    · rename_i o hx
      obtain ⟨⟨items, kernel⟩, hr, rfl⟩ := Option.map_eq_some_iff.mp h
      exact .wait x o items kernel hx hr

/-- No queue holds more items than it has room for. -/
def Shallow (depth : Nat) (s : State T X H) : Prop :=
  ∀ k items, s.kernel k = some items → items.length ≤ depth

omit [DecidableEq X] [DecidableEq H] in
theorem shallow_init (depth : Nat) : Shallow depth (State.init : State T X H) := by
  intro k items hk
  cases hk

omit [DecidableEq X] in
theorem Shallow.update {depth : Nat} {s t : State T X H} (hs : Shallow depth s) {k : H}
    {queue : Option (List T)} (ht : t.kernel = Function.update s.kernel k queue)
    (hqueue : ∀ items, queue = some items → items.length ≤ depth) : Shallow depth t := by
  intro k' items hk'
  rw [ht] at hk'
  by_cases hkk : k' = k
  · subst k'
    rw [Function.update_self] at hk'
    exact hqueue items hk'
  · rw [Function.update_of_ne hkk] at hk'
    exact hs k' items hk'

theorem Shallow.step {depth : Nat} {s t : State T X H} (hs : Shallow depth s) {a : Op T X H}
    (h : s.step depth a = some t) : Shallow depth t := by
  cases State.steps_of_step h with
  | create x q hp hx hf =>
    cases q with
    | none => exact hs
    | some k => exact hs.update rfl (by rintro _ ⟨⟩; exact Nat.zero_le _)
  | destroy x k hm hx =>
    unfold State.unsubscribe
    split
    · exact hs.update rfl (by rintro _ ⟨⟩)
    · exact hs
  | send data q qs hm =>
    cases q with
    | none => exact hs
    | some k =>
      cases hk : s.kernel k with
      | none => simpa only [Shallow, xQueueSend, hk] using hs
      | some items =>
        by_cases hroom : items.length < depth
        · have hkernel : xQueueSend depth s.kernel data (some k) =
              Function.update s.kernel k (some (items ++ [data])) := by
            simp [xQueueSend, hk, hroom]
          refine hs.update hkernel ?_
          rintro _ ⟨⟩
          rw [List.length_append, List.length_singleton]
          exact hroom
        · simpa only [Shallow, xQueueSend, hk, hroom, ↓reduceIte] using hs
  | wait x o items kernel hx hr =>
    unfold xQueueReceive at hr
    split at hr
    · cases hr
      exact hs
    · rename_i k hq
      split at hr
      · cases hr
        exact hs
      · cases hr
      · rename_i data rest hk
        cases hr
        refine hs.update rfl ?_
        rintro _ ⟨⟩
        exact Nat.le_of_succ_le (hs k (data :: rest) hk)
  | insert | moveConstruct | selfAssign | moveAssign | discard | lock | unlock => exact hs

end Thermometer.Publisher
