import Thermometer.QueueMirror

namespace Thermometer.Publisher

open Thermometer.Transition Thermometer.Ownership

variable {T X H : Type}

def QueueCall.handle : QueueCall H → QueueHandle H
  | .create q | .send q | .receive q | .delete q => q

/-- The state as it were without the null handles that failed creations left. -/
def State.withoutNull (s : State T X H) : State T X H where
  queues := s.queues.filter Option.isSome
  publishing := s.publishing.map fun p => (p.1, p.2.filter Option.isSome)
  kernel := s.kernel
  pending x := (s.pending x).filter Option.isSome
  subscribers x := (s.subscribers x).filter fun o => o.queue.isSome
  received := s.received
  calls := s.calls.filter fun c => c.handle.isSome

def Op.Stays : Op T X H → Prop
  | .moveConstruct _ _ | .moveAssign _ _ => False
  | _ => True

variable [DecidableEq X] [DecidableEq H]

omit [DecidableEq H] in
theorem filter_update {α : Type} (p : α → Bool) (f : X → Option α) (x : X) (o : Option α) :
    (fun y => (Function.update f x o y).filter p) =
      Function.update (fun y => (f y).filter p) x (o.filter p) := by
  funext y
  by_cases h : y = x
  · subst y
    simp only [Function.update_self]
  · simp only [Function.update_of_ne h]

section Unsubscribe

variable (s : State T X H) (q : QueueHandle H)

omit [DecidableEq X]

theorem unsubscribe_queues : (s.unsubscribe q).queues = s.queues.erase q := by
  by_cases hin : q ∈ s.queues
  · simp only [State.unsubscribe, hin, ↓reduceIte]
  · simp only [State.unsubscribe, hin, ↓reduceIte, List.erase_of_not_mem hin]

theorem unsubscribe_publishing : (s.unsubscribe q).publishing = s.publishing := by
  unfold State.unsubscribe
  split <;> rfl

theorem unsubscribe_pending : (s.unsubscribe q).pending = s.pending := by
  unfold State.unsubscribe
  split <;> rfl

theorem unsubscribe_subscribers : (s.unsubscribe q).subscribers = s.subscribers := by
  unfold State.unsubscribe
  split <;> rfl

theorem unsubscribe_received : (s.unsubscribe q).received = s.received := by
  unfold State.unsubscribe
  split <;> rfl

end Unsubscribe

omit [DecidableEq X] in
theorem unsubscribe_other (s : State T X H) {k k' : H} (hne : k ≠ k') :
    (s.unsubscribe (some k')).kernel k = s.kernel k := by
  unfold State.unsubscribe
  split
  · exact Function.update_of_ne hne _ _
  · rfl

omit [DecidableEq H] in
theorem update_none {α : Type} {f : X → Option α} {x : X} (h : f x = none) :
    Function.update f x none = f :=
  Function.update_eq_self_iff.mpr h.symm

/-- A step is a step of the state without null handles, or none at all there. -/
theorem withoutNull_step {depth : Nat} {s t : State T X H} {a : Op T X H} (ha : a.Stays)
    (hfree : ∀ x q, s.pending x = some q → s.subscribers x = none)
    (h : s.step depth a = some t) :
    t.withoutNull = s.withoutNull ∨
      (a.Creates ∧ s.withoutNull.step depth a = some t.withoutNull) := by
  cases State.steps_of_step h with
  | create x q hp hx hf =>
    cases q with
    | none =>
      left
      simp [State.withoutNull, xQueueCreate, filter_update, QueueCall.handle, Option.filter_some,
        update_none, hp]
    | some k =>
      right
      have hk : s.kernel k = none := by simpa [fresh] using hf
      simp [State.step, State.withoutNull, filter_update, QueueCall.handle, Option.filter_some,
        Op.Creates, fresh, hp, hx, hk]
  | insert x q hm hp =>
    have hx := hfree x q hp
    cases q with
    | none =>
      left
      simp [State.withoutNull, filter_update, Option.filter_some, update_none, hp, hx]
    | some k =>
      right
      simp [State.step, State.withoutNull, filter_update, Option.filter_some, Op.Creates, hm, hp]
  | moveConstruct => exact ha.elim
  | selfAssign => exact ha.elim
  | moveAssign => exact ha.elim
  | discard x o hx ho =>
    obtain ⟨parent, queue⟩ := o
    cases queue with
    | none =>
      left
      simp [State.withoutNull, filter_update, Option.filter_some, update_none, hx]
    | some k =>
      right
      have hparent : parent = false := by simpa using ho
      simp [State.step, State.withoutNull, filter_update, Option.filter_some, Op.Creates, hx, hparent]
  | destroy x k hm hx =>
    right
    have herase : (s.queues.filter Option.isSome).erase (some k) =
        (s.queues.erase (some k)).filter Option.isSome := List.erase_filter
    by_cases hin : some k ∈ s.queues <;>
      simp [State.step, State.withoutNull, filter_update, Option.filter_some, Op.Creates, hx, hm,
        State.unsubscribe, hin, QueueCall.handle, herase]
  | lock data hm =>
    right
    simp [State.step, State.withoutNull, Op.Creates, hm]
  | send data q qs hm =>
    cases q with
    | none =>
      left
      simp [State.withoutNull, xQueueSend, QueueCall.handle, hm]
    | some k =>
      right
      simp [State.step, State.withoutNull, QueueCall.handle, Op.Creates, hm]
  | unlock data hm =>
    right
    simp [State.step, State.withoutNull, Op.Creates, hm]
  | wait x o items kernel hx hr =>
    obtain ⟨parent, queue⟩ := o
    cases queue with
    | none =>
      left
      simp only [xQueueReceive, Option.some.injEq, Prod.mk.injEq] at hr
      obtain ⟨rfl, rfl⟩ := hr
      simp [State.withoutNull, QueueCall.handle]
    | some k =>
      right
      simp [State.step, State.withoutNull, QueueCall.handle, Option.filter_some, Op.Creates, hx, hr]

/-- The lists are in order, null handles aside. -/
structure Tolerant (s : State T X H) : Prop where
  accounted : Accounted s.withoutNull
  pendingFree : ∀ x q, s.pending x = some q → s.subscribers x = none

omit [DecidableEq X] [DecidableEq H] in
theorem Tolerant.init : Tolerant (State.init : State T X H) where
  accounted := Accounted.init
  pendingFree x q h := by simp [State.init] at h

theorem Tolerant.step {depth : Nat} {s t : State T X H} {a : Op T X H} (hs : Tolerant s)
    (ha : a.Stays) (h : s.step depth a = some t) : Tolerant t := by
  constructor
  · obtain he | ⟨hc, hstep⟩ := withoutNull_step ha hs.pendingFree h
    · rw [he]
      exact hs.accounted
    · refine hs.accounted.step hc ?_ hstep
      cases a with
      | moveAssign => exact ha.elim
      | _ => trivial
  · intro y r hy
    cases State.steps_of_step h with
    | create x q hp hx hf =>
      by_cases hyx : y = x
      · rw [hyx]
        exact hx
      · apply hs.pendingFree y r
        simpa [hyx] using hy
    | insert x q hm hp =>
      obtain ⟨hyx, hy⟩ := drop_eq_some.mp hy
      simpa [hyx] using hs.pendingFree y r hy
    | moveConstruct => exact ha.elim
    | selfAssign => exact ha.elim
    | moveAssign => exact ha.elim
    | discard x o hx ho =>
      by_cases hyx : y = x
      · simp [hyx]
      · simpa [hyx] using hs.pendingFree y r hy
    | destroy x k hm hx =>
      rw [unsubscribe_pending] at hy
      rw [unsubscribe_subscribers]
      by_cases hyx : y = x
      · simp [hyx]
      · simpa [hyx] using hs.pendingFree y r hy
    | lock | send | unlock | wait => exact hs.pendingFree y r hy

/-- A subscription whose queue creation failed gets no further. -/
def Created (s : State T X H) : Op T X H → Prop
  | .insert x => s.pending x ≠ some none
  | _ => True

/-- A failed subscription changes nothing in the list, and publish sends to live
queues only. -/
def Intact (depth : Nat) (s : State T X H) (a : Op T X H) : Prop :=
  (∀ x t, a = .insert x → s.pending x = some none → s.step depth a = some t →
    t.queues = s.queues) ∧
  ∀ data q qs, a = .send → s.publishing = some (data, q :: qs) → Exists s.kernel q

def Emptied (s : State T X H) : Prop := (∀ x, s.subscribers x = none) → s.queues = []

structure Listed (s : State T X H) : Prop where
  tolerant : Tolerant s
  queues : ∀ q ∈ s.queues, q.isSome = true
  loop : ∀ data qs, s.publishing = some (data, qs) → ∀ q ∈ qs, q.isSome = true

omit [DecidableEq X] [DecidableEq H] in
theorem Listed.init : Listed (State.init : State T X H) where
  tolerant := Tolerant.init
  queues := by simp [State.init]
  loop := by simp [State.init]

theorem Listed.step {depth : Nat} {s t : State T X H} {a : Op T X H} (hs : Listed s)
    (ha : a.Stays) (hok : Created s a) (h : s.step depth a = some t) : Listed t := by
  have htol := hs.tolerant.step ha h
  cases State.steps_of_step h with
  | create x q hp hx hf => exact ⟨htol, hs.queues, hs.loop⟩
  | insert x q hm hp =>
    refine ⟨htol, ?_, by simp [hm]⟩
    intro r hr
    obtain hr | hr := List.mem_append.mp hr
    · exact hs.queues r hr
    · rw [List.mem_singleton.mp hr]
      apply Option.isSome_iff_ne_none.mpr
      rintro rfl
      exact hok hp
  | moveConstruct => exact ha.elim
  | selfAssign => exact ha.elim
  | moveAssign => exact ha.elim
  | discard x o hx ho => exact ⟨htol, hs.queues, hs.loop⟩
  | destroy x k hm hx =>
    refine ⟨htol, ?_, ?_⟩
    · rw [unsubscribe_queues]
      exact fun r hr => hs.queues r (List.mem_of_mem_erase hr)
    · rw [unsubscribe_publishing]
      exact hs.loop
  | lock data hm =>
    refine ⟨htol, hs.queues, ?_⟩
    intro d qs hd
    simp only [Option.some.injEq, Prod.mk.injEq] at hd
    exact hd.2 ▸ hs.queues
  | send data q qs hm =>
    refine ⟨htol, hs.queues, ?_⟩
    intro d rs hd
    simp only [Option.some.injEq, Prod.mk.injEq] at hd
    exact hd.2 ▸ fun r hr => hs.loop data (q :: qs) hm r (List.mem_cons_of_mem q hr)
  | unlock data hm => exact ⟨htol, hs.queues, by simp⟩
  | wait x o items kernel hx hr => exact ⟨htol, hs.queues, hs.loop⟩

theorem Listed.intact {depth : Nat} {s : State T X H} {a : Op T X H} (hs : Listed s)
    (hok : Created s a) : Intact depth s a := by
  constructor
  · rintro x t rfl hp -
    exact absurd hp hok
  · rintro data q qs rfl hm
    have hq : q.isSome = true := hs.loop data (q :: qs) hm q List.mem_cons_self
    have hreg := hs.tolerant.accounted.registered
    have hsuffix : (q :: qs).filter Option.isSome <:+ s.queues.filter Option.isSome :=
      hreg.loop data _ (by simp [State.withoutNull, hm])
    exact hreg.exist q (hsuffix.subset (List.mem_filter.mpr ⟨List.mem_cons_self, hq⟩))

omit [DecidableEq X] [DecidableEq H] in
theorem Listed.emptied {s : State T X H} (hs : Listed s) : Emptied s := by
  intro hnone
  have hempty : s.queues.filter Option.isSome = [] :=
    hs.tolerant.accounted.mirrors.empty (by simp [State.withoutNull, hnone])
  rwa [List.filter_eq_self.mpr hs.queues] at hempty

theorem created_of_intact {depth : Nat} {s t : State T X H} {a : Op T X H}
    (hok : Intact depth s a) (h : s.step depth a = some t) : Created s a := by
  cases a with
  | insert x =>
    intro hp
    have hsame := hok.1 x t rfl hp h
    cases State.steps_of_step h with
    | insert _ q hm hq => simp at hsame
  | _ => trivial

/-- The publisher stays intact in a run exactly when no subscription goes on
after its queue creation has failed. -/
theorem intact_iff_created (depth : Nat) {as : List (Op T X H)} {s : State T X H}
    (hstays : ∀ a ∈ as, a.Stays) (h : run (State.step depth) State.init as = some s) :
    (Meets (State.step depth) (Intact depth) State.init as ∧
        Always (State.step depth) Emptied State.init as) ↔
      Meets (State.step depth) Created State.init as := by
  constructor
  · rintro ⟨hintact, -⟩
    exact hintact.of_run (fun _ _ _ _ hok ht => ⟨created_of_intact hok ht, trivial⟩) trivial h
  · intro hcreated
    have hok := hcreated.and_left hstays
    refine ⟨hok.of_run (fun _ _ _ hs hok ht => ?_) Listed.init h, ?_⟩
    · exact ⟨hs.intact hok.2, hs.step hok.1 hok.2 ht⟩
    · exact always_of_meets (fun _ hs => hs.emptied)
        (fun _ _ _ hs hok ht => hs.step hok.1 hok.2 ht) Listed.init hok

def failsLate : List (Op Char Nat Nat) :=
  [.create 0 (some 7), .create 1 none, .insert 0, .lock '1', .send, .unlock, .wait 0, .destroy 0]

theorem intact_iff_created_failsLate :
    Meets (State.step 1) (Intact 1) State.init failsLate ∧
      Always (State.step 1) Emptied State.init failsLate := by
  apply (intact_iff_created 1 (by simp [failsLate, Op.Stays]) rfl).mpr
  repeat
    refine (meets_cons rfl).mpr ⟨?_, ?_⟩
    · first | trivial | exact fun h => by cases h
  trivial

def failedSubscribe : List (Op Char Nat Nat) :=
  [.create 0 none, .insert 0, .lock '1', .send, .unlock, .destroy 0]

/-- The null handle is sent to and stays in the list when all Subscribers are gone. -/
theorem failedSubscribe_listed :
    ∃ s, run (State.step 1) State.init failedSubscribe = some s ∧
      (∀ x, s.subscribers x = none) ∧ s.queues = [none] ∧ QueueCall.send none ∈ s.calls ∧
      ¬ (Meets (State.step 1) (Intact 1) State.init failedSubscribe ∧
        Always (State.step 1) Emptied State.init failedSubscribe) := by
  refine ⟨_, rfl, ?_, rfl, by decide, ?_⟩
  · rintro (_ | _) <;> rfl
  · rintro ⟨hintact, -⟩
    have hinsert := ((meets_cons rfl).mp ((meets_cons rfl).mp hintact).2).1
    exact absurd (hinsert.1 0 _ rfl rfl rfl) (by decide)

end Thermometer.Publisher
