import Thermometer.QueueRegistry

namespace Thermometer.Publisher

open Thermometer.Transition Thermometer.Ownership

variable {T X H : Type} [DecidableEq X] [DecidableEq H]

/-- A move assignment does not overwrite a handle that its target still owns. -/
def Spares (s : State T X H) : Op T X H → Prop
  | .moveAssign dst src => dst = src ∨ s.owner dst = none
  | _ => True

/-- The list of the publisher is the list of the living subscribers. -/
structure Mirrors (s : State T X H) : Prop where
  nodup : s.queues.Nodup
  mirror : ∀ q, q ∈ s.queues ↔ Held s.owner q
  empty : (∀ x, s.subscribers x = none) → s.queues = []
  abort : s.destructorAborts = true → ∃ x, s.owner x ≠ none

/-- Registered, and no handle of the list without an owner. -/
structure Accounted (s : State T X H) : Prop where
  registered : Registered s
  held : ∀ q ∈ s.queues, Held s.owner q

omit [DecidableEq X] [DecidableEq H] in
theorem Accounted.init : Accounted (State.init : State T X H) where
  registered := Registered.init
  held := by simp [State.init]

omit [DecidableEq X] [DecidableEq H] in
theorem Accounted.mirrors {s : State T X H} (hs : Accounted s) : Mirrors s where
  nodup := hs.registered.nodup
  mirror := fun q => ⟨hs.held q, hs.registered.registered q⟩
  empty := fun hnone => by
    apply List.eq_nil_iff_forall_not_mem.mpr
    intro q hq
    obtain ⟨x, hx⟩ := hs.held q hq
    simp [State.owner, hnone x] at hx
  abort := fun hab => by
    obtain ⟨q, hq⟩ := List.exists_mem_of_ne_nil s.queues (by simpa [State.destructorAborts] using hab)
    obtain ⟨x, hx⟩ := hs.held q hq
    exact ⟨x, by simp [hx]⟩

omit [DecidableEq X] [DecidableEq H] in
theorem Registered.owner_none {s : State T X H} (hs : Registered s) {x : X} {o : Subscriber H}
    (hx : s.subscribers x = some o) (ho : o.queue = none ∨ o.parent = false) :
    s.owner x = none := by
  obtain ⟨parent, queue⟩ := o
  cases parent with
  | false => simp [State.owner, hx, Subscriber.owns]
  | true =>
    have hq : queue = none := by simpa using ho
    have howner : s.owner x = some none := by simp [State.owner, hx, Subscriber.owns, hq]
    obtain ⟨k, items, he, -⟩ := hs.exist none (hs.registered none ⟨x, howner⟩)
    cases he

theorem Accounted.step {depth : Nat} {s t : State T X H} {a : Op T X H} (hs : Accounted s)
    (ha : a.Creates) (hok : Spares s a) (h : s.step depth a = some t) : Accounted t := by
  refine ⟨hs.registered.step ha h, ?_⟩
  have hown := owner_step h
  cases State.steps_of_step h with
  | create | lock | send | unlock | wait => exact hs.held
  | insert x q hm hp =>
    have hx : s.owner x = none := by simp [State.owner, hs.registered.pendingFree x q hp]
    simp only [ownerAfter, hp] at hown
    intro r hr
    rw [hown, held_grant hx]
    obtain hr | hr := List.mem_append.mp hr
    · exact .inr (hs.held r hr)
    · exact .inl (List.mem_singleton.mp hr)
  | moveConstruct dst src o hd hp hsrc =>
    have hdst : s.owner dst = none := by simp [State.owner, hd]
    intro r hr
    rw [hown]
    exact (held_transfer hdst r).mpr (hs.held r hr)
  | selfAssign x o hx => exact hs.held
  | moveAssign dst src old o hne hd hsrc =>
    simp only [ownerAfter, hne, ↓reduceIte] at hown
    intro r hr
    rw [hown]
    exact (held_transfer (hok.resolve_left hne) r).mpr (hs.held r hr)
  | discard x o hx ho =>
    intro r hr
    rw [hown]
    exact (held_drop_of_none (hs.registered.owner_none hx ho) r).mpr (hs.held r hr)
  | destroy x k hm hx =>
    have howner : s.owner x = some (some k) := by simp [State.owner, hx, Subscriber.owns]
    have hin : some k ∈ s.queues := hs.registered.registered _ ⟨x, howner⟩
    simp only [State.unsubscribe, hin, ↓reduceIte] at hown ⊢
    intro r hr
    obtain ⟨hne, hr⟩ := hs.registered.nodup.mem_erase_iff.mp hr
    rw [hown]
    exact (held_drop hs.registered.exclusive howner r).mpr ⟨hne, hs.held r hr⟩

/-- Overwriting an owned handle leaves it in the list for ever: its owner is
gone, and only an owner takes a handle off the list. -/
theorem not_mirrors_of_overwrite {depth : Nat} {s t : State T X H} {a : Op T X H}
    (hs : Accounted s) (hno : ¬ Spares s a) (h : s.step depth a = some t) : ¬ Mirrors t := by
  intro ht
  have hown := owner_step h
  cases State.steps_of_step h with
  | moveAssign dst src old o hne hd hsrc =>
    have hdst : s.owner dst ≠ none := fun he => hno (.inr he)
    obtain ⟨q, hq⟩ := Option.ne_none_iff_exists'.mp hdst
    simp only [ownerAfter, hne, ↓reduceIte] at hown
    have hin : q ∈ s.queues := hs.registered.registered q ⟨dst, hq⟩
    have hheld := (ht.mirror q).mp hin
    rw [hown] at hheld
    exact not_held_transfer hs.registered.exclusive hne hq hheld
  | selfAssign x o hx => exact hno (.inl rfl)
  | _ => exact hno trivial

/-- The list mirrors the living subscribers after every operation of a run
exactly when no operation is a move assignment onto another Subscriber that
owns a queue. -/
theorem mirrors_iff_spares (depth : Nat) {as : List (Op T X H)} {s : State T X H}
    (hc : ∀ a ∈ as, a.Creates) (h : run (State.step depth) State.init as = some s) :
    Always (State.step depth) Mirrors State.init as ↔
      Meets (State.step depth) Spares State.init as :=
  always_iff_meets Op.Creates (fun _ hi => hi.mirrors)
    (fun _ _ _ ha hi hok ht => hi.step ha hok ht)
    (fun _ _ _ _ hi hno ht => not_mirrors_of_overwrite hi hno ht) hc Accounted.init h

def thereAndBack : List (Op Char Nat Nat) :=
  [.create 0 (some 7), .insert 0, .create 1 (some 8), .insert 1, .moveConstruct 2 0,
    .moveAssign 0 2, .destroy 2, .lock '1', .send, .send, .unlock, .wait 0, .destroy 0]

theorem mirrors_iff_spares_thereAndBack :
    Always (State.step 1) Mirrors State.init thereAndBack := by
  apply (mirrors_iff_spares 1 (by simp [thereAndBack, Op.Creates]) rfl).mpr
  repeat
    refine (meets_cons rfl).mpr ⟨?_, ?_⟩
    · first | trivial | exact .inr rfl
  trivial

def overwrite : List (Op Char Nat Nat) :=
  [.create 0 (some 7), .insert 0, .create 1 (some 8), .insert 1, .moveAssign 0 1,
    .destroy 0, .destroy 1]

/-- All Subscribers are gone, the first queue is still listed and the
destructor of the publisher aborts. -/
theorem overwrite_aborts :
    ∃ s, run (State.step 1) State.init overwrite = some s ∧ (∀ x, s.subscribers x = none) ∧
      s.queues = [some 7] ∧ s.destructorAborts = true := by
  refine ⟨_, rfl, fun x => ?_, rfl, rfl⟩
  match x with
  | 0 => rfl
  | 1 => rfl
  | _ + 2 => rfl

end Thermometer.Publisher
