import Thermometer.QueueNull
import Thermometer.BoundedFifo

namespace Thermometer.Publisher

open Thermometer.Transition Thermometer.Ownership Thermometer.BoundedFifo

variable {T X H : Type}

/-- The history of one Subscriber since it was subscribed: what had been received
at its place before, the data of the calls of `publish`, and what its own queue
saw of them, in between its own calls of `wait`. -/
structure Log (T : Type) where
  before : List T
  published : List T
  events : List (Event T)

def Log.start : Log T := ⟨[], [], []⟩

/-- The data of a call of `publish` whose loop has not reached the handle yet. -/
def State.inFlight [DecidableEq H] (s : State T X H) (q : QueueHandle H) : List T :=
  match s.publishing with
  | some (data, qs) => if qs.contains q then [data] else []
  | none => []

variable [DecidableEq X] [DecidableEq H]

def note (x : X) (s : State T X H) : Op T X H → Log T → Log T
  | .insert y, log => if y = x then ⟨s.received x, [], []⟩ else log
  | .lock data, log => { log with published := log.published ++ [data] }
  | .send, log =>
      match s.publishing, s.subscribers x with
      | some (data, q :: _), some o =>
          if o.queue = q then { log with events := log.events ++ [.put data] } else log
      | _, _ => log
  | .wait y, log => if y = x then { log with events := log.events ++ [.take] } else log
  | _, log => log

/-- The queue of the Subscriber and what it received are the inbox of its history. -/
structure Delivered (depth : Nat) (x : X) (k : H) (s : State T X H) (log : Log T) : Prop where
  received : s.received x = log.before ++ (fold depth log.events).received
  pending : s.kernel k = some (fold depth log.events).pending
  published : puts log.events ++ s.inFlight (some k) = log.published

/-- What the interleavings keep, for one Subscriber with its history. -/
structure Serving (depth : Nat) (x : X) (s : State T X H) (log : Log T) : Prop where
  tolerant : Tolerant s
  attached : ∀ y o, s.subscribers y = some o → o.parent = true
  pendingEmpty : ∀ y k, s.pending y = some (some k) → s.kernel k = some []
  delivered : ∀ o k, s.subscribers x = some o → o.queue = some k → Delivered depth x k s log

omit [DecidableEq X] in
theorem Serving.init (depth : Nat) (x : X) :
    Serving depth x (State.init : State T X H) Log.start where
  tolerant := Tolerant.init
  attached y o h := by simp [State.init] at h
  pendingEmpty y k h := by simp [State.init] at h
  delivered o k h := by simp [State.init] at h

section Handles

variable {depth : Nat} {x : X} {s : State T X H} {log : Log T}

omit [DecidableEq X] in
theorem Serving.owner (hs : Serving depth x s log) {y : X} {o : Subscriber H} {k : H}
    (hy : s.subscribers y = some o) (hq : o.queue = some k) :
    s.withoutNull.owner y = some (some k) := by
  have hparent := hs.attached y o hy
  simp [State.owner, State.withoutNull, hy, hq, Option.filter_some, Subscriber.owns, hparent]

omit [DecidableEq X] in
/-- The handle of a Subscriber is its own, and in the list. -/
theorem Serving.exclusive (hs : Serving depth x s log) {y z : X} {o o' : Subscriber H} {k : H}
    (hy : s.subscribers y = some o) (hq : o.queue = some k) (hz : s.subscribers z = some o')
    (hq' : o'.queue = some k) : y = z :=
  hs.tolerant.accounted.registered.exclusive y z (some k) (hs.owner hy hq) (hs.owner hz hq')

omit [DecidableEq X] in
theorem Serving.listed (hs : Serving depth x s log) {y : X} {o : Subscriber H} {k : H}
    (hy : s.subscribers y = some o) (hq : o.queue = some k) : some k ∈ s.queues := by
  have hin : some k ∈ s.queues.filter Option.isSome :=
    hs.tolerant.accounted.registered.registered (some k) ⟨y, hs.owner hy hq⟩
  exact List.mem_of_mem_filter hin

omit [DecidableEq X] in
theorem Serving.unlisted (hs : Serving depth x s log) {y : X} {k : H}
    (hy : s.pending y = some (some k)) : some k ∉ s.queues := by
  intro hin
  have hpending : s.withoutNull.pending y = some (some k) := by
    simp [State.withoutNull, hy, Option.filter_some]
  exact (hs.tolerant.accounted.registered.pendingExist y (some k) hpending).2
    (List.mem_filter.mpr ⟨hin, rfl⟩)

omit [DecidableEq X] in
/-- Every handle is sent to once in a publish. -/
theorem Serving.loop (hs : Serving depth x s log) {data : T} {q : QueueHandle H}
    {qs : List (QueueHandle H)} (hm : s.publishing = some (data, q :: qs)) :
    (q.isSome = true → q ∈ s.queues) ∧ (q.isSome = true → q ∉ qs) := by
  have hreg := hs.tolerant.accounted.registered
  have hsuffix : (q :: qs).filter Option.isSome <:+ s.queues.filter Option.isSome :=
    hreg.loop data _ (by simp [State.withoutNull, hm])
  constructor
  · intro hq
    have hin := hsuffix.subset (List.mem_filter.mpr ⟨List.mem_cons_self, hq⟩)
    exact List.mem_of_mem_filter hin
  · intro hq hin
    have hnodup := hreg.nodup.sublist hsuffix.sublist
    rw [List.filter_cons_of_pos hq, List.nodup_cons] at hnodup
    exact hnodup.1 (List.mem_filter.mpr ⟨hin, hq⟩)

end Handles

def Op.place : Op T X H → Option X
  | .create x _ | .insert x | .wait x | .destroy x => some x
  | _ => none

omit [DecidableEq X] in
theorem create_other {kernel : Kernel T H} {q : QueueHandle H} {k : H} {items : List T}
    (hf : fresh kernel q = true) (hk : kernel k = some items) :
    xQueueCreate kernel q k = some items := by
  cases q with
  | none => exact hk
  | some k' =>
    have hne : k ≠ k' := by
      rintro rfl
      simp [fresh, hk] at hf
    exact (Function.update_of_ne hne _ _).trans hk

/-- What one Subscriber does concerns no other object. -/
theorem frame_of_place {depth : Nat} {x y : X} {s t : State T X H} {a : Op T X H} (hyx : y ≠ x)
    (ha : a.place = some y) (h : s.step depth a = some t) :
    t.subscribers x = s.subscribers x ∧ t.received x = s.received x ∧
      t.publishing = s.publishing := by
  cases State.steps_of_step h with
  | create z q hp hz hf => exact ⟨rfl, rfl, rfl⟩
  | insert z q hm hp =>
    obtain rfl : z = y := Option.some.inj ha
    exact ⟨Function.update_of_ne hyx.symm _ _, rfl, rfl⟩
  | discard z o hz ho =>
    obtain rfl : z = y := Option.some.inj ha
    exact ⟨Function.update_of_ne hyx.symm _ _, rfl, rfl⟩
  | destroy z k hm hz =>
    obtain rfl : z = y := Option.some.inj ha
    rw [unsubscribe_publishing, unsubscribe_subscribers, unsubscribe_received]
    exact ⟨Function.update_of_ne hyx.symm _ _, rfl, rfl⟩
  | wait z o items kernel hz hr =>
    obtain rfl : z = y := Option.some.inj ha
    exact ⟨rfl, Function.update_of_ne hyx.symm _ _, rfl⟩
  | moveConstruct | selfAssign | moveAssign | lock | send | unlock => cases ha

theorem Serving.other {depth : Nat} {x y : X} {s t : State T X H} {log : Log T} {a : Op T X H}
    {o : Subscriber H} {k : H} (hs : Serving depth x s log) (hx : s.subscribers x = some o)
    (hq : o.queue = some k) (hyx : y ≠ x) (ha : a.place = some y) (h : s.step depth a = some t) :
    t.kernel k = s.kernel k := by
  cases State.steps_of_step h with
  | create z q hp hz hf =>
    have hk := (hs.delivered o k hx hq).pending
    exact (create_other hf hk).trans hk.symm
  | destroy z k' hm hz =>
    obtain rfl : z = y := Option.some.inj ha
    apply unsubscribe_other
    rintro rfl
    exact hyx (hs.exclusive hz rfl hx hq)
  | wait z o' items kernel hz hr =>
    obtain rfl : z = y := Option.some.inj ha
    apply receive_other hr
    intro he
    exact hyx (hs.exclusive hz he.symm hx hq)
  | insert | discard => rfl
  | moveConstruct | selfAssign | moveAssign | lock | send | unlock => cases ha

omit [DecidableEq X] in
theorem Delivered.congr {depth : Nat} {x : X} {k : H} {s t : State T X H} {log : Log T}
    (hs : Delivered depth x k s log) (hr : t.received x = s.received x)
    (hk : t.kernel k = s.kernel k) (hf : t.inFlight (some k) = s.inFlight (some k)) :
    Delivered depth x k t log :=
  ⟨hr.trans hs.received, hk.trans hs.pending, by rw [hf]; exact hs.published⟩

theorem note_other {x y : X} {s : State T X H} {a : Op T X H} (hyx : y ≠ x)
    (ha : a.place = some y) (log : Log T) : note x s a log = log := by
  cases a with
  | insert z | wait z =>
    obtain rfl : z = y := Option.some.inj ha
    exact if_neg hyx
  | create | destroy => rfl
  | moveConstruct | moveAssign | lock | send | unlock => cases ha

theorem Serving.deliver_other {depth : Nat} {x y : X} {s t : State T X H} {log : Log T}
    {a : Op T X H} {o : Subscriber H} {k : H} (hs : Serving depth x s log) (hyx : y ≠ x)
    (ha : a.place = some y) (h : s.step depth a = some t) (hx : t.subscribers x = some o)
    (hq : o.queue = some k) : Delivered depth x k t (note x s a log) := by
  obtain ⟨hsubscribers, hreceived, hpublishing⟩ := frame_of_place hyx ha h
  rw [hsubscribers] at hx
  rw [note_other hyx ha]
  apply (hs.delivered o k hx hq).congr hreceived (hs.other hx hq hyx ha h)
  rw [State.inFlight, hpublishing]
  rfl

omit [DecidableEq X] in
theorem Delivered.send {depth : Nat} {x : X} {k : H} {s : State T X H} {log : Log T} {data : T}
    {qs : List (QueueHandle H)} (hs : Delivered depth x k s log)
    (hm : s.publishing = some (data, some k :: qs)) (hout : some k ∉ qs) :
    Delivered depth x k
      { s with
        publishing := some (data, qs)
        kernel := xQueueSend depth s.kernel data (some k)
        calls := s.calls ++ [.send (some k)] }
      { log with events := log.events ++ [.put data] } := by
  refine ⟨?_, ?_, ?_⟩
  · rw [fold_concat, received_put]
    exact hs.received
  · rw [fold_concat, Inbox.step]
    simp only [xQueueSend, hs.pending]
    split
    · rw [Function.update_self]
    · exact hs.pending
  · have hbefore : s.inFlight (some k) = [data] := by simp [State.inFlight, hm]
    have hpublished := hs.published
    rw [hbefore] at hpublished
    rw [puts_append, ← hpublished]
    simp [State.inFlight, hout, puts]

theorem Delivered.wait {depth : Nat} {x : X} {k : H} {s : State T X H} {log : Log T}
    {items : List T} {kernel : Kernel T H} (hs : Delivered depth x k s log)
    (hr : xQueueReceive s.kernel (some k) = some (items, kernel)) :
    Delivered depth x k
      { s with
        kernel := kernel
        received := Function.update s.received x (s.received x ++ items)
        calls := s.calls ++ [.receive (some k)] }
      { log with events := log.events ++ [.take] } := by
  have hpending := hs.pending
  simp only [xQueueReceive, hpending] at hr
  split at hr
  next he => cases he
  next he => cases hr
  next data rest he =>
    have hfold : (fold depth log.events).pending = data :: rest := Option.some.inj he
    obtain ⟨rfl, rfl⟩ := Prod.mk.inj (Option.some.inj hr)
    refine ⟨(Function.update_self ..).trans ?_, (Function.update_self ..).trans ?_, ?_⟩
    · rw [fold_concat, take_cons hfold, hs.received, List.append_assoc]
    · rw [fold_concat, take_cons hfold]
    · rw [puts_append, ← hs.published]
      exact congrArg (· ++ _) (List.append_nil _)

theorem Serving.deliver {depth : Nat} {x : X} {s t : State T X H} {log : Log T} {a : Op T X H}
    {o : Subscriber H} {k : H} (hs : Serving depth x s log) (ha : a.Stays)
    (h : s.step depth a = some t) (hx : t.subscribers x = some o) (hq : o.queue = some k) :
    Delivered depth x k t (note x s a log) := by
  by_cases hother : ∃ y, y ≠ x ∧ a.place = some y
  · obtain ⟨y, hyx, hplace⟩ := hother
    exact hs.deliver_other hyx hplace h hx hq
  · have hown : ∀ y, a.place = some y → y = x := by
      intro y hy
      by_contra hyx
      exact hother ⟨y, hyx, hy⟩
    cases State.steps_of_step h with
    | create y q hp hy hf =>
      obtain rfl := hown y rfl
      exact absurd hx (by simp [hy])
    | insert y q hm hp =>
      obtain rfl := hown y rfl
      change Function.update s.subscribers y _ y = some o at hx
      rw [Function.update_self] at hx
      obtain rfl : q = some k := (congrArg Subscriber.queue (Option.some.inj hx)).trans hq
      rw [note, if_pos rfl]
      refine ⟨(List.append_nil _).symm, hs.pendingEmpty y k hp, ?_⟩
      simp [State.inFlight, hm, puts]
    | discard y o' hy ho =>
      obtain rfl := hown y rfl
      exact absurd hx (by simp)
    | destroy y k' hm hy =>
      obtain rfl := hown y rfl
      exact absurd hx (by simp [unsubscribe_subscribers])
    | lock data hm =>
      have hd := hs.delivered o k hx hq
      refine ⟨hd.received, hd.pending, ?_⟩
      have hnone : s.inFlight (some k) = [] := by simp [State.inFlight, hm]
      have hpublished := hd.published
      rw [hnone, List.append_nil] at hpublished
      simp [State.inFlight, hs.listed hx hq, note, hpublished]
    | send data q qs hm =>
      change s.subscribers x = some o at hx
      have hd := hs.delivered o k hx hq
      by_cases hown' : q = some k
      · subst q
        have hnote : note x s .send log = { log with events := log.events ++ [.put data] } := by
          simp [note, hm, hx, hq]
        rw [hnote]
        exact hd.send hm ((hs.loop hm).2 rfl)
      · have hnote : note x s .send log = log := by
          simp [note, hm, hx, hq, Ne.symm hown']
        rw [hnote]
        refine hd.congr rfl (send_other depth s.kernel data (Ne.symm hown')) ?_
        simp [State.inFlight, hm, Ne.symm hown']
    | unlock data hm =>
      refine (hs.delivered o k hx hq).congr rfl rfl ?_
      simp [State.inFlight, hm]
    | wait y o' items kernel hy hr =>
      obtain rfl := hown y rfl
      obtain rfl : o' = o := Option.some.inj (hy.symm.trans hx)
      rw [note, if_pos rfl]
      rw [hq] at hr ⊢
      exact (hs.delivered o' k hx hq).wait hr
    | moveConstruct | selfAssign | moveAssign => exact ha.elim

theorem Serving.attach {depth : Nat} {x : X} {s t : State T X H} {log : Log T} {a : Op T X H}
    (hs : Serving depth x s log) (ha : a.Stays) (h : s.step depth a = some t) {y : X}
    {o : Subscriber H} (hy : t.subscribers y = some o) : o.parent = true := by
  cases State.steps_of_step h with
  | insert z q hm hp =>
    obtain ⟨_, rfl⟩ | ⟨_, hy⟩ := grant_eq_some.mp hy
    · rfl
    · exact hs.attached y o hy
  | discard z o' hz ho => exact hs.attached y o (drop_eq_some.mp hy).2
  | destroy z k hm hz =>
    rw [unsubscribe_subscribers] at hy
    exact hs.attached y o (drop_eq_some.mp hy).2
  | create | lock | send | unlock | wait => exact hs.attached y o hy
  | moveConstruct | selfAssign | moveAssign => exact ha.elim

/-- Nobody uses the queue of a subscription that is still to be made. -/
theorem Serving.keepEmpty {depth : Nat} {x : X} {s t : State T X H} {log : Log T} {a : Op T X H}
    (hs : Serving depth x s log) (ha : a.Stays) (h : s.step depth a = some t) {y : X} {k : H}
    (hy : t.pending y = some (some k)) : t.kernel k = some [] := by
  cases State.steps_of_step h with
  | create z q hp hz hf =>
    obtain ⟨_, rfl⟩ | ⟨_, hy⟩ := grant_eq_some.mp hy
    · exact Function.update_self ..
    · exact create_other hf (hs.pendingEmpty y k hy)
  | insert z q hm hp => exact hs.pendingEmpty y k (drop_eq_some.mp hy).2
  | destroy z k' hm hz =>
    rw [unsubscribe_pending] at hy
    have hne : k ≠ k' := by
      rintro rfl
      exact hs.unlisted hy (hs.listed hz rfl)
    rw [unsubscribe_other _ hne]
    exact hs.pendingEmpty y k hy
  | send data q qs hm =>
    have hne : some k ≠ q := by
      rintro rfl
      exact hs.unlisted hy ((hs.loop hm).1 rfl)
    exact (send_other depth s.kernel data hne).trans (hs.pendingEmpty y k hy)
  | wait z o items kernel hz hr =>
    have hne : some k ≠ o.queue := fun he => hs.unlisted hy (hs.listed hz he.symm)
    exact (receive_other hr hne).trans (hs.pendingEmpty y k hy)
  | discard | lock | unlock => exact hs.pendingEmpty y k hy
  | moveConstruct | selfAssign | moveAssign => exact ha.elim

theorem Serving.step {depth : Nat} {x : X} {s t : State T X H} {log : Log T} {a : Op T X H}
    (hs : Serving depth x s log) (ha : a.Stays) (h : s.step depth a = some t) :
    Serving depth x t (note x s a log) where
  tolerant := hs.tolerant.step ha h
  attached _ _ := hs.attach ha h
  pendingEmpty _ _ := hs.keepEmpty ha h
  delivered _ _ := hs.deliver ha h

/-- What a Subscriber gets of what is published. The inbox of its own history is
what it received and its queue; a publish is missing there only if the queue was full. -/
structure Fifo (depth : Nat) (x : X) (k : H) (s : State T X H) (log : Log T) : Prop where
  delivered : Delivered depth x k s log
  accepted : (fold depth log.events).contents = accepted depth Inbox.empty log.events
  inOrder : (fold depth log.events).contents.Sublist log.published
  dropped : ∀ events data rest, log.events = events ++ .put data :: rest →
    (fold depth (events ++ [.put data])).contents ≠ (fold depth events).contents ++ [data] →
    (fold depth events).pending.length = depth
  independent : ∀ y a t, y ≠ x → a.place = some y → s.step depth a = some t →
    t.received x = s.received x ∧ t.kernel k = s.kernel k

theorem Serving.fifo {depth : Nat} {x : X} {s : State T X H} {log : Log T} {o : Subscriber H}
    {k : H} (hs : Serving depth x s log) (hx : s.subscribers x = some o) (hq : o.queue = some k) :
    Fifo depth x k s log := by
  have hd := hs.delivered o k hx hq
  have haccepted := contents_foldl depth Inbox.empty log.events
  refine ⟨hd, haccepted, ?_, fun _ _ _ _ hput => put_dropped hput, ?_⟩
  · rw [← hd.published, fold, haccepted]
    exact (accepted_sublist depth _ _).trans (List.sublist_append_left _ _)
  · intro y a t hyx hplace ht
    exact ⟨(frame_of_place hyx hplace ht).2.1, hs.other hx hq hyx hplace ht⟩

/-- In every interleaving each Subscriber sees a FIFO of its own. -/
theorem subscriber_fifo (depth : Nat) {as : List (Op T X H)} {s : State T X H}
    (hstays : ∀ a ∈ as, a.Stays) (h : run (State.step depth) State.init as = some s)
    {x : X} {o : Subscriber H} {k : H} (hx : s.subscribers x = some o) (hq : o.queue = some k) :
    ∃ log, run (withHistory (State.step depth) (note x)) (State.init, Log.start) as =
        some (s, log) ∧ Fifo depth x k s log := by
  obtain ⟨log, hlog, hs⟩ := run_withHistory (note x)
    (fun s log a t ha (hs : Serving depth x s log) ht => hs.step ha ht) hstays
    (Serving.init depth x) h
  exact ⟨log, hlog, hs.fifo hx hq⟩

def keepsUp : List (Op Char Nat Nat) :=
  [.create 0 (some 7), .insert 0, .lock '1', .send, .unlock, .create 1 (some 8), .insert 1,
    .wait 0, .lock '2', .send, .send, .unlock, .wait 0, .lock '3', .send, .send, .unlock]

theorem subscriber_fifo_keepsUp :
    ∃ s log, run (withHistory (State.step 1) (note 1)) (State.init, Log.start) keepsUp =
        some (s, log) ∧ Fifo 1 1 8 s log := by
  obtain ⟨s, hs, hx⟩ : ∃ s, run (State.step 1) State.init keepsUp = some s ∧
      s.subscribers 1 = some ⟨true, some 8⟩ := ⟨_, rfl, rfl⟩
  exact ⟨s, subscriber_fifo 1 (by simp [keepsUp, Op.Stays]) hs hx rfl⟩

example : (run (State.step 1) State.init keepsUp).map (fun s => (s.received 0, s.kernel 7, s.kernel 8)) =
    some (['1', '2'], some ['3'], some ['2']) := rfl

end Thermometer.Publisher
