import Thermometer.Publisher

namespace Thermometer.Publisher

open Thermometer.Transition Thermometer.Ownership

variable {T X H : Type}

def Exists (kernel : Kernel T H) (q : QueueHandle H) : Prop :=
  ∃ h items, q = some h ∧ kernel h = some items

/-- A Subscriber owns its handle while its weak pointer is set. -/
def Subscriber.owns (o : Subscriber H) : Option (QueueHandle H) :=
  if o.parent then some o.queue else none

def State.owner (s : State T X H) (x : X) : Option (QueueHandle H) :=
  (s.subscribers x).bind Subscriber.owns

variable [DecidableEq X] [DecidableEq H]

/-- Ownership told from the operations alone: a handle is obtained from
`subscribe`, passed on by a move and given up by the destructor. -/
def ownerAfter (pending owner : X → Option (QueueHandle H)) :
    Op T X H → X → Option (QueueHandle H)
  | .insert x =>
      match pending x with
      | some q => grant owner x q
      | none => owner
  | .moveConstruct dst src => transfer owner dst src
  | .moveAssign dst src => if dst = src then owner else transfer owner dst src
  | .destroy x => drop owner x
  | _ => owner

omit [DecidableEq X] in
theorem exists_create (kernel : Kernel T H) (q r : QueueHandle H) :
    Exists (xQueueCreate kernel q) r ↔ Exists kernel r ∨ (r = q ∧ q ≠ none) := by
  cases q with
  | none => simp [xQueueCreate]
  | some h =>
    cases r with
    | none => simp [Exists]
    | some g => by_cases hg : g = h <;> simp [Exists, xQueueCreate, hg]

omit [DecidableEq X] in
theorem exists_send (depth : Nat) (kernel : Kernel T H) (data : T) (q r : QueueHandle H) :
    Exists (xQueueSend depth kernel data q) r ↔ Exists kernel r := by
  cases q with
  | none => rfl
  | some h =>
    simp only [xQueueSend]
    cases hk : kernel h with
    | none => rfl
    | some items =>
      dsimp only
      split
      · cases r with
        | none => simp [Exists]
        | some g => by_cases hg : g = h <;> simp [Exists, hg, hk]
      · rfl

omit [DecidableEq X] in
theorem exists_receive {kernel kernel' : Kernel T H} {q : QueueHandle H} {items : List T}
    (h : xQueueReceive kernel q = some (items, kernel')) (r : QueueHandle H) :
    Exists kernel' r ↔ Exists kernel r := by
  cases q with
  | none =>
    simp only [xQueueReceive, Option.some.injEq, Prod.mk.injEq] at h
    rw [h.2]
  | some k =>
    simp only [xQueueReceive] at h
    split at h
    · simp only [Option.some.injEq, Prod.mk.injEq] at h
      rw [h.2]
    · cases h
    · rename_i data rest hk
      simp only [Option.some.injEq, Prod.mk.injEq] at h
      obtain ⟨-, rfl⟩ := h
      cases r with
      | none => simp [Exists]
      | some g => by_cases hg : g = k <;> simp [Exists, hg, hk]

omit [DecidableEq X] in
theorem send_fills {depth : Nat} (hd : 0 < depth) {kernel : Kernel T H} (data : T) {h : H}
    (hex : Exists kernel (some h)) :
    ∃ item rest, xQueueSend depth kernel data (some h) h = some (item :: rest) := by
  obtain ⟨k, items, hk, hi⟩ := hex
  cases hk
  cases items with
  | nil => exact ⟨data, [], by simp [xQueueSend, hi, hd]⟩
  | cons item rest =>
    simp only [xQueueSend, hi]
    split
    · exact ⟨item, rest ++ [data], by simp⟩
    · exact ⟨item, rest, hi⟩

omit [DecidableEq X] in
theorem send_other (depth : Nat) (kernel : Kernel T H) (data : T) {q : QueueHandle H} {h : H}
    (hne : some h ≠ q) : xQueueSend depth kernel data q h = kernel h := by
  cases q with
  | none => rfl
  | some k =>
    have hk : h ≠ k := fun he => hne (he ▸ rfl)
    simp only [xQueueSend]
    cases kernel k with
    | none => rfl
    | some items =>
      dsimp only
      split
      · rw [Function.update_of_ne hk]
      · rfl

omit [DecidableEq X] in
theorem receive_other {kernel kernel' : Kernel T H} {q : QueueHandle H} {items : List T} {h : H}
    (hr : xQueueReceive kernel q = some (items, kernel')) (hne : some h ≠ q) :
    kernel' h = kernel h := by
  cases q with
  | none =>
    simp only [xQueueReceive, Option.some.injEq, Prod.mk.injEq] at hr
    rw [hr.2]
  | some k =>
    have hk : h ≠ k := fun he => hne (he ▸ rfl)
    simp only [xQueueReceive] at hr
    split at hr
    · simp only [Option.some.injEq, Prod.mk.injEq] at hr
      rw [hr.2]
    · cases hr
    · simp only [Option.some.injEq, Prod.mk.injEq] at hr
      rw [← hr.2, Function.update_of_ne hk]

omit [DecidableEq X] in
theorem exists_delete (kernel : Kernel T H) (q r : QueueHandle H) :
    Exists (vQueueDelete kernel q) r ↔ Exists kernel r ∧ (r ≠ q ∨ q = none) := by
  cases q with
  | none => simp [vQueueDelete]
  | some h =>
    cases r with
    | none => simp [Exists]
    | some g => by_cases hg : g = h <;> simp [Exists, vQueueDelete, hg]

omit [DecidableEq H] in
theorem owner_update (s : State T X H) (x : X) (o : Option (Subscriber H)) :
    State.owner { s with subscribers := Function.update s.subscribers x o } =
      Function.update s.owner x (o.bind Subscriber.owns) := by
  funext y
  by_cases hy : y = x
  · subst y; simp [State.owner]
  · simp [State.owner, hy]

omit [DecidableEq H] in
theorem owner_moveSubscriber (s : State T X H) {dst src : X} {o : Subscriber H}
    (hs : s.subscribers src = some o) :
    (s.moveSubscriber dst src o).owner = transfer s.owner dst src := by
  have ho : s.owner src = o.owns := by simp [State.owner, hs]
  funext y
  by_cases hd : y = dst
  · simp [State.owner, State.moveSubscriber, transfer, hd, hs]
  · by_cases hy : y = src
    · subst y
      simp [State.owner, State.moveSubscriber, transfer, hd, Subscriber.owns]
    · simp [State.owner, State.moveSubscriber, transfer, hd, hy]

omit [DecidableEq X] in
theorem owner_unsubscribe (s : State T X H) (q : QueueHandle H) :
    (s.unsubscribe q).owner = s.owner := by
  unfold State.unsubscribe
  split <;> rfl

/-- The objects' fields agree with ownership as the operations tell it. -/
theorem owner_step {depth : Nat} {s t : State T X H} {a : Op T X H}
    (h : s.step depth a = some t) : t.owner = ownerAfter s.pending s.owner a := by
  cases State.steps_of_step h with
  | create | lock | send | unlock | wait => rfl
  | insert x q hm hp =>
    simp only [ownerAfter, hp]
    exact owner_update _ _ _
  | moveConstruct dst src o hd hp hs => exact owner_moveSubscriber s hs
  | selfAssign x o hx => simp [ownerAfter]
  | moveAssign dst src old o hne hd hs =>
    simp only [ownerAfter, hne, ↓reduceIte]
    exact owner_moveSubscriber s hs
  | discard x o hx ho => exact owner_update _ _ _
  | destroy x h hm hx =>
    rw [owner_unsubscribe, owner_update]
    rfl

/-- `xQueueCreate` does not run out of memory in this operation. -/
def Op.Creates : Op T X H → Prop
  | .create _ none => False
  | _ => True

/-- What every run of successful subscriptions keeps, whatever is moved where. -/
structure Registered (s : State T X H) : Prop where
  nodup : s.queues.Nodup
  exist : ∀ q ∈ s.queues, Exists s.kernel q
  exclusive : Exclusive s.owner
  registered : ∀ q, Held s.owner q → q ∈ s.queues
  pendingExist : ∀ x q, s.pending x = some q → Exists s.kernel q ∧ q ∉ s.queues
  pendingExclusive : Exclusive s.pending
  pendingFree : ∀ x q, s.pending x = some q → s.subscribers x = none
  loop : ∀ data qs, s.publishing = some (data, qs) → qs <:+ s.queues

omit [DecidableEq X] [DecidableEq H] in
theorem Registered.init : Registered (State.init : State T X H) where
  nodup := List.nodup_nil
  exist := by simp [State.init]
  exclusive := by simp [Exclusive, State.owner, State.init]
  registered := by simp [Held, State.owner, State.init]
  pendingExist := by simp [State.init]
  pendingExclusive := by simp [Exclusive, State.init]
  pendingFree := by simp [State.init]
  loop := by simp [State.init]

omit [DecidableEq X] [DecidableEq H] in
theorem not_exists_of_fresh {kernel : Kernel T H} {q : QueueHandle H}
    (h : fresh kernel q = true) : ¬ Exists kernel q := by
  rintro ⟨h', items, rfl, hk⟩
  simp [fresh, hk] at h

omit [DecidableEq H] in
theorem Registered.move {s : State T X H} (hs : Registered s) {dst src : X} {o : Subscriber H}
    (hdst : s.pending dst = none) (hsrc : s.subscribers src = some o) :
    Registered (s.moveSubscriber dst src o) := by
  have hown : (s.moveSubscriber dst src o).owner = _ := owner_moveSubscriber s hsrc
  refine { hs with exclusive := ?_, registered := ?_, pendingFree := ?_ }
  · rw [hown]
    exact hs.exclusive.transfer dst src
  · intro q hq
    rw [hown] at hq
    exact hs.registered q (held_of_held_transfer hq)
  · intro y q hy
    have hold := hs.pendingFree y q hy
    have hyd : y ≠ dst := fun he => by
      have hy' : s.pending dst = some q := he ▸ hy
      simp [hdst] at hy'
    have hys : y ≠ src := fun he => by simp [he, hsrc] at hold
    simpa [State.moveSubscriber, hyd, hys] using hold

omit [DecidableEq X] [DecidableEq H] in
/-- A step that changes no list and no object, and no queue but for its items. -/
theorem Registered.congr {s t : State T X H} (hs : Registered s) (hq : t.queues = s.queues)
    (hsub : t.subscribers = s.subscribers) (hp : t.pending = s.pending)
    (hex : ∀ q, Exists t.kernel q ↔ Exists s.kernel q)
    (hloop : ∀ data qs, t.publishing = some (data, qs) → qs <:+ s.queues) : Registered t := by
  have hown : t.owner = s.owner := by
    funext x
    rw [State.owner, State.owner, hsub]
  refine ⟨?_, ?_, ?_, ?_, ?_, ?_, ?_, ?_⟩
  · exact hq ▸ hs.nodup
  · rw [hq]
    exact fun q hmem => (hex q).mpr (hs.exist q hmem)
  · exact hown ▸ hs.exclusive
  · rw [hq, hown]
    exact hs.registered
  · rw [hp, hq]
    exact fun x q hx => ⟨(hex q).mpr (hs.pendingExist x q hx).1, (hs.pendingExist x q hx).2⟩
  · exact hp ▸ hs.pendingExclusive
  · rw [hp, hsub]
    exact hs.pendingFree
  · rw [hq]
    exact hloop

theorem Registered.create {s : State T X H} (hs : Registered s) {x : X} {q : QueueHandle H}
    (hne : q ≠ none) (hx : s.subscribers x = none) (hf : fresh s.kernel q = true) :
    Registered
      { s with
        kernel := xQueueCreate s.kernel q
        pending := Function.update s.pending x (some q)
        calls := s.calls ++ [.create q] } := by
  have hnew := not_exists_of_fresh hf
  have hnp : ¬ Held s.pending q := fun ⟨y, hy⟩ => hnew (hs.pendingExist y q hy).1
  refine { hs with
    exist := fun r hr => (exists_create ..).mpr (.inl (hs.exist r hr))
    pendingExist := fun y r hy => ?_
    pendingExclusive := hs.pendingExclusive.grant x hnp
    pendingFree := fun y r hy => ?_ }
  · obtain ⟨_, rfl⟩ | ⟨_, hy⟩ := grant_eq_some.mp hy
    · exact ⟨(exists_create ..).mpr (.inr ⟨rfl, hne⟩), fun hm => hnew (hs.exist q hm)⟩
    · obtain ⟨he, hm⟩ := hs.pendingExist y r hy
      exact ⟨(exists_create ..).mpr (.inl he), hm⟩
  · obtain ⟨rfl, _⟩ | ⟨_, hy⟩ := grant_eq_some.mp hy
    · exact hx
    · exact hs.pendingFree y r hy

omit [DecidableEq H] in
theorem Registered.insert {s : State T X H} (hs : Registered s) {x : X} {q : QueueHandle H}
    (hm : s.publishing = none) (hp : s.pending x = some q) :
    Registered
      { s with
        queues := s.queues ++ [q]
        pending := Function.update s.pending x none
        subscribers := Function.update s.subscribers x (some ⟨true, q⟩) } := by
  obtain ⟨hex, hnot⟩ := hs.pendingExist x q hp
  have hx : s.owner x = none := by simp [State.owner, hs.pendingFree x q hp]
  have hnh : ¬ Held s.owner q := fun hh => hnot (hs.registered q hh)
  have hown : State.owner
      { s with subscribers := Function.update s.subscribers x (some ⟨true, q⟩) } =
      grant s.owner x q := owner_update s x _
  refine {
    nodup := hs.nodup.append (List.nodup_singleton q) (by simpa using hnot)
    exist := fun r hr => ?_
    exclusive := hown ▸ hs.exclusive.grant x hnh
    registered := fun r hr => ?_
    pendingExist := fun y r hy => ?_
    pendingExclusive := hs.pendingExclusive.drop x
    pendingFree := fun y r hy => ?_
    loop := fun d rs he => by simp [hm] at he }
  · obtain hr | hr := List.mem_append.mp hr
    · exact hs.exist r hr
    · exact List.mem_singleton.mp hr ▸ hex
  · obtain rfl | hr := (held_grant hx q r).mp (hown ▸ hr)
    · simp
    · exact List.mem_append_left _ (hs.registered r hr)
  · obtain ⟨hyx, hy⟩ := drop_eq_some.mp hy
    obtain ⟨he, hn⟩ := hs.pendingExist y r hy
    have hrq : r ≠ q := fun hrq => hyx (hs.pendingExclusive y x q (hrq ▸ hy) hp)
    exact ⟨he, by simp [hn, hrq]⟩
  · obtain ⟨hyx, hy⟩ := drop_eq_some.mp hy
    simpa [hyx] using hs.pendingFree y r hy

omit [DecidableEq H] in
/-- An object goes away and its handle, if it owned one, stays in the list. -/
theorem Registered.forget {s : State T X H} (hs : Registered s) (x : X) :
    Registered { s with subscribers := Function.update s.subscribers x none } := by
  have hown : State.owner { s with subscribers := Function.update s.subscribers x none } =
      drop s.owner x := owner_update s x none
  refine { hs with exclusive := ?_, registered := fun r hr => ?_, pendingFree := fun y r hy => ?_ }
  · rw [hown]
    exact hs.exclusive.drop x
  · rw [hown] at hr
    obtain ⟨y, hy⟩ := hr
    exact hs.registered r ⟨y, (drop_eq_some.mp hy).2⟩
  · by_cases hyx : y = x
    · simp [hyx]
    · simp [hyx, hs.pendingFree y r hy]

omit [DecidableEq X] in
/-- A handle that nobody owns any more is taken off the list with its queue. -/
theorem Registered.unsubscribe {s : State T X H} (hs : Registered s) {k : H}
    (hm : s.publishing = none) (hin : some k ∈ s.queues) (hfree : ¬ Held s.owner (some k)) :
    Registered (s.unsubscribe (some k)) := by
  have hmem : ∀ r, r ∈ s.queues.erase (some k) ↔ r ≠ some k ∧ r ∈ s.queues :=
    fun r => hs.nodup.mem_erase_iff
  simp only [State.unsubscribe, hin, ↓reduceIte]
  refine { hs with
    nodup := hs.nodup.erase _
    exist := fun r hr => ?_
    registered := fun r hr => ?_
    pendingExist := fun y r hy => ?_
    loop := fun d rs he => by simp [hm] at he }
  · obtain ⟨hne, hr⟩ := (hmem r).mp hr
    exact (exists_delete ..).mpr ⟨hs.exist r hr, .inl hne⟩
  · have hne : r ≠ some k := fun he => hfree (he ▸ hr)
    exact (hmem r).mpr ⟨hne, hs.registered r hr⟩
  · obtain ⟨he, hn⟩ := hs.pendingExist y r hy
    have hne : r ≠ some k := fun he => hn (he ▸ hin)
    exact ⟨(exists_delete ..).mpr ⟨he, .inl hne⟩, fun hr => hn ((hmem r).mp hr).2⟩

theorem Registered.step {depth : Nat} {s t : State T X H} {a : Op T X H} (hs : Registered s)
    (ha : a.Creates) (h : s.step depth a = some t) : Registered t := by
  cases State.steps_of_step h with
  | create x q hp hx hf =>
    have hne : q ≠ none := fun he => by simp [he, Op.Creates] at ha
    exact hs.create hne hx hf
  | insert x q hm hp => exact hs.insert hm hp
  | moveConstruct dst src o hd hp hsrc => exact hs.move hp hsrc
  | selfAssign x o hx => exact hs
  | moveAssign dst src old o hne hd hsrc =>
    refine hs.move ?_ hsrc
    by_contra hp
    obtain ⟨q, hq⟩ := Option.ne_none_iff_exists'.mp hp
    simp [hs.pendingFree dst q hq] at hd
  | discard x o hx ho => exact hs.forget x
  | destroy x k hm hx =>
    have howner : s.owner x = some (some k) := by simp [State.owner, hx, Subscriber.owns]
    have hfree : ¬ Held (drop s.owner x) (some k) := fun hh =>
      ((held_drop hs.exclusive howner (some k)).mp hh).1 rfl
    have hown : State.owner { s with subscribers := Function.update s.subscribers x none } =
        drop s.owner x := owner_update s x none
    exact (hs.forget x).unsubscribe hm (hs.registered _ ⟨x, howner⟩) (hown ▸ hfree)
  | lock data hm =>
    refine hs.congr rfl rfl rfl (fun _ => Iff.rfl) fun d qs he => ?_
    simp only [Option.some.injEq, Prod.mk.injEq] at he
    exact he.2 ▸ List.suffix_rfl
  | send data q qs hm =>
    refine hs.congr rfl rfl rfl (fun r => exists_send ..) fun d rs he => ?_
    simp only [Option.some.injEq, Prod.mk.injEq] at he
    exact he.2 ▸ (List.suffix_cons q qs).trans (hs.loop data _ hm)
  | unlock data hm => exact hs.congr rfl rfl rfl (fun _ => Iff.rfl) (by simp)
  | wait x o items kernel hx hr => exact hs.congr rfl rfl rfl (exists_receive hr) hs.loop

end Thermometer.Publisher
