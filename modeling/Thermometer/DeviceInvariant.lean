import Thermometer.Device

namespace Thermometer.Device

open Thermometer.Transition

variable {ι H : Type} {V : ι → Type} [DecidableEq ι] [DecidableEq H]

/-- The queue of the only subscriber, from its creation on. -/
def Subscribed (m : Model.State V Unit H) : Model.Subscriber → Prop
  | .outside => m.publisher.queues = [] ∧ m.publisher.subscribers () = none ∧
      m.publisher.pending () = none ∧ ∀ k, m.publisher.kernel k = none
  | .subscribing => m.publisher.queues = [] ∧ m.publisher.subscribers () = none ∧
      ∃ k, m.publisher.pending () = some (some k) ∧ m.publisher.kernel k = some []
  | .waiting | .reading => ∃ k items, m.publisher.queues = [some k] ∧
      m.publisher.subscribers () = some ⟨true, some k⟩ ∧ m.publisher.kernel k = some items ∧
      (items ≠ [] → 0 < m.published)

structure Alone (m : Model.State V Unit H) : Prop where
  subscribed : Subscribed m (m.subscribers ())
  sending : m.writer = .sending → 0 < m.published

omit [DecidableEq ι] [DecidableEq H] in
theorem Alone.init (version : Nat → ∀ i, V i) : Alone (.init version : Model.State V Unit H) where
  subscribed := ⟨rfl, rfl, rfl, fun _ => rfl⟩
  sending := by simp [Model.State.init]

theorem Alone.step [Fintype ι] {version : Nat → ∀ i, V i} {s t : Model.State V Unit H}
    {a : Model.Label ι Unit H} (hinv : Model.Inv version s) (hs : Alone s)
    (h : s.step version a = some t) : Alone t := by
  obtain ⟨hsub, hsend⟩ := hs
  cases Model.State.steps_of_step h with
  | write a l hp hl =>
    refine ⟨hsub, fun hw => ?_⟩
    dsimp only at hw
    split at hw <;> cases hw
  | lock p hp hl =>
    cases Publisher.State.steps_of_step hl with
    | lock data hm =>
      refine ⟨?_, fun _ => Nat.succ_pos _⟩
      cases hs : s.subscribers () with
      | outside | subscribing => simpa only [hs, Subscribed] using hsub
      | waiting | reading =>
        simp only [hs, Subscribed] at hsub ⊢
        obtain ⟨k, items, hq, hx, hk, -⟩ := hsub
        exact ⟨k, items, hq, hx, hk, fun _ => Nat.succ_pos _⟩
  | send p hp hl =>
    cases Publisher.State.steps_of_step hl with
    | send data q qs hm =>
      have hpos := hsend hp
      have hmem : q ∈ s.publisher.queues :=
        (hinv.registered.loop data _ hm).subset List.mem_cons_self
      refine ⟨?_, fun _ => hpos⟩
      cases hs : s.subscribers () with
      | outside | subscribing =>
        simp only [hs, Subscribed] at hsub
        simp [hsub.1] at hmem
      | waiting | reading =>
        simp only [hs, Subscribed] at hsub ⊢
        obtain ⟨k, items, hq, hx, hk, -⟩ := hsub
        obtain rfl : q = some k := by simpa [hq] using hmem
        obtain ⟨item, rest, hfill⟩ := Publisher.send_fills Nat.one_pos data ⟨k, items, rfl, hk⟩
        exact ⟨k, _, hq, hx, hfill, fun _ => hpos⟩
  | unlock p hp hl =>
    cases Publisher.State.steps_of_step hl with
    | unlock data hm =>
      refine ⟨?_, by simp⟩
      cases hs : s.subscribers () <;> simpa only [hs, Subscribed] using hsub
  | create r k p hp hl =>
    cases Publisher.State.steps_of_step hl with
    | create x q hpend hx hf =>
      simp only [hp, Subscribed] at hsub
      refine ⟨?_, hsend⟩
      simp only [Function.update_self, Subscribed]
      exact ⟨hsub.1, hsub.2.1, k, rfl, Function.update_self ..⟩
  | insert r p hp hl =>
    cases Publisher.State.steps_of_step hl with
    | insert x q hm hpend =>
      simp only [hp, Subscribed] at hsub
      obtain ⟨hq, -, k, hk, hempty⟩ := hsub
      obtain rfl : q = some k := Option.some.inj (hpend.symm.trans hk)
      refine ⟨?_, hsend⟩
      simp only [Function.update_self, Subscribed]
      exact ⟨k, [], by rw [hq]; rfl, rfl, hempty, fun hne => absurd rfl hne⟩
  | wait r p hp hl =>
    cases Publisher.State.steps_of_step hl with
    | wait x o items kernel hx hr =>
      simp only [hp, Subscribed] at hsub
      obtain ⟨k, stored, hq, hx', hk, hpos⟩ := hsub
      obtain rfl : o = ⟨true, some k⟩ := Option.some.inj (hx.symm.trans hx')
      refine ⟨?_, hsend⟩
      simp only [Function.update_self, Subscribed]
      cases stored with
      | nil => simp [Publisher.xQueueReceive, hk] at hr
      | cons item rest =>
        simp only [Publisher.xQueueReceive, hk, Option.some.injEq, Prod.mk.injEq] at hr
        obtain ⟨-, rfl⟩ := hr
        exact ⟨k, rest, hq, hx', Function.update_self .., fun _ => hpos (by simp)⟩
  | read r a l hp hl =>
    refine ⟨?_, hsend⟩
    simp only [hp, Subscribed] at hsub
    simp only [Function.update_self]
    cases a <;> exact hsub

omit [DecidableEq ι] [DecidableEq H] in
theorem Alone.length_queues {m : Model.State V Unit H} (hm : Alone m) :
    m.publisher.queues.length ≤ 1 := by
  have hsub := hm.subscribed
  cases hp : m.subscribers () with
  | outside | subscribing =>
    rw [hp] at hsub
    simp [hsub.1]
  | waiting | reading =>
    rw [hp] at hsub
    obtain ⟨k, items, hq, -⟩ := hsub
    simp [hq]

/-- The notifications that wait in the queue of the poster. -/
def backlog (m : Model.State V Unit H) : Nat :=
  match m.publisher.queues with
  | some k :: _ => ((m.publisher.kernel k).getD []).length
  | _ => 0

omit [DecidableEq ι] [DecidableEq H] in
theorem backlog_le {m : Model.State V Unit H} (hm : Publisher.Shallow 1 m.publisher) :
    backlog m ≤ 1 := by
  unfold backlog
  split
  · rename_i k rest hq
    cases hk : m.publisher.kernel k with
    | none => exact Nat.zero_le _
    | some items => exact hm k items hk
  · exact Nat.zero_le _

/-- Each measured round is one call of `write`, which may still be to come. -/
def State.Calls (s : State V H) : Sensor → Prop
  | .writing =>
      (s.model.writer = .idle ∧ s.model.lock.history.started + 1 = s.written.length) ∨
      (s.model.writer ≠ .idle ∧ s.model.lock.history.started = s.written.length)
  | _ => s.model.writer = .idle ∧ s.model.lock.history.started = s.written.length

/-- The poster and its side of the model. A read begins after a notification, and
so after the first write. -/
def State.Polls (s : State V H) : PosterTask.Poster → Prop
  | .start => s.model.subscribers () ≠ .reading
  | .waiting | .posting _ _ => s.model.subscribers () = .waiting
  | .woken => s.model.subscribers () = .reading ∧ s.model.lock.readers () = .idle ∧
      0 < s.model.published
  | .reading _ => s.model.subscribers () = .reading ∧ 0 < s.model.published ∧
      (s.model.lock.readers () ≠ .idle → 0 < s.model.lock.history.begun ())

structure Inv (layout : SensorReadings ≃ ∀ i, V i) (s : State V H) : Prop where
  model : Model.Inv (s.version layout) s.model
  alone : Alone s.model
  calls : s.Calls s.sensor
  polls : s.Polls s.poster
  stamped : ∀ timestamp, s.sensor = .stamped timestamp → timestamp ≤ s.clock
  written : ∀ r ∈ s.written, r.timestamp ≤ s.clock

variable {layout : SensorReadings ≃ ∀ i, V i} {showFloat : Binary32 → List Char}
  {sensors : SensorTask.Sensors} {s t : State V H}

omit [DecidableEq H] in
theorem inv_init (layout : SensorReadings ≃ ∀ i, V i) (clock : Int) :
    Inv layout (.init layout clock : State V H) where
  model := by
    refine (Model.Inv.init fun _ => layout initialReadings).congr fun k hk => ?_
    obtain rfl : k = 0 := Nat.le_zero.mp hk
    rfl
  alone := .init _
  calls := ⟨rfl, rfl⟩
  polls := by simp [State.init, State.Polls, Model.State.init]
  stamped := by simp [State.init]
  written := by simp [State.init]

omit [DecidableEq ι] [DecidableEq H] in
theorem State.Calls.congr {p : Sensor} (h : s.Calls p) (hw : t.model.writer = s.model.writer)
    (hst : t.model.lock.history.started = s.model.lock.history.started)
    (hwritten : t.written = s.written) : t.Calls p := by
  cases p <;> simpa only [State.Calls, hw, hst, hwritten] using h

omit [DecidableEq H] in
theorem Inv.started_le (hs : Inv layout s) : s.model.lock.history.started ≤ s.written.length := by
  have hcalls := hs.calls
  cases hp : s.sensor with
  | writing =>
    rw [hp] at hcalls
    obtain ⟨-, hlen⟩ | ⟨-, hlen⟩ := hcalls <;> omega
  | waiting | requested | converting | stamped | aborted =>
    rw [hp] at hcalls
    exact hcalls.2.le

variable [Fintype ι]

theorem Inv.calls_step (hs : Inv layout s) {a : Model.Label ι Unit H} {m : Model.State V Unit H}
    (ht : s.Advances layout a t) (hm : s.model.step (s.version layout) a = some m) :
    ({ t with model := m } : State V H).Calls t.sensor := by
  have hcalls := hs.calls
  have hphase := hs.model.phase
  cases ht with
  | writer a hp ha =>
    rw [hp] at hcalls ⊢
    right
    cases Model.State.steps_of_step hm with
    | write w l hw hl =>
      refine ⟨by dsimp only; split <;> simp, ?_⟩
      dsimp only
      rw [Model.started_write hl]
      obtain ⟨hidle, hlen⟩ | ⟨hbusy, hlen⟩ := hcalls
      · rw [hidle] at hphase
        rw [hphase.1, ← hlen]
        rfl
      · rw [hw.resolve_left hbusy] at hphase
        rw [hphase.1, ← hlen]
        rfl
    | lock p hw hl =>
      have hlen := hcalls.resolve_left fun h => by simp [hw] at h
      exact ⟨by simp, hlen.2⟩
    | send p hw hl => exact hcalls.resolve_left fun h => by simp [hw] at h
    | unlock | create | insert | wait | read => simp at ha
  | unlock hp =>
    rw [hp] at hcalls
    cases Model.State.steps_of_step hm with
    | unlock p hw hl =>
      have hlen := hcalls.resolve_left fun h => by simp [hw] at h
      exact ⟨rfl, hlen.2⟩
  | subscribe a hp ha =>
    cases Model.State.steps_of_step hm with
    | create | insert => exact hcalls.congr rfl rfl rfl
    | write | lock | send | unlock | wait | read => simp at ha
  | wait hp =>
    cases Model.State.steps_of_step hm with
    | wait => exact hcalls.congr rfl rfl rfl
  | read a now hp ha =>
    cases Model.State.steps_of_step hm with
    | read r a l hw hl => exact hcalls.congr rfl (Model.started_read hl) rfl
  | ret now d hp hd =>
    cases Model.State.steps_of_step hm with
    | read r a l hw hl => exact hcalls.congr rfl (Model.started_read hl) rfl

omit [DecidableEq ι] [DecidableEq H] [Fintype ι] in
/-- A step of the writer, by what the poster can see of it. -/
theorem State.Polls.congr {p : PosterTask.Poster} (h : s.Polls p)
    (hsub : t.model.subscribers = s.model.subscribers)
    (hreaders : t.model.lock.readers = s.model.lock.readers)
    (hbegun : t.model.lock.history.begun = s.model.lock.history.begun)
    (hpub : s.model.published ≤ t.model.published) : t.Polls p := by
  cases p with
  | start | waiting | posting => simpa only [State.Polls, hsub] using h
  | woken =>
    simp only [State.Polls, hsub, hreaders] at h ⊢
    exact ⟨h.1, h.2.1, h.2.2.trans_le hpub⟩
  | reading now =>
    simp only [State.Polls, hsub, hreaders, hbegun] at h ⊢
    exact ⟨h.1, h.2.1.trans_le hpub, h.2.2⟩

theorem Inv.polls_step (hs : Inv layout s) {a : Model.Label ι Unit H} {m : Model.State V Unit H}
    (ht : s.Advances layout a t) (hm : s.model.step (s.version layout) a = some m) :
    ({ t with model := m } : State V H).Polls t.poster := by
  have hpolls := hs.polls
  cases ht with
  | writer a hp ha =>
    cases Model.State.steps_of_step hm with
    | write w l hw hl =>
      obtain ⟨-, -, hreaders, hbegun, -⟩ := Model.writer_progress hl
      exact hpolls.congr rfl hreaders hbegun (Nat.le_refl _)
    | lock => exact hpolls.congr rfl rfl rfl (Nat.le_succ _)
    | send => exact hpolls.congr rfl rfl rfl (Nat.le_refl _)
    | unlock | create | insert | wait | read => simp at ha
  | unlock hp =>
    cases Model.State.steps_of_step hm with
    | unlock => exact hpolls.congr rfl rfl rfl (Nat.le_refl _)
  | subscribe a hp ha =>
    simp only [hp, State.Polls] at hpolls ⊢
    cases Model.State.steps_of_step hm with
    | create | insert => simp
    | write | lock | send | unlock | wait | read => simp at ha
  | wait hp =>
    have hsub := hs.alone.subscribed
    cases Model.State.steps_of_step hm with
    | wait r p hw hl =>
      have hidle : s.model.lock.readers () = .idle := hs.model.resting () (by simp [hw])
      refine ⟨by simp, hidle, ?_⟩
      -- the notification in the queue was sent by a publish
      simp only [hw, Subscribed] at hsub
      obtain ⟨k, items, -, hx, hk, hpos⟩ := hsub
      apply hpos
      rintro rfl
      simp [Publisher.State.step, hx, Publisher.xQueueReceive, hk] at hl
  | read a now hp ha =>
    simp only [hp, State.Polls] at hpolls ⊢
    obtain ⟨-, hpub, hbegun⟩ := hpolls
    have hle := hs.model.published_le
    cases Model.State.steps_of_step hm with
    | read r a l hw hl =>
      obtain ⟨-, hread, hb⟩ | ⟨hbusy, hread, hb⟩ | ⟨-, hread, -⟩ := Model.reader_progress hl
      · exact ⟨by simpa using hread, hpub, fun _ => by dsimp only; omega⟩
      · exact ⟨by simpa using hread, hpub, fun _ => by have := hbegun hbusy; dsimp only; omega⟩
      · cases a <;> simp [Model.afterRead] at hread ha
  | ret now d hp hd =>
    cases Model.State.steps_of_step hm with
    | read r a l hw hl =>
      unfold PosterTask.afterRead
      split <;> [skip; split] <;> simp [State.Polls, Model.afterRead]

omit [DecidableEq ι] [DecidableEq H] [Fintype ι] in
theorem version_measure (r : SensorReadings) {k : Nat} (hk : k ≤ s.written.length) :
    { s with written := s.written ++ [r] }.version layout k = s.version layout k := by
  have hlt : k < (initialReadings :: s.written).length := Nat.lt_succ_of_le hk
  simp only [State.version]
  rw [← List.cons_append, List.getD_eq_getElem?_getD, List.getElem?_append_left hlt,
    ← List.getD_eq_getElem?_getD]

omit [DecidableEq ι] [DecidableEq H] [Fintype ι] in
theorem calls_of_ne {p : Sensor} (h : p ≠ .writing) :
    s.Calls p ↔ s.model.writer = .idle ∧ s.model.lock.history.started = s.written.length := by
  cases p with
  | writing => exact absurd rfl h
  | _ => rfl

omit [Fintype ι] [DecidableEq H] in
/-- The sensor task goes on before and after its call of `write`. -/
theorem Inv.turn (hs : Inv layout s) {sensor : Sensor} {requests : Nat} (hp : s.sensor ≠ .writing)
    (hsensor : sensor ≠ .writing)
    (hstamped : ∀ timestamp, sensor = .stamped timestamp → timestamp ≤ s.clock) :
    Inv layout { s with sensor := sensor, requests := requests } where
  model := hs.model
  alone := hs.alone
  calls := (calls_of_ne hsensor).mpr ((calls_of_ne hp).mp hs.calls)
  polls := hs.polls.congr rfl rfl rfl (Nat.le_refl _)
  stamped := hstamped
  written := hs.written

omit [Fintype ι] [DecidableEq H] in
/-- The poster goes on between its steps in the model. -/
theorem Inv.move (hs : Inv layout s) {poster : PosterTask.Poster} {nextUpdate : Int}
    {posts : List PosterTask.Post} (hpoll : s.Polls poster) :
    Inv layout { s with poster := poster, nextUpdate := nextUpdate, posts := posts } where
  model := hs.model
  alone := hs.alone
  calls := hs.calls.congr rfl rfl rfl
  polls := hpoll.congr rfl rfl rfl (Nat.le_refl _)
  stamped := hs.stamped
  written := hs.written

theorem Inv.model_step (hs : Inv layout s) {a : Model.Label ι Unit H} {m : Model.State V Unit H}
    (ht : s.Advances layout a t) (hm : s.model.step (s.version layout) a = some m) :
    Inv layout { t with model := m } := by
  have hmodel := hs.model.step hm
  have halone := hs.alone.step hs.model hm
  have hcalls := hs.calls_step ht hm
  have hpolls := hs.polls_step ht hm
  cases ht with
  | unlock => exact ⟨hmodel, halone, hcalls, hpolls, by simp, hs.written⟩
  | writer | subscribe | wait | read | ret =>
    exact ⟨hmodel, halone, hcalls, hpolls, hs.stamped, hs.written⟩

theorem Inv.step (hs : Inv layout s) {a : Label ι H}
    (h : s.step layout showFloat sensors a = some t) : Inv layout t := by
  obtain ⟨-, hsteps⟩ := State.steps_of_step layout showFloat sensors h
  have hcalls := hs.calls
  have hpolls := hs.polls
  cases hsteps with
  | tick elapsed =>
    have hclock : s.clock ≤ s.clock + elapsed := by omega
    exact ⟨hs.model, hs.alone, hcalls.congr rfl rfl rfl, hpolls.congr rfl rfl rfl (Nat.le_refl _),
      fun ts hts => (hs.stamped ts hts).trans hclock, fun r hr => (hs.written r hr).trans hclock⟩
  | update | delay =>
    exact ⟨hs.model, hs.alone, hcalls.congr rfl rfl rfl, hpolls.congr rfl rfl rfl (Nat.le_refl _),
      hs.stamped, hs.written⟩
  | receive _ hp | trigger _ hp | triggerFailed _ _ hp | measureFailed _ _ _ hp =>
    exact hs.turn (by simp [hp]) (by simp) (by simp)
  | stamp hp =>
    refine hs.turn (by simp [hp]) (by simp) ?_
    rintro timestamp ⟨⟩
    exact Int.le_refl _
  | measure get timestamp readings hp hget =>
    rw [hp] at hcalls
    refine ⟨hs.model.congr fun k hk => version_measure _ (hcalls.2 ▸ hk), hs.alone,
      .inl ⟨hcalls.1, ?_⟩, hpolls.congr rfl rfl rfl (Nat.le_refl _), by simp, ?_⟩
    · rw [List.length_append, List.length_singleton]
      exact congrArg (· + 1) hcalls.2
    · intro r hr
      obtain hr | hr := List.mem_append.mp hr
      · exact hs.written r hr
      · rw [List.mem_singleton.mp hr]
        exact hs.stamped timestamp hp
  | model a u m hu hm => exact hs.model_step hu hm
  | start hp hm => exact hs.move hm
  | now hp =>
    rw [hp] at hpolls
    have hpoll : s.Polls (.reading s.clock) :=
      ⟨hpolls.1, hpolls.2.2, fun hne => absurd hpolls.2.1 hne⟩
    exact hs.move hpoll
  | post now r hp =>
    rw [hp] at hpolls
    exact hs.move hpolls

theorem shallow_step (hs : Publisher.Shallow 1 s.model.publisher) {a : Label ι H}
    (h : s.step layout showFloat sensors a = some t) : Publisher.Shallow 1 t.model.publisher := by
  obtain hsame | ⟨b, u, m, rfl, -, hm, rfl⟩ := State.model_of_step h
  · rwa [hsame]
  · cases Model.State.steps_of_step hm with
    | write | read => exact hs
    | lock p hp hl => exact hs.step hl
    | send p hp hl => exact hs.step hl
    | unlock p hp hl => exact hs.step hl
    | create r k p hp hl => exact hs.step hl
    | insert r p hp hl => exact hs.step hl
    | wait r p hp hl => exact hs.step hl

end Thermometer.Device
