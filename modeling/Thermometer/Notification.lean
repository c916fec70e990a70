import Thermometer.Model

namespace Thermometer.Model

open Thermometer.Transition Thermometer.Publisher

variable {ι R H : Type} {V : ι → Type}

/-- How far the task in `Model::write` is, told by the counters of the lock and
of the publish calls. -/
def Phase (s : State V R H) : Writer → Prop
  | .idle => finished s.lock.writer = true ∧ s.published = s.lock.history.started ∧
      s.publisher.publishing = none
  | .write => finished s.lock.writer = false ∧ s.published = s.lock.history.completed ∧
      s.publisher.publishing = none
  | .publish => finished s.lock.writer = true ∧ s.published + 1 = s.lock.history.started ∧
      s.publisher.publishing = none
  | .sending => finished s.lock.writer = true ∧ s.published = s.lock.history.started ∧
      ∃ qs, s.publisher.publishing = some ('1', qs)

theorem Phase.congr {s t : State V R H} {w : Writer} (hp : Phase s w) (hl : t.lock = s.lock)
    (hq : t.publisher.publishing = s.publisher.publishing) (hn : t.published = s.published) :
    Phase t w := by
  cases w <;> simpa only [Phase, hl, hq, hn] using hp

def Handle (s : State V R H) (r : R) (h : H) : Prop :=
  s.publisher.subscribers r = some ⟨true, some h⟩

/-- Nobody that subscribed before the last publish misses it: the send is still
to come, or the queue holds an item, or a read is about to begin or began after
the data was stored, or the last read did. -/
inductive Notified (s : State V R H) (r : R) (h : H) : Prop where
  | ahead (qs) (hp : s.publisher.publishing = some ('1', qs)) (hq : some h ∈ qs)
  | queued (item rest) (hk : s.publisher.kernel h = some (item :: rest))
  | woken (hp : s.subscribers r = .reading) (hr : s.lock.readers r = .idle)
  | reading (hp : s.subscribers r = .reading) (hb : s.published ≤ s.lock.history.begun r)
  | read (hp : s.subscribers r = .waiting) (e)
      (he : (s.lock.history.returned r).getLast? = some e) (hb : s.published ≤ e.begun)

theorem Handle.owner {s : State V R H} {r : R} {h : H} (hr : Handle s r h) :
    s.publisher.owner r = some (some h) := by
  have hsub : s.publisher.subscribers r = some ⟨true, some h⟩ := hr
  simp [Publisher.State.owner, hsub, Publisher.Subscriber.owns]

/-- A step that leaves the queues, the readers and the counters of publishing
as they are keeps a subscriber notified. -/
theorem Notified.congr {s t : State V R H} {r : R} {h : H} (hn : Notified s r h)
    (hp : t.publisher.publishing = s.publisher.publishing)
    (hk : t.publisher.kernel h = s.publisher.kernel h) (hpub : t.published = s.published)
    (hsub : t.subscribers r = s.subscribers r) (hr : t.lock.readers r = s.lock.readers r)
    (hb : t.lock.history.begun r = s.lock.history.begun r)
    (hret : t.lock.history.returned r = s.lock.history.returned r) : Notified t r h := by
  cases hn with
  | ahead qs hq hm => exact .ahead qs (hp ▸ hq) hm
  | queued item rest hi => exact .queued item rest (hk ▸ hi)
  | woken hw hi => exact .woken (hsub ▸ hw) (hr ▸ hi)
  | reading hw hle => exact .reading (hsub ▸ hw) (by rw [hpub, hb]; exact hle)
  | read hw e he hle => exact .read (hsub ▸ hw) e (hret ▸ he) (by rw [hpub]; exact hle)

variable [DecidableEq ι]

structure Inv (version : Nat → ∀ i, V i) (s : State V R H) : Prop where
  lock : SequenceLock.WriterInv version s.lock
  quiet : ∀ r, SequenceLock.QuietInv version s.lock r
  registered : Registered s.publisher
  attached : ∀ r o, s.publisher.subscribers r = some o → o.parent = true
  phase : Phase s s.writer
  resting : ∀ r, s.subscribers r ≠ .reading → s.lock.readers r = .idle
  notified : ∀ r h, Handle s r h → s.subscribedAt r < s.published → Notified s r h

theorem Inv.init (version : Nat → ∀ i, V i) : Inv version (State.init version : State V R H) where
  lock := .init version
  quiet := .init version
  registered := .init
  attached := fun _ _ h => by simp [State.init, Publisher.State.init] at h
  phase := ⟨rfl, rfl, rfl⟩
  resting := fun _ _ => rfl
  notified := fun _ _ h => by simp [Handle, State.init, Publisher.State.init] at h

theorem Inv.congr {version version' : Nat → ∀ i, V i} {s : State V R H} (hs : Inv version s)
    (h : ∀ k ≤ s.lock.history.started, version' k = version k) : Inv version' s :=
  { hs with
    lock := hs.lock.congr h
    quiet := fun r => (hs.quiet r).congr hs.lock.completed_le h }

omit [DecidableEq ι] in
theorem eq_idle_of_finished {w : SequenceLock.Writer V} (h : finished w = true) : w = .idle := by
  cases w with
  | idle => rfl
  | loadSeq | storeOdd | setter => cases h

theorem started_of_finished {version : Nat → ∀ i, V i} {l : SequenceLock.System V R}
    (hl : SequenceLock.WriterInv version l) (h : finished l.writer = true) :
    l.history.started = l.history.completed := by
  have hcar := hl.carries
  cases hw : l.writer with
  | idle => rw [hw] at hcar; exact hcar
  | _ => simp [finished, hw] at h

theorem Inv.published_le {version : Nat → ∀ i, V i} {s : State V R H} (hs : Inv version s) :
    s.published ≤ s.lock.history.completed := by
  have hp := hs.phase
  cases hw : s.writer with
  | write => rw [hw] at hp; exact hp.2.1.le
  | idle | publish | sending =>
    rw [hw] at hp
    have hst := started_of_finished hs.lock hp.1
    have hpub := hp.2.1
    omega

variable [DecidableEq R] [DecidableEq H]

theorem Inv.publish_lock {version : Nat → ∀ i, V i} {s : State V R H} (hs : Inv version s)
    {p : Publisher.State Char R H} (hp : s.writer = .publish)
    (h : s.publisher.step 1 (.lock '1') = some p) :
    Inv version { s with publisher := p, writer := .sending, published := s.published + 1 } := by
  have hreg := hs.registered.step (a := .lock '1') trivial h
  have hphase := hs.phase
  rw [hp] at hphase
  cases Publisher.State.steps_of_step h with
  | lock data hm =>
    refine ⟨hs.lock, hs.quiet, hreg, hs.attached, ⟨hphase.1, hphase.2.1, _, rfl⟩, hs.resting, ?_⟩
    intro r k hk _
    exact .ahead s.publisher.queues rfl (hs.registered.registered _ ⟨r, Handle.owner (s := s) hk⟩)

theorem Inv.publish_send {version : Nat → ∀ i, V i} {s : State V R H} (hs : Inv version s)
    {p : Publisher.State Char R H} (hp : s.writer = .sending)
    (h : s.publisher.step 1 .send = some p) : Inv version { s with publisher := p } := by
  have hreg := hs.registered.step (a := .send) trivial h
  have hphase := hs.phase
  rw [hp] at hphase
  obtain ⟨hf, hpub, qs₀, hloop⟩ := hphase
  cases Publisher.State.steps_of_step h with
  | send data q qs hm =>
    obtain ⟨rfl, rfl⟩ : '1' = data ∧ qs₀ = q :: qs := by simpa [hloop] using hm
    refine ⟨hs.lock, hs.quiet, hreg, hs.attached, ?_, hs.resting, fun r k hk hlt => ?_⟩
    · simp only [hp]
      exact ⟨hf, hpub, qs, rfl⟩
    · have hex := hs.registered.exist _ (hs.registered.registered _ ⟨r, hk.owner⟩)
      -- whether the item was sent or dropped, the queue is not empty after the send
      have hsent : some k = q →
          ∃ item rest, xQueueSend 1 s.publisher.kernel '1' q k = some (item :: rest) :=
        fun hkq => hkq ▸ send_fills Nat.one_pos '1' hex
      cases hs.notified r k hk hlt with
      | ahead rs hrs hmem =>
        obtain rfl : q :: qs = rs := by simpa [hloop] using hrs
        by_cases hkq : some k = q
        · obtain ⟨item, rest, hi⟩ := hsent hkq
          exact .queued item rest hi
        · exact .ahead qs rfl ((List.mem_cons.mp hmem).resolve_left hkq)
      | queued item rest hi =>
        by_cases hkq : some k = q
        · obtain ⟨item, rest, hi⟩ := hsent hkq
          exact .queued item rest hi
        · exact .queued item rest ((send_other 1 _ '1' hkq).trans hi)
      | woken hw hi => exact .woken hw hi
      | reading hw hle => exact .reading hw hle
      | read hw e he hle => exact .read hw e he hle

theorem Inv.publish_unlock {version : Nat → ∀ i, V i} {s : State V R H} (hs : Inv version s)
    {p : Publisher.State Char R H} (hp : s.writer = .sending)
    (h : s.publisher.step 1 .unlock = some p) :
    Inv version { s with publisher := p, writer := .idle } := by
  have hreg := hs.registered.step (a := .unlock) trivial h
  have hphase := hs.phase
  rw [hp] at hphase
  cases Publisher.State.steps_of_step h with
  | unlock data hm =>
    refine ⟨hs.lock, hs.quiet, hreg, hs.attached, ⟨hphase.1, hphase.2.1, rfl⟩, hs.resting, ?_⟩
    intro r k hk hlt
    cases hs.notified r k hk hlt with
    | ahead qs hq hmem =>
      obtain ⟨-, rfl⟩ : data = '1' ∧ qs = [] := by simpa [hq] using hm.symm
      simp at hmem
    | queued item rest hi => exact .queued item rest hi
    | woken hw hi => exact .woken hw hi
    | reading hw hle => exact .reading hw hle
    | read hw e he hle => exact .read hw e he hle

theorem Inv.create {version : Nat → ∀ i, V i} {s : State V R H} (hs : Inv version s) {r : R}
    {k : H} {p : Publisher.State Char R H} (hp : s.subscribers r = .outside)
    (h : s.publisher.step 1 (.create r (some k)) = some p) :
    Inv version
      { s with publisher := p, subscribers := Function.update s.subscribers r .subscribing } := by
  have hreg := hs.registered.step (a := .create r (some k)) trivial h
  cases Publisher.State.steps_of_step h with
  | create x q hpend hx hf =>
    refine ⟨hs.lock, hs.quiet, hreg, hs.attached, ?_, fun q hq => ?_, fun q g hg hlt => ?_⟩
    · exact hs.phase.congr rfl rfl rfl
    · by_cases hqr : q = r
      · apply hs.resting q
        simp [hqr, hp]
      · apply hs.resting q
        simpa [hqr] using hq
    · have hqr : q ≠ r := fun he => by
        have hsub : s.publisher.subscribers r = some ⟨true, some g⟩ := he ▸ hg
        simp [hx] at hsub
      have hgk : g ≠ k := fun he => by
        have hex := hs.registered.exist _ (hs.registered.registered _ ⟨q, Handle.owner (s := s) hg⟩)
        exact not_exists_of_fresh hf (he ▸ hex)
      exact (hs.notified q g hg hlt).congr rfl (Function.update_of_ne hgk _ _) rfl
        (Function.update_of_ne hqr _ _) rfl rfl rfl

theorem Inv.insert {version : Nat → ∀ i, V i} {s : State V R H} (hs : Inv version s) {r : R}
    {p : Publisher.State Char R H} (hp : s.subscribers r = .subscribing)
    (h : s.publisher.step 1 (.insert r) = some p) :
    Inv version
      { s with
        publisher := p
        subscribers := Function.update s.subscribers r .waiting
        subscribedAt := Function.update s.subscribedAt r s.published } := by
  have hreg := hs.registered.step (a := .insert r) trivial h
  cases Publisher.State.steps_of_step h with
  | insert x q hm hpend =>
    refine ⟨hs.lock, hs.quiet, hreg, fun q o ho => ?_, ?_, fun q hq => ?_, fun q g hg hlt => ?_⟩
    · by_cases hqr : q = r
      · subst q
        have hnew := Option.some.inj ((Function.update_self r _ s.publisher.subscribers).symm.trans ho)
        exact hnew ▸ rfl
      · exact hs.attached q o ((Function.update_of_ne hqr _ _).symm.trans ho)
    · exact hs.phase.congr rfl rfl rfl
    · by_cases hqr : q = r
      · apply hs.resting q
        simp [hqr, hp]
      · apply hs.resting q
        simpa [hqr] using hq
    · have hqr : q ≠ r := fun he => by simp [he] at hlt
      have hold : Handle s q g := (Function.update_of_ne hqr _ _).symm.trans hg
      exact (hs.notified q g hold (by simpa [hqr] using hlt)).congr rfl rfl rfl
        (Function.update_of_ne hqr _ _) rfl rfl rfl

theorem Inv.wait {version : Nat → ∀ i, V i} {s : State V R H} (hs : Inv version s) {r : R}
    {p : Publisher.State Char R H} (hp : s.subscribers r = .waiting)
    (h : s.publisher.step 1 (.wait r) = some p) :
    Inv version
      { s with publisher := p, subscribers := Function.update s.subscribers r .reading } := by
  have hreg := hs.registered.step (a := .wait r) trivial h
  cases Publisher.State.steps_of_step h with
  | wait x o items kernel hx hr =>
    have hrest : s.lock.readers r = .idle := hs.resting r (by simp [hp])
    refine ⟨hs.lock, hs.quiet, hreg, hs.attached, ?_, fun q hq => ?_, fun q g hg hlt => ?_⟩
    · exact hs.phase.congr rfl rfl rfl
    · by_cases hqr : q = r
      · exact hqr ▸ hrest
      · apply hs.resting q
        simpa [hqr] using hq
    · by_cases hqr : q = r
      · subst q
        exact .woken (Function.update_self ..) hrest
      · have howner : s.publisher.owner r = some o.queue := by
          simp [Publisher.State.owner, hx, Publisher.Subscriber.owns, hs.attached r o hx]
        have hne : some g ≠ o.queue := fun he =>
          hqr (hs.registered.exclusive q r _ (Handle.owner (s := s) hg) (he ▸ howner))
        exact (hs.notified q g hg hlt).congr rfl (receive_other hr hne) rfl
          (Function.update_of_ne hqr _ _) rfl rfl rfl

variable [Fintype ι]

omit [DecidableEq H] in
theorem writer_progress {version : Nat → ∀ i, V i} {s l : SequenceLock.System V R}
    {a : SequenceLock.WriteAccess ι} (h : s.step version (.writer a) = some l) :
    (finished s.writer = true → finished l.writer = false) ∧
      l.history.completed = s.history.completed + (if finished l.writer then 1 else 0) ∧
      l.readers = s.readers ∧ l.history.begun = s.history.begun ∧
      l.history.returned = s.history.returned := by
  obtain ⟨m, w, hm, rfl⟩ := SequenceLock.System.step_writer h
  obtain ⟨hb, hret, -, -⟩ := SequenceLock.noteWrite_records s.history s.writer a
  refine ⟨?_, ?_, rfl, hb, hret⟩
  · intro hf
    rw [eq_idle_of_finished hf] at hm
    cases hm
    rfl
  · generalize s.writer = w₀ at hm ⊢
    cases hm <;> rfl

omit [DecidableEq H] in
theorem started_write {version : Nat → ∀ i, V i} {s l : SequenceLock.System V R}
    {a : SequenceLock.WriteAccess ι} (h : s.step version (.writer a) = some l) :
    l.history.started = s.history.started + (if finished s.writer then 1 else 0) := by
  obtain ⟨m, w, hm, rfl⟩ := SequenceLock.System.step_writer h
  generalize s.writer = w₀ at hm ⊢
  cases hm <;> rfl

omit [DecidableEq H] in
theorem started_read {version : Nat → ∀ i, V i} {s l : SequenceLock.System V R} {r : R}
    {a : SequenceLock.ReadAccess ι} (h : s.step version (.reader r a) = some l) :
    l.history.started = s.history.started := by
  obtain ⟨p, -, rfl⟩ := SequenceLock.System.step_reader h
  exact (SequenceLock.noteRead_counts s.history s.shared r (s.readers r) a).1

omit [DecidableEq H] in
theorem Inv.write {version : Nat → ∀ i, V i} {s : State V R H} (hs : Inv version s)
    {a : SequenceLock.WriteAccess ι} {l : SequenceLock.System V R}
    (hp : s.writer = .idle ∨ s.writer = .write) (h : s.lock.step version (.writer a) = some l) :
    Inv version
      { s with lock := l, writer := if finished l.writer then .publish else .write } := by
  obtain ⟨hrun, hco, hreaders, hb, hret⟩ := writer_progress h
  have hlock := hs.lock.writer_step h
  refine ⟨hlock, fun r => (hs.quiet r).writer_step hs.lock h, hs.registered, hs.attached,
    ?_, ?_, ?_⟩
  · have hphase := hs.phase
    cases hf : finished l.writer with
    | true =>
      have hst := started_of_finished hlock hf
      obtain hp | hp := hp
      · rw [hp] at hphase
        simp [hrun hphase.1] at hf
      · rw [hp] at hphase
        simp only [hf, ↓reduceIte] at hco ⊢
        exact ⟨hf, by rw [hst, hco, hphase.2.1], hphase.2.2⟩
    | false =>
      simp only [hf, Bool.false_eq_true, ↓reduceIte, Nat.add_zero] at hco ⊢
      obtain hp | hp := hp
      · rw [hp] at hphase
        have hst := started_of_finished hs.lock hphase.1
        exact ⟨hf, by rw [hco, ← hst]; exact hphase.2.1, hphase.2.2⟩
      · rw [hp] at hphase
        exact ⟨hf, by rw [hco]; exact hphase.2.1, hphase.2.2⟩
  · intro r hr
    rw [show l.readers = s.lock.readers from hreaders]
    exact hs.resting r hr
  · intro r k hk hlt
    exact (hs.notified r k hk hlt).congr rfl rfl rfl rfl (congrFun hreaders r) (congrFun hb r)
      (congrFun hret r)

omit [DecidableEq H] in
/-- The effect of one access of a reader: it enters a call, goes on with it, or
returns from it. -/
theorem reader_progress {version : Nat → ∀ i, V i} {s l : SequenceLock.System V R} {r : R}
    {a : SequenceLock.ReadAccess ι} (h : s.step version (.reader r a) = some l) :
    (s.readers r = .idle ∧ afterRead a = .reading ∧ l.history.begun r = s.history.completed) ∨
    (s.readers r ≠ .idle ∧ afterRead a = .reading ∧ l.history.begun r = s.history.begun r) ∨
    (s.readers r ≠ .idle ∧ afterRead a = .waiting ∧ l.readers r = .idle ∧
      ∃ value, l.history.returned r = s.history.returned r ++ [⟨s.history.begun r, value⟩]) := by
  obtain ⟨p, hp, rfl⟩ := SequenceLock.System.step_reader h
  generalize s.readers r = p₀ at hp ⊢
  cases hp with
  | call loop => exact .inl ⟨rfl, rfl, by simp [SequenceLock.History.noteRead]⟩
  | ret loop value =>
    refine .inr (.inr ⟨by simp, rfl, by simp, value, ?_⟩)
    simp [SequenceLock.History.noteRead]
  | changed loop seq1 temp hne =>
    exact .inr (.inl ⟨by simp, rfl, by simp [SequenceLock.History.noteRead, hne]⟩)
  | accept loop temp =>
    exact .inr (.inl ⟨by simp, rfl, by simp [SequenceLock.History.noteRead]⟩)
  | odd | even | copyTemp | copyResult => exact .inr (.inl ⟨by simp, rfl, rfl⟩)

omit [DecidableEq H] in
theorem Inv.read {version : Nat → ∀ i, V i} {s : State V R H} (hs : Inv version s) {r : R}
    {a : SequenceLock.ReadAccess ι} {l : SequenceLock.System V R}
    (hp : s.subscribers r = .reading) (h : s.lock.step version (.reader r a) = some l) :
    Inv version
      { s with lock := l, subscribers := Function.update s.subscribers r (afterRead a) } := by
  have hcases := reader_progress h
  have hlock := hs.lock.reader_step h
  have hquiet := fun q => (hs.quiet q).reader_step hs.lock h
  have hle := hs.published_le
  obtain ⟨p, -, rfl⟩ := SequenceLock.System.step_reader h
  obtain ⟨hst, hco⟩ := SequenceLock.noteRead_counts s.lock.history s.lock.shared r
    (s.lock.readers r) a
  refine ⟨hlock, hquiet, hs.registered, hs.attached, ?_, fun q hq => ?_, fun q g hg hlt => ?_⟩
  · have hphase := hs.phase
    cases hw : s.writer <;> rw [hw] at hphase <;>
      simpa only [Phase, hst, hco] using hphase
  · by_cases hqr : q = r
    · subst q
      have hw : afterRead a ≠ .reading := by simpa using hq
      obtain ⟨_, hread, _⟩ | ⟨_, hread, _⟩ | ⟨_, _, hidle, _⟩ := hcases
      · exact absurd hread hw
      · exact absurd hread hw
      · exact hidle
    · have hold := hs.resting q (by simpa [hqr] using hq)
      exact (Function.update_of_ne hqr _ _).trans hold
  · have hold := hs.notified q g hg hlt
    by_cases hqr : q = r
    · subst q
      cases hold with
      | ahead qs hq hmem => exact .ahead qs hq hmem
      | queued item rest hi => exact .queued item rest hi
      | woken hw hi =>
        obtain ⟨_, hr, hb⟩ | ⟨hne, _⟩ | ⟨hne, _⟩ := hcases
        · exact .reading ((Function.update_self ..).trans hr) (hb ▸ hle)
        · exact absurd hi hne
        · exact absurd hi hne
      | reading hw hb =>
        obtain ⟨_, hr, hb'⟩ | ⟨_, hr, hb'⟩ | ⟨_, hr, _, value, hret⟩ := hcases
        · exact .reading ((Function.update_self ..).trans hr) (hb' ▸ hle)
        · exact .reading ((Function.update_self ..).trans hr) (hb' ▸ hb)
        · exact .read ((Function.update_self ..).trans hr) _ (by rw [hret, List.getLast?_concat]) hb
      | read hw e he hb => simp [hp] at hw
    · obtain ⟨hb, -, -, -, hret⟩ := SequenceLock.noteRead_other s.lock.history s.lock.shared hqr
        (s.lock.readers r) a
      exact hold.congr rfl rfl rfl (Function.update_of_ne hqr _ _) (Function.update_of_ne hqr _ _)
        hb hret

theorem Inv.step {version : Nat → ∀ i, V i} {s t : State V R H} {a : Label ι R H}
    (hs : Inv version s) (h : s.step version a = some t) : Inv version t := by
  cases State.steps_of_step h with
  | write a l hp hl => exact hs.write hp hl
  | lock p hp hl => exact hs.publish_lock hp hl
  | send p hp hl => exact hs.publish_send hp hl
  | unlock p hp hl => exact hs.publish_unlock hp hl
  | create r k p hp hl => exact hs.create hp hl
  | insert r p hp hl => exact hs.insert hp hl
  | wait r p hp hl => exact hs.wait hp hl
  | read r a l hp hl => exact hs.read hp hl

/-- No update is lost, although sends are dropped at a full queue: when the
writer is at rest and a subscriber that was there for the last publish is
blocked on its empty queue, its last read began after every write was complete
and returned the readings of the last one. -/
theorem no_update_lost (version : Nat → ∀ i, V i) {as : List (Label ι R H)} {s : State V R H}
    (h : run (State.step version) (State.init version) as = some s) {r : R} {k : H}
    (hidle : s.writer = .idle) (hwait : s.subscribers r = .waiting) (hhandle : Handle s r k)
    (hempty : s.publisher.kernel k = some []) (hsub : s.subscribedAt r < s.published) :
    s.published = s.lock.history.started ∧
    ∃ e, (s.lock.history.returned r).getLast? = some e ∧ e.begun = s.lock.history.started ∧
      e.value = SequenceLock.whole (version s.lock.history.started) := by
  have hs : Inv version s := run_invariant (fun _ _ _ hi ht => hi.step ht) (.init version) h
  obtain ⟨bs, hlock⟩ := run_lock h
  have hphase := hs.phase
  rw [hidle] at hphase
  obtain ⟨hf, hpub, hfree⟩ := hphase
  have hst := started_of_finished hs.lock hf
  refine ⟨hpub, ?_⟩
  cases hs.notified r k hhandle hsub with
  | ahead qs hq hmem => simp [hfree] at hq
  | queued item rest hi => simp [hempty] at hi
  | woken hw hi => simp [hwait] at hw
  | reading hw hb => simp [hwait] at hw
  | read hw e he hb =>
    have hmem : e ∈ s.lock.history.returned r := List.mem_of_getLast? he
    have hbegun := ((hs.quiet r).returned e hmem).1
    have heq : s.lock.history.started = e.begun := by omega
    exact ⟨e, he, heq.symm, SequenceLock.quiet_read hlock r e hmem heq⟩

def notifiedRead : List (Label Bool Unit Nat) :=
  [.create () 7, .insert (), .write .call, .write .loadSeq, .write .storeSeq, .write (.copy false),
    .write (.copy true), .write .storeSeq, .lock, .send, .unlock, .wait (), .read () (.call true),
    .read () .loadSeq, .read () (.copy false), .read () (.copy true), .read () .loadSeq,
    .read () (.copy false), .read () (.copy true), .read () .ret]

theorem no_update_lost_notifiedRead :
    ∃ s : State (fun _ : Bool => Nat) Unit Nat,
      run (State.step fun k _ => k) (State.init fun k _ => k) notifiedRead = some s ∧
      s.published = 1 ∧ ∃ e, (s.lock.history.returned ()).getLast? = some e ∧
        e.value = SequenceLock.whole (fun _ => 1) := by
  obtain ⟨s, h, hidle, hwait, hk, hempty, hsub, hp⟩ :
      ∃ s : State (fun _ : Bool => Nat) Unit Nat,
        run (State.step fun k _ => k) (State.init fun k _ => k) notifiedRead = some s ∧
        s.writer = .idle ∧ s.subscribers () = .waiting ∧ Handle s () 7 ∧
        s.publisher.kernel 7 = some [] ∧ s.subscribedAt () = 0 ∧ s.published = 1 :=
    ⟨_, rfl, rfl, rfl, rfl, rfl, rfl, rfl⟩
  obtain ⟨hst, e, he, -, hv⟩ :=
    no_update_lost _ h hidle hwait hk hempty (by rw [hsub, hp]; exact Nat.one_pos)
  refine ⟨s, h, hp, e, he, ?_⟩
  rw [hv, ← hst, hp]

end Thermometer.Model
