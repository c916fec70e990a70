import Thermometer.DevicePacing
import Thermometer.Pipeline
import Thermometer.SequenceAtomic

namespace Thermometer.Device

open Thermometer.Transition Thermometer.Refinement
open Thermometer.SensorTask (oneSensor)

variable {ι H : Type} {V : ι → Type}

/-- No field is stored while the poster copies its return value, and no such copy
begins between the stores of the fields. -/
def Apart [Fintype ι] (s : State V H) : Label ι H → Prop
  | .model (.write a) => SequenceLock.Apart s.model.lock (.writer a)
  | .model (.read r a) => SequenceLock.Apart s.model.lock (.reader r a)
  | _ => True

variable [DecidableEq ι]

/-- A write takes effect when its last field is stored, and a publish with its last
send. -/
def State.round (s : State V H) : Pipeline.Sensor :=
  match s.sensor with
  | .waiting => .waiting
  | .requested => .requested
  | .converting => .converting
  | .stamped timestamp => .stamped timestamp
  | .aborted why => .aborted why
  | .writing =>
      match s.written[s.model.lock.committed]?, s.model.publisher.publishing with
      | some r, _ => .measured r
      | none, some (_, []) => .waiting
      | none, _ => .written

variable [Fintype ι]

/-- A read takes effect when the first field is copied for its return. -/
def State.polled (layout : SensorReadings ≃ ∀ i, V i) (s : State V H) : PosterTask.Poster :=
  match s.poster, ((s.model.lock.readers ()).returning s.model.lock.shared).bind complete with
  | .reading now, some d => PosterTask.afterRead s.nextUpdate now (layout.symm d)
  | poster, _ => poster

def State.pipeline (layout : SensorReadings ≃ ∀ i, V i) (s : State V H) : Pipeline.State where
  clock := s.clock
  main := s.main
  requests := s.requests
  sensor := s.round
  written := (s.written.take s.model.lock.committed).reverse
  listed := !s.model.publisher.queues.isEmpty
  notified := 0 < backlog s.model
  poster := s.polled layout
  nextUpdate := s.nextUpdate
  posts := s.posts

variable [DecidableEq H] {layout : SensorReadings ≃ ∀ i, V i} {showFloat : Binary32 → List Char}
  {sensors : SensorTask.Sensors} {s t : State V H}

omit [Fintype ι] [DecidableEq H] in
/-- While no store is open, all rounds are committed. -/
theorem Inv.committed_eq (hs : Inv layout s)
    (h : s.sensor ≠ .writing ∨ s.model.writer = .publish ∨ s.model.writer = .sending) :
    s.model.lock.committed = s.written.length := by
  have hcalls := hs.calls
  have hphase := hs.model.phase
  obtain ⟨hfinished, hlen⟩ : Model.finished s.model.lock.writer = true ∧
      s.model.lock.history.started = s.written.length := by
    by_cases hp : s.sensor = .writing
    · rw [hp] at hcalls
      obtain hw | hw := h.resolve_left (not_not.mpr hp) <;> rw [hw] at hphase <;>
        exact ⟨hphase.1, (hcalls.resolve_left fun hidle => by simp [hw] at hidle).2⟩
    · obtain ⟨hidle, hlen⟩ := (calls_of_ne hp).mp hcalls
      rw [hidle] at hphase
      exact ⟨hphase.1, hlen⟩
  rw [← hlen]
  exact SequenceLock.committed_of_idle hs.model.lock (Model.eq_idle_of_finished hfinished)

omit [Fintype ι] [DecidableEq H] in
/-- At most the last round is not committed yet. -/
theorem Inv.committed_bounds (hs : Inv layout s) :
    s.model.lock.committed ≤ s.written.length ∧ s.written.length ≤ s.model.lock.committed + 1 := by
  have hle := SequenceLock.committed_le hs.model.lock
  refine ⟨hle.2.trans hs.started_le, ?_⟩
  by_cases hp : s.sensor = .writing
  · have hcalls := hs.calls
    have hphase := hs.model.phase
    rw [hp] at hcalls
    obtain ⟨hidle, hlen⟩ | ⟨hbusy, hlen⟩ := hcalls
    · rw [hidle] at hphase
      have hcommitted := SequenceLock.committed_of_idle hs.model.lock
        (Model.eq_idle_of_finished hphase.1)
      omega
    · cases hw : s.model.writer with
      | idle => exact absurd hw hbusy
      | write =>
        have hstarted := hs.model.lock.started_le
        omega
      | publish =>
        have hcommitted := hs.committed_eq (.inr (.inl hw))
        omega
      | sending =>
        have hcommitted := hs.committed_eq (.inr (.inr hw))
        omega
  · have hcommitted := hs.committed_eq (.inl hp)
    omega

theorem headD_reverse_take {α : Type} {l : List α} {k : Nat} (hk : k ≤ l.length) (d : α) :
    (l.take k).reverse.headD d = (d :: l).getD k d := by
  cases k with
  | zero => rfl
  | succ k =>
    have hlt : k < l.length := hk
    rw [List.take_add_one, List.getElem?_eq_getElem hlt, Option.toList_some, List.reverse_append,
      List.getD_cons_succ, List.getD_eq_getElem?_getD, List.getElem?_eq_getElem hlt]
    rfl

omit [DecidableEq H] in
/-- What the pipeline reads is the version that is committed. -/
theorem Inv.content (hs : Inv layout s) :
    s.version layout s.model.lock.committed = layout (s.pipeline layout).content := by
  rw [State.version, ← headD_reverse_take hs.committed_bounds.1]
  rfl

omit [Fintype ι] [DecidableEq H] in
/-- The loop of `publish` has the one queue of the poster, if any. -/
theorem Inv.loop (hs : Inv layout s) {data : Char} {q : Publisher.QueueHandle H}
    {qs : List (Publisher.QueueHandle H)}
    (hloop : s.model.publisher.publishing = some (data, q :: qs)) :
    qs = [] ∧ ∃ k items, s.model.publisher.queues = [some k] ∧ q = some k ∧
      s.model.publisher.kernel k = some items := by
  have hsuffix := hs.model.registered.loop data _ hloop
  have hmem : q ∈ s.model.publisher.queues := hsuffix.subset List.mem_cons_self
  have hlen := hsuffix.length_le.trans hs.alone.length_queues
  refine ⟨by simpa using hlen, ?_⟩
  have hsub := hs.alone.subscribed
  cases hx : s.model.subscribers () with
  | outside | subscribing =>
    rw [hx] at hsub
    simp [hsub.1] at hmem
  | waiting | reading =>
    rw [hx] at hsub
    obtain ⟨k, items, hq, -, hk, -⟩ := hsub
    exact ⟨k, items, hq, by simpa [hq] using hmem, hk⟩

end Thermometer.Device
