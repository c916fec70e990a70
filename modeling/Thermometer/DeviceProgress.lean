import Thermometer.DevicePosts
import Thermometer.PublisherProgress
import Thermometer.SequenceProgress

namespace Thermometer.Device

open Thermometer.Transition
open Thermometer.SensorTask (oneSensor)

variable {ι H : Type} {V : ι → Type}

/-- The request that a round is about, until its readings are collected. -/
def Sensor.serving : Sensor → Nat
  | .waiting | .writing => 0
  | .requested | .converting | .stamped _ | .aborted _ => 1

def Sensor.busy : Sensor → Bool
  | .waiting | .aborted _ => false
  | .requested | .converting | .stamped _ | .writing => true

def Label.ofMain : Label ι H → Bool
  | .update | .delay => true
  | _ => false

def Label.ofSensor : Label ι H → Bool
  | .receive | .trigger _ | .stamp | .measure _ => true
  | .model (.write _) | .model .lock | .model .send | .model .unlock => true
  | _ => false

def Label.ofPoster : Label ι H → Bool
  | .model (.create _ _) | .model (.insert _) | .model (.wait _) | .model (.read _ _) => true
  | .start | .now | .post => true
  | _ => false

/-- No request is lost or answered twice. -/
structure Counts (s : State V H) : Prop where
  updates : s.updates = s.requests + s.sensor.serving + s.written.length
  room : s.requests ≤ updateDepth

/-- The accesses and the calls that are left of `Model::write`. -/
def publishRank [Fintype ι] (m : Model.State V Unit H) : Nat :=
  match m.writer with
  | .idle => Fintype.card ι + 7
  | .write => m.lock.writer.rank + 3
  | .publish => 3
  | .sending => m.publisher.rank

/-- The steps that the sensor task needs for the rest of its round. -/
def State.rank [Fintype ι] (s : State V H) : Nat :=
  match s.sensor with
  | .waiting | .aborted _ => 0
  | .requested => Fintype.card ι + 10
  | .converting => Fintype.card ι + 9
  | .stamped _ => Fintype.card ι + 8
  | .writing => publishRank s.model

variable [DecidableEq ι] [Fintype ι] [DecidableEq H] {layout : SensorReadings ≃ ∀ i, V i}
  {showFloat : Binary32 → List Char} {sensors : SensorTask.Sensors} {s t : State V H}

omit [DecidableEq ι] [Fintype ι] [DecidableEq H] in
theorem counts_init (layout : SensorReadings ≃ ∀ i, V i) (clock : Int) :
    Counts (.init layout clock : State V H) where
  updates := rfl
  room := Nat.zero_le _

theorem Counts.step (hs : Counts s) {a : Label ι H}
    (h : s.step layout showFloat sensors a = some t) : Counts t := by
  obtain ⟨-, hsteps⟩ := State.steps_of_step layout showFloat sensors h
  obtain ⟨hupdates, hroom⟩ := hs
  cases hsteps with
  | update hp hlt =>
    refine ⟨?_, hlt⟩
    dsimp only
    omega
  | receive requests hp hr =>
    simp only [hp, hr, Sensor.serving] at hupdates
    refine ⟨?_, by dsimp only; omega⟩
    simp only [Sensor.serving]
    omega
  | trigger _ hp | triggerFailed _ _ hp | stamp hp | measureFailed _ _ _ hp =>
    simp only [hp, Sensor.serving] at hupdates
    exact ⟨hupdates, hroom⟩
  | measure get timestamp readings hp hget =>
    simp only [hp, Sensor.serving] at hupdates
    refine ⟨?_, hroom⟩
    simp only [Sensor.serving, List.length_append, List.length_singleton]
    omega
  | model a u m hu hm =>
    cases hu with
    | unlock hp =>
      simp only [hp, Sensor.serving] at hupdates
      exact ⟨hupdates, hroom⟩
    | _ => exact ⟨hupdates, hroom⟩
  | _ => exact ⟨hupdates, hroom⟩

omit [Fintype ι] [DecidableEq H] in
theorem Inv.published_eq (hs : Inv layout s) (hp : s.sensor ≠ .writing) :
    s.model.published = s.written.length := by
  obtain ⟨hidle, hlen⟩ := (calls_of_ne hp).mp hs.calls
  have hphase := hs.model.phase
  rw [hidle] at hphase
  exact hphase.2.1.trans hlen

omit [Fintype ι] [DecidableEq H] in
/-- At most one round is written and not published yet. -/
theorem Inv.published_bounds (hs : Inv layout s) :
    s.model.published ≤ s.written.length ∧ s.written.length ≤ s.model.published + 1 := by
  by_cases hp : s.sensor = .writing
  · have hcalls := hs.calls
    have hphase := hs.model.phase
    have hpub := hs.model.published_le
    have hle := hs.model.lock.completed_le
    rw [hp] at hcalls
    obtain ⟨hidle, hlen⟩ | ⟨hbusy, hlen⟩ := hcalls
    · rw [hidle] at hphase
      have hst := hphase.2.1
      omega
    · refine ⟨by omega, ?_⟩
      cases hw : s.model.writer with
      | idle => exact absurd hw hbusy
      | write =>
        rw [hw] at hphase
        obtain ⟨hwrite, hco, -⟩ := hphase
        have hcar := hs.model.lock.carries
        cases hl : s.model.lock.writer with
        | idle => simp [hl, Model.finished] at hwrite
        | loadSeq | storeOdd | setter =>
          rw [hl] at hcar
          have hst := hcar.1
          omega
      | publish | sending =>
        rw [hw] at hphase
        have hst := hphase.2.1
        omega
  · have hpub := hs.published_eq hp
    omega

/-- Each request for an update waits in the queue, is the one that the sensor task
is about, or was answered with one call of `write` and one publish. -/
theorem requests_answered {clock : Int} {as : List (Label ι H)}
    (h : run (State.step layout showFloat sensors) (.init layout clock) as = some s) :
    s.requests ≤ updateDepth ∧ s.updates = s.requests + s.sensor.serving + s.written.length ∧
      s.model.published ≤ s.written.length ∧ s.written.length ≤ s.model.published + 1 ∧
      (s.sensor ≠ .writing → s.model.published = s.written.length) := by
  have hinv : Inv layout s ∧ Counts s :=
    run_invariant (I := fun s => Inv layout s ∧ Counts s)
      (fun s a t hi ht => ⟨hi.1.step ht, hi.2.step ht⟩)
      ⟨inv_init layout clock, counts_init layout clock⟩ h
  obtain ⟨hs, hupdates, hroom⟩ := hinv
  exact ⟨hroom, hupdates, hs.published_bounds.1, hs.published_bounds.2, hs.published_eq⟩

theorem requests_answered_firstRound :
    ∃ s : State MemberType Nat,
      run (State.step members (fun _ => "21.5".toList) oneSensor) (.init members 0) firstRound =
        some s ∧
      s.updates = 1 ∧ s.updates = s.requests + s.sensor.serving + s.written.length := by
  obtain ⟨s, hs, hone⟩ : ∃ s : State MemberType Nat,
      run (State.step members (fun _ => "21.5".toList) oneSensor) (.init members 0) firstRound =
        some s ∧ s.updates = 1 := ⟨_, rfl, rfl⟩
  exact ⟨s, hs, hone, (requests_answered hs).2.1⟩

theorem publishRank_step {version : Nat → ∀ i, V i} {m m' : Model.State V Unit H}
    {a : Model.Label ι Unit H} (hm : Model.Inv version m) (halone : Alone m) (ha : a ≠ .unlock)
    (h : m.step version a = some m') :
    publishRank m' + (if (Label.model a).ofSensor then 1 else 0) ≤ publishRank m := by
  have hphase := hm.phase
  cases Model.State.steps_of_step h with
  | write w l hp hl =>
    simp only [Label.ofSensor, ↓reduceIte]
    obtain ⟨sh, w', hmove, rfl⟩ := SequenceLock.System.step_writer hl
    obtain hidle | hwrite := hp
    · rw [hidle] at hphase
      have hw := Model.eq_idle_of_finished hphase.1
      rw [hw] at hmove
      cases hmove with
      | call => simp [publishRank, hidle, Model.finished, SequenceLock.Writer.rank]
    · rw [hwrite] at hphase
      have hw : m.lock.writer ≠ .idle := by
        rintro hw
        simpa [hw, Model.finished] using hphase.1
      have hrank := SequenceLock.Writer.moves_rank hmove hw
      simp only [publishRank, hwrite]
      cases w' with
      | idle =>
        have hlast : 0 + 1 = m.lock.writer.rank := hrank
        simp only [Model.finished, ↓reduceIte]
        omega
      | loadSeq | storeOdd | setter =>
        simp only [Model.finished, Bool.false_eq_true, ↓reduceIte]
        omega
  | lock p hp hl =>
    cases Publisher.State.steps_of_step hl with
    | lock data hfree =>
      have hfew := halone.length_queues
      simp only [publishRank, hp, Label.ofSensor, ↓reduceIte]
      exact Nat.add_le_add_right (Nat.add_le_add_right hfew 1) 1
  | send p hp hl =>
    cases Publisher.State.steps_of_step hl with
    | send data q qs hloop =>
      simp [publishRank, hp, hloop, Publisher.State.rank, Label.ofSensor]
  | unlock p hp hl => exact absurd rfl ha
  | create r k p hp hl =>
    cases Publisher.State.steps_of_step hl with
    | create => exact Nat.le_refl _
  | insert r p hp hl =>
    cases Publisher.State.steps_of_step hl with
    | insert => exact Nat.le_refl _
  | wait r p hp hl =>
    cases Publisher.State.steps_of_step hl with
    | wait => exact Nat.le_refl _
  | read r w l hp hl =>
    obtain ⟨p, -, rfl⟩ := SequenceLock.System.step_reader hl
    exact Nat.le_refl _

/-- In the middle of the round after `rounds` others. -/
structure Serving (layout : SensorReadings ≃ ∀ i, V i) (rounds : Nat) (s : State V H) : Prop where
  inv : Inv layout s
  busy : s.sensor.busy = true
  round : s.sensor.serving + s.written.length = rounds + 1

omit [DecidableEq H] in
theorem Serving.rank_pos {rounds : Nat} (hs : Serving layout rounds s) : 0 < s.rank := by
  have hbusy := hs.busy
  cases hp : s.sensor with
  | waiting | aborted => simp [hp, Sensor.busy] at hbusy
  | requested | converting | stamped =>
    simp only [State.rank, hp]
    omega
  | writing =>
    simp only [State.rank, hp, publishRank]
    have hphase := hs.inv.model.phase
    cases hw : s.model.writer with
    | idle | write | publish =>
      dsimp only
      omega
    | sending =>
      rw [hw] at hphase
      obtain ⟨-, -, qs, hloop⟩ := hphase
      simp [hloop, Publisher.State.rank]

/-- A step of the sensor task brings it nearer to the end of its round, which the
others do not delay. -/
theorem Serving.step {rounds : Nat} (hs : Serving layout rounds s) {a : Label ι H}
    (h : s.step layout showFloat sensors a = some t) :
    (t.sensor.busy = true →
      t.rank + (if a.ofSensor then 1 else 0) ≤ s.rank ∧ Serving layout rounds t) ∧
    (t.sensor = .waiting → t.written.length = rounds + 1) := by
  have hinv' := hs.inv.step h
  obtain ⟨hinv, hbusy, hround⟩ := hs
  have hcalls := hinv.calls
  obtain ⟨-, hsteps⟩ := State.steps_of_step layout showFloat sensors h
  cases hsteps with
  | tick | update | delay | start | now | post =>
    refine ⟨fun _ => ⟨Nat.le_refl _, hinv', hbusy, hround⟩, fun hw => ?_⟩
    have hw' : s.sensor = .waiting := hw
    simp [hw', Sensor.busy] at hbusy
  | receive requests hp hr => simp [hp, Sensor.busy] at hbusy
  | trigger trigger hp htrigger =>
    simp only [hp, Sensor.serving] at hround
    exact ⟨fun _ => ⟨by simp [State.rank, hp, Label.ofSensor], hinv', rfl, hround⟩, by simp⟩
  | triggerFailed trigger why hp htrigger =>
    exact ⟨fun hb => absurd hb (by simp [Sensor.busy]), by simp⟩
  | stamp hp =>
    simp only [hp, Sensor.serving] at hround
    exact ⟨fun _ => ⟨by simp [State.rank, hp, Label.ofSensor], hinv', rfl, hround⟩, by simp⟩
  | measure get timestamp readings hp hget =>
    simp only [hp, Sensor.serving] at hround
    rw [hp] at hcalls
    refine ⟨fun _ => ⟨?_, hinv', rfl, ?_⟩, by simp⟩
    · simp [State.rank, hp, publishRank, hcalls.1, Label.ofSensor]
    · simp only [Sensor.serving, List.length_append, List.length_singleton]
      omega
  | measureFailed get timestamp why hp hget =>
    exact ⟨fun hb => absurd hb (by simp [Sensor.busy]), by simp⟩
  | model a u m hu hm =>
    have hothers : (Label.model a).ofSensor = false → { s with model := m }.rank ≤ s.rank := by
      intro ha
      cases hp : s.sensor with
      | waiting | aborted | requested | converting | stamped => simp [State.rank, hp]
      | writing =>
        have hle := publishRank_step hinv.model hinv.alone (by rintro rfl; cases ha) hm
        simp only [State.rank, hp]
        simpa [ha] using hle
    cases hu with
    | writer a hp ha =>
      refine ⟨fun _ => ⟨?_, hinv', hbusy, hround⟩, by simp [hp]⟩
      simp only [State.rank, hp]
      exact publishRank_step hinv.model hinv.alone (by rintro rfl; simp at ha) hm
    | unlock hp =>
      simp only [hp, Sensor.serving, Nat.zero_add] at hround
      exact ⟨fun hb => absurd hb (by simp [Sensor.busy]), fun _ => hround⟩
    | subscribe a hp ha =>
      have hown : (Label.model a).ofSensor = false := by
        obtain ⟨k, rfl⟩ | rfl := ha <;> rfl
      refine ⟨fun _ => ⟨?_, hinv', hbusy, hround⟩, fun hw => ?_⟩
      · simpa [hown] using hothers hown
      · have hw' : s.sensor = .waiting := hw
        simp [hw', Sensor.busy] at hbusy
    | wait | read | ret =>
      refine ⟨fun _ => ⟨hothers rfl, hinv', hbusy, hround⟩, fun hw => ?_⟩
      have hw' : s.sensor = .waiting := hw
      simp [hw', Sensor.busy] at hbusy

def Filled (s : State V H) : Prop := (s.model.lock.readers ()).Filled

theorem Filled.step (hs : Filled s) {a : Label ι H}
    (h : s.step layout showFloat sensors a = some t) : Filled t := by
  obtain hsame | ⟨b, u, m, rfl, -, hm, rfl⟩ := State.model_of_step h
  · rwa [Filled, hsame]
  · cases Model.State.steps_of_step hm with
    | write w l hp hl =>
      obtain ⟨-, -, hreaders, -⟩ := Model.writer_progress hl
      simpa only [Filled, hreaders] using hs
    | read r w l hp hl =>
      obtain ⟨p, hmove, rfl⟩ := SequenceLock.System.step_reader hl
      simpa only [Filled, Function.update_self] using SequenceLock.Reader.Filled.moves hs hmove
    | _ => exact hs

/-- A task can take a step. -/
def Enabled (layout : SensorReadings ≃ ∀ i, V i) (showFloat : Binary32 → List Char)
    (sensors : SensorTask.Sensors) (s : State V H) (own : Label ι H → Bool) : Prop :=
  ∃ a, own a = true ∧ (s.step layout showFloat sensors a).isSome

theorem enabled_model {own : Label ι H → Bool} {a : Model.Label ι Unit H}
    (hown : own (.model a) = true) (hf : s.sensor.failed = false)
    (ha : (s.advance layout a).isSome) (hm : (s.model.step (s.version layout) a).isSome) :
    Enabled layout showFloat sensors s own := by
  obtain ⟨u, hu⟩ := Option.isSome_iff_exists.mp ha
  obtain ⟨m, hm⟩ := Option.isSome_iff_exists.mp hm
  exact ⟨.model a, hown, by simp [State.step, hf, hu, hm]⟩

/-- The sensor task waits for nothing but a request. -/
theorem Inv.sensor_enabled (hs : Inv layout s) (hf : s.sensor.failed = false)
    (hwork : s.sensor = .waiting → 0 < s.requests) :
    Enabled layout showFloat sensors s Label.ofSensor := by
  cases hp : s.sensor with
  | waiting =>
    obtain ⟨n, hn⟩ := Nat.exists_eq_succ_of_ne_zero (hwork hp).ne'
    exact ⟨.receive, rfl, by simp [State.step, hp, hn, Sensor.failed]⟩
  | requested =>
    refine ⟨.trigger fun _ => espOk, rfl, ?_⟩
    simp only [State.step, hp, Sensor.failed, Bool.false_eq_true, ↓reduceIte]
    split <;> rfl
  | converting => exact ⟨.stamp, rfl, by simp [State.step, hp, Sensor.failed]⟩
  | stamped timestamp =>
    refine ⟨.measure fun _ => (espOk, default), rfl, ?_⟩
    simp only [State.step, hp, Sensor.failed, Bool.false_eq_true, ↓reduceIte]
    split <;> rfl
  | aborted why => simp [hp, Sensor.failed] at hf
  | writing =>
    have hphase := hs.model.phase
    cases hw : s.model.writer with
    | idle | write =>
      obtain ⟨w, p, hstep⟩ := SequenceLock.Writer.enabled
        (s.version layout (s.model.lock.history.started + 1)) s.model.lock.shared
        s.model.lock.writer
      refine enabled_model (a := .write w) rfl hf (by simp [State.advance, hp]) ?_
      simp [Model.State.step, SequenceLock.System.step, hw, hstep]
    | publish =>
      rw [hw] at hphase
      refine enabled_model (a := .lock) rfl hf (by simp [State.advance, hp]) ?_
      simp [Model.State.step, Publisher.State.step, hw, hphase.2.2]
    | sending =>
      rw [hw] at hphase
      obtain ⟨-, -, qs, hloop⟩ := hphase
      cases qs with
      | nil =>
        refine enabled_model (a := .unlock) rfl hf (by simp [State.advance, hp]) ?_
        simp [Model.State.step, Publisher.State.step, hw, hloop]
      | cons q qs =>
        refine enabled_model (a := .send) rfl hf (by simp [State.advance, hp]) ?_
        simp [Model.State.step, Publisher.State.step, hw, hloop]

theorem Serving.enabled {rounds : Nat} (hs : Serving layout rounds s) :
    Enabled layout showFloat sensors s Label.ofSensor := by
  have hbusy := hs.busy
  refine hs.inv.sensor_enabled ?_ fun hp => ?_
  · cases hp : s.sensor with
    | aborted why => simp [hp, Sensor.busy] at hbusy
    | _ => rfl
  · simp [hp, Sensor.busy] at hbusy

theorem no_step_of_failed (hs : s.sensor.failed = true) (a : Label ι H) :
    s.step layout showFloat sensors a = none := if_pos hs

/-- A round can only fail before it is written. -/
theorem Serving.step_failed {rounds : Nat} (hs : Serving layout rounds s) {a : Label ι H}
    (h : s.step layout showFloat sensors a = some t) {why : SensorTask.Failure}
    (ht : t.sensor = .aborted why) :
    Fintype.card ι + 8 ≤ s.rank ∧ t.written.length = rounds := by
  obtain ⟨-, hbusy, hround⟩ := hs
  obtain ⟨hsame, -⟩ | ⟨written, hturn, hwritten⟩ := State.turns_of_step h
  · rw [← hsame, ht] at hbusy
    cases hbusy
  · rw [hwritten]
    rw [ht] at hturn
    unfold State.rank
    generalize s.sensor = p at hturn hround ⊢
    cases hturn with
    | triggerFailed | measureFailed =>
      simp only [Sensor.serving] at hround
      refine ⟨by dsimp only; omega, ?_⟩
      rw [List.append_nil]
      omega

/-- Once the sensor task has taken a request, it publishes a round for it with so many
steps of its own, and until then it can always take the next one. If a check of the
driver ends the program instead, that is in its first three steps. What the other
tasks do in between makes no difference. -/
theorem request_answered {clock : Int} {as bs : List (Label ι H)}
    (has : run (State.step layout showFloat sensors) (.init layout clock) as = some s)
    (hs : s.sensor = .requested) (hbs : run (State.step layout showFloat sensors) s bs = some t) :
    (∃ cs ds u, bs = cs ++ ds ∧ cs.countP Label.ofSensor ≤ Fintype.card ι + 10 ∧
      run (State.step layout showFloat sensors) s cs = some u ∧ u.sensor = .waiting ∧
      u.written.length = s.written.length + 1 ∧ u.model.published = s.model.published + 1) ∨
    (bs.countP Label.ofSensor ≤ 3 ∧ t.sensor.failed = true ∧
      t.written.length = s.written.length) ∨
    (bs.countP Label.ofSensor < Fintype.card ι + 10 ∧
      Enabled layout showFloat sensors t Label.ofSensor) := by
  have hinv : Inv layout s :=
    run_invariant (fun _ _ _ hi ht => hi.step ht) (inv_init layout clock) has
  have hserving : Serving layout s.written.length s := ⟨hinv, by simp [hs, Sensor.busy], by
    simp only [hs, Sensor.serving]
    omega⟩
  have hrank : s.rank = Fintype.card ι + 10 := by simp [State.rank, hs]
  obtain ⟨ht, hle⟩ | ⟨cs, a, ds, u, v, rfl, hcs, hu, hle, hv, hdone, hds⟩ :=
    busy_or_ends (Serving layout s.written.length) State.rank Label.ofSensor (fun _ => True)
      (fun s a t _ hs ht hbusy => ((hs.step ht).1 hbusy.busy).1) (fun _ _ => trivial) hserving hbs
  · have hpos := ht.rank_pos
    exact .inr (.inr ⟨by omega, ht.enabled⟩)
  have hpos := hu.rank_pos
  have hlast : (cs ++ [a]).countP Label.ofSensor ≤ cs.countP Label.ofSensor + 1 := by
    rw [List.countP_append, List.countP_singleton]
    split <;> omega
  cases hp : v.sensor with
  | requested | converting | stamped | writing =>
    exact absurd ((hu.step hv).1 (by simp [hp, Sensor.busy])).2 hdone
  | aborted why =>
    -- the failed step is the last one of the run
    have hfailed : v.sensor.failed = true := by rw [hp]; rfl
    obtain ⟨hearly, hlen⟩ := hu.step_failed hv hp
    cases ds with
    | nil =>
      obtain rfl : v = t := Option.some.inj hds
      exact .inr (.inl ⟨by omega, hfailed, hlen⟩)
    | cons b ds => simp [run, no_step_of_failed hfailed] at hds
  | waiting =>
    have hlen := (hu.step hv).2 hp
    have hpub := hinv.published_eq (by simp [hs])
    have hpub' := (hu.inv.step hv).published_eq (by simp [hp])
    exact .inl ⟨cs ++ [a], ds, v, by simp, by omega, run_append hcs (run_singleton hv), hp, hlen,
      by omega⟩

theorem request_answered_firstRound :
    ∃ s t : State MemberType Nat,
      run (State.step members (fun _ => "21.5".toList) oneSensor) (.init members 0)
        (firstRound.take 5) = some s ∧
      run (State.step members (fun _ => "21.5".toList) oneSensor) s (firstRound.drop 5) = some t ∧
      ∃ cs ds u, firstRound.drop 5 = cs ++ ds ∧ cs.countP Label.ofSensor ≤ 12 ∧
        run (State.step members (fun _ => "21.5".toList) oneSensor) s cs = some u ∧
        u.sensor = .waiting ∧ u.written.length = s.written.length + 1 ∧
        u.model.published = s.model.published + 1 := by
  obtain ⟨s, t, has, hs, hbs, hf⟩ : ∃ s t : State MemberType Nat,
      run (State.step members (fun _ => "21.5".toList) oneSensor) (.init members 0)
        (firstRound.take 5) = some s ∧
      s.sensor = .requested ∧
      run (State.step members (fun _ => "21.5".toList) oneSensor) s (firstRound.drop 5) = some t ∧
      t.sensor.failed = false := ⟨_, _, rfl, rfl, rfl, rfl⟩
  refine ⟨s, t, has, hbs, (request_answered has hs hbs).resolve_right ?_⟩
  rintro (⟨-, hfailed, -⟩ | ⟨hfew, -⟩)
  · simp [hf] at hfailed
  · exact absurd hfew (by decide)

/-- The poster waits for the mutex when it subscribes, and for a notification. -/
theorem Inv.poster_enabled [Nonempty H] (hs : Inv layout s) (hfilled : Filled s)
    (hf : s.sensor.failed = false) (hstart : s.poster = .start → s.model.writer ≠ .sending)
    (hwait : s.poster = .waiting → s.model.publisher.step 1 (.wait ()) ≠ none) :
    Enabled layout showFloat sensors s Label.ofPoster := by
  have hpolls := hs.polls
  have hsub := hs.alone.subscribed
  cases hp : s.poster with
  | start =>
    rw [hp] at hpolls
    cases hx : s.model.subscribers () with
    | outside =>
      rw [hx] at hsub
      obtain ⟨-, hnone, hpending, hkernel⟩ := hsub
      obtain ⟨k⟩ := ‹Nonempty H›
      refine enabled_model (a := .create () k) rfl hf (by simp [State.advance, hp]) ?_
      simp [Model.State.step, Publisher.State.step, hx, hnone, hpending, Publisher.fresh, hkernel]
    | subscribing =>
      rw [hx] at hsub
      obtain ⟨-, -, k, hpending, -⟩ := hsub
      have hfree : s.model.publisher.publishing = none := by
        have hphase := hs.model.phase
        cases hw : s.model.writer with
        | sending => exact absurd hw (hstart hp)
        | idle | write | publish =>
          rw [hw] at hphase
          exact hphase.2.2
      refine enabled_model (a := .insert ()) rfl hf (by simp [State.advance, hp]) ?_
      simp [Model.State.step, Publisher.State.step, hx, hpending, hfree]
    | waiting => exact ⟨.start, rfl, by simp [State.step, hf, hp, hx]⟩
    | reading => exact absurd hx hpolls
  | waiting =>
    rw [hp] at hpolls
    have hx : s.model.subscribers () = .waiting := hpolls
    refine enabled_model (a := .wait ()) rfl hf (by simp [State.advance, hp]) ?_
    simpa [Model.State.step, hx, Option.isSome_iff_ne_none] using hwait hp
  | woken => exact ⟨.now, rfl, by simp [State.step, hf, hp]⟩
  | posting now r => exact ⟨.post, rfl, by simp [State.step, hf, hp]⟩
  | reading now =>
    rw [hp] at hpolls
    obtain ⟨w, p, hne, hstep⟩ :=
      SequenceLock.Reader.enabled s.model.lock.shared (s.model.lock.readers ())
    refine enabled_model (a := .read () w) rfl hf ?_ ?_
    · cases w with
      | ret =>
        generalize hreader : s.model.lock.readers () = p₀ at hstep
        cases SequenceLock.Reader.moves_of_step hstep with
        | ret loop value =>
          have hall : ∀ i, (value i).isSome := by
            intro i
            simp only [Filled, hreader, SequenceLock.Reader.Filled] at hfilled
            exact hfilled i (by simp)
          simp [State.advance, hp, hreader, Device.answer, complete, hall]
      | call | loadSeq | copy => simp [State.advance, hp]
    · cases w with
      | call loop =>
        cases loop with
        | false => exact absurd rfl hne
        | true => simp [Model.State.step, SequenceLock.System.step, hpolls.1, hstep]
      | loadSeq | copy | ret => simp [Model.State.step, SequenceLock.System.step, hpolls.1, hstep]

/-- There is no deadlock: a task that cannot go on waits at one of three places,
where one of the other tasks is ahead of it that can. -/
theorem no_deadlock [Nonempty H] {clock : Int} {as : List (Label ι H)}
    (h : run (State.step layout showFloat sensors) (.init layout clock) as = some s)
    (hf : s.sensor.failed = false) :
    (Enabled layout showFloat sensors s Label.ofMain ∨
      (s.requests = updateDepth ∧ Enabled layout showFloat sensors s Label.ofSensor)) ∧
    (Enabled layout showFloat sensors s Label.ofSensor ∨
      (s.sensor = .waiting ∧ s.requests = 0 ∧ Enabled layout showFloat sensors s Label.ofMain)) ∧
    (Enabled layout showFloat sensors s Label.ofPoster ∨
      (s.poster = .start ∧ s.model.writer = .sending ∧
        Enabled layout showFloat sensors s Label.ofSensor) ∨
      (s.poster = .waiting ∧ s.model.publisher.step 1 (.wait ()) = none)) := by
  have hinv : (Inv layout s ∧ Counts s) ∧ Filled s :=
    run_invariant (I := fun s => (Inv layout s ∧ Counts s) ∧ Filled s)
      (fun s a t hi ht => ⟨⟨hi.1.1.step ht, hi.1.2.step ht⟩, hi.2.step ht⟩)
      ⟨⟨inv_init layout clock, counts_init layout clock⟩, trivial⟩ h
  obtain ⟨⟨hs, -, hroom⟩, hfilled⟩ := hinv
  have hmain : s.requests < updateDepth → Enabled layout showFloat sensors s Label.ofMain := by
    intro hlt
    cases hp : s.main with
    | update => exact ⟨.update, rfl, by simp [State.step, hf, hp, hlt]⟩
    | delay => exact ⟨.delay, rfl, by simp [State.step, hf, hp]⟩
  refine ⟨?_, ?_, ?_⟩
  · obtain hlt | hfull := Nat.lt_or_eq_of_le hroom
    · exact .inl (hmain hlt)
    · exact .inr ⟨hfull, hs.sensor_enabled hf fun _ => by simp [hfull, updateDepth]⟩
  · by_cases hblocked : s.sensor = .waiting ∧ s.requests = 0
    · exact .inr ⟨hblocked.1, hblocked.2, hmain (by simp [hblocked.2, updateDepth])⟩
    · refine .inl (hs.sensor_enabled hf fun hp => Nat.pos_of_ne_zero fun hnone => ?_)
      exact hblocked ⟨hp, hnone⟩
  · by_cases hmutex : s.poster = .start ∧ s.model.writer = .sending
    · refine .inr (.inl ⟨hmutex.1, hmutex.2, hs.sensor_enabled hf fun hp => ?_⟩)
      have hidle := ((calls_of_ne (by simp [hp])).mp hs.calls).1
      simp [hidle] at hmutex
    · by_cases hempty : s.poster = .waiting ∧ s.model.publisher.step 1 (.wait ()) = none
      · exact .inr (.inr hempty)
      · exact .inl (hs.poster_enabled hfilled hf (fun hp hw => hmutex ⟨hp, hw⟩)
          fun hp hw => hempty ⟨hp, hw⟩)

/-- The sensor task does not get to run. -/
def eagerUpdates : List (Label Member Nat) := (List.replicate 10 [.update, .delay]).flatten

theorem no_deadlock_eagerUpdates :
    ∃ s : State MemberType Nat,
      run (State.step members (fun _ => "21.5".toList) oneSensor) (.init members 0) eagerUpdates =
        some s ∧
      s.main = .update ∧
      (Enabled members (fun _ => "21.5".toList) oneSensor s Label.ofMain ∨
        (s.requests = updateDepth ∧
          Enabled members (fun _ => "21.5".toList) oneSensor s Label.ofSensor)) := by
  obtain ⟨s, hs, hmain, hsensor⟩ : ∃ s : State MemberType Nat,
      run (State.step members (fun _ => "21.5".toList) oneSensor) (.init members 0) eagerUpdates =
        some s ∧ s.main = .update ∧ s.sensor.failed = false := ⟨_, rfl, rfl, rfl⟩
  exact ⟨s, hs, hmain, (no_deadlock hs hsensor).1⟩

end Thermometer.Device
