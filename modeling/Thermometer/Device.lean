import Thermometer.Notification
import Thermometer.SensorTask

namespace Thermometer.Device

open Thermometer.Transition

variable {ι H : Type} {V : ι → Type}

/-- The loop of `app_main`: `update()`, then a delay. -/
inductive Main where
  | update | delay
  deriving DecidableEq

/-- Where `sensor_task_main` is. While it writes, `Model.Writer` tells where in
`Model::write`. A failure ends all tasks. -/
inductive Sensor where
  | waiting | requested | converting
  | stamped (timestamp : Int)
  | writing
  | aborted (why : SensorTask.Failure)
  deriving DecidableEq

/-- `update_queue` holds items that are all alike, so that their number is
enough. `written` has the arguments of the calls of `Model::write`, and `seen`
is the variable `model_data` of the poster. -/
structure State (V : ι → Type) (H : Type) where
  clock : Int
  main : Main
  updates : Nat
  requests : Nat
  sensor : Sensor
  written : List SensorReadings
  model : Model.State V Unit H
  poster : PosterTask.Poster
  seen : Option SensorReadings
  nextUpdate : Int
  posts : List PosterTask.Post

inductive Label (ι H : Type) where
  | tick (elapsed : Nat)
  | update | delay
  | receive
  | trigger (trigger : Nat → EspErr)
  | stamp
  | measure (get : Nat → EspErr × Binary32)
  | model (a : Model.Label ι Unit H)
  | start | now | post

/-- The depth of `update_queue`. -/
def updateDepth : Nat := 10

/-- The readings of the model before the first write. -/
def initialReadings : SensorReadings := ⟨default, 0⟩

/-- `layout` splits the readings into the fields that are copied one by one. -/
def State.version (layout : SensorReadings ≃ ∀ i, V i) (s : State V H) (k : Nat) : ∀ i, V i :=
  layout ((initialReadings :: s.written).getD k initialReadings)

def State.init (layout : SensorReadings ≃ ∀ i, V i) (clock : Int) : State V H where
  clock := clock
  main := .update
  updates := 0
  requests := 0
  sensor := .waiting
  written := []
  model := .init fun _ => layout initialReadings
  poster := .start
  seen := none
  nextUpdate := 0
  posts := []

/-- The layout with one field for each member of `SensorReadings`. -/
inductive Member where
  | readings | timestamp
  deriving DecidableEq

instance : Fintype Member := ⟨{.readings, .timestamp}, fun m => by cases m <;> decide⟩

abbrev MemberType : Member → Type
  | .readings => InplaceVector SensorReading maxSensors
  | .timestamp => Int

def members : SensorReadings ≃ ∀ m, MemberType m where
  toFun r
    | .readings => r.readings
    | .timestamp => r.timestamp
  invFun d := ⟨d .readings, d .timestamp⟩
  left_inv _ := rfl
  right_inv d := funext fun m => by cases m <;> rfl

/-- The value of a copy that has all its fields. -/
def complete [Fintype ι] (value : SequenceLock.Copy V) : Option (∀ i, V i) :=
  if h : ∀ i, (value i).isSome then some fun i => (value i).get (h i) else none

def answer [Fintype ι] : SequenceLock.Reader V → Option (∀ i, V i)
  | .result _ value _ => complete value
  | _ => none

/-- What a step inside the model means for the task that takes it, which has to
be at that point. The poster looks at the readings when its call of `read`
returns. -/
def State.advance [Fintype ι] (layout : SensorReadings ≃ ∀ i, V i) (s : State V H) :
    Model.Label ι Unit H → Option (State V H)
  | .write _ | .lock | .send => if s.sensor = .writing then some s else none
  | .unlock => if s.sensor = .writing then some { s with sensor := .waiting } else none
  | .create _ _ | .insert _ => if s.poster = .start then some s else none
  | .wait _ => if s.poster = .waiting then some { s with poster := .woken } else none
  | .read _ .ret =>
      match s.poster, answer (s.model.lock.readers ()) with
      | .reading now, some d =>
          some
            { s with
              poster := PosterTask.afterRead s.nextUpdate now (layout.symm d)
              seen := some (layout.symm d) }
      | _, _ => none
  | .read _ _ =>
      match s.poster with
      | .reading _ => some s
      | _ => none

def Sensor.failed : Sensor → Bool
  | .aborted _ => true
  | _ => false

variable [DecidableEq ι] [Fintype ι] [DecidableEq H]

/-- One step of `app_main`, the sensor task, the poster task or the clock. A
send with `portMAX_DELAY` blocks on a full queue and a receive on an empty one. -/
def State.step (layout : SensorReadings ≃ ∀ i, V i) (showFloat : Binary32 → List Char)
    (sensors : SensorTask.Sensors) (s : State V H) (a : Label ι H) : Option (State V H) :=
  if s.sensor.failed then none
  else match a with
  | .tick elapsed => some { s with clock := s.clock + elapsed }
  | .update =>
      if s.main = .update ∧ s.requests < updateDepth then
        some { s with main := .delay, updates := s.updates + 1, requests := s.requests + 1 }
      else none
  | .delay => if s.main = .delay then some { s with main := .update } else none
  | .receive =>
      match s.sensor, s.requests with
      | .waiting, requests + 1 => some { s with sensor := .requested, requests := requests }
      | _, _ => none
  | .trigger trigger =>
      if s.sensor = .requested then
        match SensorTask.triggerConversions trigger sensors.toList with
        | .ok () => some { s with sensor := .converting }
        | .error why => some { s with sensor := .aborted why }
      else none
  | .stamp =>
      if s.sensor = .converting then some { s with sensor := .stamped s.clock } else none
  | .measure get =>
      match s.sensor with
      | .stamped timestamp =>
          match SensorTask.getTemperatures get default sensors.toList with
          | .ok readings =>
              some { s with sensor := .writing, written := s.written ++ [⟨readings, timestamp⟩] }
          | .error why => some { s with sensor := .aborted why }
      | _ => none
  | .model a =>
      (s.advance layout a).bind fun t =>
        (s.model.step (s.version layout) a).map fun m => { t with model := m }
  | .start =>
      if s.poster = .start ∧ s.model.subscribers () = .waiting then
        some
          { s with
            poster := .waiting
            nextUpdate := s.clock - PosterTask.postingInterval }
      else none
  | .now => if s.poster = .woken then some { s with poster := .reading s.clock } else none
  | .post =>
      match s.poster with
      | .posting now r =>
          some
            { s with
              poster := .waiting
              nextUpdate := s.clock + PosterTask.postingInterval
              posts := s.posts ++ [⟨r, now, s.clock, PosterTask.toJson showFloat r⟩] }
      | _ => none

variable (layout : SensorReadings ≃ ∀ i, V i) (showFloat : Binary32 → List Char)
  (sensors : SensorTask.Sensors)

omit [DecidableEq ι] [DecidableEq H] in
inductive State.Advances (s : State V H) : Model.Label ι Unit H → State V H → Prop where
  | writer (a) (hp : s.sensor = .writing) (h : (∃ w, a = .write w) ∨ a = .lock ∨ a = .send) :
      Advances s a s
  | unlock (hp : s.sensor = .writing) : Advances s .unlock { s with sensor := .waiting }
  | subscribe (a) (hp : s.poster = .start) (h : (∃ k, a = .create () k) ∨ a = .insert ()) :
      Advances s a s
  | wait (hp : s.poster = .waiting) : Advances s (.wait ()) { s with poster := .woken }
  | read (a now) (hp : s.poster = .reading now) (ha : a ≠ .ret) : Advances s (.read () a) s
  | ret (now d) (hp : s.poster = .reading now) (h : answer (s.model.lock.readers ()) = some d) :
      Advances s (.read () .ret)
      { s with
        poster := PosterTask.afterRead s.nextUpdate now (layout.symm d)
        seen := some (layout.symm d) }

inductive State.Steps (s : State V H) : Label ι H → State V H → Prop where
  | tick (elapsed) : Steps s (.tick elapsed) { s with clock := s.clock + elapsed }
  | update (hp : s.main = .update) (hroom : s.requests < updateDepth) : Steps s .update
      { s with main := .delay, updates := s.updates + 1, requests := s.requests + 1 }
  | delay (hp : s.main = .delay) : Steps s .delay { s with main := .update }
  | receive (requests) (hp : s.sensor = .waiting) (hr : s.requests = requests + 1) :
      Steps s .receive { s with sensor := .requested, requests := requests }
  | trigger (trigger) (hp : s.sensor = .requested)
      (h : SensorTask.triggerConversions trigger sensors.toList = .ok ()) :
      Steps s (.trigger trigger) { s with sensor := .converting }
  | triggerFailed (trigger why) (hp : s.sensor = .requested)
      (h : SensorTask.triggerConversions trigger sensors.toList = .error why) :
      Steps s (.trigger trigger) { s with sensor := .aborted why }
  | stamp (hp : s.sensor = .converting) : Steps s .stamp { s with sensor := .stamped s.clock }
  | measure (get timestamp readings) (hp : s.sensor = .stamped timestamp)
      (h : SensorTask.getTemperatures get default sensors.toList = .ok readings) :
      Steps s (.measure get)
      { s with sensor := .writing, written := s.written ++ [⟨readings, timestamp⟩] }
  | measureFailed (get timestamp why) (hp : s.sensor = .stamped timestamp)
      (h : SensorTask.getTemperatures get default sensors.toList = .error why) :
      Steps s (.measure get) { s with sensor := .aborted why }
  | model (a t m) (ht : s.Advances layout a t) (hm : s.model.step (s.version layout) a = some m) :
      Steps s (.model a) { t with model := m }
  | start (hp : s.poster = .start) (hm : s.model.subscribers () = .waiting) : Steps s .start
      { s with poster := .waiting, nextUpdate := s.clock - PosterTask.postingInterval }
  | now (hp : s.poster = .woken) : Steps s .now { s with poster := .reading s.clock }
  | post (now r) (hp : s.poster = .posting now r) : Steps s .post
      { s with
        poster := .waiting
        nextUpdate := s.clock + PosterTask.postingInterval
        posts := s.posts ++ [⟨r, now, s.clock, PosterTask.toJson showFloat r⟩] }

omit [DecidableEq ι] [DecidableEq H] in
theorem State.advances_of_advance {s t : State V H} {a : Model.Label ι Unit H}
    (h : s.advance layout a = some t) : s.Advances layout a t := by
  cases a with
  | write w =>
    obtain ⟨hp, ⟨⟩⟩ := Option.ite_none_right_eq_some.mp h
    exact .writer _ hp (.inl ⟨w, rfl⟩)
  | lock =>
    obtain ⟨hp, ⟨⟩⟩ := Option.ite_none_right_eq_some.mp h
    exact .writer _ hp (.inr (.inl rfl))
  | send =>
    obtain ⟨hp, ⟨⟩⟩ := Option.ite_none_right_eq_some.mp h
    exact .writer _ hp (.inr (.inr rfl))
  | unlock =>
    obtain ⟨hp, ⟨⟩⟩ := Option.ite_none_right_eq_some.mp h
    exact .unlock hp
  | create r k =>
    obtain ⟨hp, ⟨⟩⟩ := Option.ite_none_right_eq_some.mp h
    exact .subscribe _ hp (.inl ⟨k, rfl⟩)
  | insert r =>
    obtain ⟨hp, ⟨⟩⟩ := Option.ite_none_right_eq_some.mp h
    exact .subscribe _ hp (.inr rfl)
  | wait r =>
    obtain ⟨hp, ⟨⟩⟩ := Option.ite_none_right_eq_some.mp h
    exact .wait hp
  | read r a =>
    cases a with
    | ret =>
      simp only [State.advance] at h
      split at h
      · rename_i now d hp hd
        cases h
        exact .ret now d hp hd
      · cases h
    | call | loadSeq | copy =>
      simp only [State.advance] at h
      split at h
      · rename_i now hp
        cases h
        exact .read _ now hp (by simp)
      · cases h

theorem State.steps_of_step {s t : State V H} {a : Label ι H}
    (h : s.step layout showFloat sensors a = some t) :
    s.sensor.failed = false ∧ s.Steps layout showFloat sensors a t := by
  unfold State.step at h
  split at h
  · cases h
  · rename_i hfailed
    refine ⟨by simpa using hfailed, ?_⟩
    cases a with
    | tick elapsed =>
      cases h
      exact .tick elapsed
    | update =>
      obtain ⟨⟨hp, hroom⟩, ⟨⟩⟩ := Option.ite_none_right_eq_some.mp h
      exact .update hp hroom
    | delay =>
      obtain ⟨hp, ⟨⟩⟩ := Option.ite_none_right_eq_some.mp h
      exact .delay hp
    | receive =>
      dsimp only at h
      split at h
      · rename_i requests hp hr
        cases h
        exact .receive requests hp hr
      · cases h
    | trigger trigger =>
      obtain ⟨hp, h⟩ := Option.ite_none_right_eq_some.mp h
      split at h
      · rename_i htrigger
        cases h
        exact .trigger trigger hp htrigger
      · rename_i why htrigger
        cases h
        exact .triggerFailed trigger why hp htrigger
    | stamp =>
      obtain ⟨hp, ⟨⟩⟩ := Option.ite_none_right_eq_some.mp h
      exact .stamp hp
    | measure get =>
      dsimp only at h
      split at h
      · rename_i timestamp hp
        split at h
        · rename_i readings hget
          cases h
          exact .measure get timestamp readings hp hget
        · rename_i why hget
          cases h
          exact .measureFailed get timestamp why hp hget
      · cases h
    | model a =>
      obtain ⟨u, hu, h⟩ := Option.bind_eq_some_iff.mp h
      obtain ⟨m, hm, rfl⟩ := Option.map_eq_some_iff.mp h
      exact .model a u m (State.advances_of_advance layout hu) hm
    | start =>
      obtain ⟨⟨hp, hm⟩, ⟨⟩⟩ := Option.ite_none_right_eq_some.mp h
      exact .start hp hm
    | now =>
      obtain ⟨hp, ⟨⟩⟩ := Option.ite_none_right_eq_some.mp h
      exact .now hp
    | post =>
      dsimp only at h
      split at h
      · rename_i now r hp
        cases h
        exact .post now r hp
      · cases h

variable {layout} {showFloat} {sensors} {s t : State V H} {a : Label ι H}

theorem State.clock_of_step (h : s.step layout showFloat sensors a = some t) :
    s.clock ≤ t.clock := by
  cases (State.steps_of_step layout showFloat sensors h).2 with
  | tick elapsed =>
    change s.clock ≤ s.clock + elapsed
    omega
  | model b u m hu hm => cases hu <;> exact Int.le_refl _
  | _ => exact Int.le_refl _

/-- The model is changed by the steps inside it only. -/
theorem State.model_of_step (h : s.step layout showFloat sensors a = some t) :
    t.model = s.model ∨ ∃ b u m, a = .model b ∧ s.Advances layout b u ∧
      s.model.step (s.version layout) b = some m ∧ t = { u with model := m } := by
  cases (State.steps_of_step layout showFloat sensors h).2 with
  | model b u m hu hm => exact .inr ⟨b, u, m, rfl, hu, hm, rfl⟩
  | _ => exact .inl rfl

omit [DecidableEq ι] [Fintype ι] [DecidableEq H] in
/-- How the sensor task goes on, and the rounds that are written with it. -/
inductive Sensor.Turns (sensors : SensorTask.Sensors) (clock : Int) :
    Sensor → Label ι H → Sensor → List SensorReadings → Prop where
  | receive : Turns sensors clock .waiting .receive .requested []
  | trigger (trigger) (h : SensorTask.triggerConversions trigger sensors.toList = .ok ()) :
      Turns sensors clock .requested (.trigger trigger) .converting []
  | triggerFailed (trigger why)
      (h : SensorTask.triggerConversions trigger sensors.toList = .error why) :
      Turns sensors clock .requested (.trigger trigger) (.aborted why) []
  | stamp : Turns sensors clock .converting .stamp (.stamped clock) []
  | measure (get timestamp readings)
      (h : SensorTask.getTemperatures get default sensors.toList = .ok readings) :
      Turns sensors clock (.stamped timestamp) (.measure get) .writing [⟨readings, timestamp⟩]
  | measureFailed (get timestamp why)
      (h : SensorTask.getTemperatures get default sensors.toList = .error why) :
      Turns sensors clock (.stamped timestamp) (.measure get) (.aborted why) []
  | unlock : Turns sensors clock .writing (.model .unlock) .waiting []

/-- All other steps leave the sensor task and its rounds alone. -/
theorem State.turns_of_step (h : s.step layout showFloat sensors a = some t) :
    (t.sensor = s.sensor ∧ t.written = s.written) ∨ ∃ rounds,
      s.sensor.Turns sensors s.clock a t.sensor rounds ∧ t.written = s.written ++ rounds := by
  cases (State.steps_of_step layout showFloat sensors h).2 with
  | receive requests hp => exact .inr ⟨[], hp ▸ .receive, (List.append_nil _).symm⟩
  | trigger trigger hp ht => exact .inr ⟨[], hp ▸ .trigger trigger ht, (List.append_nil _).symm⟩
  | triggerFailed trigger why hp ht =>
    exact .inr ⟨[], hp ▸ .triggerFailed trigger why ht, (List.append_nil _).symm⟩
  | stamp hp => exact .inr ⟨[], hp ▸ .stamp, (List.append_nil _).symm⟩
  | measure get timestamp readings hp hget =>
    exact .inr ⟨_, hp ▸ .measure get timestamp readings hget, rfl⟩
  | measureFailed get timestamp why hp hget =>
    exact .inr ⟨[], hp ▸ .measureFailed get timestamp why hget, (List.append_nil _).symm⟩
  | model b u m hu hm =>
    cases hu with
    | unlock hp => exact .inr ⟨[], hp ▸ .unlock, (List.append_nil _).symm⟩
    | _ => exact .inl ⟨rfl, rfl⟩
  | _ => exact .inl ⟨rfl, rfl⟩

theorem State.posts_of_step (h : s.step layout showFloat sensors a = some t) :
    t.posts = s.posts ∨ ∃ now r, s.poster = .posting now r ∧
      t.posts = s.posts ++ [⟨r, now, s.clock, PosterTask.toJson showFloat r⟩] := by
  cases (State.steps_of_step layout showFloat sensors h).2 with
  | post now r hp => exact .inr ⟨now, r, hp, rfl⟩
  | model b u m hu hm => cases hu <;> exact .inl rfl
  | _ => exact .inl rfl

end Thermometer.Device
