import Thermometer.EspErr
import Thermometer.PosterTask

namespace Thermometer.SensorTask

open Thermometer.Transition

/-- Sensor readings of this value or larger are invalid: 85.0. -/
def maxTemperature : Binary32 := ⟨0x42AA0000⟩

structure Sensor where
  handle : Nat
  address : BitVec 64
  deriving DecidableEq, Inhabited

abbrev Sensors := InplaceVector Sensor maxSensors

def oneSensor : Sensors := .ofList [⟨1, 0x28FF641F⟩]

/-- What ends the program: a failed `ESP_ERROR_CHECK`, or an exception that
leaves the task. -/
inductive Failure where
  | check (err : EspErr)
  | thrown (exception : StdException)
  deriving DecidableEq

def triggerConversions (trigger : Nat → EspErr) : List Sensor → Except Failure Unit
  | [] => .ok ()
  | sensor :: rest =>
      if trigger sensor.handle = espOk then triggerConversions trigger rest
      else .error (.check (trigger sensor.handle))

def getTemperatures (get : Nat → EspErr × Binary32)
    (readings : InplaceVector SensorReading maxSensors) :
    List Sensor → Except Failure (InplaceVector SensorReading maxSensors)
  | [] => .ok readings
  | sensor :: rest =>
      if (get sensor.handle).1 = espOk then
        match readings.emplaceBack ⟨(get sensor.handle).2, sensor.address⟩ with
        | .ok readings => getTemperatures get readings rest
        | .error exception => .error (.thrown exception)
      else .error (.check (get sensor.handle).1)

/-- Where `sensor_task_main` is, and the timestamp of the readings it is about
to collect. A failure ends both tasks. -/
inductive Phase where
  | waiting | requested | converting
  | stamped (timestamp : Int)
  | aborted (why : Failure)
  deriving DecidableEq

structure State where
  sensor : Phase
  poster : PosterTask.State

inductive Label where
  | receive (received : Bool)
  | trigger (trigger : Nat → EspErr)
  | stamp
  | measure (get : Nat → EspErr × Binary32)
  | poster (a : PosterTask.Label)

def State.init (clock : Int) : State where
  sensor := .waiting
  poster := .init clock

variable (showFloat : Binary32 → List Char) (sensors : Sensors)

/-- One step of the sensor task, or of the clock and the poster task beside it.
The driver may answer anything. The step that collects the temperatures ends
with `Model::write`. -/
def State.step (s : State) : Label → Option State
  | .receive received =>
      if s.sensor = .waiting then
        some { s with sensor := if received then .requested else .waiting }
      else none
  | .trigger trigger =>
      if s.sensor = .requested then
        match triggerConversions trigger sensors.toList with
        | .ok () => some { s with sensor := .converting }
        | .error why => some { s with sensor := .aborted why }
      else none
  | .stamp =>
      if s.sensor = .converting then some { s with sensor := .stamped s.poster.clock } else none
  | .measure get =>
      match s.sensor with
      | .stamped timestamp =>
          match getTemperatures get default sensors.toList with
          | .ok readings =>
              (s.poster.step showFloat (.write ⟨readings, timestamp⟩)).map fun p =>
                { s with sensor := .waiting, poster := p }
          | .error why => some { s with sensor := .aborted why }
      | _ => none
  | .poster (.write _) => none
  | .poster a =>
      match s.sensor with
      | .aborted _ => none
      | _ => (s.poster.step showFloat a).map fun p => { s with poster := p }

inductive State.Steps (s : State) : Label → State → Prop where
  | sensor (a phase) (h : ∀ get, a ≠ .measure get)
      (hstamp : ∀ timestamp, phase = .stamped timestamp → timestamp = s.poster.clock) :
      Steps s a { s with sensor := phase }
  | failed (get why) (h : getTemperatures get default sensors.toList = .error why) :
      Steps s (.measure get) { s with sensor := .aborted why }
  | measure (get timestamp readings p) (hp : s.sensor = .stamped timestamp)
      (h : getTemperatures get default sensors.toList = .ok readings)
      (hw : s.poster.step showFloat (.write ⟨readings, timestamp⟩) = some p) :
      Steps s (.measure get) { s with sensor := .waiting, poster := p }
  | poster (a p) (ha : ∀ r, a ≠ .write r) (h : s.poster.step showFloat a = some p) :
      Steps s (.poster a) { s with poster := p }

theorem State.steps_of_step {s t : State} {a : Label}
    (h : s.step showFloat sensors a = some t) : s.Steps showFloat sensors a t := by
  cases a with
  | receive received =>
    obtain ⟨_, ⟨⟩⟩ := Option.ite_none_right_eq_some.mp h
    exact .sensor _ _ (by simp) (by cases received <;> simp)
  | trigger trigger =>
    obtain ⟨_, h⟩ := Option.ite_none_right_eq_some.mp h
    split at h <;> cases h <;> exact .sensor _ _ (by simp) (by simp)
  | stamp =>
    obtain ⟨_, ⟨⟩⟩ := Option.ite_none_right_eq_some.mp h
    exact .sensor _ _ (by simp) fun timestamp h => by simpa using h.symm
  | measure get =>
    simp only [State.step] at h
    split at h
    · rename_i timestamp hp
      split at h
      · rename_i readings hget
        obtain ⟨p, hw, rfl⟩ := Option.map_eq_some_iff.mp h
        exact .measure get timestamp readings p hp hget hw
      · rename_i why hget
        cases h
        exact .failed get why hget
    · cases h
  | poster a =>
    have hstep : (∀ r, a ≠ .write r) ∧
        ∃ p, s.poster.step showFloat a = some p ∧ { s with poster := p } = t := by
      cases a with
      | write r => simp [State.step] at h
      | _ =>
        simp only [State.step] at h
        split at h
        · cases h
        · exact ⟨by simp, Option.map_eq_some_iff.mp h⟩
    obtain ⟨ha, p, hp, rfl⟩ := hstep
    exact .poster a p ha hp

end Thermometer.SensorTask
