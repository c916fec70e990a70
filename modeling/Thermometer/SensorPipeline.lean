import Thermometer.SensorTask

namespace Thermometer.SensorTask

open Thermometer.Transition

variable {showFloat : Binary32 → List Char} {sensors : Sensors} {s t : State}

/-- The readings that the sensors give when every call succeeds. -/
def readingsOf (get : Nat → EspErr × Binary32) (sensors : List Sensor) : List SensorReading :=
  sensors.map fun sensor => ⟨(get sensor.handle).2, sensor.address⟩

def Succeeds (get : Nat → EspErr × Binary32) (sensors : List Sensor) : Prop :=
  ∀ sensor ∈ sensors, (get sensor.handle).1 = espOk

theorem getTemperatures_of_succeeds {get : Nat → EspErr × Binary32} {rest : List Sensor}
    {readings : InplaceVector SensorReading maxSensors} (h : Succeeds get rest)
    (hroom : readings.size + rest.length ≤ maxSensors) :
    ∃ w, getTemperatures get readings rest = .ok w ∧
      w.toList = readings.toList ++ readingsOf get rest := by
  induction rest generalizing readings with
  | nil => exact ⟨readings, rfl, by simp [readingsOf]⟩
  | cons sensor rest ih =>
    obtain ⟨hsensor, hrest⟩ := List.forall_mem_cons.mp h
    rw [List.length_cons] at hroom
    obtain ⟨next, hnext, hsize, hlist⟩ :=
      readings.emplaceBack_of_lt ⟨(get sensor.handle).2, sensor.address⟩ (by omega)
    obtain ⟨w, hw, hwlist⟩ : ∃ w, getTemperatures get next rest = .ok w ∧
        w.toList = next.toList ++ readingsOf get rest := ih hrest (by omega)
    refine ⟨w, ?_, ?_⟩
    · simp only [getTemperatures, if_pos hsensor, hnext, hw]
    · rw [hwlist, hlist]
      simp [readingsOf]

theorem succeeds_of_getTemperatures {get : Nat → EspErr × Binary32} {rest : List Sensor}
    {readings w : InplaceVector SensorReading maxSensors}
    (h : getTemperatures get readings rest = .ok w) : Succeeds get rest := by
  induction rest generalizing readings with
  | nil => simp [Succeeds]
  | cons sensor rest ih =>
    simp only [getTemperatures] at h
    split at h
    · rename_i hsensor
      split at h
      · exact List.forall_mem_cons.mpr ⟨hsensor, ih h⟩
      · cases h
    · cases h

theorem triggerConversions_error {trigger : Nat → EspErr} {rest : List Sensor} {why : Failure}
    (h : triggerConversions trigger rest = .error why) : ∃ err, err ≠ espOk ∧ why = .check err := by
  induction rest with
  | nil => cases h
  | cons sensor rest ih =>
    simp only [triggerConversions] at h
    split at h
    · exact ih h
    · rename_i hcheck
      cases h
      exact ⟨_, hcheck, rfl⟩

theorem getTemperatures_error {get : Nat → EspErr × Binary32} {rest : List Sensor}
    {readings : InplaceVector SensorReading maxSensors} {why : Failure}
    (hroom : readings.size + rest.length ≤ maxSensors)
    (h : getTemperatures get readings rest = .error why) :
    ∃ err, err ≠ espOk ∧ why = .check err := by
  induction rest generalizing readings with
  | nil => cases h
  | cons sensor rest ih =>
    rw [List.length_cons] at hroom
    obtain ⟨next, hnext, hsize, -⟩ :=
      readings.emplaceBack_of_lt ⟨(get sensor.handle).2, sensor.address⟩ (by omega)
    simp only [getTemperatures, hnext] at h
    split at h
    · exact ih (by omega) h
    · rename_i hcheck
      cases h
      exact ⟨_, hcheck, rfl⟩

theorem getTemperatures_default {get : Nat → EspErr × Binary32}
    (h : Succeeds get sensors.toList) :
    ∃ w, getTemperatures get default sensors.toList = .ok w ∧
      w.toList = readingsOf get sensors.toList := by
  have hroom : (default : InplaceVector SensorReading maxSensors).size + sensors.toList.length ≤
      maxSensors := by
    apply InplaceVector.default_room
    rw [sensors.length_toList]
    exact sensors.size_le
  obtain ⟨w, hw, hlist⟩ := getTemperatures_of_succeeds h hroom
  exact ⟨w, hw, by rw [hlist, InplaceVector.toList_default, List.nil_append]⟩

theorem getTemperatures_eq_ok {get : Nat → EspErr × Binary32} {readings}
    (h : getTemperatures get default sensors.toList = .ok readings) :
    Succeeds get sensors.toList ∧ readings.toList = readingsOf get sensors.toList := by
  have hsucceeds := succeeds_of_getTemperatures h
  obtain ⟨w, hw, hlist⟩ := getTemperatures_default hsucceeds
  obtain rfl : w = readings := Except.ok.inj (hw.symm.trans h)
  exact ⟨hsucceeds, hlist⟩

def AllBelow (readings : List SensorReading) : Prop :=
  ∀ reading ∈ readings, reading.temperature.Lt maxTemperature

/-- No invalid value has left the sensor task, neither to the model nor in the
payload of a post. -/
def OnlyValid (showFloat : Binary32 → List Char) (s : State) : Prop :=
  (∀ r ∈ s.poster.written, AllBelow r.readings.toList) ∧
  ∀ p ∈ s.poster.posts, AllBelow p.readings.readings.toList ∧
    p.payload = PosterTask.toJson showFloat p.readings

/-- The sensors of a round that succeeds gave temperatures below the bound. -/
def GivesBelow (sensors : Sensors) (_ : State) : Label → Prop
  | .measure get => Succeeds get sensors.toList → AllBelow (readingsOf get sensors.toList)
  | _ => True

structure Inv (showFloat : Binary32 → List Char) (s : State) : Prop where
  poster : PosterTask.Inv showFloat s.poster
  stamped : ∀ timestamp, s.sensor = .stamped timestamp → timestamp ≤ s.poster.clock
  below : ∀ r ∈ s.poster.written, AllBelow r.readings.toList

theorem Inv.onlyValid (hs : Inv showFloat s) : OnlyValid showFloat s :=
  ⟨hs.below, fun p hp => ⟨hs.below _ (hs.poster.posted p hp).written,
    (hs.poster.posted p hp).payload⟩⟩

theorem inv_init (clock : Int) : Inv showFloat (.init clock) where
  poster := PosterTask.inv_init clock
  stamped := by simp [State.init]
  below := by simp [State.init, PosterTask.State.init]

theorem Inv.step (hs : Inv showFloat s) {a : Label} (hbelow : GivesBelow sensors s a)
    (h : s.step showFloat sensors a = some t) : Inv showFloat t := by
  cases State.steps_of_step showFloat sensors h with
  | sensor a phase _ hstamp => exact ⟨hs.poster, fun _ h => Int.le_of_eq (hstamp _ h), hs.below⟩
  | failed get why _ => exact ⟨hs.poster, by simp, hs.below⟩
  | measure get timestamp readings p hp hget hw =>
    obtain ⟨hsucceeds, hlist⟩ := getTemperatures_eq_ok hget
    refine ⟨hs.poster.step hw, by simp, ?_⟩
    rw [PosterTask.step_write hw]
    refine List.forall_mem_cons.mpr ⟨?_, hs.below⟩
    rw [hlist]
    exact hbelow hsucceeds
  | poster a p ha hstep =>
    obtain ⟨hwritten, hclock⟩ := PosterTask.step_frame ha hstep
    refine ⟨hs.poster.step hstep, fun timestamp h => ?_, ?_⟩
    · exact Int.le_trans (hs.stamped timestamp h) hclock
    · rw [hwritten]
      exact hs.below

/-- `Model::write` is never refused: the timestamp is not ahead of the clock. -/
theorem Inv.measure_some (hs : Inv showFloat s) {timestamp : Int} (get : Nat → EspErr × Binary32)
    (hp : s.sensor = .stamped timestamp) :
    (s.step showFloat sensors (.measure get)).isSome := by
  simp only [State.step, hp]
  split
  · simp [PosterTask.State.step, hs.stamped timestamp hp]
  · rfl

/-- A round that succeeds with a value out of bounds puts it into the model. -/
theorem not_onlyValid_of_measure {a : Label} (hbelow : ¬ GivesBelow sensors s a)
    (h : s.step showFloat sensors a = some t) : ¬ OnlyValid showFloat t := by
  intro hvalid
  apply hbelow
  cases State.steps_of_step showFloat sensors h with
  | sensor a phase ha _ =>
    cases a with
    | measure get => exact absurd rfl (ha get)
    | _ => trivial
  | failed get why hget =>
    intro hsucceeds
    obtain ⟨w, hw, _⟩ := getTemperatures_default hsucceeds
    cases hw.symm.trans hget
  | measure get timestamp readings p hp hget hw =>
    intro _
    have hwritten : ⟨readings, timestamp⟩ ∈ p.written := by
      rw [PosterTask.step_write hw]
      exact .head _
    rw [← (getTemperatures_eq_ok hget).2]
    exact hvalid.1 _ hwritten
  | poster a p _ _ => trivial

/-- Invalid values stay in the sensor task exactly when no round that succeeds
gives one: nothing on the way compares a temperature with the bound. -/
theorem onlyValid_iff_givesBelow {clock : Int} {as : List Label}
    (h : run (State.step showFloat sensors) (.init clock) as = some s) :
    Always (State.step showFloat sensors) (OnlyValid showFloat) (.init clock) as ↔
    Meets (State.step showFloat sensors) (GivesBelow sensors) (.init clock) as :=
  always_iff_meets (fun _ => True) (fun _ hs => Inv.onlyValid hs)
    (fun _ _ _ _ hs hbelow ht => hs.step hbelow ht)
    (fun _ _ _ _ _ hbelow ht => not_onlyValid_of_measure hbelow ht)
    (fun _ _ => trivial) (inv_init clock) h

def measured (temperature : Binary32) : List Label :=
  [.poster .start, .receive true, .trigger fun _ => espOk, .poster (.tick 750000), .stamp,
    .measure fun _ => (espOk, temperature)]

theorem onlyValid_iff_givesBelow_mild :
    Meets (State.step (fun _ => "21.5".toList) oneSensor) (GivesBelow oneSensor) (.init 0)
        (measured ⟨0x41AC0000⟩) ∧
      Always (State.step (fun _ => "21.5".toList) oneSensor) (OnlyValid fun _ => "21.5".toList)
        (.init 0) (measured ⟨0x41AC0000⟩) := by
  have hmeets : Meets (State.step (fun _ => "21.5".toList) oneSensor) (GivesBelow oneSensor)
      (.init 0) (measured ⟨0x41AC0000⟩) := by
    iterate 5 refine (meets_cons rfl).mpr ⟨trivial, ?_⟩
    refine (meets_cons rfl).mpr ⟨fun _ => ?_, trivial⟩
    unfold AllBelow
    decide
  obtain ⟨s, hs⟩ : ∃ s, run (State.step (fun _ => "21.5".toList) oneSensor) (.init 0)
      (measured ⟨0x41AC0000⟩) = some s := ⟨_, rfl⟩
  exact ⟨hmeets, (onlyValid_iff_givesBelow hs).mpr hmeets⟩

/-- The sensor still holds its power-on value of 85 degrees, which the poster
then reads from the model and posts. -/
def powerOn : List Label :=
  measured ⟨0x42AA0000⟩ ++ [.poster .wake, .poster .now,
    .poster (.read ⟨.ofList [⟨⟨0x42AA0000⟩, 0x28FF641F⟩], 750000⟩), .poster .post]

theorem powerOn_posted :
    ∃ s, run (State.step (fun _ => "85".toList) oneSensor) (.init 0) powerOn = some s ∧
      s.poster.posts.map PosterTask.Post.payload =
        [("\x7b\"sensor_readings\": [\x7b\"temperature\": 85," ++
          "\"address\": \"28ff641f\"\x7d]\x7d").toList] ∧
      ∃ p ∈ s.poster.posts, ∃ reading ∈ p.readings.readings.toList,
        ¬ reading.temperature.Lt maxTemperature :=
  ⟨_, rfl, rfl, _, .head _, _, .head _, by decide⟩

end Thermometer.SensorTask
