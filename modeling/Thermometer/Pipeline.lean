import Thermometer.Device

namespace Thermometer.Pipeline

open Thermometer.Transition
open Thermometer.Device (Main updateDepth initialReadings)

/-- Where the sensor task is, when the call of `Model::write` is one step for the
readings and one for `publish`. -/
inductive Sensor where
  | waiting | requested | converting
  | stamped (timestamp : Int)
  | measured (readings : SensorReadings)
  | written
  | aborted (why : SensorTask.Failure)
  deriving DecidableEq

def Sensor.failed : Sensor → Bool
  | .aborted _ => true
  | _ => false

/-- What the device is for: one task measures and another one posts, with the readings
written last between them, and a notification that there are new ones. -/
@[ext]
structure State where
  clock : Int
  main : Main
  requests : Nat
  sensor : Sensor
  written : List SensorReadings
  listed : Bool
  notified : Bool
  poster : PosterTask.Poster
  nextUpdate : Int
  posts : List PosterTask.Post

inductive Label where
  | tick (elapsed : Nat)
  | update | delay
  | receive
  | trigger (trigger : Nat → EspErr)
  | stamp
  | measure (get : Nat → EspErr × Binary32)
  | write | publish
  | subscribe | start | wake | now | read | post

def State.init (clock : Int) : State where
  clock := clock
  main := .update
  requests := 0
  sensor := .waiting
  written := []
  listed := false
  notified := false
  poster := .start
  nextUpdate := 0
  posts := []

/-- The readings that the model holds. -/
def State.content (s : State) : SensorReadings := s.written.headD initialReadings

variable (showFloat : Binary32 → List Char) (sensors : SensorTask.Sensors)

/-- A write replaces the readings and a read gives those that were written last. A
publish notifies the poster if it has subscribed, and each wake-up takes the one
notification that there is room for. -/
def State.step (s : State) (a : Label) : Option State :=
  if s.sensor.failed then none
  else match a with
  | .tick elapsed => some { s with clock := s.clock + elapsed }
  | .update =>
      if s.main = .update ∧ s.requests < updateDepth then
        some { s with main := .delay, requests := s.requests + 1 }
      else none
  | .delay => if s.main = .delay then some { s with main := .update } else none
  | .receive =>
      match s.sensor, s.requests with
      | .waiting, requests + 1 => some { s with sensor := .requested, requests := requests }
      | _, _ => none
  | .trigger trigger =>
      if s.sensor = .requested then
        match SensorTask.triggerConversions trigger sensors.toList with
        | .ok () => some { s with sensor := .converting }
        | .error why => some { s with sensor := .aborted why }
      else none
  | .stamp =>
      if s.sensor = .converting then some { s with sensor := .stamped s.clock } else none
  | .measure get =>
      match s.sensor with
      | .stamped timestamp =>
          match SensorTask.getTemperatures get default sensors.toList with
          | .ok readings => some { s with sensor := .measured ⟨readings, timestamp⟩ }
          | .error why => some { s with sensor := .aborted why }
      | _ => none
  | .write =>
      match s.sensor with
      | .measured r => some { s with sensor := .written, written := r :: s.written }
      | _ => none
  | .publish =>
      if s.sensor = .written then
        some { s with sensor := .waiting, notified := s.notified || s.listed }
      else none
  | .subscribe =>
      if s.poster = .start ∧ s.listed = false then some { s with listed := true } else none
  | .start =>
      if s.poster = .start ∧ s.listed = true then
        some
          { s with
            poster := .waiting
            nextUpdate := s.clock - PosterTask.postingInterval }
      else none
  | .wake =>
      if s.poster = .waiting ∧ s.notified = true then
        some { s with poster := .woken, notified := false }
      else none
  | .now => if s.poster = .woken then some { s with poster := .reading s.clock } else none
  | .read =>
      match s.poster with
      | .reading now => some { s with poster := PosterTask.afterRead s.nextUpdate now s.content }
      | _ => none
  | .post =>
      match s.poster with
      | .posting now r =>
          some
            { s with
              poster := .waiting
              nextUpdate := s.clock + PosterTask.postingInterval
              posts := s.posts ++ [⟨r, now, s.clock, PosterTask.toJson showFloat r⟩] }
      | _ => none

inductive State.Steps (s : State) : Label → State → Prop where
  | tick (elapsed) : Steps s (.tick elapsed) { s with clock := s.clock + elapsed }
  | update (hp : s.main = .update) (hroom : s.requests < updateDepth) : Steps s .update
      { s with main := .delay, requests := s.requests + 1 }
  | delay (hp : s.main = .delay) : Steps s .delay { s with main := .update }
  | receive (requests) (hp : s.sensor = .waiting) (hr : s.requests = requests + 1) :
      Steps s .receive { s with sensor := .requested, requests := requests }
  | trigger (trigger) (hp : s.sensor = .requested)
      (h : SensorTask.triggerConversions trigger sensors.toList = .ok ()) :
      Steps s (.trigger trigger) { s with sensor := .converting }
  | triggerFailed (trigger why) (hp : s.sensor = .requested)
      (h : SensorTask.triggerConversions trigger sensors.toList = .error why) :
      Steps s (.trigger trigger) { s with sensor := .aborted why }
  | stamp (hp : s.sensor = .converting) : Steps s .stamp { s with sensor := .stamped s.clock }
  | measure (get timestamp readings) (hp : s.sensor = .stamped timestamp)
      (h : SensorTask.getTemperatures get default sensors.toList = .ok readings) :
      Steps s (.measure get) { s with sensor := .measured ⟨readings, timestamp⟩ }
  | measureFailed (get timestamp why) (hp : s.sensor = .stamped timestamp)
      (h : SensorTask.getTemperatures get default sensors.toList = .error why) :
      Steps s (.measure get) { s with sensor := .aborted why }
  | write (r) (hp : s.sensor = .measured r) : Steps s .write
      { s with sensor := .written, written := r :: s.written }
  | publish (hp : s.sensor = .written) : Steps s .publish
      { s with sensor := .waiting, notified := s.notified || s.listed }
  | subscribe (hp : s.poster = .start) (hl : s.listed = false) : Steps s .subscribe
      { s with listed := true }
  | start (hp : s.poster = .start) (hl : s.listed = true) : Steps s .start
      { s with poster := .waiting, nextUpdate := s.clock - PosterTask.postingInterval }
  | wake (hp : s.poster = .waiting) (hn : s.notified = true) : Steps s .wake
      { s with poster := .woken, notified := false }
  | now (hp : s.poster = .woken) : Steps s .now { s with poster := .reading s.clock }
  | read (now) (hp : s.poster = .reading now) : Steps s .read
      { s with poster := PosterTask.afterRead s.nextUpdate now s.content }
  | post (now r) (hp : s.poster = .posting now r) : Steps s .post
      { s with
        poster := .waiting
        nextUpdate := s.clock + PosterTask.postingInterval
        posts := s.posts ++ [⟨r, now, s.clock, PosterTask.toJson showFloat r⟩] }

theorem State.steps_of_step {s t : State} {a : Label} (h : s.step showFloat sensors a = some t) :
    s.Steps showFloat sensors a t := by
  replace h := (Option.ite_none_left_eq_some.mp h).2
  cases a with
  | tick elapsed =>
    cases h
    exact .tick elapsed
  | update =>
    obtain ⟨⟨hp, hroom⟩, ⟨⟩⟩ := Option.ite_none_right_eq_some.mp h
    exact .update hp hroom
  | delay =>
    obtain ⟨hp, ⟨⟩⟩ := Option.ite_none_right_eq_some.mp h
    exact .delay hp
  | receive =>
    dsimp only at h
    split at h
    · rename_i requests hp hr
      cases h
      exact .receive requests hp hr
    · cases h
  | trigger trigger =>
    obtain ⟨hp, h⟩ := Option.ite_none_right_eq_some.mp h
    split at h
    · rename_i htrigger
      cases h
      exact .trigger trigger hp htrigger
    · rename_i why htrigger
      cases h
      exact .triggerFailed trigger why hp htrigger
  | stamp =>
    obtain ⟨hp, ⟨⟩⟩ := Option.ite_none_right_eq_some.mp h
    exact .stamp hp
  | measure get =>
    dsimp only at h
    split at h
    · rename_i timestamp hp
      split at h
      · rename_i readings hget
        cases h
        exact .measure get timestamp readings hp hget
      · rename_i why hget
        cases h
        exact .measureFailed get timestamp why hp hget
    · cases h
  | write =>
    dsimp only at h
    split at h
    · rename_i r hp
      cases h
      exact .write r hp
    · cases h
  | publish =>
    obtain ⟨hp, ⟨⟩⟩ := Option.ite_none_right_eq_some.mp h
    exact .publish hp
  | subscribe =>
    obtain ⟨⟨hp, hl⟩, ⟨⟩⟩ := Option.ite_none_right_eq_some.mp h
    exact .subscribe hp hl
  | start =>
    obtain ⟨⟨hp, hl⟩, ⟨⟩⟩ := Option.ite_none_right_eq_some.mp h
    exact .start hp hl
  | wake =>
    obtain ⟨⟨hp, hn⟩, ⟨⟩⟩ := Option.ite_none_right_eq_some.mp h
    exact .wake hp hn
  | now =>
    obtain ⟨hp, ⟨⟩⟩ := Option.ite_none_right_eq_some.mp h
    exact .now hp
  | read =>
    dsimp only at h
    split at h
    · rename_i now hp
      cases h
      exact .read now hp
    · cases h
  | post =>
    dsimp only at h
    split at h
    · rename_i now r hp
      cases h
      exact .post now r hp
    · cases h

def event (s : State) : Label → Option (List Char)
  | .post => s.poster.payload showFloat
  | _ => none

/-- The clock, the readings and the poster. -/
def State.posterState (s : State) : PosterTask.State :=
  ⟨s.clock, s.written, s.poster, s.nextUpdate, s.posts⟩

/-- Readings were written before the poster hears of them. -/
def State.Fed (s : State) : Prop :=
  s.sensor = .written ∨ s.notified = true ∨ s.poster = .woken ∨ (∃ now, s.poster = .reading now) →
    s.written ≠ []

structure Inv (s : State) : Prop where
  poster : PosterTask.Inv showFloat s.posterState
  stamped : ∀ timestamp, s.sensor = .stamped timestamp → timestamp ≤ s.clock
  measured : ∀ r, s.sensor = .measured r → r.timestamp ≤ s.clock
  fed : s.Fed

variable {showFloat} {sensors} {s t : State}

theorem State.Steps.step {a : Label} (h : s.Steps showFloat sensors a t)
    (hs : s.sensor.failed = false) : s.step showFloat sensors a = some t := by
  simp only [State.step, hs, Bool.false_eq_true, ↓reduceIte]
  cases h <;> simp [*]

theorem inv_init (clock : Int) : Inv showFloat (.init clock) where
  poster := PosterTask.inv_init clock
  stamped := by simp [State.init]
  measured := by simp [State.init]
  fed := by simp [State.Fed, State.init]

theorem State.content_mem (h : s.written ≠ []) : s.content ∈ s.written := by
  cases hw : s.written with
  | nil => exact absurd hw h
  | cons r rest => simp [State.content, hw]

/-- The poster cannot tell the pipeline from a model that gives it some readings or other
that were written. -/
theorem Inv.poster_step (hs : Inv showFloat s) {a : Label}
    (h : s.step showFloat sensors a = some t) : PosterTask.Inv showFloat t.posterState := by
  have hposter := hs.poster
  cases State.steps_of_step showFloat sensors h with
  | tick elapsed => exact hposter.step (a := .tick elapsed) rfl
  | write r hp => exact hposter.step (a := .write r) (if_pos (hs.measured r hp))
  | start hp => exact hposter.step (a := .start) (if_pos hp)
  | wake hp => exact hposter.step (a := .wake) (if_pos hp)
  | now hp => exact hposter.step (a := .now) (if_pos hp)
  | read now hp =>
    have hmem := State.content_mem (hs.fed (.inr (.inr (.inr ⟨now, hp⟩))))
    refine hposter.step (a := .read s.content) ?_
    simp only [PosterTask.State.step, State.posterState, hp, hmem, ↓reduceIte]
  | post now r hp =>
    refine hposter.step (a := .post) ?_
    simp only [PosterTask.State.step, State.posterState, hp]
  | _ => exact hposter

theorem Inv.step (hs : Inv showFloat s) {a : Label} (h : s.step showFloat sensors a = some t) :
    Inv showFloat t := by
  have hposter := hs.poster_step h
  obtain ⟨-, hstamped, hmeasured, hfed⟩ := hs
  unfold State.Fed at hfed
  cases State.steps_of_step showFloat sensors h with
  | tick elapsed =>
    have hclock : s.clock ≤ s.clock + elapsed := by omega
    exact ⟨hposter, fun ts hts => (hstamped ts hts).trans hclock,
      fun r hr => (hmeasured r hr).trans hclock, hfed⟩
  | measure get timestamp readings hp hget =>
    refine ⟨hposter, by simp, ?_, ?_⟩
    · rintro r ⟨⟩
      exact hstamped timestamp hp
    · simpa [State.Fed, hp] using hfed
  | write r hp => exact ⟨hposter, by simp, by simp, by simp [State.Fed]⟩
  | publish hp => exact ⟨hposter, by simp, by simp, fun _ => hfed (.inl hp)⟩
  | wake hp hn => exact ⟨hposter, hstamped, hmeasured, fun _ => hfed (.inr (.inl hn))⟩
  | now hp => exact ⟨hposter, hstamped, hmeasured, fun _ => hfed (.inr (.inr (.inl hp)))⟩
  | read now hp =>
    exact ⟨hposter, hstamped, hmeasured, fun _ => hfed (.inr (.inr (.inr ⟨now, hp⟩)))⟩
  | stamp hp => exact ⟨hposter, by simp, by simp, by simpa [State.Fed, hp] using hfed⟩
  | receive _ hp | trigger _ hp | triggerFailed _ _ hp | measureFailed _ _ _ hp =>
    exact ⟨hposter, by simp, by simp, by simpa [State.Fed, hp] using hfed⟩
  | start hp | post _ _ hp =>
    exact ⟨hposter, hstamped, hmeasured, by simpa [State.Fed, hp] using hfed⟩
  | update | delay | subscribe => exact ⟨hposter, hstamped, hmeasured, hfed⟩

theorem inv_run {clock : Int} {as : List Label}
    (h : run (State.step showFloat sensors) (.init clock) as = some s) : Inv showFloat s :=
  run_invariant (fun _ _ _ hs ht => hs.step ht) (inv_init clock) h

end Thermometer.Pipeline
