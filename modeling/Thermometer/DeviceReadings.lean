import Thermometer.DevicePipeline
import Thermometer.DiscoverSensors
import Thermometer.PostedJson
import Thermometer.SensorPipeline

namespace Thermometer.Device

open Thermometer.Transition
open Thermometer.SensorTask (oneSensor)

variable {ι H : Type} {V : ι → Type} [DecidableEq ι] [Fintype ι] [DecidableEq H]
  {layout : SensorReadings ≃ ∀ i, V i} {showFloat : Binary32 → List Char}
  {sensors : SensorTask.Sensors} {s t : State V H}

/-- Every written round has one reading for each sensor, and only a failed check of
the driver ends the program. -/
structure Measured (sensors : SensorTask.Sensors) (as : List (Label ι H)) (s : State V H) :
    Prop where
  rounds : ∀ r ∈ s.written, ∃ get, Label.measure get ∈ as ∧
    r.readings.toList = SensorTask.readingsOf get sensors.toList
  failure : ∀ why, s.sensor = .aborted why → ∃ err, err ≠ espOk ∧ why = .check err

theorem Measured.step {as : List (Label ι H)} (hs : Measured sensors as s) {a : Label ι H}
    (ha : a ∈ as) (h : s.step layout showFloat sensors a = some t) : Measured sensors as t := by
  obtain ⟨hrounds, hfailure⟩ := hs
  obtain ⟨hsensor, hwritten⟩ | ⟨rounds, hturn, hwritten⟩ := State.turns_of_step h
  · exact ⟨by rwa [hwritten], by rwa [hsensor]⟩
  · generalize s.sensor = p at hturn
    refine ⟨?_, fun why hwhy => ?_⟩
    · rw [hwritten]
      refine List.forall_mem_append.mpr ⟨hrounds, fun r hr => ?_⟩
      generalize t.sensor = q at hturn
      cases hturn with
      | measure get timestamp readings hget =>
        obtain rfl := List.mem_singleton.mp hr
        exact ⟨get, ha, (SensorTask.getTemperatures_eq_ok hget).2⟩
      | _ => cases hr
    · rw [hwhy] at hturn
      cases hturn with
      | triggerFailed trigger why htrigger => exact SensorTask.triggerConversions_error htrigger
      | measureFailed get timestamp why hget =>
        refine SensorTask.getTemperatures_error (InplaceVector.default_room ?_) hget
        rw [sensors.length_toList]
        exact sensors.size_le

/-- The rounds are stamped in the order in which they are written. -/
structure Ordered (s : State V H) : Prop where
  rounds : s.written.Pairwise fun r r' => r.timestamp ≤ r'.timestamp
  stamped : ∀ timestamp, s.sensor = .stamped timestamp → ∀ r ∈ s.written, r.timestamp ≤ timestamp

theorem Ordered.step (hs : Ordered s) (hinv : Inv layout s) {a : Label ι H}
    (h : s.step layout showFloat sensors a = some t) : Ordered t := by
  obtain ⟨hrounds, hstamped⟩ := hs
  obtain ⟨hsensor, hwritten⟩ | ⟨rounds, hturn, hwritten⟩ := State.turns_of_step h
  · exact ⟨by rwa [hwritten], by rwa [hsensor, hwritten]⟩
  · obtain ⟨hpairs, hlater, hstamp⟩ : rounds.Pairwise (fun r r' => r.timestamp ≤ r'.timestamp) ∧
        (∀ r ∈ s.written, ∀ r' ∈ rounds, r.timestamp ≤ r'.timestamp) ∧
        ∀ timestamp, t.sensor = .stamped timestamp → rounds = [] ∧ timestamp = s.clock := by
      generalize s.sensor = p at hturn hstamped
      generalize t.sensor = q at hturn
      cases hturn with
      | measure get timestamp readings hget => simpa using hstamped timestamp rfl
      | stamp => simp
      | _ => simp
    refine ⟨?_, fun timestamp hts => ?_⟩
    · rw [hwritten]
      exact List.pairwise_append.mpr ⟨hrounds, hpairs, hlater⟩
    · obtain ⟨rfl, rfl⟩ := hstamp timestamp hts
      rw [hwritten, List.append_nil]
      exact hinv.written

end Thermometer.Device
