import Thermometer.Polling
import Thermometer.SensorTask

namespace Thermometer.SensorTask

open Thermometer.Polling

/-- What the driver answers in one iteration of the search: the result of
`onewire_device_iter_get_next` with the address of the device, and that of
`ds18b20_new_device` with the handle, which is asked for a device only. -/
structure Answer where
  searchResult : EspErr
  address : BitVec 64
  newDevice : EspErr
  handle : Nat

structure Driver where
  newDeviceIter : EspErr
  next : Nat → Answer
  delDeviceIter : EspErr
  setResolution : Nat → EspErr

/-- The body of the search loop. Any other result than a device is passed over. -/
def searchBody (ds18b20s : Sensors) (a : Answer) : Except StdException Sensors :=
  if a.searchResult = espOk then
    if a.newDevice = espOk then ds18b20s.emplaceBack ⟨a.handle, a.address⟩ else .ok ds18b20s
  else .ok ds18b20s

def search (next : Nat → Answer) (fuel : Nat) : Option (Except StdException Sensors) :=
  poll searchBody (fun a => a.searchResult == espErrNotFound) next fuel 0 default

/-- The same loop over the sensors as the one that triggers the conversions. -/
def setResolutions (setResolution : Nat → EspErr) (sensors : List Sensor) : Except Failure Unit :=
  triggerConversions setResolution sensors

def discoverSensors (d : Driver) (fuel : Nat) : Option (Except Failure Sensors) :=
  if d.newDeviceIter ≠ espOk then some (.error (.check d.newDeviceIter))
  else
    (search d.next fuel).map fun
      | .error exception => .error (.thrown exception)
      | .ok ds18b20s =>
          if d.delDeviceIter ≠ espOk then .error (.check d.delDeviceIter)
          else (setResolutions d.setResolution ds18b20s.toList).map fun _ => ds18b20s

def Answer.sensor? (a : Answer) : Option Sensor :=
  if a.searchResult = espOk ∧ a.newDevice = espOk then some ⟨a.handle, a.address⟩ else none

/-- The sensors of the first `n` answers, in discovery order. -/
def upgradable (next : Nat → Answer) (n : Nat) : List Sensor :=
  (answers next 0 n).filterMap Answer.sensor?

theorem foldlM_searchBody (as : List Answer) (ds18b20s : Sensors) :
    as.foldlM searchBody ds18b20s =
      (as.filterMap Answer.sensor?).foldlM InplaceVector.emplaceBack ds18b20s := by
  rw [List.foldlM_filterMap]
  congr
  funext ds18b20s a
  by_cases hsearch : a.searchResult = espOk
  · by_cases hnew : a.newDevice = espOk
    · have hsensor : a.sensor? = some ⟨a.handle, a.address⟩ := if_pos ⟨hsearch, hnew⟩
      rw [searchBody, if_pos hsearch, if_pos hnew, hsensor]
    · have hsensor : a.sensor? = none := if_neg fun h => hnew h.2
      rw [searchBody, if_pos hsearch, if_neg hnew, hsensor]
      rfl
  · have hsensor : a.sensor? = none := if_neg fun h => hsearch h.1
    rw [searchBody, if_neg hsearch, hsensor]
    rfl

theorem foldlM_answers (next : Nat → Answer) (n : Nat) :
    (answers next 0 n).foldlM searchBody default =
      (upgradable next n).foldlM InplaceVector.emplaceBack default :=
  foldlM_searchBody _ _

theorem foldlM_answers_of_le {next : Nat → Answer} {n : Nat}
    (h : (upgradable next n).length ≤ maxSensors) :
    ∃ ds, (answers next 0 n).foldlM searchBody default = .ok ds ∧ ds.toList = upgradable next n := by
  refine ⟨_, ?_, InplaceVector.toList_ofList h⟩
  rw [foldlM_answers, InplaceVector.foldlM_emplaceBack_default h]

theorem foldlM_answers_of_gt {next : Nat → Answer} {n : Nat}
    (h : maxSensors < (upgradable next n).length) :
    (answers next 0 n).foldlM searchBody default =
      .error (.lengthError "inplace_vector: capacity exceeded") := by
  rw [foldlM_answers]
  exact InplaceVector.foldlM_emplaceBack_of_gt default (by omega)

/-- The search ends at the answer that there is no other device, or with the exception
for a sensor too many. -/
theorem search_ends_iff (next : Nat → Answer) :
    (∃ fuel, search next fuel ≠ none) ↔
      (∃ i, (next i).searchResult = espErrNotFound) ∨
        ∃ n, maxSensors < (upgradable next n).length := by
  refine ends_iff.trans (or_congr ?_ ?_)
  · simp only [Nat.zero_add, beq_iff_eq]
  · constructor
    · rintro ⟨n, e, he⟩
      refine ⟨n, Nat.lt_of_not_le fun hle => ?_⟩
      obtain ⟨ds, hds, -⟩ := foldlM_answers_of_le hle
      rw [he] at hds
      cases hds
    · rintro ⟨n, hn⟩
      exact ⟨n, _, foldlM_answers_of_gt hn⟩

def faultyBus (_ : Nat) : Answer where
  searchResult := espErrInvalidCrc
  address := 0
  newDevice := espOk
  handle := 0

theorem faultyBus_upgradable (n : Nat) : upgradable faultyBus n = [] := by
  rw [upgradable, List.filterMap_eq_nil_iff]
  intro a ha
  obtain ⟨i, -, rfl⟩ := List.mem_map.mp ha
  rfl

/-- The search never ends, although no device is found at all. -/
theorem faultyBus_searches :
    (∀ i, (faultyBus i).searchResult ≠ espOk) ∧ ∀ fuel, search faultyBus fuel = none := by
  have hcrc : espErrInvalidCrc ≠ espOk := by decide
  refine ⟨fun _ => hcrc, fun fuel => poll_eq_none_iff.mpr ⟨fun _ _ => rfl, ?_⟩⟩
  have hfew : (upgradable faultyBus fuel).length ≤ maxSensors := by
    rw [faultyBus_upgradable]
    exact Nat.zero_le maxSensors
  obtain ⟨ds, hds, -⟩ := foldlM_answers_of_le hfew
  exact ⟨ds, hds⟩

structure Driver.Succeeds (d : Driver) : Prop where
  newDeviceIter : d.newDeviceIter = espOk
  delDeviceIter : d.delDeviceIter = espOk
  setResolution : ∀ handle, d.setResolution handle = espOk

theorem setResolutions_ok {setResolution : Nat → EspErr} (h : ∀ handle, setResolution handle = espOk)
    (sensors : List Sensor) : setResolutions setResolution sensors = .ok () := by
  induction sensors with
  | nil => rfl
  | cons sensor rest ih =>
    rw [setResolutions, triggerConversions, if_pos (h sensor.handle)]
    exact ih

structure EndsAt (next : Nat → Answer) (n : Nat) : Prop where
  last : (next n).searchResult = espErrNotFound
  before : ∀ i < n, (next i).searchResult ≠ espErrNotFound

theorem EndsAt.upgradable_succ {next : Nat → Answer} {n : Nat} (h : EndsAt next n) :
    upgradable next (n + 1) = upgradable next n := by
  have hlast : (next n).sensor? = none := by
    rw [Answer.sensor?, h.last]
    rfl
  rw [upgradable, answers, List.range'_concat, List.map_append, List.filterMap_append, Nat.zero_add,
    Nat.one_mul, List.map_singleton, List.filterMap_cons_none hlast, List.filterMap_nil,
    List.append_nil]
  rfl

theorem EndsAt.search {next : Nat → Answer} {n fuel : Nat} (h : EndsAt next n) (hfuel : n < fuel) :
    search next fuel = some ((answers next 0 (n + 1)).foldlM searchBody default) := by
  apply poll_of_last _ _ hfuel
  · intro i hi
    rw [Nat.zero_add]
    exact beq_false_of_ne (h.before i hi)
  · rw [Nat.zero_add]
    exact beq_iff_eq.mpr h.last

theorem discoverSensors_of_le {d : Driver} {n : Nat} (hd : d.Succeeds) (hn : EndsAt d.next n)
    (h : (upgradable d.next n).length ≤ maxSensors) :
    ∃ ds, (∀ fuel > n, discoverSensors d fuel = some (.ok ds)) ∧ ds.toList = upgradable d.next n := by
  rw [← hn.upgradable_succ] at h ⊢
  obtain ⟨ds, hds, hlist⟩ := foldlM_answers_of_le h
  refine ⟨ds, fun fuel hfuel => ?_, hlist⟩
  simp only [discoverSensors, hd.newDeviceIter, hd.delDeviceIter, hn.search hfuel, hds,
    setResolutions_ok hd.setResolution, ne_eq, not_true_eq_false, if_false, Option.map_some]
  rfl

theorem discoverSensors_of_gt {d : Driver} {n : Nat} (hd : d.Succeeds) (hn : EndsAt d.next n)
    (h : maxSensors < (upgradable d.next n).length) {fuel : Nat} (hfuel : n < fuel) :
    discoverSensors d fuel =
      some (.error (.thrown (.lengthError "inplace_vector: capacity exceeded"))) := by
  rw [← hn.upgradable_succ] at h
  simp only [discoverSensors, hd.newDeviceIter, hn.search hfuel, foldlM_answers_of_gt h, ne_eq,
    not_true_eq_false, if_false, Option.map_some]

/-- Discovery copes with the devices on the bus as long as there is room for all that
can be upgraded. -/
theorem discoverSensors_copes_iff {d : Driver} {n : Nat} (hd : d.Succeeds) (hn : EndsAt d.next n) :
    (∃ ds, (∀ fuel > n, discoverSensors d fuel = some (.ok ds)) ∧
        ds.toList = (upgradable d.next n).take maxSensors) ↔
      (upgradable d.next n).length ≤ maxSensors := by
  constructor
  · rintro ⟨ds, hds, -⟩
    refine Nat.le_of_not_lt fun hgt => ?_
    have hthrow := discoverSensors_of_gt hd hn hgt (Nat.lt_succ_self n)
    rw [hds _ (Nat.lt_succ_self n)] at hthrow
    cases hthrow
  · intro hle
    obtain ⟨ds, hds, hlist⟩ := discoverSensors_of_le hd hn hle
    exact ⟨ds, hds, by rw [hlist, List.take_of_length_le hle]⟩

def bus (found : List Answer) : Driver where
  newDeviceIter := espOk
  next i := found.getD i ⟨espErrNotFound, 0, espOk, 0⟩
  delDeviceIter := espOk
  setResolution _ := espOk

theorem bus_succeeds (found : List Answer) : (bus found).Succeeds := ⟨rfl, rfl, fun _ => rfl⟩

def mixed : List Answer :=
  [⟨espOk, 0x28FF, espOk, 1⟩, ⟨espErrInvalidCrc, 0, espOk, 0⟩, ⟨espOk, 0x10AA, espErrNotFound, 0⟩,
    ⟨espOk, 0x28EE, espOk, 2⟩]

theorem discoverSensors_copes_iff_mixed :
    (∃ ds, (∀ fuel > 4, discoverSensors (bus mixed) fuel = some (.ok ds)) ∧
        ds.toList = (upgradable (bus mixed).next 4).take maxSensors) ↔
      (upgradable (bus mixed).next 4).length ≤ maxSensors :=
  discoverSensors_copes_iff (bus_succeeds mixed) ⟨by decide, by decide⟩

def three : List Answer :=
  [⟨espOk, 0x2801, espOk, 1⟩, ⟨espOk, 0x2802, espOk, 2⟩, ⟨espOk, 0x2803, espOk, 3⟩]

theorem three_overflow :
    (bus three).Succeeds ∧ EndsAt (bus three).next 3 ∧
      discoverSensors (bus three) 4 =
        some (.error (.thrown (.lengthError "inplace_vector: capacity exceeded"))) ∧
      ¬ ∃ ds, (∀ fuel > 3, discoverSensors (bus three) fuel = some (.ok ds)) ∧
        ds.toList = (upgradable (bus three).next 3).take maxSensors := by
  refine ⟨bus_succeeds three, ⟨by decide, by decide⟩, rfl, ?_⟩
  rintro ⟨ds, hds, -⟩
  have hok := hds 4 (Nat.lt_succ_self 3)
  cases hok

end Thermometer.SensorTask
