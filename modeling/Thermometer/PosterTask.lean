import Mathlib.Data.List.Chain
import Thermometer.ToJson
import Thermometer.Transition

namespace Thermometer.PosterTask

open Thermometer.Transition

/-- `posting_interval` and `stale_data_duration` in microseconds, the unit of
`rtc_clock`. -/
def postingInterval : Int := 10000000

def staleDataDuration : Int := 60000000

/-- Where `poster_task_main` is, with the local variables it still needs. -/
inductive Poster where
  | start | waiting | woken
  | reading (now : Int)
  | posting (now : Int) (readings : SensorReadings)
  deriving DecidableEq

/-- One call of `postToGoogleSheets`, with the clock value that set the next
update before it. -/
structure Post where
  readings : SensorReadings
  now : Int
  setAt : Int
  payload : List Char

structure State where
  clock : Int
  written : List SensorReadings
  poster : Poster
  nextUpdate : Int
  posts : List Post

inductive Label where
  | tick (elapsed : Nat)
  | write (readings : SensorReadings)
  | start | wake | now
  | read (readings : SensorReadings)
  | post

def State.init (clock : Int) : State where
  clock := clock
  written := []
  poster := .start
  nextUpdate := 0
  posts := []

def afterRead (nextUpdate now : Int) (readings : SensorReadings) : Poster :=
  if readings.timestamp < nextUpdate then .waiting
  else if readings.timestamp < now - staleDataDuration then .waiting
  else .posting now readings

variable (showFloat : Binary32 → List Char)

def Poster.payload : Poster → Option (List Char)
  | .posting _ readings => some (toJson showFloat readings)
  | _ => none

/-- One step of the poster task, of the clock or of a call of `Model::write`. A
call of `read` returns some readings that were written before. -/
def State.step (s : State) : Label → Option State
  | .tick elapsed => some { s with clock := s.clock + elapsed }
  | .write r =>
      if r.timestamp ≤ s.clock then some { s with written := r :: s.written } else none
  | .start =>
      if s.poster = .start then
        some { s with poster := .waiting, nextUpdate := s.clock - postingInterval }
      else none
  | .wake => if s.poster = .waiting then some { s with poster := .woken } else none
  | .now => if s.poster = .woken then some { s with poster := .reading s.clock } else none
  | .read r =>
      match s.poster with
      | .reading now =>
          if r ∈ s.written then some { s with poster := afterRead s.nextUpdate now r } else none
      | _ => none
  | .post =>
      match s.poster with
      | .posting now r =>
          some
            { s with
              poster := .waiting
              nextUpdate := s.clock + postingInterval
              posts := s.posts ++ [⟨r, now, s.clock, toJson showFloat r⟩] }
      | _ => none

def event (s : State) : Label → Option (List Char)
  | .post => s.poster.payload showFloat
  | _ => none

inductive State.Steps (s : State) : Label → State → Prop where
  | tick (elapsed) : Steps s (.tick elapsed) { s with clock := s.clock + elapsed }
  | write (r) (h : r.timestamp ≤ s.clock) :
      Steps s (.write r) { s with written := r :: s.written }
  | start (h : s.poster = .start) : Steps s .start
      { s with poster := .waiting, nextUpdate := s.clock - postingInterval }
  | wake (h : s.poster = .waiting) : Steps s .wake { s with poster := .woken }
  | now (h : s.poster = .woken) : Steps s .now { s with poster := .reading s.clock }
  | read (now r) (h : s.poster = .reading now) (hr : r ∈ s.written) : Steps s (.read r)
      { s with poster := afterRead s.nextUpdate now r }
  | post (now r) (h : s.poster = .posting now r) : Steps s .post
      { s with
        poster := .waiting
        nextUpdate := s.clock + postingInterval
        posts := s.posts ++ [⟨r, now, s.clock, toJson showFloat r⟩] }

theorem State.steps_of_step {s t : State} {a : Label} (h : s.step showFloat a = some t) :
    s.Steps showFloat a t := by
  cases a with
  | tick elapsed =>
    cases h
    exact .tick elapsed
  | write r =>
    obtain ⟨hr, ⟨⟩⟩ := Option.ite_none_right_eq_some.mp h
    exact .write r hr
  | start =>
    obtain ⟨hp, ⟨⟩⟩ := Option.ite_none_right_eq_some.mp h
    exact .start hp
  | wake =>
    obtain ⟨hp, ⟨⟩⟩ := Option.ite_none_right_eq_some.mp h
    exact .wake hp
  | now =>
    obtain ⟨hp, ⟨⟩⟩ := Option.ite_none_right_eq_some.mp h
    exact .now hp
  | read r =>
    simp only [State.step] at h
    split at h
    · rename_i now hp
      obtain ⟨hr, ⟨⟩⟩ := Option.ite_none_right_eq_some.mp h
      exact .read now r hp hr
    · cases h
  | post =>
    simp only [State.step] at h
    split at h
    · rename_i now r hp
      cases h
      exact .post now r hp
    · cases h

/-- A post is of readings that were written, that had not aged past the limit
when the loop woke up, and that were stamped before the next update was set. -/
structure Posted (s : State) (p : Post) : Prop where
  written : p.readings ∈ s.written
  fresh : p.now - staleDataDuration ≤ p.readings.timestamp
  stamped : p.readings.timestamp ≤ p.setAt
  payload : p.payload = toJson showFloat p.readings

def Spaced (p q : Post) : Prop :=
  p.setAt + postingInterval ≤ q.setAt ∧ p.readings.timestamp < q.readings.timestamp

structure Inv (s : State) : Prop where
  stamped : ∀ r ∈ s.written, r.timestamp ≤ s.clock
  started : s.poster = .start → s.posts = []
  posting : ∀ now r, s.poster = .posting now r →
    r ∈ s.written ∧ s.nextUpdate ≤ r.timestamp ∧ now - staleDataDuration ≤ r.timestamp
  deadline : ∀ p ∈ s.posts.getLast?, s.nextUpdate = p.setAt + postingInterval
  posted : ∀ p ∈ s.posts, Posted showFloat s p
  spaced : s.posts.IsChain Spaced

variable {showFloat} {s t : State}

theorem Posted.mono {p : Post} (hp : Posted showFloat s p)
    (h : ∀ r ∈ s.written, r ∈ t.written) : Posted showFloat t p :=
  { hp with written := h _ hp.written }

theorem inv_init (clock : Int) : Inv showFloat (.init clock) where
  stamped := by simp [State.init]
  started := fun _ => rfl
  posting := by simp [State.init]
  deadline := by simp [State.init]
  posted := by simp [State.init]
  spaced := .nil

theorem afterRead_posting {nextUpdate now now' : Int} {r r' : SensorReadings}
    (h : afterRead nextUpdate now r = .posting now' r') :
    now' = now ∧ r' = r ∧ nextUpdate ≤ r.timestamp ∧ now - staleDataDuration ≤ r.timestamp := by
  unfold afterRead at h
  split at h
  · cases h
  · split at h
    · cases h
    · cases h
      exact ⟨rfl, rfl, by omega, by omega⟩

theorem afterRead_eq_or (nextUpdate now : Int) (r : SensorReadings) :
    afterRead nextUpdate now r = .waiting ∨
      afterRead nextUpdate now r = .posting now r := by
  unfold afterRead
  split
  · exact .inl rfl
  · split
    · exact .inl rfl
    · exact .inr rfl

/-- A step that makes no post keeps the invariant when the poster does not go
back to its start and, if it is about to post, has checked the readings. -/
theorem Inv.move (hs : Inv showFloat s) {poster : Poster} (hstart : poster ≠ .start)
    (hposting : ∀ now r, poster = .posting now r →
      r ∈ s.written ∧ s.nextUpdate ≤ r.timestamp ∧ now - staleDataDuration ≤ r.timestamp) :
    Inv showFloat { s with poster := poster } where
  stamped := hs.stamped
  started := fun h => absurd h hstart
  posting := hposting
  deadline := hs.deadline
  posted := fun p hp => (hs.posted p hp).mono fun _ hr => hr
  spaced := hs.spaced

theorem Inv.spaced_next (hs : Inv showFloat s) {now : Int} {r : SensorReadings}
    (h : s.poster = .posting now r) {p : Post} (hp : p ∈ s.posts.getLast?) :
    Spaced p ⟨r, now, s.clock, toJson showFloat r⟩ := by
  obtain ⟨hr, hdue, _⟩ := hs.posting now r h
  have hclock := hs.stamped r hr
  have hdeadline := hs.deadline p hp
  have hlast := (hs.posted p (List.mem_of_getLast? hp)).stamped
  have hpos : (0 : Int) < postingInterval := by decide
  exact ⟨by change p.setAt + postingInterval ≤ s.clock; omega,
    by change p.readings.timestamp < r.timestamp; omega⟩

theorem Inv.step (hs : Inv showFloat s) {a : Label} (h : s.step showFloat a = some t) :
    Inv showFloat t := by
  cases State.steps_of_step showFloat h with
  | tick elapsed =>
    refine { hs with stamped := fun r hr => ?_, posted := fun p hp => ?_ }
    · have := hs.stamped r hr
      change r.timestamp ≤ s.clock + elapsed
      omega
    · exact (hs.posted p hp).mono fun _ hr => hr
  | write r hr =>
    refine { hs with stamped := ?_, posting := fun now r' hp => ?_, posted := fun p hp => ?_ }
    · exact List.forall_mem_cons.mpr ⟨hr, hs.stamped⟩
    · obtain ⟨hr', hrest⟩ := hs.posting now r' hp
      exact ⟨List.mem_cons_of_mem r hr', hrest⟩
    · exact (hs.posted p hp).mono fun _ => List.mem_cons_of_mem r
  | start hp =>
    have hnil := hs.started hp
    refine { hs with started := by simp, posting := by simp, deadline := ?_, posted := ?_ }
    · simp [hnil]
    · simp [hnil]
  | wake hp => exact hs.move (by simp) (by simp)
  | now hp => exact hs.move (by simp) (by simp)
  | read now r hp hr =>
    refine hs.move ?_ fun now' r' h' => ?_
    · unfold afterRead
      split <;> [skip; split] <;> simp
    · obtain ⟨rfl, rfl, hdue, hfresh⟩ := afterRead_posting h'
      exact ⟨hr, hdue, hfresh⟩
  | post now r hp =>
    obtain ⟨hr, _, hfresh⟩ := hs.posting now r hp
    refine
      { stamped := hs.stamped
        started := by simp
        posting := by simp
        deadline := by simp
        posted := ?_
        spaced := ?_ }
    · intro p hmem
      obtain hmem | hmem := List.mem_append.mp hmem
      · exact (hs.posted p hmem).mono fun _ hr => hr
      · obtain rfl := List.mem_singleton.mp hmem
        exact ⟨hr, hfresh, hs.stamped r hr, rfl⟩
    · refine List.isChain_append.mpr ⟨hs.spaced, .singleton _, fun p hlast q hq => ?_⟩
      obtain rfl : _ = q := Option.some.inj hq
      exact hs.spaced_next hp hlast

theorem step_write {r : SensorReadings} (h : s.step showFloat (.write r) = some t) :
    t = { s with written := r :: s.written } := by
  cases State.steps_of_step showFloat h with
  | write r => rfl

theorem step_frame {a : Label} (ha : ∀ r, a ≠ .write r) (h : s.step showFloat a = some t) :
    t.written = s.written ∧ s.clock ≤ t.clock := by
  cases State.steps_of_step showFloat h with
  | tick elapsed => exact ⟨rfl, by change s.clock ≤ s.clock + elapsed; omega⟩
  | write r => exact absurd rfl (ha r)
  | _ => exact ⟨rfl, Int.le_refl _⟩

theorem inv_run {clock : Int} {as : List Label}
    (h : run (State.step showFloat) (.init clock) as = some s) : Inv showFloat s :=
  run_invariant (fun _ _ _ hs ht => hs.step ht) (inv_init clock) h

end Thermometer.PosterTask
