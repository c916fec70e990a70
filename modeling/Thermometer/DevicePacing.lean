import Thermometer.DevicePosts
import Thermometer.PosterThrottle

namespace Thermometer.Device

open Thermometer.Transition Thermometer.Refinement
open Thermometer.SensorTask (oneSensor)

variable {ι H : Type} {V : ι → Type} [DecidableEq ι] [DecidableEq H]
  {layout : SensorReadings ≃ ∀ i, V i} {showFloat : Binary32 → List Char}
  {sensors : SensorTask.Sensors} {s t : State V H}

/-- The payloads are what leaves the device. -/
def event (showFloat : Binary32 → List Char) (s : State V H) : Label ι H → Option (List Char)
  | .post => s.poster.payload showFloat
  | _ => none

def State.posterState (s : State V H) (written : List SensorReadings) : PosterTask.State :=
  ⟨s.clock, written, s.poster, s.nextUpdate, s.posts⟩

section Timestamp

variable {i₀ : ι} {stamp : V i₀ → Int}

/-- The timestamp that a read has copied for its return is not ahead of the
clock, of whichever write it is. -/
def Fresh (stamp : V i₀ → Int) (s : State V H) : Prop :=
  ∀ loop value rest x, s.model.lock.readers () = .result loop value rest → value i₀ = some x →
    stamp x ≤ s.clock

omit [DecidableEq H] in
/-- After the first publish the stored timestamp is that of a round. -/
theorem Inv.stamp_data (hs : Inv layout s) (hstamp : ∀ r, stamp (layout r i₀) = r.timestamp)
    (hpos : 0 < s.model.published) : stamp (s.model.lock.shared.data i₀) ≤ s.clock := by
  have hpub := hs.model.published_le
  have hstored := SequenceLock.completed_le_stored s.model.lock i₀
  have hstarted := SequenceLock.stored_le_started hs.model.lock i₀
  obtain ⟨r, hr, hversion⟩ := version_written layout (k := s.model.lock.stored i₀) (by omega)
    (hstarted.trans hs.started_le)
  rw [hs.model.lock.data i₀, hversion, hstamp]
  exact hs.written r (List.mem_of_getElem? hr)

variable [Fintype ι]

omit [DecidableEq ι] [DecidableEq H] [Fintype ι] in
theorem Fresh.congr (hf : Fresh stamp s) (hreaders : t.model.lock.readers = s.model.lock.readers)
    (hclock : s.clock ≤ t.clock) : Fresh stamp t := by
  intro loop value rest x hp hx
  exact (hf loop value rest x (hreaders ▸ hp) hx).trans hclock

theorem Fresh.model_step (hs : Inv layout s) (hf : Fresh stamp s)
    (hstamp : ∀ r, stamp (layout r i₀) = r.timestamp) {a : Model.Label ι Unit H}
    {m : Model.State V Unit H} (ht : s.Advances layout a t)
    (hm : s.model.step (s.version layout) a = some m) : Fresh stamp { t with model := m } := by
  have hpolls := hs.polls
  cases ht with
  | writer a hp ha =>
    cases Model.State.steps_of_step hm with
    | write w l hw hl =>
      obtain ⟨-, -, hreaders, -⟩ := Model.writer_progress hl
      exact hf.congr hreaders (Int.le_refl _)
    | lock | send => exact hf
    | unlock | create | insert | wait | read => simp at ha
  | unlock hp =>
    cases Model.State.steps_of_step hm with
    | unlock => exact hf
  | subscribe a hp ha =>
    cases Model.State.steps_of_step hm with
    | create | insert => exact hf
    | write | lock | send | unlock | wait | read => simp at ha
  | wait hp =>
    cases Model.State.steps_of_step hm with
    | wait => exact hf
  | read a now hp ha | ret now d hp hd =>
    rw [hp] at hpolls
    cases Model.State.steps_of_step hm with
    | read r a l hw hl =>
      obtain ⟨p, hmove, rfl⟩ := SequenceLock.System.step_reader hl
      intro loop value rest x hresult hx
      obtain rfl : p = .result loop value rest := by simpa using hresult
      obtain rfl | ⟨value', rest', hbefore, hx'⟩ := hmove.loaded hx
      · exact hs.stamp_data hstamp hpolls.2.1
      · exact hf loop value' rest' x hbefore hx'

theorem Fresh.step (hs : Inv layout s) (hf : Fresh stamp s)
    (hstamp : ∀ r, stamp (layout r i₀) = r.timestamp) {a : Label ι H}
    (h : s.step layout showFloat sensors a = some t) : Fresh stamp t := by
  obtain hsame | ⟨b, u, m, rfl, hu, hm, rfl⟩ := State.model_of_step h
  · exact hf.congr (by rw [hsame]) (State.clock_of_step h)
  · exact hf.model_step hs hstamp hu hm

omit [DecidableEq ι] [DecidableEq H] in
theorem Fresh.answer (hf : Fresh stamp s) (hstamp : ∀ r, stamp (layout r i₀) = r.timestamp)
    {d : ∀ i, V i} (hd : answer (s.model.lock.readers ()) = some d) :
    (layout.symm d).timestamp ≤ s.clock := by
  have hr := hstamp (layout.symm d)
  rw [Equiv.apply_symm_apply] at hr
  rw [← hr]
  cases hp : s.model.lock.readers () with
  | result loop value rest =>
    rw [hp] at hd
    have hvalue : value = SequenceLock.whole d := complete_eq_some.mp hd
    exact hf loop value rest (d i₀) hp (by rw [hvalue]; rfl)
  | idle | loadSeq | snapshot => simp [hp, Device.answer] at hd

/-- To the poster, a read that returned fields of different rounds is a read of
readings that someone wrote: their timestamp is not ahead of the clock. -/
theorem simulates_poster (hstamp : ∀ r, stamp (layout r i₀) = r.timestamp) :
    Simulates (State.step layout showFloat sensors : State V H → _ → _) (event showFloat)
      (fun _ _ => True) (PosterTask.State.step showFloat) (PosterTask.event showFloat)
      (fun s u => Inv layout s ∧ Fresh stamp s ∧ ∃ w, u = s.posterState w) := by
  rintro s a t _ ⟨hinv, hf, w, rfl⟩ - h
  suffices hsteps : ∃ bs v, run (PosterTask.State.step showFloat) (s.posterState w) bs = some v ∧
      trace (PosterTask.State.step showFloat) (PosterTask.event showFloat) (s.posterState w) bs =
        (event showFloat s a).toList ∧ ∃ w, v = t.posterState w by
    obtain ⟨bs, v, hbs, htrace, hv⟩ := hsteps
    exact ⟨bs, v, hbs, htrace, hinv.step h, hf.step hinv hstamp h, hv⟩
  have hone : ∀ b, PosterTask.State.step showFloat (s.posterState w) b = some (t.posterState w) →
      PosterTask.event showFloat (s.posterState w) b = event showFloat s a →
      ∃ bs v, run (PosterTask.State.step showFloat) (s.posterState w) bs = some v ∧
        trace (PosterTask.State.step showFloat) (PosterTask.event showFloat) (s.posterState w) bs =
          (event showFloat s a).toList ∧ ∃ w, v = t.posterState w :=
    fun b hb hevent => ⟨[b], _, run_singleton hb, by rw [trace_singleton hb, hevent], w, rfl⟩
  obtain ⟨-, hsteps⟩ := State.steps_of_step layout showFloat sensors h
  cases hsteps with
  | tick elapsed => exact hone (.tick elapsed) rfl rfl
  | update | delay | receive | trigger | triggerFailed | stamp | measure | measureFailed =>
    exact ⟨[], _, rfl, rfl, w, rfl⟩
  | start hp => exact hone .start (if_pos hp) rfl
  | now hp => exact hone .now (if_pos hp) rfl
  | post now r hp =>
    exact hone .post (by simp [PosterTask.State.step, State.posterState, hp]) rfl
  | model a u m hu hm =>
    cases hu with
    | writer | unlock | subscribe | read => exact ⟨[], _, rfl, rfl, w, rfl⟩
    | wait hp => exact hone .wake (if_pos hp) rfl
    | ret now d hp hd =>
      have hle := hf.answer hstamp hd
      have hwrite : PosterTask.State.step showFloat (s.posterState w) (.write (layout.symm d)) =
          some (s.posterState (layout.symm d :: w)) := if_pos hle
      have hread : PosterTask.State.step showFloat (s.posterState (layout.symm d :: w))
          (.read (layout.symm d)) = some
            { s.posterState (layout.symm d :: w) with
              poster := PosterTask.afterRead s.nextUpdate now (layout.symm d) } := by
        simp only [PosterTask.State.step, State.posterState, hp, List.mem_cons_self, ↓reduceIte]
      refine ⟨[.write (layout.symm d), .read (layout.symm d)], _, run_cons.mpr ⟨_, hwrite,
        run_singleton hread⟩, ?_, layout.symm d :: w, rfl⟩
      rw [trace_cons hwrite, trace_singleton hread]
      rfl

end Timestamp

/-- Two posts of the device in a row are the posting interval apart, with readings
of ever later rounds, and no time span has more posts than fit in so. This
holds even if reads return fields of different rounds. -/
theorem posts_spaced [Fintype ι] {i₀ : ι} {stamp : V i₀ → Int}
    (hstamp : ∀ r, stamp (layout r i₀) = r.timestamp) {clock : Int} {as : List (Label ι H)}
    (h : run (State.step layout showFloat sensors) (.init layout clock) as = some s) :
    s.posts.IsChain PosterTask.Spaced ∧
    (∀ p ∈ s.posts, p.now - PosterTask.staleDataDuration ≤ p.readings.timestamp ∧
      p.readings.timestamp ≤ p.setAt ∧ p.payload = PosterTask.toJson showFloat p.readings) ∧
    ∀ lo len : Int, 0 ≤ len →
      (s.posts.countP (fun p => lo ≤ p.setAt ∧ p.setAt ≤ lo + len) : Int) ≤
        len / PosterTask.postingInterval + 1 := by
  have hfresh : Fresh stamp (.init layout clock : State V H) := by
    intro loop value rest x hp
    cases hp
  obtain ⟨bs, u, hbs, -, -, -, w, rfl⟩ := (simulates_poster hstamp).run
    ⟨inv_init layout clock, hfresh, [], rfl⟩ (meets_true _ as) h
  have hposter := PosterTask.inv_run hbs
  refine ⟨hposter.spaced, fun p hp => ?_, fun lo len hlen =>
    PosterTask.countP_window hposter.spaced hlen⟩
  obtain ⟨-, hage, hset, hpayload⟩ := hposter.posted p hp
  exact ⟨hage, hset, hpayload⟩

/-- After the first round, the return of a read meets the next write. -/
def tornRounds : List (Label Member Nat) :=
  firstRound ++ [.delay, .update, .receive, .trigger fun _ => espOk, .tick 20000000, .stamp,
    .measure fun _ => (espOk, ⟨0x41B00000⟩), .model (.write .call), .model (.write .loadSeq),
    .model (.write .storeSeq), .model (.write (.copy .timestamp)),
    .model (.write (.copy .readings)), .model (.write .storeSeq), .model .lock, .model .send,
    .model .unlock, .model (.wait ()), .now, .model (.read () (.call true)),
    .model (.read () .loadSeq), .model (.read () (.copy .readings)),
    .model (.read () (.copy .timestamp)), .model (.read () .loadSeq),
    .model (.read () (.copy .readings)), .delay, .update, .receive, .trigger fun _ => espOk,
    .tick 1000000, .stamp, .measure fun _ => (espOk, ⟨0x41B80000⟩), .model (.write .call),
    .model (.write .loadSeq), .model (.write .storeSeq), .model (.write (.copy .timestamp)),
    .model (.read () (.copy .timestamp)), .model (.read () .ret), .post]

theorem posts_spaced_tornRounds :
    ∃ s : State MemberType Nat,
      run (State.step members (fun _ => "21.5".toList) oneSensor) (.init members 0) tornRounds =
        some s ∧
      s.written.length = 3 ∧ s.posts.length = 2 ∧ (∀ p ∈ s.posts.getLast?, p.readings ∉ s.written) ∧
      s.posts.IsChain PosterTask.Spaced := by
  obtain ⟨s, hs, hwritten, hposts, htorn⟩ : ∃ s : State MemberType Nat,
      run (State.step members (fun _ => "21.5".toList) oneSensor) (.init members 0) tornRounds =
        some s ∧
      s.written.length = 3 ∧ s.posts.length = 2 ∧
      ∀ p ∈ s.posts.getLast?, p.readings ∉ s.written := by
    refine ⟨_, rfl, rfl, rfl, ?_⟩
    decide
  have hstamp : ∀ r, id (members r .timestamp) = r.timestamp := fun _ => rfl
  exact ⟨s, hs, hwritten, hposts, htorn, (posts_spaced hstamp hs).1⟩

end Thermometer.Device
