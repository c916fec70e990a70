import Thermometer.DeviceInvariant
import Thermometer.Refinement

namespace Thermometer.Device

open Thermometer.Transition Thermometer.Refinement
open Thermometer.SensorTask (oneSensor)

variable {ι H : Type} {V : ι → Type} [Fintype ι]

theorem complete_eq_some {value : SequenceLock.Copy V} {d : ∀ i, V i} :
    complete value = some d ↔ value = SequenceLock.whole d := by
  unfold complete
  split
  · rename_i h
    constructor
    · rintro ⟨⟩
      funext i
      exact (Option.some_get (h i)).symm
    · rintro rfl
      rfl
  · rename_i h
    refine iff_of_false (by simp) ?_
    rintro rfl
    exact h fun i => rfl

variable [DecidableEq ι]

theorem returned_of_ret {version : Nat → ∀ i, V i} {l l' : SequenceLock.System V Unit}
    {d : ∀ i, V i} (h : l.step version (.reader () .ret) = some l')
    (hd : answer (l.readers ()) = some d) :
    l'.history.returned () =
      l.history.returned () ++ [⟨l.history.begun (), SequenceLock.whole d⟩] := by
  obtain ⟨p, hp, rfl⟩ := SequenceLock.System.step_reader h
  generalize l.readers () = p₀ at hp hd ⊢
  cases hp with
  | ret loop value =>
    have hvalue : value = SequenceLock.whole d := complete_eq_some.mp hd
    simp [SequenceLock.History.noteRead, hvalue]

/-- The readings were posted last, or are held back by the post before, or are
stale. -/
def State.Settled (s : State V H) (r : SensorReadings) : Prop :=
  (∃ p, s.posts.getLast? = some p ∧ p.readings = r) ∨ r.timestamp < s.nextUpdate ∨
    r.timestamp < s.clock - PosterTask.staleDataDuration

def State.Considered (s : State V H) : PosterTask.Poster → Prop
  | .start => s.seen = none
  | .waiting => ∀ r, s.seen = some r → s.Settled r
  | .woken => True
  | .reading now => now ≤ s.clock
  | .posting _ r => s.seen = some r

/-- The poster has dealt with what its last read returned. -/
structure SeenInv (layout : SensorReadings ≃ ∀ i, V i) (s : State V H) : Prop where
  answered : ∀ e ∈ (s.model.lock.history.returned ()).getLast?, ∃ r, s.seen = some r ∧
    e.value = SequenceLock.whole (layout r)
  considered : s.Considered s.poster

variable [DecidableEq H] {layout : SensorReadings ≃ ∀ i, V i}
  {showFloat : Binary32 → List Char} {sensors : SensorTask.Sensors} {s t : State V H}

omit [Fintype ι] [DecidableEq ι] [DecidableEq H] in
theorem seenInv_init (layout : SensorReadings ≃ ∀ i, V i) (clock : Int) :
    SeenInv layout (.init layout clock : State V H) where
  answered := by simp [State.init, Model.State.init, SequenceLock.System.init]
  considered := rfl

omit [Fintype ι] [DecidableEq ι] [DecidableEq H] in
theorem State.Considered.congr {p : PosterTask.Poster} (h : s.Considered p)
    (hseen : t.seen = s.seen) (hposts : t.posts = s.posts) (hnext : t.nextUpdate = s.nextUpdate)
    (hclock : s.clock ≤ t.clock) : t.Considered p := by
  cases p with
  | start | posting => simpa only [State.Considered, hseen] using h
  | woken => trivial
  | reading now => exact Int.le_trans h hclock
  | waiting =>
    intro r hr
    obtain hlast | hdue | hstale := h r (hseen ▸ hr)
    · exact .inl (hposts ▸ hlast)
    · exact .inr (.inl (hnext ▸ hdue))
    · exact .inr (.inr (by omega))

omit [Fintype ι] [DecidableEq ι] [DecidableEq H] in
/-- What the poster does with the readings of a read. -/
theorem considered_afterRead {now : Int} (hnow : now ≤ s.clock) {r : SensorReadings}
    (hseen : s.seen = some r) : s.Considered (PosterTask.afterRead s.nextUpdate now r) := by
  unfold PosterTask.afterRead
  split
  · rename_i hdue
    intro r' hr'
    obtain rfl := Option.some.inj (hseen.symm.trans hr')
    exact .inr (.inl hdue)
  · split
    · rename_i hstale
      intro r' hr'
      obtain rfl := Option.some.inj (hseen.symm.trans hr')
      exact .inr (.inr (by omega))
    · exact hseen

theorem SeenInv.model_step (hs : SeenInv layout s) {a : Model.Label ι Unit H}
    {m : Model.State V Unit H} (ht : s.Advances layout a t)
    (hm : s.model.step (s.version layout) a = some m) : SeenInv layout { t with model := m } := by
  obtain ⟨hanswered, hconsidered⟩ := hs
  cases ht with
  | writer a hp ha =>
    refine ⟨?_, hconsidered.congr rfl rfl rfl (Int.le_refl _)⟩
    cases Model.State.steps_of_step hm with
    | write w l hw hl =>
      obtain ⟨-, -, -, -, hret⟩ := Model.writer_progress hl
      simpa only [hret] using hanswered
    | lock | send => exact hanswered
    | unlock | create | insert | wait | read => simp at ha
  | unlock hp =>
    refine ⟨?_, hconsidered.congr rfl rfl rfl (Int.le_refl _)⟩
    cases Model.State.steps_of_step hm with
    | unlock => exact hanswered
  | subscribe a hp ha =>
    refine ⟨?_, hconsidered.congr rfl rfl rfl (Int.le_refl _)⟩
    cases Model.State.steps_of_step hm with
    | create | insert => exact hanswered
    | write | lock | send | unlock | wait | read => simp at ha
  | wait hp =>
    refine ⟨?_, trivial⟩
    cases Model.State.steps_of_step hm with
    | wait => exact hanswered
  | read a now hp ha =>
    refine ⟨?_, hconsidered.congr rfl rfl rfl (Int.le_refl _)⟩
    cases Model.State.steps_of_step hm with
    | read r a l hw hl =>
      rw [SequenceLock.returned_of_ne hl ha]
      exact hanswered
  | ret now d hp hd =>
    rw [hp] at hconsidered
    cases Model.State.steps_of_step hm with
    | read r a l hw hl =>
      refine ⟨fun e he => ⟨_, rfl, ?_⟩, ?_⟩
      · rw [returned_of_ret hl hd, List.getLast?_concat] at he
        obtain rfl := Option.some.inj he
        rw [Equiv.apply_symm_apply]
      · have hread := considered_afterRead (s := { s with seen := some (layout.symm d) })
          hconsidered rfl
        exact hread.congr rfl rfl rfl (Int.le_refl _)

theorem SeenInv.step (hs : SeenInv layout s) {a : Label ι H}
    (h : s.step layout showFloat sensors a = some t) : SeenInv layout t := by
  have hclock := State.clock_of_step h
  obtain ⟨-, hsteps⟩ := State.steps_of_step layout showFloat sensors h
  obtain ⟨hanswered, hconsidered⟩ := hs
  cases hsteps with
  | model a u m hu hm => exact SeenInv.model_step ⟨hanswered, hconsidered⟩ hu hm
  | start hp hm =>
    rw [hp] at hconsidered
    refine ⟨hanswered, fun r hr => ?_⟩
    exact absurd (hconsidered.symm.trans hr) (by simp)
  | now hp => exact ⟨hanswered, Int.le_refl _⟩
  | post now r hp =>
    rw [hp] at hconsidered
    refine ⟨hanswered, fun r' hr' => .inl ⟨_, List.getLast?_concat .., ?_⟩⟩
    exact Option.some.inj (hconsidered.symm.trans hr')
  | _ => exact ⟨hanswered, hconsidered.congr rfl rfl rfl hclock⟩

/-- No call of `write` is going on, and the poster is blocked in `wait` although
there was a publish since it subscribed. -/
structure AtRest (s : State V H) : Prop where
  sensor : s.sensor ≠ .writing
  poster : s.poster = .waiting
  blocked : s.model.publisher.step 1 (.wait ()) = none
  subscribed : s.model.subscribedAt () < s.model.published

omit [Fintype ι] [DecidableEq ι] [DecidableEq H] in
theorem version_written (layout : SensorReadings ≃ ∀ i, V i) {k : Nat} (hpos : 0 < k)
    (hk : k ≤ s.written.length) :
    ∃ r, s.written[k - 1]? = some r ∧ s.version layout k = layout r := by
  obtain ⟨j, rfl⟩ : ∃ j, k = j + 1 := ⟨k - 1, by omega⟩
  have hj : j < s.written.length := hk
  exact ⟨s.written[j], by simp [hj], by simp [State.version, List.getD_eq_getElem?_getD, hj]⟩

omit [Fintype ι] in
theorem AtRest.settled (hrest : AtRest s) (hs : Inv layout s) (hseen : SeenInv layout s) :
    ∃ r, s.written.getLast? = some r ∧ s.seen = some r ∧ s.Settled r := by
  obtain ⟨hanswered, hconsidered⟩ := hseen
  obtain ⟨hidle, hlen⟩ := (calls_of_ne hrest.sensor).mp hs.calls
  have hphase := hs.model.phase
  rw [hidle] at hphase
  obtain ⟨-, hpub, hfree⟩ := hphase
  have hpolls := hs.polls
  rw [hrest.poster] at hpolls hconsidered
  have hwaiting : s.model.subscribers () = .waiting := hpolls
  have hsub := hs.alone.subscribed
  rw [hwaiting] at hsub
  obtain ⟨k, items, -, hx, hk, -⟩ := hsub
  have hempty : items = [] := by
    have hblocked := hrest.blocked
    cases items with
    | nil => rfl
    | cons item rest => simp [Publisher.State.step, hx, Publisher.xQueueReceive, hk] at hblocked
  subst hempty
  cases hs.model.notified () k hx hrest.subscribed with
  | ahead qs hq hmem => simp [hfree] at hq
  | queued item rest hi => simp [hk] at hi
  | woken hw hi => simp [hwaiting] at hw
  | reading hw hb => simp [hwaiting] at hw
  | read hw e he hb =>
    obtain ⟨hbegun, hvalue⟩ := (hs.model.quiet ()).returned e (List.mem_of_getLast? he)
    have hle := hs.model.lock.completed_le
    have heq : s.model.lock.history.started = e.begun := by omega
    have hpos := hrest.subscribed
    obtain ⟨r, hr, hversion⟩ := version_written layout (k := s.model.lock.history.started)
      (by omega) hlen.le
    rw [hlen, ← List.getLast?_eq_getElem?] at hr
    obtain ⟨r', hseen, hanswer⟩ := hanswered e he
    have hsame : r' = r := by
      rw [hvalue heq, ← heq, hversion] at hanswer
      exact (layout.injective (SequenceLock.whole_injective hanswer)).symm
    subst hsame
    exact ⟨r', hr, hseen, hconsidered r' hseen⟩

/-- At rest the poster has read the readings of the last round, and has dealt with
them: whatever was posted, dropped from the full queue or read again before, the
last measurement is posted, held back by the previous post, or stale. -/
theorem settled_at_rest {clock : Int} {as : List (Label ι H)}
    (h : run (State.step layout showFloat sensors) (.init layout clock) as = some s)
    (hrest : AtRest s) :
    ∃ r, s.written.getLast? = some r ∧ s.seen = some r ∧ s.Settled r := by
  have hinv : Inv layout s ∧ SeenInv layout s :=
    run_invariant (I := fun s => Inv layout s ∧ SeenInv layout s)
      (fun s a t hi ht => ⟨hi.1.step ht, hi.2.step ht⟩)
      ⟨inv_init layout clock, seenInv_init layout clock⟩ h
  exact hrest.settled hinv.1 hinv.2

/-- One sensor is measured once, and the poster posts its readings. -/
def firstRound : List (Label Member Nat) :=
  [.model (.create () 7), .model (.insert ()), .start, .update, .receive, .trigger fun _ => espOk,
    .tick 750000, .stamp, .measure fun _ => (espOk, ⟨0x41AC0000⟩), .model (.write .call),
    .model (.write .loadSeq), .model (.write .storeSeq), .model (.write (.copy .timestamp)),
    .model (.write (.copy .readings)), .model (.write .storeSeq), .model .lock, .model .send,
    .model .unlock, .model (.wait ()), .now, .model (.read () (.call true)),
    .model (.read () .loadSeq), .model (.read () (.copy .readings)),
    .model (.read () (.copy .timestamp)), .model (.read () .loadSeq),
    .model (.read () (.copy .readings)), .model (.read () (.copy .timestamp)),
    .model (.read () .ret), .post]

theorem settled_at_rest_firstRound :
    ∃ s : State MemberType Nat,
      run (State.step members (fun _ => "21.5".toList) oneSensor) (.init members 0) firstRound =
        some s ∧
      ∃ r, s.written.getLast? = some r ∧ s.seen = some r ∧ s.Settled r := by
  obtain ⟨s, hs, hsensor, hposter, hblocked, hsub⟩ : ∃ s : State MemberType Nat,
      run (State.step members (fun _ => "21.5".toList) oneSensor) (.init members 0) firstRound =
        some s ∧
      s.sensor = .waiting ∧ s.poster = .waiting ∧ s.model.publisher.step 1 (.wait ()) = none ∧
      s.model.subscribedAt () < s.model.published := ⟨_, rfl, rfl, rfl, rfl, by decide⟩
  exact ⟨s, hs, settled_at_rest hs ⟨by simp [hsensor], hposter, hblocked, hsub⟩⟩

end Thermometer.Device
