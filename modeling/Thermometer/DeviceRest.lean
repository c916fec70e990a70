import Thermometer.DeviceProgress

namespace Thermometer.Device

open Thermometer.Transition
open Thermometer.SensorTask (oneSensor)

variable {ι H : Type} {V : ι → Type}

def Label.measures : Label ι H → Bool
  | .measure _ => true
  | _ => false

/-- The steps of the poster until it waits at an empty queue, if no round comes. A
notification takes a wait, a look at the clock, a read and a post. -/
def State.toRest [Fintype ι] (s : State V H) : Nat :=
  backlog s.model * (2 * Fintype.card ι + 7) +
    match s.poster with
    | .start =>
        match s.model.subscribers () with
        | .outside => 3
        | .subscribing => 2
        | .waiting | .reading => 1
    | .waiting => 0
    | .woken => 2 * Fintype.card ι + 6
    | .reading _ => (s.model.lock.readers ()).left s.model.lock.shared.seq + 1
    | .posting _ _ => 1

variable [DecidableEq ι] [Fintype ι] [DecidableEq H] {layout : SensorReadings ≃ ∀ i, V i}
  {showFloat : Binary32 → List Char} {sensors : SensorTask.Sensors} {s t : State V H}

/-- What a read returns is complete, and there is at most one notification. -/
structure Bounds (s : State V H) : Prop where
  filled : Filled s
  loops : (s.model.lock.readers ()).Loops
  shallow : Publisher.Shallow 1 s.model.publisher

theorem Bounds.step (hs : Bounds s) {a : Label ι H}
    (h : s.step layout showFloat sensors a = some t) : Bounds t := by
  refine ⟨hs.filled.step h, ?_, shallow_step hs.shallow h⟩
  have hloops := hs.loops
  obtain hsame | ⟨b, u, m, rfl, -, hm, rfl⟩ := State.model_of_step h
  · rwa [hsame]
  · cases Model.State.steps_of_step hm with
    | write w l hp hl =>
      obtain ⟨-, -, hreaders, -⟩ := Model.writer_progress hl
      simpa only [hreaders] using hloops
    | read r w l hp hl =>
      have hcall : w ≠ .call false := by
        rintro rfl
        simp [Model.State.step] at hm
      obtain ⟨p, hmove, rfl⟩ := SequenceLock.System.step_reader hl
      simpa only [Function.update_self] using (hloops.moves hcall hmove).1
    | _ => exact hloops

omit [DecidableEq ι] [DecidableEq H] in
theorem Bounds.toRest_le (hs : Bounds s) : s.toRest ≤ 5 * Fintype.card ι + 13 := by
  have hbacklog := Nat.mul_le_mul_right (2 * Fintype.card ι + 7) (backlog_le hs.shallow)
  have hread := (s.model.lock.readers ()).left_le s.model.lock.shared.seq
  unfold State.toRest
  split
  · split <;> omega
  all_goals omega

/-- No call of `write` is going on. -/
structure Quiet (layout : SensorReadings ≃ ∀ i, V i) (s : State V H) : Prop where
  inv : Inv layout s
  seen : SeenInv layout s
  bounds : Bounds s
  sensor : s.sensor ≠ .writing

omit [Fintype ι] [DecidableEq H] in
theorem Quiet.even (hs : Quiet layout s) : s.model.lock.shared.seq &&& 1 = 0 := by
  have hphase := hs.inv.model.phase
  rw [((calls_of_ne hs.sensor).mp hs.inv.calls).1] at hphase
  exact hs.inv.model.lock.even_of_idle (Model.eq_idle_of_finished hphase.1)

/-- A step of the poster inside the model. -/
theorem Quiet.model_step (hs : Quiet layout s) {a : Model.Label ι Unit H}
    {m : Model.State V Unit H} (ht : s.Advances layout a t)
    (hm : s.model.step (s.version layout) a = some m) :
    { t with model := m }.toRest + (if (Label.model a).ofPoster then 1 else 0) ≤ s.toRest := by
  have hsub := hs.inv.alone.subscribed
  cases ht with
  | writer a hp ha => exact absurd hp hs.sensor
  | unlock hp => exact absurd hp hs.sensor
  | subscribe a hp ha =>
    cases Model.State.steps_of_step hm with
    | create r k p hout hl =>
      rw [hout] at hsub
      obtain ⟨hq, -⟩ := hsub
      cases Publisher.State.steps_of_step hl with
      | create => simp [State.toRest, hp, hout, backlog, hq, Label.ofPoster]
    | insert r p hsubscribing hl =>
      rw [hsubscribing] at hsub
      obtain ⟨hq, -, k, hk, hempty⟩ := hsub
      cases Publisher.State.steps_of_step hl with
      | insert x q hfree hpending =>
        obtain rfl : q = some k := Option.some.inj (hpending.symm.trans hk)
        simp [State.toRest, hp, hsubscribing, backlog, hq, hempty, Label.ofPoster]
    | write | lock | send | unlock | wait | read => simp at ha
  | wait hp =>
    cases Model.State.steps_of_step hm with
    | wait r p hwaiting hl =>
      rw [hwaiting] at hsub
      obtain ⟨k, items, hq, hx, hk, -⟩ := hsub
      cases Publisher.State.steps_of_step hl with
      | wait x o taken kernel hx' hr =>
        obtain rfl : o = ⟨true, some k⟩ := Option.some.inj (hx'.symm.trans hx)
        cases items with
        | nil => simp [Publisher.xQueueReceive, hk] at hr
        | cons item rest =>
          simp only [Publisher.xQueueReceive, hk, Option.some.injEq, Prod.mk.injEq] at hr
          obtain ⟨-, rfl⟩ := hr
          simp only [State.toRest, hp, backlog, hq, hk, Function.update_self, Option.getD_some,
            List.length_cons, Label.ofPoster, ↓reduceIte, Nat.add_mul]
          omega
  | read a now hp ha =>
    cases Model.State.steps_of_step hm with
    | read r a l hreading hl =>
      have hcall : a ≠ .call false := by
        rintro rfl
        simp [Model.State.step] at hm
      obtain ⟨p, hmove, rfl⟩ := SequenceLock.System.step_reader hl
      have hleft := hs.bounds.loops.left_lt hs.even hcall ha hmove
      simp only [State.toRest, hp, backlog, Function.update_self, Label.ofPoster, ↓reduceIte]
      omega
  | ret now d hp hd =>
    cases Model.State.steps_of_step hm with
    | read r a l hreading hl =>
      obtain ⟨p, hmove, rfl⟩ := SequenceLock.System.step_reader hl
      generalize hreader : s.model.lock.readers () = p₀ at hmove
      cases hmove with
      | ret loop value =>
        -- what is left is a post, if the readings are neither too early nor stale
        have hafter := PosterTask.afterRead_eq_or s.nextUpdate now (layout.symm d)
        generalize PosterTask.afterRead s.nextUpdate now (layout.symm d) = poster at hafter ⊢
        obtain rfl | rfl := hafter <;>
          simp only [State.toRest, hp, hreader, backlog, SequenceLock.Reader.left,
            SequenceLock.Reader.rank, Finset.card_empty, Label.ofPoster, ↓reduceIte] <;>
          omega

theorem Quiet.step (hs : Quiet layout s) {a : Label ι H} (ha : a.measures = false)
    (h : s.step layout showFloat sensors a = some t) :
    Quiet layout t ∧ t.written = s.written ∧
      t.toRest + (if a.ofPoster then 1 else 0) ≤ s.toRest := by
  have hinv := hs.inv.step h
  have hseen := hs.seen.step h
  have hbounds := hs.bounds.step h
  obtain ⟨-, hsteps⟩ := State.steps_of_step layout showFloat sensors h
  cases hsteps with
  | tick | update | delay => exact ⟨⟨hinv, hseen, hbounds, hs.sensor⟩, rfl, Nat.le_refl _⟩
  | receive | trigger | triggerFailed | stamp =>
    exact ⟨⟨hinv, hseen, hbounds, by simp⟩, rfl, Nat.le_refl _⟩
  | measure | measureFailed => cases ha
  | model a u m hu hm =>
    have hrank := hs.model_step hu hm
    cases hu with
    | writer | subscribe | wait | read | ret =>
      exact ⟨⟨hinv, hseen, hbounds, hs.sensor⟩, rfl, hrank⟩
    | unlock => exact ⟨⟨hinv, hseen, hbounds, by simp⟩, rfl, hrank⟩
  | start hp hm =>
    refine ⟨⟨hinv, hseen, hbounds, hs.sensor⟩, rfl, ?_⟩
    simp only [State.toRest, hp, hm]
    exact Nat.le_refl _
  | now hp =>
    have hpolls := hs.inv.polls
    rw [hp] at hpolls
    refine ⟨⟨hinv, hseen, hbounds, hs.sensor⟩, rfl, ?_⟩
    simp only [State.toRest, hp, hpolls.2.1, SequenceLock.Reader.left]
    exact Nat.le_refl _
  | post now r hp =>
    refine ⟨⟨hinv, hseen, hbounds, hs.sensor⟩, rfl, ?_⟩
    simp only [State.toRest, hp]
    exact Nat.le_refl _

/-- When no more rounds are measured, the poster comes to rest: it has a bounded
number of steps left, with a read that has to be repeated among them, and can take
one of them until it waits at an empty queue. Then it has dealt with the last round,
if it had subscribed before that was published. -/
theorem comes_to_rest [Nonempty H] {clock : Int} {as bs : List (Label ι H)}
    (has : run (State.step layout showFloat sensors) (.init layout clock) as = some s)
    (hs : s.sensor ≠ .writing) (hbs : run (State.step layout showFloat sensors) s bs = some t)
    (hquiet : ∀ a ∈ bs, a.measures = false) (hf : t.sensor.failed = false) :
    bs.countP Label.ofPoster ≤ 5 * Fintype.card ι + 13 ∧
    (Enabled layout showFloat sensors t Label.ofPoster ∨
      (t.poster = .waiting ∧ t.model.publisher.step 1 (.wait ()) = none ∧
        (t.model.subscribedAt () < t.model.published →
          ∃ r, s.written.getLast? = some r ∧ t.seen = some r ∧ t.Settled r))) := by
  have hinv : (Inv layout s ∧ SeenInv layout s) ∧ Bounds s :=
    run_invariant (I := fun s => (Inv layout s ∧ SeenInv layout s) ∧ Bounds s)
      (fun s a t hi ht => ⟨⟨hi.1.1.step ht, hi.1.2.step ht⟩, hi.2.step ht⟩)
      ⟨⟨inv_init layout clock, seenInv_init layout clock⟩, trivial, trivial,
        Publisher.shallow_init 1⟩ has
  obtain ⟨⟨ht, hwritten⟩, hcount⟩ :=
    countP_add_rank_le (I := fun u => Quiet layout u ∧ u.written = s.written) State.toRest
      Label.ofPoster (fun a => a.measures = false)
      (fun u a v ha hu hv => by
        obtain ⟨hv, hsame, hle⟩ := hu.1.step ha hv
        exact ⟨⟨hv, hsame.trans hu.2⟩, hle⟩)
      hquiet ⟨⟨hinv.1.1, hinv.1.2, hinv.2, hs⟩, rfl⟩ hbs
  have hle := hinv.2.toRest_le
  refine ⟨by omega, ?_⟩
  by_cases hempty : t.poster = .waiting ∧ t.model.publisher.step 1 (.wait ()) = none
  · refine .inr ⟨hempty.1, hempty.2, fun hsub => ?_⟩
    rw [← hwritten]
    exact AtRest.settled ⟨ht.sensor, hempty.1, hempty.2, hsub⟩ ht.inv ht.seen
  · refine .inl (ht.inv.poster_enabled ht.bounds.filled hf (fun _ hw => ?_)
      fun hp hw => hempty ⟨hp, hw⟩)
    have hidle := ((calls_of_ne ht.sensor).mp ht.inv.calls).1
    simp [hidle] at hw

theorem comes_to_rest_firstRound :
    ∃ s t : State MemberType Nat,
      run (State.step members (fun _ => "21.5".toList) oneSensor) (.init members 0)
        (firstRound.take 18) = some s ∧
      run (State.step members (fun _ => "21.5".toList) oneSensor) s (firstRound.drop 18) = some t ∧
      t.posts.length = 1 ∧
      (Enabled members (fun _ => "21.5".toList) oneSensor t Label.ofPoster ∨
        (t.poster = .waiting ∧ t.model.publisher.step 1 (.wait ()) = none ∧
          (t.model.subscribedAt () < t.model.published →
            ∃ r, s.written.getLast? = some r ∧ t.seen = some r ∧ t.Settled r))) := by
  obtain ⟨s, t, has, hs, hbs, hf, hposts⟩ : ∃ s t : State MemberType Nat,
      run (State.step members (fun _ => "21.5".toList) oneSensor) (.init members 0)
        (firstRound.take 18) = some s ∧
      s.sensor = .waiting ∧
      run (State.step members (fun _ => "21.5".toList) oneSensor) s (firstRound.drop 18) = some t ∧
      t.sensor.failed = false ∧ t.posts.length = 1 := ⟨_, _, rfl, rfl, rfl, rfl, rfl⟩
  have hquiet : ∀ a ∈ firstRound.drop 18, a.measures = false := by
    simp [firstRound, Label.measures]
  exact ⟨s, t, has, hbs, hposts, (comes_to_rest has (by simp [hs]) hbs hquiet hf).2⟩

end Thermometer.Device
