import Thermometer.PosterTask

namespace Thermometer.PosterTask

open Thermometer.Transition

variable {showFloat : Binary32 → List Char} {s t : State}

theorem Spaced.trans {p q r : Post} (hpq : Spaced p q) (hqr : Spaced q r) : Spaced p r := by
  obtain ⟨hset, hstamp⟩ := hpq
  obtain ⟨hset', hstamp'⟩ := hqr
  have hpos : (0 : Int) < postingInterval := by decide
  exact ⟨by omega, by omega⟩

instance : Trans Spaced Spaced Spaced := ⟨Spaced.trans⟩

/-- Two posts in a row are set at least the posting interval apart, and the
later one has readings with a later timestamp, so no readings are posted twice.
The readings of a post were not stale when the loop woke up for it. -/
theorem rate_limited {clock : Int} {as : List Label}
    (h : run (State.step showFloat) (.init clock) as = some s) :
    s.posts.IsChain Spaced ∧ (s.posts.map Post.readings).Nodup ∧
    ∀ p ∈ s.posts, p.now - staleDataDuration ≤ p.readings.timestamp := by
  have hs := inv_run h
  refine ⟨hs.spaced, ?_, fun p hp => (hs.posted p hp).fresh⟩
  apply List.pairwise_map.mpr (hs.spaced.pairwise.imp _)
  intro p q hpq heq
  have hlt := hpq.2
  rw [heq] at hlt
  exact Int.lt_irrefl _ hlt

def mildReadings (timestamp : Int) : SensorReadings where
  readings := .ofList [⟨⟨0x41AC0000⟩, 0x28FF641F⟩]
  timestamp := timestamp

/-- Readings reach the poster, which posts them after a delay. -/
def round (delay : Nat) (r : SensorReadings) : List Label :=
  [.write r, .wake, .now, .read r, .tick delay, .post]

theorem rate_limited_twoRounds :
    ∃ s, run (State.step fun _ => "21.5".toList) (.init 0)
        (.start :: round 1 (mildReadings 0) ++ .tick 10000000 :: round 1 (mildReadings 10000001)) =
        some s ∧
      s.posts.map Post.setAt = [1, 10000002] ∧
      s.posts.IsChain Spaced ∧ (s.posts.map Post.readings).Nodup ∧
      ∀ p ∈ s.posts, p.now - staleDataDuration ≤ p.readings.timestamp := by
  obtain ⟨s, hs, hset⟩ : ∃ s, run (State.step fun _ => "21.5".toList) (.init 0)
      (.start :: round 1 (mildReadings 0) ++ .tick 10000000 :: round 1 (mildReadings 10000001)) =
      some s ∧ s.posts.map Post.setAt = [1, 10000002] := ⟨_, rfl, rfl⟩
  exact ⟨s, hs, hset, rate_limited hs⟩

/-- Points with gaps between them that lie in a span of time. -/
theorem length_le_of_gap {gap : Int} (hgap : 0 < gap) {ts : List Int}
    (h : ts.Pairwise fun a b => a + gap ≤ b) {lo len : Int} (hlen : 0 ≤ len)
    (hspan : ∀ t ∈ ts, lo ≤ t ∧ t ≤ lo + len) : (ts.length : Int) ≤ len / gap + 1 := by
  induction ts generalizing lo len with
  | nil =>
    have hdiv := Int.ediv_nonneg hlen (Int.le_of_lt hgap)
    simp only [List.length_nil]
    omega
  | cons t ts ih =>
    obtain ⟨hgaps, hrest⟩ := List.pairwise_cons.mp h
    obtain ⟨⟨hlo, hhi⟩, hspan⟩ := List.forall_mem_cons.mp hspan
    have hdiv := Int.ediv_nonneg hlen (Int.le_of_lt hgap)
    cases ts with
    | nil =>
      simp only [List.length_cons, List.length_nil]
      omega
    | cons u us =>
      have hnext : ∀ v ∈ u :: us, lo + gap ≤ v ∧ v ≤ lo + gap + (len - gap) := by
        intro v hv
        have hv₁ := hgaps v hv
        have hv₂ := (hspan v hv).2
        omega
      obtain ⟨hu₁, hu₂⟩ := hnext u List.mem_cons_self
      have hle := ih hrest (by omega) hnext
      rw [Int.sub_ediv_of_dvd _ (Int.dvd_refl gap), Int.ediv_self (Int.ne_of_gt hgap)] at hle
      rw [List.length_cons]
      push_cast
      omega

theorem countP_window {posts : List Post} (h : posts.IsChain Spaced) {lo len : Int}
    (hlen : 0 ≤ len) :
    (posts.countP (fun p => lo ≤ p.setAt ∧ p.setAt ≤ lo + len) : Int) ≤
      len / postingInterval + 1 := by
  have hkept := (List.isChain_iff_pairwise.mp h).sublist
    (List.filter_sublist (p := fun p => lo ≤ p.setAt ∧ p.setAt ≤ lo + len))
  have hgaps : ((posts.filter fun p => lo ≤ p.setAt ∧ p.setAt ≤ lo + len).map Post.setAt).Pairwise
      fun a b => a + postingInterval ≤ b := List.pairwise_map.mpr (hkept.imp fun hpq => hpq.1)
  have hspan : ∀ t ∈ (posts.filter fun p => lo ≤ p.setAt ∧ p.setAt ≤ lo + len).map Post.setAt,
      lo ≤ t ∧ t ≤ lo + len := by
    rintro t ht
    obtain ⟨p, hp, rfl⟩ := List.mem_map.mp ht
    simpa using List.of_mem_filter hp
  have hbound := length_le_of_gap (by decide) hgaps hlen hspan
  rwa [List.length_map, ← List.countP_eq_length_filter] at hbound

def Posts (showFloat : Binary32 → List Char) (s : State) (now : Int) (r : SensorReadings) : Prop :=
  ∃ t u, s.step showFloat (.read r) = some t ∧ t.step showFloat .post = some u ∧
    u.posts = s.posts ++ [⟨r, now, t.clock, toJson showFloat r⟩]

def Skips (showFloat : Binary32 → List Char) (s : State) (r : SensorReadings) : Prop :=
  ∃ t, s.step showFloat (.read r) = some t ∧ t.poster = .waiting ∧ t.posts = s.posts

theorem posts_of_due {now : Int} {r : SensorReadings} (hp : s.poster = .reading now)
    (hr : r ∈ s.written) (hdue : s.nextUpdate ≤ r.timestamp)
    (hfresh : now - staleDataDuration ≤ r.timestamp) : Posts showFloat s now r := by
  have hread : afterRead s.nextUpdate now r = .posting now r := by
    rw [afterRead, if_neg (by omega), if_neg (by omega)]
  refine ⟨{ s with poster := .posting now r }, _, ?_, rfl, rfl⟩
  simp only [State.step, hp, if_pos hr, hread]

theorem skips_of_throttled {now : Int} {r : SensorReadings} (hp : s.poster = .reading now)
    (hr : r ∈ s.written) (hthrottled : r.timestamp < s.nextUpdate) : Skips showFloat s r := by
  refine ⟨{ s with poster := .waiting }, ?_, rfl, rfl⟩
  simp only [State.step, hp, if_pos hr, afterRead, if_pos hthrottled]

theorem not_skips_of_posts {now : Int} {r : SensorReadings} (h : Posts showFloat s now r) :
    ¬ Skips showFloat s r := by
  rintro ⟨t', ht', hwait, _⟩
  obtain ⟨t, u, ht, hu, _⟩ := h
  obtain rfl := Option.some.inj (ht.symm.trans ht')
  simp [State.step, hwait] at hu

/-- Readings that are not stale are posted exactly when their timestamp is at
least the posting interval after the clock value that the last post read, and
are skipped otherwise. -/
theorem posts_iff_due {clock : Int} {as : List Label} {now : Int} {p : Post} {r : SensorReadings}
    (h : run (State.step showFloat) (.init clock) as = some s) (hp : s.poster = .reading now)
    (hr : r ∈ s.written) (hfresh : now - staleDataDuration ≤ r.timestamp)
    (hlast : s.posts.getLast? = some p) :
    (Posts showFloat s now r ↔ p.setAt + postingInterval ≤ r.timestamp) ∧
    (Skips showFloat s r ↔ r.timestamp < p.setAt + postingInterval) := by
  have hdeadline := (inv_run h).deadline p hlast
  rw [← hdeadline]
  by_cases hdue : s.nextUpdate ≤ r.timestamp
  · have hposts : Posts showFloat s now r := posts_of_due hp hr hdue hfresh
    exact ⟨iff_of_true hposts hdue, iff_of_false (not_skips_of_posts hposts) (by omega)⟩
  · have hskips : Skips showFloat s r := skips_of_throttled hp hr (by omega)
    exact ⟨iff_of_false (fun hposts => not_skips_of_posts hposts hskips) hdue,
      iff_of_true hskips (by omega)⟩

def secondRound (delay elapsed : Nat) (r : SensorReadings) : List Label :=
  .start :: round delay (mildReadings 0) ++ [.tick elapsed, .write r, .wake, .now]

theorem posts_iff_due_secondRound :
    ∃ s p, run (State.step fun _ => "21.5".toList) (.init 0)
        (secondRound 1 10000000 (mildReadings 10000001)) = some s ∧
      s.poster = .reading 10000001 ∧ s.posts.getLast? = some p ∧ p.setAt = 1 ∧
      (Posts (fun _ => "21.5".toList) s 10000001 (mildReadings 10000001) ↔
        p.setAt + postingInterval ≤ 10000001) ∧
      (Skips (fun _ => "21.5".toList) s (mildReadings 10000001) ↔
        10000001 < p.setAt + postingInterval) := by
  obtain ⟨s, p, hs, hp, hlast, hset, hr⟩ : ∃ s p, run (State.step fun _ => "21.5".toList) (.init 0)
      (secondRound 1 10000000 (mildReadings 10000001)) = some s ∧
      s.poster = .reading 10000001 ∧ s.posts.getLast? = some p ∧ p.setAt = 1 ∧
      mildReadings 10000001 ∈ s.written := ⟨_, _, rfl, rfl, rfl, rfl, .head _⟩
  exact ⟨s, p, hs, hp, hlast, hset, posts_iff_due hs hp hr (by decide) hlast⟩

/-- The readings of the second round come exactly the posting interval after
those of the first one, which were posted a microsecond after their timestamp. -/
theorem secondRound_skipped :
    ∃ s p, run (State.step fun _ => "21.5".toList) (.init 0)
        (secondRound 1 9999999 (mildReadings 10000000)) = some s ∧
      s.poster = .reading 10000000 ∧ mildReadings 10000000 ∈ s.written ∧
      10000000 - staleDataDuration ≤ (mildReadings 10000000).timestamp ∧
      s.posts.getLast? = some p ∧
      p.readings.timestamp + postingInterval ≤ (mildReadings 10000000).timestamp ∧
      Skips (fun _ => "21.5".toList) s (mildReadings 10000000) :=
  ⟨_, _, rfl, rfl, .head _, by decide, rfl, by decide, ⟨_, rfl, rfl, rfl⟩⟩

end Thermometer.PosterTask
