import Thermometer.SequenceCheck

namespace Thermometer.SequenceLock

open Thermometer.Transition

variable {ι W R : Type} {V : ι → Type}

/-- The lock with any number of tasks that write and read. `started` counts the
calls of `write`. -/
structure Tasks (V : ι → Type) (W R : Type) where
  shared : Shared V
  writers : W → Writer V
  readers : R → Reader V
  started : Nat

inductive Access (V : ι → Type) (W R : Type) where
  | write (w : W) (newData : ∀ i, V i) (a : WriteAccess ι)
  | read (r : R) (a : ReadAccess ι)

def Tasks.init (data : ∀ i, V i) : Tasks V W R :=
  ⟨⟨0, data⟩, fun _ => .idle, fun _ => .idle, 0⟩

/-- Between its first and its last store of `_seq`. -/
def Writer.Inside : Writer V → Prop
  | .setter _ _ _ => True
  | _ => False

def Writer.Idle : Writer V → Prop
  | .idle => True
  | _ => False

def countCall (started : Nat) : WriteAccess ι → Nat
  | .call => started + 1
  | _ => started

section Step

variable [DecidableEq ι] [Fintype ι] [DecidableEq W] [DecidableEq R]

def Tasks.step (s : Tasks V W R) : Access V W R → Option (Tasks V W R)
  | .write w newData a =>
      ((s.writers w).step newData s.shared a).map fun p =>
        { s with
          shared := p.1
          writers := Function.update s.writers w p.2
          started := countCall s.started a }
  | .read r a =>
      ((s.readers r).step s.shared a).map fun p =>
        { s with readers := Function.update s.readers r p }

/-- A write call between its stores keeps the counter odd and every reader from
accepting a snapshot. The calls that have been made count twice each when all of
them have ended. -/
structure ThreadSafe (s : Tasks V W R) : Prop where
  odd : ∀ w, (s.writers w).Inside → s.shared.seq &&& 1 ≠ 0
  refused : ∀ w, (s.writers w).Inside → ∀ r loop value rest,
    (s.readers r).step s.shared .loadSeq ≠ some (.result loop value rest)
  counted : (∀ w, (s.writers w).Idle) → s.shared.seq = BitVec.ofNat 32 (2 * s.started)

/-- The first store of a write call follows its load of `_seq` as if the two were
one access, and comes between the stores of no other call. -/
def Undisturbed (s : Tasks V W R) : Access V W R → Prop
  | .write w _ .storeSeq => ∀ d seq, s.writers w = .storeOdd d seq →
      seq = s.shared.seq ∧ ∀ w', ¬ (s.writers w').Inside
  | _ => True

end Step

/-- The calls take turns at the counter. -/
inductive Turn (s : Tasks V W R) (finished : Nat) : Prop where
  | free (hout : ∀ w, ¬ (s.writers w).Inside)
      (hseq : s.shared.seq = BitVec.ofNat 32 (2 * finished))
  | taken (w : W) (d : ∀ i, V i) (rest : Finset ι)
      (hin : s.writers w = .setter d (BitVec.ofNat 32 (2 * finished)) rest)
      (hout : ∀ w', w' ≠ w → ¬ (s.writers w').Inside)
      (hseq : s.shared.seq = BitVec.ofNat 32 (2 * finished + 1))

structure InTurn (s : Tasks V W R) (active : Finset W) (finished : Nat) : Prop where
  mem : ∀ w, w ∈ active ↔ ¬ (s.writers w).Idle
  started : s.started = finished + active.card
  turn : Turn s finished
  readers : ∀ r loop seq1 temp rest, s.readers r = .snapshot loop seq1 temp rest → seq1 &&& 1 = 0

theorem InTurn.init (data : ∀ i, V i) : InTurn (Tasks.init data : Tasks V W R) ∅ 0 where
  mem w := by simp [Tasks.init, Writer.Idle]
  started := rfl
  turn := .free (fun _ h => h) rfl
  readers r loop seq1 temp rest h := by simp [Tasks.init] at h

theorem Turn.odd {s : Tasks V W R} {finished : Nat} (hs : Turn s finished) {w : W}
    (hw : (s.writers w).Inside) : s.shared.seq &&& 1 ≠ 0 := by
  cases hs with
  | free hout hseq => exact absurd hw (hout w)
  | taken w' d rest hin hout hseq =>
    rw [hseq, ne_eq, ofNat_and_one]
    omega

variable [DecidableEq W]

/-- A step of a writer that is outside before and after it. -/
theorem Turn.outside {s : Tasks V W R} {finished : Nat} (hs : Turn s finished) {w : W}
    {p : Writer V} (hw : ¬ (s.writers w).Inside) (hp : ¬ p.Inside) (started : Nat) :
    Turn { s with writers := Function.update s.writers w p, started := started } finished := by
  have hstill : ∀ w', ¬ (s.writers w').Inside → ¬ (Function.update s.writers w p w').Inside := by
    intro w' hw'
    by_cases h : w' = w
    · subst w'
      rwa [Function.update_self]
    · rwa [Function.update_of_ne h]
  cases hs with
  | free hout hseq => exact .free (fun w' => hstill w' (hout w')) hseq
  | taken w₁ d rest hin hout hseq =>
    have hne : w₁ ≠ w := by
      rintro rfl
      rw [hin] at hw
      exact hw trivial
    refine .taken w₁ d rest ?_ (fun w' h => hstill w' (hout w' h)) hseq
    exact (Function.update_of_ne hne p s.writers).trans hin

theorem Turn.inside {s : Tasks V W R} {finished : Nat} (hs : Turn s finished) {w : W}
    {d : ∀ i, V i} {seq : BitVec 32} {rest : Finset ι} (hw : s.writers w = .setter d seq rest) :
    seq = BitVec.ofNat 32 (2 * finished) ∧ s.shared.seq = BitVec.ofNat 32 (2 * finished + 1) ∧
      ∀ w', w' ≠ w → ¬ (s.writers w').Inside := by
  cases hs with
  | free hout hseq => exact absurd (by rw [hw]; trivial) (hout w)
  | taken w₁ d₁ rest₁ hin hout hseq =>
    have hsame : w = w₁ := by
      by_contra hne
      exact hout w hne (by rw [hw]; trivial)
    subst w₁
    rw [hin] at hw
    injection hw with _ hseq'
    exact ⟨hseq'.symm, hseq, hout⟩

/-- The first store, with nobody inside. -/
theorem Turn.enter {s : Tasks V W R} {finished : Nat} (hs : Turn s finished)
    (hout : ∀ w, ¬ (s.writers w).Inside) (w : W) (d : ∀ i, V i) (rest : Finset ι) (started : Nat) :
    Turn { s with
      shared := { s.shared with seq := s.shared.seq + 1 }
      writers := Function.update s.writers w (.setter d s.shared.seq rest)
      started := started } finished := by
  cases hs with
  | free _ hseq =>
    apply Turn.taken w d rest
    · change Function.update s.writers w _ w = _
      rw [Function.update_self, hseq]
    · intro w' hne
      change ¬ (Function.update s.writers w _ w').Inside
      rw [Function.update_of_ne hne]
      exact hout w'
    · change s.shared.seq + 1 = _
      rw [hseq, BitVec.ofNat_add]
      rfl
  | taken w' _ _ hin _ _ => exact absurd (by rw [hin]; trivial) (hout w')

theorem Turn.copy {s : Tasks V W R} {finished : Nat} (hs : Turn s finished) {w : W}
    {d : ∀ i, V i} {seq : BitVec 32} {rest : Finset ι} (hw : s.writers w = .setter d seq rest)
    (data : ∀ i, V i) (rest' : Finset ι) (started : Nat) :
    Turn { s with
      shared := { s.shared with data := data }
      writers := Function.update s.writers w (.setter d seq rest')
      started := started } finished := by
  obtain ⟨rfl, hseq, hout⟩ := hs.inside hw
  apply Turn.taken w d rest'
  · exact Function.update_self w _ s.writers
  · intro w' hne
    change ¬ (Function.update s.writers w _ w').Inside
    rw [Function.update_of_ne hne]
    exact hout w' hne
  · exact hseq

/-- The last store, after which nobody is inside. -/
theorem Turn.leave {s : Tasks V W R} {finished : Nat} (hs : Turn s finished) {w : W}
    {d : ∀ i, V i} {seq : BitVec 32} {rest : Finset ι} (hw : s.writers w = .setter d seq rest)
    (started : Nat) :
    Turn { s with
      shared := { s.shared with seq := seq + 2 }
      writers := Function.update s.writers w .idle
      started := started } (finished + 1) := by
  obtain ⟨rfl, hseq, hout⟩ := hs.inside hw
  apply Turn.free
  · intro w'
    change ¬ (Function.update s.writers w _ w').Inside
    by_cases hne : w' = w
    · subst w'
      simp [Writer.Inside]
    · rw [Function.update_of_ne hne]
      exact hout w' hne
  · change BitVec.ofNat 32 (2 * finished) + 2 = BitVec.ofNat 32 (2 * finished + 2)
    rw [BitVec.ofNat_add]
    rfl

section Active

variable {s : Tasks V W R} {active : Finset W} {finished : Nat} {w : W} {p : Writer V}

theorem InTurn.mem_update (hs : InTurn s active finished) (hw : ¬ (s.writers w).Idle)
    (hp : ¬ p.Idle) (w' : W) :
    w' ∈ active ↔ ¬ (Function.update s.writers w p w').Idle := by
  by_cases h : w' = w
  · subst w'
    rw [Function.update_self]
    exact iff_of_true ((hs.mem w).mpr hw) hp
  · rw [Function.update_of_ne h]
    exact hs.mem w'

theorem InTurn.mem_insert (hs : InTurn s active finished) (hp : ¬ p.Idle) (w' : W) :
    w' ∈ insert w active ↔ ¬ (Function.update s.writers w p w').Idle := by
  by_cases h : w' = w
  · subst w'
    rw [Function.update_self]
    exact iff_of_true (Finset.mem_insert_self w active) hp
  · rw [Function.update_of_ne h, Finset.mem_insert, or_iff_right h]
    exact hs.mem w'

theorem InTurn.mem_erase (hs : InTurn s active finished) (hp : p.Idle) (w' : W) :
    w' ∈ active.erase w ↔ ¬ (Function.update s.writers w p w').Idle := by
  by_cases h : w' = w
  · subst w'
    rw [Function.update_self]
    exact iff_of_false (Finset.notMem_erase w active) (not_not.mpr hp)
  · rw [Function.update_of_ne h, Finset.mem_erase, and_iff_right h]
    exact hs.mem w'

end Active

variable [DecidableEq ι] [Fintype ι]

theorem Reader.of_moves_result {m : Shared V} {p : Reader V} {loop : Bool} {value : Copy V}
    {rest : Finset ι} (h : p.Moves m .loadSeq (.result loop value rest)) :
    ∃ loop temp, p = .snapshot loop m.seq temp ∅ := by
  generalize hq : Reader.result loop value rest = q at h
  cases h with
  | odd loop' _ => cases loop' <;> cases hq
  | even loop' _ => cases hq
  | changed loop' seq1 temp _ => cases loop' <;> cases hq
  | accept loop' temp => exact ⟨loop', temp, rfl⟩

omit [DecidableEq W] in
theorem InTurn.threadSafe {s : Tasks V W R} {active : Finset W} {finished : Nat}
    (hs : InTurn s active finished) : ThreadSafe s where
  odd w hw := hs.turn.odd hw
  refused w hw r loop value rest hstep := by
    obtain ⟨loop', temp, hr⟩ := Reader.of_moves_result (Reader.moves_of_step hstep)
    exact hs.turn.odd hw (hs.readers r loop' s.shared.seq temp ∅ hr)
  counted hidle := by
    have hempty : active = ∅ := by
      apply Finset.eq_empty_of_forall_notMem
      intro w hw
      exact (hs.mem w).mp hw (hidle w)
    have hstarted : s.started = finished := by
      rw [hs.started, hempty, Finset.card_empty, Nat.add_zero]
    cases hs.turn with
    | free hout hseq => rw [hseq, hstarted]
    | taken w d rest hin hout hseq =>
      have hw := hidle w
      rw [hin] at hw
      exact absurd hw (by simp [Writer.Idle])

variable [DecidableEq R]

theorem InTurn.write {s t : Tasks V W R} {active : Finset W} {finished : Nat} {w : W}
    {newData : ∀ i, V i} {a : WriteAccess ι} (hs : InTurn s active finished)
    (hok : Undisturbed s (.write w newData a)) (h : s.step (.write w newData a) = some t) :
    ∃ active finished, InTurn t active finished := by
  simp only [Tasks.step, Option.map_eq_some_iff] at h
  obtain ⟨⟨m, p⟩, hstep, rfl⟩ := h
  have hm := Writer.moves_of_step hstep
  generalize hw : s.writers w = wr at hm
  cases hm with
  | call =>
    have hout : w ∉ active := by
      rw [hs.mem, hw]
      simp [Writer.Idle]
    refine ⟨insert w active, finished, ?_, ?_, ?_, hs.readers⟩
    · apply hs.mem_insert
      simp [Writer.Idle]
    · rw [Finset.card_insert_of_notMem hout, ← Nat.add_assoc, ← hs.started]
      rfl
    · apply hs.turn.outside
      · simp [hw, Writer.Inside]
      · simp [Writer.Inside]
  | load d =>
    refine ⟨active, finished, ?_, hs.started, ?_, hs.readers⟩
    · apply hs.mem_update
      · simp [hw, Writer.Idle]
      · simp [Writer.Idle]
    · apply hs.turn.outside
      · simp [hw, Writer.Inside]
      · simp [Writer.Inside]
  | odd d seq =>
    obtain ⟨rfl, hout⟩ := hok d seq hw
    refine ⟨active, finished, ?_, hs.started, hs.turn.enter hout w d Finset.univ _, hs.readers⟩
    apply hs.mem_update
    · simp [hw, Writer.Idle]
    · simp [Writer.Idle]
  | copy d seq rest i hi =>
    refine ⟨active, finished, ?_, hs.started, hs.turn.copy hw _ _ _, hs.readers⟩
    apply hs.mem_update
    · simp [hw, Writer.Idle]
    · simp [Writer.Idle]
  | even d seq =>
    have hin : w ∈ active := by
      rw [hs.mem, hw]
      simp [Writer.Idle]
    refine ⟨active.erase w, finished + 1, ?_, ?_, hs.turn.leave hw _, hs.readers⟩
    · apply hs.mem_erase
      trivial
    · have hcard := Finset.card_erase_add_one hin
      have hstarted := hs.started
      simp only [countCall]
      omega

theorem Reader.even_of_moves {m : Shared V} {p q : Reader V} {a : ReadAccess ι}
    (h : p.Moves m a q)
    (hp : ∀ loop seq1 temp rest, p = .snapshot loop seq1 temp rest → seq1 &&& 1 = 0) :
    ∀ loop seq1 temp rest, q = .snapshot loop seq1 temp rest → seq1 &&& 1 = 0 := by
  intro loop seq1 temp rest hq
  cases h with
  | call loop' => cases hq
  | odd loop' _ => cases loop' <;> cases hq
  | even loop' heven =>
    cases hq
    exact heven
  | copyTemp loop' seq1' temp' rest' i _ =>
    cases hq
    exact hp loop seq1 temp' rest' rfl
  | changed loop' seq1' temp' _ => cases loop' <;> cases hq
  | accept loop' temp' => cases hq
  | copyResult loop' value rest' i _ => cases hq
  | ret loop' value => cases hq

theorem InTurn.read {s t : Tasks V W R} {active : Finset W} {finished : Nat} {r : R}
    {a : ReadAccess ι} (hs : InTurn s active finished) (h : s.step (.read r a) = some t) :
    InTurn t active finished := by
  simp only [Tasks.step, Option.map_eq_some_iff] at h
  obtain ⟨p, hstep, rfl⟩ := h
  have heven := Reader.even_of_moves (Reader.moves_of_step hstep) (hs.readers r)
  refine ⟨hs.mem, hs.started, ?_, ?_⟩
  · cases hs.turn with
    | free hout hseq => exact .free hout hseq
    | taken w d rest hin hout hseq => exact .taken w d rest hin hout hseq
  · intro r'
    change ∀ loop seq1 temp rest, Function.update s.readers r p r' = _ → _
    by_cases hr : r' = r
    · subst r'
      rwa [Function.update_self]
    · rw [Function.update_of_ne hr]
      exact hs.readers r'

/-- Write calls that take turns at the counter make the lock thread safe. -/
theorem threadSafe_of_undisturbed (data : ∀ i, V i) {as : List (Access V W R)}
    (hok : Meets Tasks.step Undisturbed (Tasks.init data) as) :
    Always Tasks.step ThreadSafe (Tasks.init data) as := by
  apply always_of_meets (I := fun s => ∃ active finished, InTurn s active finished) _ _
    ⟨∅, 0, InTurn.init data⟩ hok
  · rintro s ⟨active, finished, hs⟩
    exact hs.threadSafe
  · rintro s (⟨w, newData, a⟩ | ⟨r, a⟩) t ⟨active, finished, hs⟩ hstep ht
    · exact hs.write hstep ht
    · exact ⟨active, finished, hs.read ht⟩

def oneWrite (w : Bool) : List (Access (fun _ : Unit => Nat) Bool Unit) :=
  [.write w (fun _ => 7) .call, .write w (fun _ => 7) .loadSeq, .write w (fun _ => 7) .storeSeq,
    .write w (fun _ => 7) (.copy ()), .write w (fun _ => 7) .storeSeq]

theorem threadSafe_of_undisturbed_inTurn :
    Always Tasks.step ThreadSafe (Tasks.init fun _ => 0) (oneWrite true ++ oneWrite false) := by
  apply threadSafe_of_undisturbed
  repeat
    refine (meets_cons rfl).mpr ⟨?_, ?_⟩
    · first
      | trivial
      | rintro d seq ⟨⟩
        all_goals exact ⟨rfl, by rintro (_ | _) <;> exact id⟩
  trivial

def bothLoad : List (Access (fun _ : Unit => Nat) Bool Unit) :=
  [.write false (fun _ => 7) .call, .write false (fun _ => 7) .loadSeq,
    .write true (fun _ => 8) .call, .write true (fun _ => 8) .loadSeq,
    .write false (fun _ => 7) .storeSeq, .write true (fun _ => 8) .storeSeq,
    .write false (fun _ => 7) (.copy ()), .write false (fun _ => 7) .storeSeq]

/-- One call ends while the other is inside, with the counter even. When that one
ends too, two calls have counted as one. -/
theorem bothLoad_unsafe :
    ∃ s t, run Tasks.step (Tasks.init fun _ => 0) bothLoad = some s ∧
      (s.writers true).Inside ∧ s.shared.seq = 2 ∧ ¬ ThreadSafe s ∧
      run Tasks.step s [.write true (fun _ => 8) (.copy ()), .write true (fun _ => 8) .storeSeq] =
        some t ∧
      (∀ w, (t.writers w).Idle) ∧ t.started = 2 ∧ t.shared.seq = 2 ∧ ¬ ThreadSafe t := by
  refine ⟨_, _, rfl, trivial, rfl, ?_, rfl, ?_, rfl, rfl, ?_⟩
  · intro hsafe
    exact hsafe.odd true trivial rfl
  · rintro (_ | _) <;> trivial
  · intro hsafe
    have h := hsafe.counted (by rintro (_ | _) <;> trivial)
    exact absurd h (by decide)

end Thermometer.SequenceLock
