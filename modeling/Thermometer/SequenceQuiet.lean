import Thermometer.SequenceCheck

namespace Thermometer.SequenceLock

open Thermometer.Transition

variable {ι R : Type} {V : ι → Type} [DecidableEq ι]

/-- What the returned copy of a reader is worth as long as no write has started
since the call. -/
def Reader.Quiet (version : Nat → ∀ i, V i) (h : History V R) (r : R) : Reader V → Prop
  | .result _ value rest =>
      h.started = h.begun r → ∀ i ∉ rest, value i = some (version (h.begun r) i)
  | _ => True

structure QuietInv (version : Nat → ∀ i, V i) (s : System V R) (r : R) : Prop where
  begun_le : s.history.begun r ≤ s.history.completed
  copy : (s.readers r).Quiet version s.history r
  returned : ∀ e ∈ s.history.returned r, e.begun ≤ s.history.completed ∧
    (s.history.started = e.begun → e.value = whole (version e.begun))

omit [DecidableEq ι] in
theorem QuietInv.init (version : Nat → ∀ i, V i) (r : R) :
    QuietInv version (System.init version : System V R) r where
  begun_le := Nat.le_refl _
  copy := trivial
  returned := by simp [System.init]

omit [DecidableEq ι] in
theorem QuietInv.congr {version version' : Nat → ∀ i, V i} {s : System V R} {r : R}
    (hs : QuietInv version s r) (hle : s.history.completed ≤ s.history.started)
    (h : ∀ k ≤ s.history.started, version' k = version k) : QuietInv version' s r := by
  refine ⟨hs.begun_le, ?_, fun e he => ?_⟩
  · have hcopy := hs.copy
    have hd := h _ (hs.begun_le.trans hle)
    cases hp : s.readers r with
    | result loop value rest =>
      simp only [hp, Reader.Quiet] at hcopy ⊢
      rwa [hd]
    | _ => trivial
  · obtain ⟨hbegun, hvalue⟩ := hs.returned e he
    rw [h _ (hbegun.trans hle)]
    exact ⟨hbegun, hvalue⟩

/-- When every started write is complete, `_data` is the last version. -/
theorem data_eq_of_complete {version : Nat → ∀ i, V i} {s : System V R}
    (hw : WriterInv version s) (h : s.history.started ≤ s.history.completed) (i : ι) :
    s.shared.data i = version s.history.started i := by
  obtain ⟨-, hdata, hcar⟩ := hw
  obtain ⟨m, w, rs, hi⟩ := s
  dsimp only at hdata hcar h ⊢
  cases w with
  | idle =>
    have hst : hi.started = hi.completed := hcar
    rw [hst]
    exact hdata i
  | loadSeq | storeOdd | setter =>
    have hst := hcar.1
    omega

theorem Reader.Quiet.copy {version : Nat → ∀ i, V i} {s : System V R} {r : R} {loop : Bool}
    {value : Copy V} {rest : Finset ι} (hw : WriterInv version s)
    (hbegun : s.history.begun r ≤ s.history.completed)
    (h : (Reader.result loop value rest).Quiet version s.history r) (i : ι) :
    (Reader.result loop (Function.update value i (some (s.shared.data i)))
      (rest.erase i)).Quiet version s.history r := by
  intro heq j hj
  by_cases hji : j = i
  · subst j
    rw [Function.update_self, data_eq_of_complete hw (by omega) i, heq]
  · rw [Function.update_of_ne hji]
    apply h heq j
    simpa [hji] using hj

variable [Fintype ι] [DecidableEq R]

theorem QuietInv.writer_step {version : Nat → ∀ i, V i} {s t : System V R}
    {a : WriteAccess ι} {r : R} (hw : WriterInv version s) (hs : QuietInv version s r)
    (h : s.step version (.writer a) = some t) : QuietInv version t r := by
  have hle := hw.completed_le
  obtain ⟨m, w, hm, rfl⟩ := System.step_writer h
  obtain ⟨hb, hret, hst, hco⟩ := noteWrite_records s.history s.writer a
  obtain ⟨hbegun, hcopy, hreturned⟩ := hs
  refine ⟨by rw [hb]; exact hbegun.trans hco, ?_, fun e he => ?_⟩
  · change (s.readers r).Quiet version (s.history.noteWrite s.writer a) r
    cases hp : s.readers r with
    | result loop value rest =>
      rw [hp] at hcopy
      intro heq
      rw [hb] at heq ⊢
      apply hcopy
      omega
    | _ => trivial
  · obtain ⟨hle', hv⟩ := hreturned e (by simpa only [hret] using he)
    exact ⟨hle'.trans hco, fun heq => hv (by dsimp only at heq; omega)⟩

theorem QuietInv.reader_other {version : Nat → ∀ i, V i} {s t : System V R}
    {a : ReadAccess ι} {r q : R} (hs : QuietInv version s q) (hqr : q ≠ r)
    (h : s.step version (.reader r a) = some t) : QuietInv version t q := by
  obtain ⟨p, -, rfl⟩ := System.step_reader h
  obtain ⟨hst, hco⟩ := noteRead_counts s.history s.shared r (s.readers r) a
  obtain ⟨hb, -, -, -, hret⟩ := noteRead_other s.history s.shared hqr (s.readers r) a
  obtain ⟨hbegun, hcopy, hreturned⟩ := hs
  refine ⟨by rw [hb, hco]; exact hbegun, ?_, fun e he => ?_⟩
  · change (Function.update s.readers r p q).Quiet version _ q
    rw [Function.update_of_ne hqr]
    cases hp : s.readers q with
    | result loop value rest =>
      rw [hp] at hcopy
      intro heq
      rw [hb] at heq ⊢
      exact hcopy (hst ▸ heq)
    | _ => trivial
  · rw [hst, hco]
    apply hreturned e
    simpa only [hret] using he

theorem QuietInv.reader_self {version : Nat → ∀ i, V i} {s t : System V R}
    {a : ReadAccess ι} {r : R} (hw : WriterInv version s) (hs : QuietInv version s r)
    (h : s.step version (.reader r a) = some t) : QuietInv version t r := by
  obtain ⟨p, hp, rfl⟩ := System.step_reader h
  obtain ⟨hst, hco⟩ := noteRead_counts s.history s.shared r (s.readers r) a
  obtain ⟨hbegun, hcopy, hreturned⟩ := hs
  generalize s.readers r = p₀ at hp hcopy hst hco ⊢
  cases hp with
  | call loop => exact ⟨by simp [History.noteRead], by simp [Reader.Quiet], hreturned⟩
  | odd loop ho =>
    refine ⟨hbegun, ?_, hreturned⟩
    cases loop <;> simp [Reader.nullopt, Reader.Quiet]
  | changed loop seq1 temp hne =>
    refine ⟨by simpa [History.noteRead, hne] using hbegun, ?_, fun e he => ?_⟩
    · cases loop <;> simp [Reader.nullopt, Reader.Quiet]
    · rw [hst, hco]
      apply hreturned e
      simpa [History.noteRead, hne] using he
  | even loop he => exact ⟨hbegun, by simp [Reader.Quiet], hreturned⟩
  | copyTemp loop seq1 temp rest i hmem => exact ⟨hbegun, by simp [Reader.Quiet], hreturned⟩
  | accept loop temp =>
    refine ⟨by simpa [History.noteRead] using hbegun, by simp [Reader.Quiet], fun e he => ?_⟩
    rw [hst, hco]
    apply hreturned e
    simpa [History.noteRead] using he
  | copyResult loop value rest i hmem =>
    refine ⟨hbegun, ?_, hreturned⟩
    change (Function.update s.readers r _ r).Quiet version _ r
    rw [Function.update_self]
    exact Reader.Quiet.copy hw hbegun hcopy i
  | ret loop value =>
    refine ⟨hbegun, by simp [Reader.Quiet], fun e he => ?_⟩
    simp only [History.noteRead, Function.update_self, List.mem_append,
      List.mem_singleton] at he
    obtain he | rfl := he
    · exact hreturned e he
    · exact ⟨hbegun, fun heq => funext fun i => hcopy heq i (by simp)⟩

theorem QuietInv.reader_step {version : Nat → ∀ i, V i} {s t : System V R}
    {a : ReadAccess ι} {r q : R} (hw : WriterInv version s) (hs : QuietInv version s q)
    (h : s.step version (.reader r a) = some t) : QuietInv version t q := by
  by_cases hqr : q = r
  · subst q
    exact QuietInv.reader_self hw hs h
  · exact hs.reader_other hqr h

/-- A read that no write overlapped, and after which none started, returned the
last version. -/
theorem quiet_read {version : Nat → ∀ i, V i} {s : System V R} {as : List (Label ι R)}
    (h : run (System.step version) (System.init version) as = some s) (r : R) :
    ∀ e ∈ s.history.returned r, s.history.started = e.begun →
      e.value = whole (version s.history.started) := by
  have hs := run_invariant
    (I := fun s : System V R => WriterInv version s ∧ ∀ r, QuietInv version s r)
    (fun s a t hi ht => by
      cases a with
      | writer a => exact ⟨hi.1.writer_step ht, fun r => (hi.2 r).writer_step hi.1 ht⟩
      | reader q a => exact ⟨hi.1.reader_step ht, fun r => (hi.2 r).reader_step hi.1 ht⟩)
    ⟨WriterInv.init version, QuietInv.init version⟩ h
  intro e he heq
  rw [((hs.2 r).returned e he).2 heq, heq]

end Thermometer.SequenceLock
