import Thermometer.SequenceLock
import Mathlib.Order.Interval.Finset.Nat

namespace Thermometer.SequenceLock

open Thermometer.Transition

variable {ι R : Type} {V : ι → Type}

def Writer.storing : Writer V → Nat
  | .setter _ _ _ => 1
  | _ => 0

def System.touched (s : System V R) : Nat := s.history.completed + s.writer.storing

def Writer.Carries (version : Nat → ∀ i, V i) (h : History V R) (m : Shared V) : Writer V → Prop
  | .idle => h.started = h.completed
  | .loadSeq d => h.started = h.completed + 1 ∧ d = version h.started
  | .storeOdd d seq => h.started = h.completed + 1 ∧ d = version h.started ∧ m.seq = seq
  | .setter d seq _ => h.started = h.completed + 1 ∧ d = version h.started ∧ m.seq = seq + 1

/-- A load of `_seq` sees its lowest bit as the parity of the number of stores. -/
theorem ofNat_and_one (n : Nat) : BitVec.ofNat 32 n &&& 1 = 0 ↔ n % 2 = 0 := by
  rw [← BitVec.toNat_inj, BitVec.toNat_and]
  have h : (BitVec.ofNat 32 n).toNat &&& (1 : BitVec 32).toNat = n % 2 := by
    simp only [BitVec.toNat_ofNat, BitVec.ofNat_eq_ofNat]
    rw [show 1 % 2 ^ 32 = 1 from rfl, Nat.and_one_is_mod]
    omega
  rw [h]
  rfl

/-- Fewer than `2 ^ 31` write calls cannot bring the counter back to the value
it had, unless they did not store at all. -/
theorem touched_eq_of_seq_eq {b c t : Nat} (hbc : b ≤ c) (hct : c ≤ t) (hlt : t - b < 2 ^ 31)
    (h : BitVec.ofNat 32 (2 * b) = BitVec.ofNat 32 (c + t)) : t = b := by
  have hm : 2 * b % 2 ^ 32 = (c + t) % 2 ^ 32 := by
    simpa only [BitVec.toNat_ofNat] using congrArg BitVec.toNat h
  omega

theorem insert_Ioc_succ {b t : Nat} (h : b ≤ t) :
    insert (t + 1) (Finset.Ioc b t) = Finset.Ioc b (t + 1) := by
  ext x
  simp only [Finset.mem_insert, Finset.mem_Ioc]
  omega

variable [DecidableEq ι]

def System.stored (s : System V R) (i : ι) : Nat :=
  match s.writer with
  | .setter _ _ rest => if i ∈ rest then s.history.completed else s.history.completed + 1
  | _ => s.history.completed

theorem stored_eq_of_touched {s : System V R} (h : s.touched = s.history.completed) (i : ι) :
    s.stored i = s.history.completed := by
  obtain ⟨m, w, rs, hi⟩ := s
  cases w with
  | setter d seq rest => simp [System.touched, Writer.storing] at h
  | _ => rfl

/-- The counter, the stored data and the writer agree on how many calls went
through each of their steps. -/
structure WriterInv (version : Nat → ∀ i, V i) (s : System V R) : Prop where
  seq : s.shared.seq = BitVec.ofNat 32 (s.history.completed + s.touched)
  data : ∀ i, s.shared.data i = version (s.stored i) i
  carries : s.writer.Carries version s.history s.shared

theorem WriterInv.completed_le {version : Nat → ∀ i, V i} {s : System V R}
    (hw : WriterInv version s) : s.history.completed ≤ s.history.started := by
  have hcar := hw.carries
  cases hp : s.writer with
  | idle =>
    rw [hp] at hcar
    exact hcar.ge
  | loadSeq | storeOdd | setter =>
    rw [hp] at hcar
    have hst := hcar.1
    omega

theorem WriterInv.started_le {version : Nat → ∀ i, V i} {s : System V R}
    (hw : WriterInv version s) : s.history.started ≤ s.history.completed + 1 := by
  have hcar := hw.carries
  cases hp : s.writer with
  | idle =>
    rw [hp] at hcar
    exact hcar.le.trans (Nat.le_succ _)
  | loadSeq | storeOdd | setter =>
    rw [hp] at hcar
    exact hcar.1.le

theorem completed_le_stored (s : System V R) (i : ι) : s.history.completed ≤ s.stored i := by
  obtain ⟨m, w, rs, hi⟩ := s
  cases w with
  | setter d seq rest =>
    simp only [System.stored]
    split <;> omega
  | idle | loadSeq | storeOdd => exact Nat.le_refl _

theorem stored_le_started {version : Nat → ∀ i, V i} {s : System V R} (hw : WriterInv version s)
    (i : ι) : s.stored i ≤ s.history.started := by
  have hle := hw.completed_le
  have hcar := hw.carries
  obtain ⟨m, w, rs, hi⟩ := s
  cases w with
  | setter d seq rest =>
    have hst := hcar.1
    simp only [System.stored] at hst hle ⊢
    split <;> omega
  | idle | loadSeq | storeOdd => exact hle

/-- Only the versions that were started count. -/
theorem WriterInv.congr {version version' : Nat → ∀ i, V i} {s : System V R}
    (hs : WriterInv version s) (h : ∀ k ≤ s.history.started, version' k = version k) :
    WriterInv version' s := by
  refine ⟨hs.seq, fun i => ?_, ?_⟩
  · rw [h _ (stored_le_started hs i)]
    exact hs.data i
  · have hcar := hs.carries
    have hd := h s.history.started (Nat.le_refl _)
    cases hw : s.writer <;> simpa only [hw, Writer.Carries, hd] using hcar

theorem WriterInv.even_of_idle {version : Nat → ∀ i, V i} {s : System V R}
    (hs : WriterInv version s) (h : s.writer = .idle) : s.shared.seq &&& 1 = 0 := by
  have hseq := hs.seq
  obtain ⟨m, w, rs, hi⟩ := s
  obtain rfl : w = .idle := h
  rw [hseq, ofNat_and_one]
  simp only [System.touched, Writer.storing]
  omega

/-- What the local copies of a reader are worth. The interval holds the calls
that stored `_seq` since the first load. -/
def Reader.Tracks (version : Nat → ∀ i, V i) (s : System V R) (r : R) : Reader V → Prop
  | .snapshot _ seq1 temp rest =>
      seq1 = BitVec.ofNat 32 (2 * s.history.base r) ∧
      s.history.overlap r = Finset.Ioc (s.history.base r) s.touched ∧
      (s.touched = s.history.base r → ∀ i ∉ rest, temp i = some (version (s.history.base r) i))
  | _ => True

structure ReaderInv (version : Nat → ∀ i, V i) (s : System V R) (r : R) : Prop where
  base_le : s.history.base r ≤ s.history.completed
  tracks : (s.readers r).Tracks version s r
  sound : ∀ e ∈ s.history.accepted r, e.overlap < 2 ^ 31 → e.temp = whole (version e.base)
  ordered : (s.history.accepted r).Pairwise (fun e f => e.base ≤ f.base)
  bounded : ∀ e ∈ s.history.accepted r, e.base ≤ s.history.base r

/-- At an equal second load, few overlapping calls mean no overlapping call,
so every field was copied from the version that was complete at the first. -/
theorem temp_eq_of_check {version : Nat → ∀ i, V i} {s : System V R} {r : R} {loop : Bool}
    {seq1 : BitVec 32} {temp : Copy V} (hw : WriterInv version s) (hr : ReaderInv version s r)
    (hp : s.readers r = .snapshot loop seq1 temp ∅) (hlt : (s.history.overlap r).card < 2 ^ 31)
    (heq : s.shared.seq = seq1) : temp = whole (version (s.history.base r)) := by
  have ht := hr.tracks
  rw [hp] at ht
  obtain ⟨hseq, hover, hcopy⟩ := ht
  rw [hover, Nat.card_Ioc] at hlt
  have hct : s.history.completed ≤ s.touched := Nat.le_add_right _ _
  have hb : s.touched = s.history.base r :=
    touched_eq_of_seq_eq hr.base_le hct hlt (by rw [← hseq, ← heq, hw.seq])
  funext i
  apply hcopy hb i
  simp

/-- One more field of the snapshot: with an empty window it is of the version
that the other fields have. -/
theorem Reader.Tracks.copy {version : Nat → ∀ i, V i} {s : System V R} {r : R} {loop : Bool}
    {seq1 : BitVec 32} {temp : Copy V} {rest : Finset ι}
    (h : (Reader.snapshot loop seq1 temp rest).Tracks version s r) (hw : WriterInv version s)
    (hbase : s.history.base r ≤ s.history.completed) (i : ι) :
    (Reader.snapshot loop seq1 (Function.update temp i (some (s.shared.data i)))
      (rest.erase i)).Tracks version s r := by
  obtain ⟨hseq, hover, hcopy⟩ := h
  refine ⟨hseq, hover, fun ht j hj => ?_⟩
  by_cases hji : j = i
  · subst j
    have hle : s.history.completed ≤ s.touched := Nat.le_add_right _ _
    have hd := hw.data i
    rw [stored_eq_of_touched (by omega), show s.history.completed = s.history.base r by omega] at hd
    rw [Function.update_self, hd]
  · rw [Function.update_of_ne hji]
    apply hcopy ht j
    simpa [hji] using hj

/-- A reader that starts its window at an even count starts it with no write
between its stores. -/
theorem touched_eq_of_even {version : Nat → ∀ i, V i} {s : System V R}
    (hw : WriterInv version s) (h : s.shared.seq &&& 1 = 0) :
    s.touched = s.history.completed := by
  rw [hw.seq, ofNat_and_one] at h
  have hle : s.writer.storing ≤ 1 := by
    cases s.writer <;> simp [Writer.storing]
  simp only [System.touched] at h ⊢
  omega

omit [DecidableEq ι] in
/-- A writer's access leaves the calls of the readers alone, and its own
counters never go back. -/
theorem noteWrite_records (h : History V R) (w : Writer V) (a : WriteAccess ι) :
    (h.noteWrite w a).begun = h.begun ∧ (h.noteWrite w a).returned = h.returned ∧
      h.started ≤ (h.noteWrite w a).started ∧ h.completed ≤ (h.noteWrite w a).completed := by
  cases w <;> cases a <;> simp [History.noteWrite, History.noteStore]

omit [DecidableEq ι] in
theorem noteRead_counts [DecidableEq R] (h : History V R) (m : Shared V) (r : R) (p : Reader V)
    (a : ReadAccess ι) :
    (h.noteRead m r p a).started = h.started ∧ (h.noteRead m r p a).completed = h.completed := by
  cases p <;> cases a <;> simp only [History.noteRead, and_self]
  split <;> exact ⟨rfl, rfl⟩

omit [DecidableEq ι] in
/-- A reader's access leaves the record of every other reader alone. -/
theorem noteRead_other [DecidableEq R] (h : History V R) (m : Shared V) {r q : R} (hne : q ≠ r)
    (p : Reader V) (a : ReadAccess ι) :
    (h.noteRead m r p a).begun q = h.begun q ∧ (h.noteRead m r p a).base q = h.base q ∧
      (h.noteRead m r p a).overlap q = h.overlap q ∧
      (h.noteRead m r p a).accepted q = h.accepted q ∧
      (h.noteRead m r p a).returned q = h.returned q := by
  cases p <;> cases a <;> simp only [History.noteRead, Function.update_of_ne hne, and_self]
  split <;> simp only [Function.update_of_ne hne, and_self]

theorem WriterInv.init (version : Nat → ∀ i, V i) :
    WriterInv version (System.init version : System V R) where
  seq := rfl
  data := fun _ => rfl
  carries := rfl

omit [DecidableEq ι] in
theorem ReaderInv.init (version : Nat → ∀ i, V i) (r : R) :
    ReaderInv version (System.init version : System V R) r where
  base_le := Nat.le_refl _
  tracks := trivial
  sound := by simp [System.init]
  ordered := List.Pairwise.nil
  bounded := by simp [System.init]

variable [Fintype ι]

theorem WriterInv.writer_step [DecidableEq R] {version : Nat → ∀ i, V i} {s t : System V R}
    {a : WriteAccess ι} (hs : WriterInv version s) (h : s.step version (.writer a) = some t) :
    WriterInv version t := by
  obtain ⟨m, w, hm, rfl⟩ := System.step_writer h
  obtain ⟨sh, wr, rs, hi⟩ := s
  obtain ⟨hseq, hdata, hcar⟩ := hs
  dsimp only at hm hseq hdata hcar
  cases hm with
  | call =>
    refine ⟨hseq, hdata, ?_⟩
    simp only [Writer.Carries] at hcar
    exact ⟨congrArg (· + 1) hcar, rfl⟩
  | load d => exact ⟨hseq, hdata, hcar.1, hcar.2, rfl⟩
  | odd d seq =>
    obtain ⟨hst, hd, hq⟩ := hcar
    refine ⟨?_, ?_, hst, hd, rfl⟩
    · change sh.seq = BitVec.ofNat 32 (hi.completed + hi.completed) at hseq
      change seq + 1 = BitVec.ofNat 32 (hi.completed + hi.completed + 1)
      rw [← hq, hseq, BitVec.ofNat_add _ 1]
      rfl
    · intro i
      rw [hdata i]
      simp [System.stored, History.noteWrite, History.noteStore]
  | copy d seq rest i hmem =>
    obtain ⟨hst, hd, hq⟩ := hcar
    refine ⟨hseq, fun j => ?_, hst, hd, hq⟩
    by_cases hj : j = i
    · subst j
      simp [System.stored, History.noteWrite, hd, hst]
    · have hold := hdata j
      simpa [System.stored, History.noteWrite, hj] using hold
  | even d seq =>
    obtain ⟨hst, hd, hq⟩ := hcar
    refine ⟨?_, ?_, hst⟩
    · change seq + 2 = BitVec.ofNat 32 (hi.completed + 1 + (hi.completed + 1))
      have hnext : seq + 2 = sh.seq + 1 := by rw [hq, BitVec.add_assoc]; rfl
      have hnat : hi.completed + 1 + (hi.completed + 1) =
          hi.completed + (hi.completed + 1) + 1 := by omega
      rw [hnext, hnat, BitVec.ofNat_add, hseq]
      rfl
    · intro i
      rw [hdata i]
      simp [System.stored, History.noteWrite, History.noteStore]

theorem WriterInv.reader_step [DecidableEq R] {version : Nat → ∀ i, V i} {s t : System V R}
    {r : R} {a : ReadAccess ι} (hs : WriterInv version s)
    (h : s.step version (.reader r a) = some t) : WriterInv version t := by
  obtain ⟨p, -, rfl⟩ := System.step_reader h
  obtain ⟨sh, wr, rs, hi⟩ := s
  obtain ⟨hst, hco⟩ := noteRead_counts hi sh r (rs r) a
  obtain ⟨hseq, hdata, hcar⟩ := hs
  refine ⟨?_, ?_, ?_⟩
  · simpa only [System.touched, hco] using hseq
  · simpa only [System.stored, hco] using hdata
  · cases wr <;> simpa only [Writer.Carries, hst, hco] using hcar

theorem ReaderInv.writer_step [DecidableEq R] {version : Nat → ∀ i, V i} {s t : System V R}
    {a : WriteAccess ι} {r : R} (hw : WriterInv version s) (hs : ReaderInv version s r)
    (h : s.step version (.writer a) = some t) : ReaderInv version t r := by
  obtain ⟨m, w, hm, rfl⟩ := System.step_writer h
  obtain ⟨sh, wr, rs, hi⟩ := s
  obtain ⟨hbase, htracks, hsound, hord, hbound⟩ := hs
  have hcar := hw.carries
  dsimp only at hm hbase htracks hsound hord hbound hcar
  cases hm with
  | call | load | copy =>
    exact ⟨hbase, htracks, hsound, hord, hbound⟩
  | odd d seq =>
    obtain ⟨hst, -, -⟩ := hcar
    refine ⟨hbase, ?_, hsound, hord, hbound⟩
    -- the call enters the window of every reader that is inside one
    change (rs r).Tracks version _ r
    cases hp : rs r with
    | snapshot loop seq1 temp rest =>
      rw [hp] at htracks
      obtain ⟨hq1, hover, -⟩ := htracks
      refine ⟨hq1, ?_, fun ht => ?_⟩
      · change insert hi.started (hi.overlap r) = Finset.Ioc (hi.base r) (hi.completed + 1)
        rw [hover, hst]
        exact insert_Ioc_succ hbase
      · change hi.completed + 1 = hi.base r at ht
        omega
    | _ => trivial
  | even d seq =>
    obtain ⟨hst, -, -⟩ := hcar
    refine ⟨Nat.le_succ_of_le hbase, ?_, hsound, hord, hbound⟩
    -- the call is in every open window already, by its first store
    change (rs r).Tracks version _ r
    cases hp : rs r with
    | snapshot loop seq1 temp rest =>
      rw [hp] at htracks
      obtain ⟨hq1, hover, hcopy⟩ := htracks
      refine ⟨hq1, ?_, hcopy⟩
      change insert hi.started (hi.overlap r) = Finset.Ioc (hi.base r) (hi.completed + 1)
      rw [hover, hst]
      apply Finset.insert_eq_self.mpr
      change hi.completed + 1 ∈ Finset.Ioc (hi.base r) (hi.completed + 1)
      simp only [Finset.mem_Ioc]
      omega
    | _ => trivial

theorem ReaderInv.reader_other [DecidableEq R] {version : Nat → ∀ i, V i} {s t : System V R}
    {a : ReadAccess ι} {r q : R} (hs : ReaderInv version s q) (hqr : q ≠ r)
    (h : s.step version (.reader r a) = some t) : ReaderInv version t q := by
  obtain ⟨p, -, rfl⟩ := System.step_reader h
  obtain ⟨sh, wr, rs, hi⟩ := s
  obtain ⟨hbase, htracks, hsound, hord, hbound⟩ := hs
  obtain ⟨-, hb, hov, hacc, -⟩ := noteRead_other hi sh hqr (rs r) a
  obtain ⟨hst, hco⟩ := noteRead_counts hi sh r (rs r) a
  dsimp only at hbase htracks hsound hord hbound ⊢
  refine ⟨by rw [hb, hco]; exact hbase, ?_, by rw [hacc]; exact hsound,
    by rw [hacc]; exact hord, by rw [hacc, hb]; exact hbound⟩
  change (Function.update rs r p q).Tracks version _ q
  rw [Function.update_of_ne hqr]
  cases hq : rs q with
  | snapshot loop seq1 temp rest =>
    rw [hq] at htracks
    simpa only [Reader.Tracks, System.touched, hb, hov, hco] using htracks
  | _ => trivial

theorem returned_of_ne [DecidableEq R] {version : Nat → ∀ i, V i} {s t : System V R} {r : R}
    {a : ReadAccess ι} (h : s.step version (.reader r a) = some t) (ha : a ≠ .ret) :
    t.history.returned = s.history.returned := by
  obtain ⟨p, hp, rfl⟩ := System.step_reader h
  generalize s.readers r = p₀ at hp ⊢
  cases hp with
  | ret => exact absurd rfl ha
  | changed loop seq1 temp hne => simp [History.noteRead, hne]
  | accept => simp [History.noteRead]
  | call | odd | even | copyTemp | copyResult => rfl

/-- A snapshot is on the record of accepted ones exactly when the reader went on from
it to the returned copy. -/
theorem accepted_step [DecidableEq R] {version : Nat → ∀ i, V i} {s t : System V R} {r : R}
    {a : ReadAccess ι} (h : s.step version (.reader r a) = some t) :
    (∃ loop temp, s.readers r = .snapshot loop s.shared.seq temp ∅ ∧
      t.readers r = .result loop (fun _ => none) Finset.univ ∧
      t.history.accepted r =
        s.history.accepted r ++ [⟨temp, s.history.base r, (s.history.overlap r).card⟩]) ∨
    (((∃ loop seq1 temp rest, s.readers r = .snapshot loop seq1 temp rest) →
        ∀ loop value rest, t.readers r ≠ .result loop value rest) ∧
      t.history.accepted r = s.history.accepted r) := by
  obtain ⟨p, hp, rfl⟩ := System.step_reader h
  simp only [Function.update_self]
  generalize s.readers r = p₀ at hp ⊢
  cases hp with
  | accept loop temp => exact .inl ⟨loop, temp, rfl, rfl, by simp [History.noteRead]⟩
  | changed loop seq1 temp hne =>
    refine .inr ⟨fun _ => ?_, by simp [History.noteRead, hne]⟩
    cases loop <;> simp [Reader.nullopt]
  | odd loop =>
    refine .inr ⟨fun _ => ?_, rfl⟩
    cases loop <;> simp [Reader.nullopt]
  | call | even | copyTemp | copyResult | ret => exact .inr ⟨by simp, rfl⟩

/-- What is on the record stays sound when a snapshot passes the check. -/
theorem ReaderInv.accepted [DecidableEq R] {version : Nat → ∀ i, V i} {s t : System V R}
    {a : ReadAccess ι} {r : R} (hw : WriterInv version s) (hs : ReaderInv version s r)
    (h : s.step version (.reader r a) = some t) :
    (∀ e ∈ t.history.accepted r, e.overlap < 2 ^ 31 → e.temp = whole (version e.base)) ∧
      (t.history.accepted r).Pairwise (fun e f => e.base ≤ f.base) ∧
      ∀ e ∈ t.history.accepted r, e.base ≤ s.history.base r := by
  obtain ⟨loop, temp, hp, -, hgrown⟩ | ⟨-, hsame⟩ := accepted_step h
  · rw [hgrown]
    refine ⟨List.forall_mem_append.mpr ⟨hs.sound, ?_⟩, ?_,
      List.forall_mem_append.mpr ⟨hs.bounded, by simp⟩⟩
    · rw [List.forall_mem_singleton]
      exact fun hlt => temp_eq_of_check hw hs hp hlt rfl
    · refine List.pairwise_append.mpr ⟨hs.ordered, List.pairwise_singleton _ _, ?_⟩
      intro e he f hf
      rw [List.mem_singleton.mp hf]
      exact hs.bounded e he
  · rw [hsame]
    exact ⟨hs.sound, hs.ordered, hs.bounded⟩

theorem ReaderInv.reader_self [DecidableEq R] {version : Nat → ∀ i, V i} {s t : System V R}
    {a : ReadAccess ι} {r : R} (hw : WriterInv version s) (hs : ReaderInv version s r)
    (h : s.step version (.reader r a) = some t) : ReaderInv version t r := by
  obtain ⟨hsound, hord, hbound⟩ := hs.accepted hw h
  obtain ⟨p, hp, rfl⟩ := System.step_reader h
  obtain ⟨sh, wr, rs, hi⟩ := s
  obtain ⟨hbase, htracks, -, -, -⟩ := hs
  dsimp only at hp hbase htracks hsound hord hbound ⊢
  generalize rs r = p₀ at hp htracks hsound hord hbound ⊢
  cases hp with
  | call | copyResult | ret => exact ⟨hbase, by simp [Reader.Tracks], hsound, hord, hbound⟩
  | odd loop ho =>
    refine ⟨by simp [History.noteRead], ?_, hsound, hord, fun e he => ?_⟩
    · cases loop <;> simp [Reader.nullopt, Reader.Tracks]
    · simpa [History.noteRead] using (hbound e he).trans hbase
  | even loop he =>
    -- the window opens: no write call is between its two stores
    have ht : (⟨sh, wr, rs, hi⟩ : System V R).touched = hi.completed := touched_eq_of_even hw he
    have hseq : sh.seq = BitVec.ofNat 32 (2 * hi.completed) := by
      rw [hw.seq, ht, Nat.two_mul]
    have hover : Finset.Ioc hi.completed (hi.completed + wr.storing) = ∅ := by
      rw [show hi.completed + wr.storing = hi.completed from ht, Finset.Ioc_self]
    refine ⟨by simp [History.noteRead], ?_, hsound, hord, fun e hm => ?_⟩
    · simp [Reader.Tracks, History.noteRead, System.touched, hseq, hover]
    · simpa [History.noteRead] using (hbound e hm).trans hbase
  | copyTemp loop seq1 temp rest i hmem =>
    refine ⟨hbase, ?_, hsound, hord, hbound⟩
    change (Function.update rs r _ r).Tracks version _ r
    rw [Function.update_self]
    exact htracks.copy hw hbase i
  | changed loop seq1 temp hne =>
    refine ⟨by simpa [History.noteRead, hne] using hbase, ?_, hsound, hord, ?_⟩
    · cases loop <;> simp [Reader.nullopt, Reader.Tracks]
    · simpa [History.noteRead, hne] using hbound
  | accept loop temp =>
    refine ⟨by simpa [History.noteRead] using hbase, by simp [Reader.Tracks], hsound, hord, ?_⟩
    simpa [History.noteRead] using hbound

theorem ReaderInv.reader_step [DecidableEq R] {version : Nat → ∀ i, V i} {s t : System V R}
    {a : ReadAccess ι} {r q : R} (hw : WriterInv version s) (hs : ReaderInv version s q)
    (h : s.step version (.reader r a) = some t) : ReaderInv version t q := by
  by_cases hqr : q = r
  · subst q
    exact ReaderInv.reader_self hw hs h
  · exact hs.reader_other hqr h

theorem reachable_inv [DecidableEq R] {version : Nat → ∀ i, V i} {s : System V R}
    {as : List (Label ι R)} (h : run (System.step version) (System.init version) as = some s) :
    WriterInv version s ∧ ∀ r, ReaderInv version s r := by
  refine run_invariant (I := fun s => WriterInv version s ∧ ∀ r, ReaderInv version s r)
    (fun s a t hi ht => ?_) ⟨WriterInv.init version, ReaderInv.init version⟩ h
  cases a with
  | writer a => exact ⟨hi.1.writer_step ht, fun r => (hi.2 r).writer_step hi.1 ht⟩
  | reader r a => exact ⟨hi.1.reader_step ht, fun q => (hi.2 q).reader_step hi.1 ht⟩

/-- The sequence check is sound across the wrap-around of the counter: a
snapshot that passes it is the version of the last write completed before the
first load, and the versions one reader accepts never go back. -/
theorem check_sound [DecidableEq R] (version : Nat → ∀ i, V i) {s : System V R}
    {as : List (Label ι R)} (h : run (System.step version) (System.init version) as = some s)
    (r : R) :
    (∀ loop seq1 temp, s.readers r = .snapshot loop seq1 temp ∅ →
      (s.history.overlap r).card < 2 ^ 31 → seq1 &&& 1 = 0 → s.shared.seq = seq1 →
      temp = whole (version (s.history.base r))) ∧
    (∀ e ∈ s.history.accepted r, e.overlap < 2 ^ 31 → e.temp = whole (version e.base)) ∧
    (s.history.accepted r).Pairwise (fun e f => e.base ≤ f.base) := by
  obtain ⟨hw, hr⟩ := reachable_inv h
  exact ⟨fun loop seq1 temp hp hlt _ heq => temp_eq_of_check hw (hr r) hp hlt heq,
    (hr r).sound, (hr r).ordered⟩

/-- A write cuts into the first snapshot of a `read`. The next one is taken while
another write has begun. -/
def overlappedRead : List (Label Bool Unit) :=
  [.writer .call, .reader () (.call true), .writer .loadSeq, .reader () .loadSeq,
    .reader () (.copy true), .writer .storeSeq, .writer (.copy false), .writer (.copy true),
    .reader () (.copy false), .reader () .loadSeq, .reader () .loadSeq, .writer .storeSeq,
    .reader () .loadSeq, .reader () (.copy true), .writer .call, .writer .loadSeq,
    .reader () (.copy false)]

theorem check_sound_overlappedRead :
    ∃ s : System (fun _ : Bool => Nat) Unit,
      run (System.step fun k _ => k) (System.init fun k _ => k) overlappedRead = some s ∧
      ∃ temp, s.readers () = .snapshot true 2 temp ∅ ∧ temp = whole (fun _ => 1) := by
  obtain ⟨s, temp, hs, hp, hlt, hseq, hbase⟩ : ∃ (s : System (fun _ : Bool => Nat) Unit) (temp : _),
      run (System.step fun k _ => k) (System.init fun k _ => k) overlappedRead = some s ∧
      s.readers () = .snapshot true 2 temp ∅ ∧ (s.history.overlap ()).card < 2 ^ 31 ∧
      s.shared.seq = 2 ∧ s.history.base () = 1 := ⟨_, _, rfl, rfl, by decide, rfl, rfl⟩
  have hwhole := (check_sound _ hs ()).1 true 2 temp hp hlt rfl hseq
  rw [hbase] at hwhole
  exact ⟨s, hs, temp, hp, hwhole⟩

end Thermometer.SequenceLock
