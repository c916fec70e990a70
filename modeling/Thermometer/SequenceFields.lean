import Mathlib.Data.List.Forall2
import Mathlib.Order.Basic
import Thermometer.SequenceCheck

namespace Thermometer.SequenceLock

open Thermometer.Transition

variable {ι R : Type} {V : ι → Type} [DecidableEq ι]

/-- Each field of a returned copy is of some version, and none of these was
out of date when the read began. -/
def Dated (version : Nat → ∀ i, V i) (e : Returned V) (k : ι → Nat) : Prop :=
  ∀ i, e.begun ≤ k i ∧ e.value i = some (version (k i) i)

/-- The versions of the fields that are copied already, between those of the
reads that ended before and what is stored now. -/
def Reader.Copied (version : Nat → ∀ i, V i) (s : System V R) (r : R) (ks : List (ι → Nat)) :
    Reader V → Prop
  | .result _ value rest => ∃ k : ι → Nat, k ≤ s.stored ∧ (∀ l ∈ ks, l ≤ k) ∧
      ∀ i ∉ rest, s.history.begun r ≤ k i ∧ value i = some (version (k i) i)
  | _ => True

structure FieldsInv (version : Nat → ∀ i, V i) (s : System V R) (r : R) (ks : List (ι → Nat)) :
    Prop where
  begun_le : s.history.begun r ≤ s.history.completed
  dated : List.Forall₂ (Dated version) (s.history.returned r) ks
  ordered : ks.Pairwise (· ≤ ·)
  stored : ∀ k ∈ ks, k ≤ s.stored
  copied : (s.readers r).Copied version s r ks

theorem FieldsInv.init (version : Nat → ∀ i, V i) (r : R) :
    FieldsInv version (System.init version : System V R) r [] where
  begun_le := Nat.le_refl _
  dated := .nil
  ordered := .nil
  stored := by simp
  copied := trivial

theorem Reader.Copied.mono {version : Nat → ∀ i, V i} {s t : System V R} {r : R}
    {ks : List (ι → Nat)} {p : Reader V} (h : p.Copied version s r ks)
    (hstored : s.stored ≤ t.stored) (hbegun : t.history.begun r = s.history.begun r) :
    p.Copied version t r ks := by
  cases p with
  | result loop value rest =>
    obtain ⟨k, hk, hks, hcopied⟩ := h
    exact ⟨k, hk.trans hstored, hks, by rw [hbegun]; exact hcopied⟩
  | _ => trivial

/-- One more field of the returned copy, which is as new as what is stored. -/
theorem Reader.Copied.copy {version : Nat → ∀ i, V i} {s : System V R} {r : R}
    {ks : List (ι → Nat)} {loop : Bool} {value : Copy V} {rest : Finset ι}
    (h : (Reader.result loop value rest).Copied version s r ks) (hw : WriterInv version s)
    (hbegun : s.history.begun r ≤ s.history.completed) (i : ι) :
    (Reader.result loop (Function.update value i (some (s.shared.data i)))
      (rest.erase i)).Copied version s r ks := by
  obtain ⟨k, hk, hks, hcopied⟩ := h
  refine ⟨Function.update k i (s.stored i), ?_, fun l hl => ?_, fun j hj => ?_⟩
  · exact update_le_iff.mpr ⟨Nat.le_refl _, fun j _ => hk j⟩
  · exact le_update_iff.mpr ⟨(hks l hl i).trans (hk i), fun j _ => hks l hl j⟩
  · by_cases hji : j = i
    · subst j
      rw [Function.update_self, Function.update_self, hw.data i]
      exact ⟨hbegun.trans (completed_le_stored s i), rfl⟩
    · rw [Function.update_of_ne hji, Function.update_of_ne hji]
      apply hcopied j
      simpa [hji] using hj

variable [Fintype ι]

theorem stored_mono [DecidableEq R] {version : Nat → ∀ i, V i} {s t : System V R}
    {a : WriteAccess ι} (hw : WriterInv version s) (h : s.step version (.writer a) = some t) :
    s.stored ≤ t.stored := by
  obtain ⟨m, w, hm, rfl⟩ := System.step_writer h
  obtain ⟨sh, wr, rs, hi⟩ := s
  dsimp only at hm
  intro i
  cases hm with
  | call | load => exact Nat.le_refl _
  | odd d seq => simp [System.stored, History.noteWrite, History.noteStore]
  | copy d seq rest j hj =>
    by_cases hmem : i ∈ rest.erase j
    · simp [System.stored, History.noteWrite, hmem, Finset.mem_of_mem_erase hmem]
    · simp only [System.stored, History.noteWrite, if_neg hmem]
      split <;> omega
  | even d seq => simp [System.stored, History.noteWrite, History.noteStore]

theorem FieldsInv.writer_step [DecidableEq R] {version : Nat → ∀ i, V i} {s t : System V R}
    {a : WriteAccess ι} {r : R} {ks : List (ι → Nat)} (hw : WriterInv version s)
    (hs : FieldsInv version s r ks) (h : s.step version (.writer a) = some t) :
    FieldsInv version t r ks := by
  have hstored := stored_mono hw h
  obtain ⟨m, w, hm, rfl⟩ := System.step_writer h
  obtain ⟨hb, hret, -, hco⟩ := noteWrite_records s.history s.writer a
  obtain ⟨hbegun, hdated, hordered, hks, hcopied⟩ := hs
  refine ⟨?_, ?_, hordered, fun k hk => (hks k hk).trans hstored, ?_⟩
  · rw [hb]
    exact hbegun.trans hco
  · simpa only [hret] using hdated
  · exact hcopied.mono hstored (congrFun hb r)

theorem stored_reader [DecidableEq R] {version : Nat → ∀ i, V i} {s t : System V R}
    {a : ReadAccess ι} {r : R} (h : s.step version (.reader r a) = some t) :
    t.stored = s.stored := by
  obtain ⟨p, -, rfl⟩ := System.step_reader h
  funext i
  simp only [System.stored, (noteRead_counts s.history s.shared r (s.readers r) a).2]

theorem FieldsInv.reader_other [DecidableEq R] {version : Nat → ∀ i, V i} {s t : System V R}
    {a : ReadAccess ι} {r q : R} {ks : List (ι → Nat)} (hs : FieldsInv version s q ks)
    (hqr : q ≠ r) (h : s.step version (.reader r a) = some t) : FieldsInv version t q ks := by
  have hstored := stored_reader h
  obtain ⟨p, -, rfl⟩ := System.step_reader h
  obtain ⟨hst, hco⟩ := noteRead_counts s.history s.shared r (s.readers r) a
  obtain ⟨hb, -, -, -, hret⟩ := noteRead_other s.history s.shared hqr (s.readers r) a
  obtain ⟨hbegun, hdated, hordered, hks, hcopied⟩ := hs
  refine ⟨by rw [hb, hco]; exact hbegun, by simpa only [hret] using hdated, hordered,
    fun k hk => hstored ▸ hks k hk, ?_⟩
  simp only [Function.update_of_ne hqr]
  exact hcopied.mono hstored.ge hb

theorem FieldsInv.reader_self [DecidableEq R] {version : Nat → ∀ i, V i} {s t : System V R}
    {a : ReadAccess ι} {r : R} {ks : List (ι → Nat)} (hw : WriterInv version s)
    (hs : FieldsInv version s r ks) (h : s.step version (.reader r a) = some t) :
    ∃ ks', FieldsInv version t r ks' := by
  have hstored := stored_reader h
  obtain ⟨p, hp, rfl⟩ := System.step_reader h
  obtain ⟨-, hco⟩ := noteRead_counts s.history s.shared r (s.readers r) a
  obtain ⟨hbegun, hdated, hordered, hks, hcopied⟩ := hs
  have hks' := fun k hk => hstored ▸ hks k hk
  generalize s.readers r = p₀ at hp hcopied hstored hks' hco ⊢
  cases hp with
  | call loop =>
    refine ⟨ks, by simp [History.noteRead], hdated, hordered, hks', ?_⟩
    simp [Reader.Copied]
  | odd loop ho =>
    refine ⟨ks, hbegun, hdated, hordered, hks', ?_⟩
    cases loop <;> simp [Reader.nullopt, Reader.Copied]
  | even loop he => exact ⟨ks, hbegun, hdated, hordered, hks', by simp [Reader.Copied]⟩
  | copyTemp loop seq1 temp rest i hmem =>
    exact ⟨ks, hbegun, hdated, hordered, hks', by simp [Reader.Copied]⟩
  | changed loop seq1 temp hne =>
    refine ⟨ks, by simpa [History.noteRead, hne] using hbegun,
      by simpa [History.noteRead, hne] using hdated, hordered, hks', ?_⟩
    cases loop <;> simp [Reader.nullopt, Reader.Copied]
  | accept loop temp =>
    refine ⟨ks, by simpa [History.noteRead] using hbegun,
      by simpa [History.noteRead] using hdated, hordered, hks', ?_⟩
    simp only [Function.update_self]
    exact ⟨s.stored, hstored.ge, hks, by simp⟩
  | copyResult loop value rest i hmem =>
    refine ⟨ks, hbegun, hdated, hordered, hks', ?_⟩
    simp only [Function.update_self]
    exact (Reader.Copied.copy hcopied hw hbegun i).mono hstored.ge rfl
  | ret loop value =>
    obtain ⟨k, hk, hle, hvalue⟩ := hcopied
    refine ⟨ks ++ [k], hbegun, ?_, ?_, ?_, by simp [Reader.Copied]⟩
    · simp only [History.noteRead, Function.update_self]
      exact List.rel_append hdated (.cons (fun i => hvalue i (by simp)) .nil)
    · refine List.pairwise_append.mpr ⟨hordered, List.pairwise_singleton _ _, fun l hl k' hk' => ?_⟩
      rw [List.mem_singleton.mp hk']
      exact hle l hl
    · intro l hl
      obtain hl | hl := List.mem_append.mp hl
      · exact hks' l hl
      · rw [List.mem_singleton.mp hl, hstored]
        exact hk

/-- Whatever the interleaving, and so also where the copies are torn: a field that
a read returns was stored by a write that had not been replaced when the read
began, and successive reads of one task never go back in any field. -/
theorem fields_regular [DecidableEq R] (version : Nat → ∀ i, V i) {s : System V R}
    {as : List (Label ι R)} (h : run (System.step version) (System.init version) as = some s)
    (r : R) :
    ∃ ks, List.Forall₂ (Dated version) (s.history.returned r) ks ∧ ks.Pairwise (· ≤ ·) ∧
      ∀ k ∈ ks, ∀ i, k i ≤ s.history.started := by
  have hs := run_invariant
    (I := fun s : System V R => WriterInv version s ∧ ∃ ks, FieldsInv version s r ks)
    (fun s a t hi ht => by
      obtain ⟨hw, ks, hks⟩ := hi
      cases a with
      | writer a => exact ⟨hw.writer_step ht, ks, hks.writer_step hw ht⟩
      | reader q a =>
        by_cases hqr : r = q
        · subst q
          exact ⟨hw.reader_step ht, hks.reader_self hw ht⟩
        · exact ⟨hw.reader_step ht, ks, hks.reader_other hqr ht⟩)
    ⟨WriterInv.init version, [], FieldsInv.init version r⟩ h
  obtain ⟨hw, ks, hks⟩ := hs
  exact ⟨ks, hks.dated, hks.ordered, fun k hk i =>
    (hks.stored k hk i).trans (stored_le_started hw i)⟩

/-- A write comes between the two fields of a returned copy, and the next read
returns both of its fields. -/
def tornReads : List (Label Bool Unit) :=
  [.reader () (.call true), .reader () .loadSeq, .reader () (.copy false), .reader () (.copy true),
    .reader () .loadSeq, .reader () (.copy false), .writer .call, .writer .loadSeq, .writer .storeSeq,
    .writer (.copy true), .reader () (.copy true), .reader () .ret, .writer (.copy false),
    .writer .storeSeq, .reader () (.call true), .reader () .loadSeq, .reader () (.copy true),
    .reader () (.copy false), .reader () .loadSeq, .reader () (.copy true), .reader () (.copy false),
    .reader () .ret]

theorem fields_regular_tornReads :
    ∃ s : System (fun _ : Bool => Nat) Unit,
      run (System.step fun k _ => k) (System.init fun k _ => k) tornReads = some s ∧
      (s.history.returned ()).map Returned.begun = [0, 1] ∧
      ∃ ks, List.Forall₂ (Dated fun k _ => k) (s.history.returned ()) ks ∧ ks.Pairwise (· ≤ ·) ∧
        ∀ k ∈ ks, ∀ i, k i ≤ 1 := by
  obtain ⟨s, hs, hbegun, hst⟩ : ∃ s : System (fun _ : Bool => Nat) Unit,
      run (System.step fun k _ => k) (System.init fun k _ => k) tornReads = some s ∧
      (s.history.returned ()).map Returned.begun = [0, 1] ∧ s.history.started = 1 :=
    ⟨_, rfl, rfl, rfl⟩
  exact ⟨s, hs, hbegun, hst ▸ fields_regular _ hs ()⟩

end Thermometer.SequenceLock
