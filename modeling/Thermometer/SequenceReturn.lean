import Thermometer.SequenceCheck

namespace Thermometer.SequenceLock

open Thermometer.Transition

variable {ι R : Type} {V : ι → Type} [DecidableEq ι] [Fintype ι]

def Partial (rest : Finset ι) : Prop := rest ≠ Finset.univ ∧ rest ≠ ∅

/-- The setter of `write` has stored a part of the fields. -/
def Writer.Midway : Writer V → Prop
  | .setter _ _ rest => Partial rest
  | _ => False

def Reader.Midway : Reader V → Prop
  | .result _ _ rest => Partial rest
  | _ => False

/-- The copy that `try_read` returns and the copy that a write stores do not
interleave: no field is stored while a returned copy is midway, and no returned
copy begins while the stores of a write are midway. -/
def Apart (s : System V R) : Label ι R → Prop
  | .writer (.copy _) => ∀ r, ¬ (s.readers r).Midway
  | .reader r (.copy _) =>
      (∃ loop value, s.readers r = .result loop value Finset.univ) → ¬ s.writer.Midway
  | _ => True

/-- The fields copied so far are of one version, and the fields still to be
copied will be. -/
def Reader.OneVersion (version : Nat → ∀ i, V i) (s : System V R) : Reader V → Prop
  | .result _ value rest => ∃ k ≤ s.history.started,
      (∀ i ∉ rest, value i = some (version k i)) ∧
      (rest ≠ Finset.univ → ∀ i ∈ rest, s.shared.data i = version k i)
  | _ => True

structure ReturnInv (version : Nat → ∀ i, V i) (s : System V R) : Prop where
  writer : WriterInv version s
  copies : ∀ r, (s.readers r).OneVersion version s
  returned : ∀ r, ∀ e ∈ s.history.returned r, ∃ k ≤ s.history.started, e.value = whole (version k)

/-- Outside the stores of a write the whole of `_data` is one version. -/
theorem data_eq_of_not_midway {version : Nat → ∀ i, V i} {s : System V R}
    (hw : WriterInv version s) (h : ¬ s.writer.Midway) :
    ∃ k ≤ s.history.started, ∀ i, s.shared.data i = version k i := by
  obtain ⟨-, hdata, hcar⟩ := hw
  obtain ⟨m, w, rs, hi⟩ := s
  dsimp only at hdata hcar h ⊢
  cases w with
  | idle => exact ⟨hi.completed, hcar.ge, hdata⟩
  | loadSeq d => exact ⟨hi.completed, by have := hcar.1; omega, hdata⟩
  | storeOdd d seq => exact ⟨hi.completed, by have := hcar.1; omega, hdata⟩
  | setter d seq rest =>
    have hst := hcar.1
    by_cases hu : rest = Finset.univ
    · refine ⟨hi.completed, by omega, fun i => ?_⟩
      rw [hdata i]
      simp [System.stored, hu]
    · have he : rest = ∅ := by
        by_contra hne
        exact h ⟨hu, hne⟩
      refine ⟨hi.completed + 1, by omega, fun i => ?_⟩
      rw [hdata i]
      simp [System.stored, he]

omit [DecidableEq ι] in
theorem OneVersion.of_data_eq {version : Nat → ∀ i, V i} {s t : System V R} {p : Reader V}
    (hp : p.OneVersion version s) (hdata : t.shared.data = s.shared.data)
    (hst : s.history.started ≤ t.history.started) : p.OneVersion version t := by
  cases p with
  | result loop value rest =>
    obtain ⟨k, hk, hcopied, hleft⟩ := hp
    exact ⟨k, hk.trans hst, hcopied, by rw [hdata]; exact hleft⟩
  | _ => trivial

/-- One more field of a returned copy: the first one fixes the version, and the
others still have it when their turn comes. -/
theorem Reader.OneVersion.copy {version : Nat → ∀ i, V i} {s : System V R} {loop : Bool}
    {value : Copy V} {rest : Finset ι} (hw : WriterInv version s)
    (h : (Reader.result loop value rest).OneVersion version s)
    (hmid : rest = Finset.univ → ¬ s.writer.Midway) {i : ι} (hi : i ∈ rest) :
    (Reader.result loop (Function.update value i (some (s.shared.data i)))
      (rest.erase i)).OneVersion version s := by
  by_cases hu : rest = Finset.univ
  · obtain ⟨k, hk, hdata⟩ := data_eq_of_not_midway hw (hmid hu)
    refine ⟨k, hk, fun j hj => ?_, fun _ j _ => hdata j⟩
    have hji : j = i := by simpa [hu] using hj
    subst j
    rw [Function.update_self, hdata i]
  · obtain ⟨k, hk, hcopied, hleft⟩ := h
    refine ⟨k, hk, fun j hj => ?_, fun _ j hj => hleft hu j (Finset.mem_of_mem_erase hj)⟩
    by_cases hji : j = i
    · subst j
      rw [Function.update_self, hleft hu i hi]
    · rw [Function.update_of_ne hji]
      apply hcopied j
      simpa [hji] using hj

variable [DecidableEq R]

theorem ReturnInv.writer_step {version : Nat → ∀ i, V i} {s t : System V R} {a : WriteAccess ι}
    (hs : ReturnInv version s) (hok : Apart s (.writer a))
    (h : s.step version (.writer a) = some t) : ReturnInv version t := by
  have hwriter := hs.writer.writer_step h
  obtain ⟨m, w, hm, rfl⟩ := System.step_writer h
  obtain ⟨-, hret, hst, -⟩ := noteWrite_records s.history s.writer a
  refine ⟨hwriter, fun r => ?_, fun r e he => ?_⟩
  · have hold := hs.copies r
    generalize s.writer = w₀ at hm hst ⊢
    cases hm with
    | call | load | odd | even => exact OneVersion.of_data_eq hold rfl hst
    | copy d seq rest i hmem =>
      cases hp : s.readers r with
      | result loop value left =>
        rw [hp] at hold
        obtain ⟨k, hk, hcopied, -⟩ := hold
        -- the store falls before the first or after the last field of this copy
        have hmid : ¬ Partial left := by simpa [Reader.Midway, hp] using hok r
        refine ⟨k, hk.trans hst, hcopied, fun hne j hj => absurd ⟨hne, ?_⟩ hmid⟩
        exact Finset.ne_empty_of_mem hj
      | _ => trivial
  · obtain ⟨k, hk, hv⟩ := hs.returned r e (by simpa only [hret] using he)
    exact ⟨k, hk.trans hst, hv⟩

theorem ReturnInv.reader_copies {version : Nat → ∀ i, V i} {s t : System V R} {a : ReadAccess ι}
    {r : R} (hs : ReturnInv version s) (hok : Apart s (.reader r a))
    (h : s.step version (.reader r a) = some t) (q : R) : (t.readers q).OneVersion version t := by
  obtain ⟨p, hp, rfl⟩ := System.step_reader h
  obtain ⟨hst, -⟩ := noteRead_counts s.history s.shared r (s.readers r) a
  by_cases hq : q = r
  · subst q
    have hold := hs.copies r
    change (Function.update s.readers r p r).OneVersion version _
    rw [Function.update_self]
    generalize hp₀ : s.readers r = p₀ at hp hold hst ⊢
    cases hp with
    | call | even | copyTemp | ret => trivial
    | odd loop | changed loop => cases loop <;> trivial
    | accept loop temp => exact ⟨0, Nat.zero_le _, by simp, fun hne => absurd rfl hne⟩
    | copyResult loop value rest i hmem =>
      exact OneVersion.of_data_eq
        (hold.copy hs.writer (fun hu => hok ⟨loop, value, hu ▸ hp₀⟩) hmem) rfl hst.ge
  · change (Function.update s.readers r p q).OneVersion version _
    rw [Function.update_of_ne hq]
    exact OneVersion.of_data_eq (hs.copies q) rfl hst.ge

theorem ReturnInv.reader_returned {version : Nat → ∀ i, V i} {s t : System V R}
    {a : ReadAccess ι} {r : R} (hs : ReturnInv version s)
    (h : s.step version (.reader r a) = some t) (q : R) :
    ∀ e ∈ t.history.returned q, ∃ k ≤ t.history.started, e.value = whole (version k) := by
  obtain ⟨p, hp, rfl⟩ := System.step_reader h
  obtain ⟨hst, -⟩ := noteRead_counts s.history s.shared r (s.readers r) a
  intro e he
  dsimp only at he ⊢
  rw [hst]
  by_cases hq : q = r
  · subst q
    have hold := hs.copies r
    generalize s.readers r = p₀ at hp hold he
    cases hp with
    | ret loop value =>
      simp only [History.noteRead, Function.update_self, List.mem_append,
        List.mem_singleton] at he
      obtain he | rfl := he
      · exact hs.returned r e he
      · obtain ⟨k, hk, hcopied, -⟩ := hold
        exact ⟨k, hk, funext fun i => hcopied i (by simp)⟩
    | changed loop seq1 temp hne => exact hs.returned r e (by simpa [History.noteRead, hne] using he)
    | accept => exact hs.returned r e (by simpa [History.noteRead] using he)
    | call | odd | even | copyTemp | copyResult => exact hs.returned r e he
  · obtain ⟨-, -, -, -, hret⟩ := noteRead_other s.history s.shared hq (s.readers r) a
    apply hs.returned q e
    simpa only [hret] using he

theorem ReturnInv.reader_step {version : Nat → ∀ i, V i} {s t : System V R} {a : ReadAccess ι}
    {r : R} (hs : ReturnInv version s) (hok : Apart s (.reader r a))
    (h : s.step version (.reader r a) = some t) : ReturnInv version t :=
  ⟨hs.writer.reader_step h, hs.reader_copies hok h, hs.reader_returned h⟩

/-- What `try_read` and `read` hand out is one version as a whole in every run
that keeps the returned copies and the stores of the writer apart. The sequence
check contributes nothing: it guards the snapshot, which is not returned. -/
theorem returned_whole (version : Nat → ∀ i, V i) {s : System V R} {as : List (Label ι R)}
    (hok : Meets (System.step version) Apart (System.init version) as)
    (h : run (System.step version) (System.init version) as = some s) (r : R) :
    ∀ e ∈ s.history.returned r, ∃ k ≤ s.history.started, e.value = whole (version k) := by
  have hinit : ReturnInv version (System.init version : System V R) :=
    ⟨WriterInv.init version, fun _ => trivial, by simp [System.init]⟩
  have hs := run_meets (I := ReturnInv version) (fun s a t hi hok ht => by
    cases a with
    | writer a => exact hi.writer_step hok ht
    | reader r a => exact hi.reader_step hok ht) hinit hok h
  exact hs.returned r

/-- The second write stores around the returned copy. -/
def storesAround : List (Label Bool Unit) :=
  overlappedRead ++ [.reader () .loadSeq, .writer .storeSeq, .reader () (.copy false),
    .reader () (.copy true), .writer (.copy true), .writer (.copy false), .reader () .ret,
    .writer .storeSeq]

theorem returned_whole_storesAround :
    ∃ s : System (fun _ : Bool => Nat) Unit,
      run (System.step fun k _ => k) (System.init fun k _ => k) storesAround = some s ∧
      s.history.completed = 2 ∧
      ∃ e ∈ s.history.returned (), ∃ k ≤ s.history.started, e.value = whole (fun _ => k) := by
  have hok : Meets (System.step fun k (_ : Bool) => k) Apart (System.init fun k _ => k)
      storesAround := by
    repeat
      refine (meets_cons rfl).mpr ⟨?_, ?_⟩
      · first | trivial | exact fun _ h => h | exact fun _ h => h.1 rfl | exact fun _ h => h.2 rfl
    trivial
  exact ⟨_, rfl, rfl, _, List.mem_cons_self, returned_whole _ hok rfl () _ List.mem_cons_self⟩

def cutReturn : List (Label Bool Unit) :=
  [.reader () (.call false), .reader () .loadSeq, .reader () (.copy false), .reader () (.copy true),
    .reader () .loadSeq, .reader () (.copy false), .writer .call, .writer .loadSeq, .writer .storeSeq,
    .writer (.copy false), .writer (.copy true), .writer .storeSeq, .reader () (.copy true),
    .reader () .ret]

/-- With a single write in the whole run `try_read` hands out the first field
of the initial content next to the second field of the write. -/
theorem cutReturn_torn :
    ∃ s : System (fun _ : Bool => Nat) Unit,
      run (System.step fun k _ => k) (System.init fun k _ => k) cutReturn = some s ∧
      s.history.started < 2 ^ 31 ∧
      ∃ e ∈ s.history.returned (), ∀ k, e.value ≠ whole (fun _ => k) := by
  refine ⟨_, rfl, by decide, _, List.mem_cons_self, fun k hk => ?_⟩
  have h0 : some 0 = some k := congrFun hk false
  have h1 : some 1 = some k := congrFun hk true
  exact absurd (h0.trans h1.symm) (by decide)

end Thermometer.SequenceLock
