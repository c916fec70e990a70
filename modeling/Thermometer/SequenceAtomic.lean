import Thermometer.AtomicRegister
import Thermometer.Refinement
import Thermometer.SequenceReturn

namespace Thermometer.SequenceLock

open Thermometer.Transition Thermometer.Refinement

variable {ι R : Type} {V : ι → Type}

/-- A write takes effect when its last field is stored. -/
def Writer.view [DecidableEq ι] : Writer V → AtomicRegister.Writer (Copy V)
  | .idle => .idle
  | .setter d _ rest => if rest = ∅ then .committed else .called (whole d)
  | .loadSeq d | .storeOdd d _ => .called (whole d)

def System.committed [DecidableEq ι] (s : System V R) : Nat :=
  match s.writer with
  | .setter _ _ rest => if rest = ∅ then s.history.completed + 1 else s.history.completed
  | _ => s.history.completed

/-- How far the register has to be with the call of a reader. A read takes
effect when its first field is copied for the return. -/
def Reader.Shown [Fintype ι] (version : Nat → ∀ i, V i) (s : System V R) (r : R) :
    Reader V → AtomicRegister.Reader (Copy V) → Prop
  | .idle, q => q = .idle
  | .loadSeq _, q => ∃ o, q = .called o
  | .snapshot _ seq1 _ _, q => ∃ o, q = .called o ∧ (o = false → s.shared.seq = seq1)
  | .result _ value rest, q =>
      (rest = Finset.univ ∧ ∃ o, q = .called o) ∨
      (rest ≠ Finset.univ ∧ ∃ k, q = .observed (whole (version k)) ∧
        s.history.begun r ≤ k ∧ k ≤ s.history.started ∧
        (∀ i ∉ rest, value i = some (version k i)) ∧ ∀ i ∈ rest, s.shared.data i = version k i)

variable [DecidableEq ι] [Fintype ι]

structure Atomic (version : Nat → ∀ i, V i) (s : System V R)
    (u : AtomicRegister.State (Copy V) R) : Prop where
  inv : WriterInv version s
  begun_le : ∀ r, s.history.begun r ≤ s.history.completed
  value : u.value = whole (version s.committed)
  writer : u.writer = s.writer.view
  readers : ∀ r, (s.readers r).Shown version s r (u.readers r)
  overlap : u.writer.busy = true → ∀ r o, u.readers r = .called o → o = true

theorem Atomic.init (version : Nat → ∀ i, V i) :
    Atomic version (System.init version : System V R) (.init (whole (version 0))) where
  inv := .init version
  begun_le := fun _ => Nat.le_refl _
  value := rfl
  writer := rfl
  readers := fun _ => rfl
  overlap := by simp [AtomicRegister.State.init, AtomicRegister.Writer.busy]

omit [Fintype ι] in
theorem committed_le {version : Nat → ∀ i, V i} {s : System V R} (hw : WriterInv version s) :
    s.history.completed ≤ s.committed ∧ s.committed ≤ s.history.started := by
  have hle := hw.completed_le
  have hcar := hw.carries
  obtain ⟨m, w, rs, hi⟩ := s
  cases w with
  | setter d seq rest =>
    have hst := hcar.1
    simp only [System.committed] at hst hle ⊢
    split <;> omega
  | idle | loadSeq | storeOdd => exact ⟨Nat.le_refl _, hle⟩

omit [Fintype ι] in
theorem committed_of_idle {version : Nat → ∀ i, V i} {s : System V R} (hw : WriterInv version s)
    (h : s.writer = .idle) : s.committed = s.history.started := by
  have hcar := hw.carries
  rw [h] at hcar
  simp only [System.committed, h]
  exact Eq.symm hcar

/-- While no store of a field is open, `_data` is the version that the register
holds. -/
theorem data_eq_committed {version : Nat → ∀ i, V i} {s : System V R} (hw : WriterInv version s)
    (h : ¬ s.writer.Midway) (i : ι) : s.shared.data i = version s.committed i := by
  rw [hw.data i]
  obtain ⟨m, w, rs, hi⟩ := s
  cases w with
  | setter d seq rest =>
    by_cases he : rest = ∅
    · simp [System.stored, System.committed, he]
    · have hu : rest = Finset.univ := by
        by_contra hne
        exact h ⟨hne, he⟩
      have hi : i ∈ rest := hu ▸ Finset.mem_univ i
      simp [System.stored, System.committed, he, hi]
  | idle | loadSeq | storeOdd => rfl

omit [DecidableEq ι] in
theorem Reader.Shown.congr {version : Nat → ∀ i, V i} {s t : System V R} {r : R} {p : Reader V}
    {q : AtomicRegister.Reader (Copy V)} (h : p.Shown version s r q)
    (hseq : q = .called false → t.shared.seq = s.shared.seq)
    (hdata : p.Midway → t.shared.data = s.shared.data)
    (hbegun : t.history.begun r = s.history.begun r)
    (hst : s.history.started ≤ t.history.started) : p.Shown version t r q := by
  cases p with
  | idle | loadSeq => exact h
  | snapshot loop seq1 temp rest =>
    obtain ⟨o, rfl, hsame⟩ := h
    refine ⟨o, rfl, fun ho => ?_⟩
    subst o
    exact (hseq rfl).trans (hsame rfl)
  | result loop value rest =>
    obtain h | ⟨hu, k, hq, hb, hk, hcopied, hleft⟩ := h
    · exact .inl h
    · refine .inr ⟨hu, k, hq, hbegun ▸ hb, hk.trans hst, hcopied, fun i hi => ?_⟩
      rw [hdata ⟨hu, Finset.ne_empty_of_mem hi⟩]
      exact hleft i hi

omit [DecidableEq ι] in
/-- A write call that begins overlaps every pending read. -/
theorem Reader.Shown.overlapped {version : Nat → ∀ i, V i} {s : System V R} {r : R}
    {p : Reader V} {q : AtomicRegister.Reader (Copy V)} (h : p.Shown version s r q) :
    p.Shown version s r q.overlap := by
  cases p with
  | idle => exact h ▸ rfl
  | loadSeq loop =>
    obtain ⟨o, rfl⟩ := h
    exact ⟨true, rfl⟩
  | snapshot loop seq1 temp rest =>
    obtain ⟨o, rfl, -⟩ := h
    exact ⟨true, rfl, by simp⟩
  | result loop value rest =>
    obtain ⟨hu, o, rfl⟩ | ⟨hu, k, rfl, hrest⟩ := h
    · exact .inl ⟨hu, true, rfl⟩
    · exact .inr ⟨hu, k, rfl, hrest⟩

/-- The copy that a call returns, known from its first field on if no store falls into
it. -/
def Reader.returning (m : Shared V) : Reader V → Option (Copy V)
  | .result _ value rest =>
      if rest = Finset.univ then none
      else some fun i => if i ∈ rest then some (m.data i) else value i
  | _ => none

/-- The first field of the returned copy decides for all of them. -/
theorem Reader.Moves.returning {m : Shared V} {p p' : Reader V} {a : ReadAccess ι}
    (h : p.Moves m a p') :
    (a ≠ .ret ∧ p'.returning m = p.returning m) ∨
    (a ≠ .ret ∧ p.returning m = none ∧ p'.returning m = some (whole m.data) ∧
      ∃ i loop value, a = .copy i ∧ p = .result loop value Finset.univ) ∨
    ∃ loop value, a = .ret ∧ p = .result loop value ∅ ∧ p' = .idle ∧
      (p.returning m = some value ∨ p.returning m = none ∧ IsEmpty ι) := by
  cases h with
  | call | even | copyTemp => exact .inl ⟨by simp, rfl⟩
  | odd loop | changed loop => cases loop <;> exact .inl ⟨by simp, rfl⟩
  | accept => exact .inl ⟨by simp, if_pos rfl⟩
  | copyResult loop value rest i hi =>
    have hpart : rest.erase i ≠ Finset.univ := fun he =>
      Finset.notMem_erase i rest (he ▸ Finset.mem_univ i)
    simp only [Reader.returning, if_neg hpart]
    by_cases hu : rest = Finset.univ
    · refine .inr (.inl ⟨by simp, if_pos hu, congrArg some (funext fun j => ?_), i, loop, value, rfl,
        by rw [hu]⟩)
      by_cases hji : j = i
      · subst j
        simp [whole]
      · simp [hji, hu, whole]
    · refine .inl ⟨by simp, ?_⟩
      rw [if_neg hu]
      refine congrArg some (funext fun j => ?_)
      by_cases hji : j = i
      · subst j
        simp [hi]
      · simp [hji]
  | ret loop value =>
    refine .inr (.inr ⟨loop, value, rfl, rfl, rfl, ?_⟩)
    by_cases hu : (∅ : Finset ι) = Finset.univ
    · exact .inr ⟨if_pos hu, Finset.univ_eq_empty_iff.mp hu.symm⟩
    · exact .inl (by simp [Reader.returning, hu])

variable [DecidableEq R]

/-- What the tasks see of the lock: their calls and the answers. A direct
`try_read` ends without an answer at the load of `_seq` that made it give up. -/
def event (version : Nat → ∀ i, V i) (s : System V R) :
    Label ι R → Option (AtomicRegister.Event (Copy V) R)
  | .writer .call => some (.callWrite (whole (version (s.history.started + 1))))
  | .writer .storeSeq =>
      match s.writer with
      | .setter _ _ _ => some .endWrite
      | _ => none
  | .reader r (.call _) => some (.callRead r)
  | .reader r .loadSeq =>
      match (s.readers r).step s.shared .loadSeq with
      | some .idle => some (.endRead r none)
      | _ => none
  | .reader r .ret =>
      match s.readers r with
      | .result _ value _ => some (.endRead r (some value))
      | _ => none
  | .writer .loadSeq | .writer (.copy _) | .reader _ (.copy _) => none

/-- The register goes along with a step of the lock, and the tasks cannot tell
the two apart. -/
def Follows (version : Nat → ∀ i, V i) (s : System V R) (a : Label ι R) (t : System V R)
    (u : AtomicRegister.State (Copy V) R) : Prop :=
  ∃ bs v, run AtomicRegister.State.step u bs = some v ∧
    trace AtomicRegister.State.step AtomicRegister.event u bs = (event version s a).toList ∧
    Atomic version t v

/-- A write call between its stores of `_seq`: the register commits it with the
last field. -/
theorem Atomic.settle {version : Nat → ∀ i, V i} {t : System V R}
    {u : AtomicRegister.State (Copy V) R} {d : ∀ i, V i} {seq : BitVec 32} {rest : Finset ι}
    (hinv : WriterInv version t) (hbegun : ∀ r, t.history.begun r ≤ t.history.completed)
    (hw : t.writer = .setter d seq rest) (hcalled : u.writer = .called (whole d))
    (hvalue : u.value = whole (version t.history.completed))
    (hreaders : ∀ r, (t.readers r).Shown version t r (u.readers r))
    (hoverlap : ∀ r o, u.readers r = .called o → o = true) :
    ∃ bs v, run AtomicRegister.State.step u bs = some v ∧
      trace AtomicRegister.State.step AtomicRegister.event u bs = [] ∧ Atomic version t v := by
  by_cases he : rest = ∅
  · have hcar := hinv.carries
    rw [hw] at hcar
    obtain ⟨hst, hd, -⟩ := hcar
    refine ⟨[.commit], { u with value := whole d, writer := .committed }, ?_, ?_, ?_⟩
    · simp [run, AtomicRegister.State.step, hcalled]
    · simp [trace, AtomicRegister.State.step, AtomicRegister.event, hcalled]
    · refine ⟨hinv, hbegun, ?_, ?_, hreaders, fun _ => hoverlap⟩
      · simp [System.committed, hw, he, hd, hst]
      · simp [Writer.view, hw, he]
  · refine ⟨[], u, rfl, rfl, hinv, hbegun, ?_, ?_, hreaders, fun _ => hoverlap⟩
    · simp [System.committed, hw, he, hvalue]
    · simp [Writer.view, hw, he, hcalled]

theorem Atomic.writer_step {version : Nat → ∀ i, V i} {s t : System V R}
    {u : AtomicRegister.State (Copy V) R} {a : WriteAccess ι} (hs : Atomic version s u)
    (hok : Apart s (.writer a)) (h : s.step version (.writer a) = some t) :
    Follows version s (.writer a) t u := by
  have hinv := hs.inv.writer_step h
  obtain ⟨m, w, hm, rfl⟩ := System.step_writer h
  obtain ⟨hb, -, hst, hco⟩ := noteWrite_records s.history s.writer a
  obtain ⟨sh, wr, rs, hi⟩ := s
  obtain ⟨uv, uw, ur⟩ := u
  obtain ⟨hinv₀, hbegun, hvalue, hwriter, hreaders, hoverlap⟩ := hs
  dsimp only at hm hb hst hco hbegun hvalue hwriter hreaders hoverlap
  have hbegun' : ∀ r, (hi.noteWrite wr a).begun r ≤ (hi.noteWrite wr a).completed := by
    intro r
    rw [hb]
    exact (hbegun r).trans hco
  cases hm with
  | call =>
    subst uw
    refine ⟨[.callWrite (whole (version (hi.started + 1)))], _, rfl, rfl, hinv, hbegun', hvalue,
      rfl, fun r => ?_, fun _ r o ho => ?_⟩
    · exact (hreaders r).overlapped.congr (fun _ => rfl) (fun _ => rfl) rfl hst
    · cases hr : ur r <;> simp [hr, AtomicRegister.Reader.overlap] at ho
      exact ho
  | load d =>
    refine ⟨[], _, rfl, rfl, hinv, hbegun', hvalue, hwriter, fun r => ?_, hoverlap⟩
    exact (hreaders r).congr (fun _ => rfl) (fun _ => rfl) rfl hst
  | odd d seq =>
    subst uw
    have hover : ∀ r o, ur r = .called o → o = true := hoverlap rfl
    refine Atomic.settle hinv hbegun' rfl rfl hvalue (fun r => ?_) hover
    refine (hreaders r).congr (fun hq => ?_) (fun _ => rfl) rfl hst
    cases hover r false hq
  | copy d seq rest i hmem =>
    have hrest : rest ≠ ∅ := Finset.ne_empty_of_mem hmem
    obtain rfl : uw = .called (whole d) := by simpa [Writer.view, hrest] using hwriter
    refine Atomic.settle hinv hbegun' rfl rfl ?_ (fun r => ?_) (hoverlap rfl)
    · simpa [System.committed, hrest, History.noteWrite] using hvalue
    · -- no returned copy is midway, so none still needs the old field
      exact (hreaders r).congr (fun _ => rfl) (fun hmid => absurd hmid (hok r)) rfl hst
  | even d seq =>
    obtain rfl : uw = .committed := by simpa [Writer.view] using hwriter
    have hover : ∀ r o, ur r = .called o → o = true := hoverlap rfl
    refine ⟨[.endWrite], _, rfl, rfl, hinv, hbegun', ?_, rfl, fun r => ?_,
      fun hbusy => by cases hbusy⟩
    · simpa [System.committed, History.noteWrite] using hvalue
    · refine (hreaders r).congr (fun hq => ?_) (fun _ => rfl) rfl hst
      cases hover r false hq

theorem begun_le_noteRead {h : History V R} {m : Shared V} {r : R} {p p' : Reader V}
    {a : ReadAccess ι} (hp : p.Moves m a p') (hb : ∀ q, h.begun q ≤ h.completed) (q : R) :
    (h.noteRead m r p a).begun q ≤ (h.noteRead m r p a).completed := by
  rw [(noteRead_counts h m r p a).2]
  cases hp with
  | call loop =>
    by_cases hq : q = r
    · simp [History.noteRead, hq]
    · simpa [History.noteRead, hq] using hb q
  | changed loop seq1 temp hne => simpa [History.noteRead, hne] using hb q
  | accept => simpa [History.noteRead] using hb q
  | odd | even | copyTemp | copyResult | ret => exact hb q

/-- A step of one reader leaves the rest of the register alone. -/
theorem Atomic.read {version : Nat → ∀ i, V i} {s t : System V R}
    {u : AtomicRegister.State (Copy V) R} {r : R} {a : ReadAccess ι} (hs : Atomic version s u)
    (h : s.step version (.reader r a) = some t) {q : AtomicRegister.Reader (Copy V)}
    (hshown : (t.readers r).Shown version t r q)
    (hq : u.writer.busy = true → ∀ o, q = .called o → o = true) :
    Atomic version t { u with readers := Function.update u.readers r q } := by
  have hinv := hs.inv.reader_step h
  obtain ⟨p, hp, rfl⟩ := System.step_reader h
  obtain ⟨hst, hco⟩ := noteRead_counts s.history s.shared r (s.readers r) a
  refine ⟨hinv, begun_le_noteRead hp hs.begun_le, ?_, hs.writer, fun q' => ?_,
    fun hbusy q' o ho => ?_⟩
  · simpa only [System.committed, hco] using hs.value
  · by_cases hqr : q' = r
    · subst q'
      simpa only [Function.update_self] using hshown
    · obtain ⟨hb, -⟩ := noteRead_other s.history s.shared hqr (s.readers r) a
      simp only [Function.update_of_ne hqr]
      exact (hs.readers q').congr (fun _ => rfl) (fun _ => rfl) hb hst.ge
  · by_cases hqr : q' = r
    · subst q'
      exact hq hbusy o (by simpa only [Function.update_self] using ho)
    · exact hs.overlap hbusy q' o (by simpa only [Function.update_of_ne hqr] using ho)

/-- A `try_read` that gives up: the loop of `read` goes on with the same call,
and a direct call was overlapped by the write whose store it saw. -/
theorem Atomic.giveUp {version : Nat → ∀ i, V i} {s t : System V R}
    {u : AtomicRegister.State (Copy V) R} {r : R} (hs : Atomic version s u) (loop : Bool)
    (h : s.step version (.reader r .loadSeq) = some t) (hcalled : u.readers r = .called true)
    (hstep : (s.readers r).step s.shared .loadSeq = some (.nullopt loop))
    (ht : t.readers r = .nullopt loop) : Follows version s (.reader r .loadSeq) t u := by
  cases loop with
  | true =>
    refine ⟨[], _, rfl, ?_, ?_⟩
    · simp [trace, event, hstep, Reader.nullopt]
    · have hread := hs.read h (q := .called true) (by rw [ht]; exact ⟨true, rfl⟩) (by simp)
      rwa [← hcalled, Function.update_eq_self] at hread
  | false =>
    refine ⟨[.refuse r], _, ?_, ?_, hs.read h (q := .idle) (by rw [ht]; rfl) (by simp)⟩
    · simp [run, AtomicRegister.State.step, hcalled]
    · simp [trace, AtomicRegister.State.step, AtomicRegister.event, hcalled, event, hstep,
        Reader.nullopt]

omit [DecidableEq R] in
theorem Atomic.busy_of_odd {version : Nat → ∀ i, V i} {s : System V R}
    {u : AtomicRegister.State (Copy V) R} (hs : Atomic version s u)
    (h : s.shared.seq &&& 1 ≠ 0) : u.writer.busy = true := by
  rw [hs.writer]
  cases hw : s.writer with
  | idle => exact absurd (hs.inv.even_of_idle hw) h
  | loadSeq | storeOdd => rfl
  | setter d seq rest =>
    simp only [Writer.view]
    split <;> rfl

theorem Atomic.reader_step {version : Nat → ∀ i, V i} {s t : System V R}
    {u : AtomicRegister.State (Copy V) R} {r : R} {a : ReadAccess ι} (hs : Atomic version s u)
    (hok : Apart s (.reader r a)) (h : s.step version (.reader r a) = some t) :
    Follows version s (.reader r a) t u := by
  have hread := fun q => hs.read h (q := q)
  have hshown := hs.readers r
  have hkeep : (t.readers r).Shown version t r (u.readers r) → Atomic version t u := by
    intro hsh
    have hsame := hread (u.readers r) hsh fun hb => hs.overlap hb r
    rwa [Function.update_eq_self] at hsame
  obtain ⟨p', hp, rfl⟩ := System.step_reader h
  generalize hp₀ : s.readers r = p at hp hshown hread hkeep h
  simp only [Function.update_self] at hread hkeep
  cases hp with
  | call loop =>
    have hidle : u.readers r = .idle := hshown
    refine ⟨[.callRead r], _, ?_, ?_, hread (.called u.writer.busy) ⟨_, rfl⟩ ?_⟩
    · simp [run, AtomicRegister.State.step, hidle]
    · simp [trace, AtomicRegister.State.step, AtomicRegister.event, hidle, event]
    · rintro hbusy o ⟨⟩
      exact hbusy
  | odd loop ho =>
    obtain ⟨o, hcalled⟩ := hshown
    have ho' := hs.overlap (hs.busy_of_odd ho) r o hcalled
    have hodd : ¬ s.shared.seq &&& 1#32 = 0#32 := ho
    apply hs.giveUp loop h (ho' ▸ hcalled)
    · simp [hp₀, Reader.step, hodd]
    · simp
  | even loop he =>
    obtain ⟨o, hcalled⟩ := hshown
    have heven : s.shared.seq &&& 1#32 = 0#32 := he
    refine ⟨[], u, rfl, ?_, hkeep ⟨o, hcalled, fun _ => rfl⟩⟩
    simp [trace, event, hp₀, Reader.step, heven]
  | copyTemp loop seq1 temp rest i hmem => exact ⟨[], u, rfl, rfl, hkeep hshown⟩
  | changed loop seq1 temp hne =>
    obtain ⟨o, hcalled, hseq⟩ := hshown
    have ho : o = true := by
      by_contra hfalse
      exact hne (hseq (by simpa using hfalse)).symm
    apply hs.giveUp loop h (ho ▸ hcalled)
    · simp [hp₀, Reader.step, hne]
    · simp
  | accept loop temp =>
    obtain ⟨o, hcalled, -⟩ := hshown
    refine ⟨[], u, rfl, ?_, hkeep (.inl ⟨rfl, o, hcalled⟩)⟩
    simp [trace, event, hp₀, Reader.step]
  | copyResult loop value rest i hmem =>
    have hpart : rest.erase i ≠ Finset.univ := fun he =>
      Finset.notMem_erase i rest (he ▸ Finset.mem_univ i)
    obtain ⟨hu, o, hcalled⟩ | ⟨hu, k, hobserved, hb, hk, hcopied, hleft⟩ := hshown
    · -- the first field of the returned copy
      have hdata := data_eq_committed hs.inv (hok ⟨loop, value, hu ▸ hp₀⟩)
      have hle := committed_le hs.inv
      refine ⟨[.observe r], _, ?_, ?_, hread (.observed u.value)
        (.inr ⟨hpart, s.committed, congrArg _ hs.value, ?_, hle.2, fun j hj => ?_, ?_⟩) (by simp)⟩
      · simp [run, AtomicRegister.State.step, hcalled]
      · simp [trace, AtomicRegister.State.step, AtomicRegister.event, hcalled, event]
      · exact (hs.begun_le r).trans hle.1
      · obtain rfl : j = i := by simpa [hu] using hj
        rw [Function.update_self, hdata j]
      · exact fun j _ => hdata j
    · refine ⟨[], u, rfl, rfl, hkeep (.inr ⟨hpart, k, hobserved, hb, hk, fun j hj => ?_,
        fun j hj => hleft j (Finset.mem_of_mem_erase hj)⟩)⟩
      by_cases hji : j = i
      · subst j
        rw [Function.update_self, hleft i hmem]
      · rw [Function.update_of_ne hji]
        apply hcopied j
        simpa [hji] using hj
  | ret loop value =>
    obtain ⟨hu, o, hcalled⟩ | ⟨hu, k, hobserved, hb, hk, hcopied, -⟩ := hshown
    · -- a type without fields: its only value is observed and returned at once
      have hvalue : u.value = value := funext fun i => absurd (Finset.mem_univ i) (by simp [← hu])
      refine ⟨[.observe r, .endRead r], _, ?_, ?_, hread .idle rfl (by simp)⟩
      · simp [run, AtomicRegister.State.step, hcalled]
      · simp [trace, AtomicRegister.State.step, AtomicRegister.event, hcalled, event, hp₀, hvalue]
    · have hvalue : whole (version k) = value := funext fun i => (hcopied i (by simp)).symm
      refine ⟨[.endRead r], _, ?_, ?_, hread .idle rfl (by simp)⟩
      · simp [run, AtomicRegister.State.step, hobserved]
      · simp [trace, AtomicRegister.State.step, AtomicRegister.event, hobserved, event, hp₀, hvalue]

/-- The lock is an atomic register for all its tasks, in every run that keeps the
returned copies and the stores of the writer apart: the calls and the answers
are those of a register where each call takes effect at one moment between its
ends, and no call of `try_read` gives up unless a write overlapped it. -/
theorem linearizable (version : Nat → ∀ i, V i) {s : System V R} {as : List (Label ι R)}
    (hok : Meets (System.step version) Apart (System.init version) as)
    (h : run (System.step version) (System.init version) as = some s) :
    ∃ bs u, run AtomicRegister.State.step (.init (whole (version 0))) bs = some u ∧
      trace AtomicRegister.State.step AtomicRegister.event (.init (whole (version 0))) bs =
        trace (System.step version) (event version) (System.init version) as := by
  have hsim : Simulates (System.step version) (event version) Apart
      (AtomicRegister.State.step : AtomicRegister.State (Copy V) R → _) AtomicRegister.event
      (Atomic version) := by
    intro s a t u hs hok ht
    cases a with
    | writer a => exact hs.writer_step hok ht
    | reader r a => exact hs.reader_step hok ht
  obtain ⟨bs, u, hbs, htrace, -⟩ := hsim.run (Atomic.init version) hok h
  exact ⟨bs, u, hbs, htrace⟩

/-- A `try_read` gives up inside a write, and the next one returns it. -/
def refusedRead : List (Label Bool Unit) :=
  [.writer .call, .writer .loadSeq, .writer .storeSeq, .reader () (.call false), .reader () .loadSeq,
    .writer (.copy false), .writer (.copy true), .writer .storeSeq, .reader () (.call false),
    .reader () .loadSeq, .reader () (.copy false), .reader () (.copy true), .reader () .loadSeq,
    .reader () (.copy true), .reader () (.copy false), .reader () .ret]

theorem linearizable_refusedRead :
    ∃ bs u, run AtomicRegister.State.step (.init (whole fun _ : Bool => 0)) bs = some u ∧
      trace AtomicRegister.State.step AtomicRegister.event (.init (whole fun _ => 0)) bs =
        [.callWrite (whole fun _ => 1), .callRead (), .endRead () none, .endWrite, .callRead (),
          .endRead () (some (whole fun _ => 1))] := by
  have hok : Meets (System.step fun k (_ : Bool) => k) Apart (System.init fun k _ => k)
      refusedRead := by
    repeat
      refine (meets_cons rfl).mpr ⟨?_, ?_⟩
      · first | trivial | exact fun _ h => h
    trivial
  have hvalue : Function.update (Function.update (fun _ : Bool => none) true (some 1)) false (some 1) =
      whole fun _ => 1 := by
    funext i
    cases i <;> rfl
  obtain ⟨bs, u, hbs, htrace⟩ := linearizable (fun k (_ : Bool) => k) hok rfl
  refine ⟨bs, u, hbs, htrace.trans ?_⟩
  rw [← congrArg (fun d => AtomicRegister.Event.endRead () (some d)) hvalue]
  rfl

end Thermometer.SequenceLock
