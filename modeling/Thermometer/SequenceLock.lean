import Thermometer.Transition
import Mathlib.Data.Finset.Card
import Mathlib.Data.Fintype.Basic

namespace Thermometer.SequenceLock

variable {ι R : Type} {V : ι → Type}

/-- The two members of the lock. The stored type is the family of its fields,
because a copy of it is one access for each field. -/
structure Shared (V : ι → Type) where
  seq : BitVec 32
  data : ∀ i, V i

/-- A copy in progress. Fields that are not copied yet hold no value, like the
uninitialised local of `try_read`. -/
abbrev Copy (V : ι → Type) := ∀ i, Option (V i)

def whole (d : ∀ i, V i) : Copy V := fun i => some (d i)

theorem whole_injective {d d' : ∀ i, V i} (h : whole d = whole d') : d = d' :=
  funext fun i => Option.some.inj (congrFun h i)

/-- Program points of `write`. The setter still has to store the fields in
`rest`, in an order the compiler chooses. -/
inductive Writer (V : ι → Type) where
  | idle
  | loadSeq (newData : ∀ i, V i)
  | storeOdd (newData : ∀ i, V i) (seq : BitVec 32)
  | setter (newData : ∀ i, V i) (seq : BitVec 32) (rest : Finset ι)

/-- Program points of `try_read`. The flag tells a call made by the loop of
`read` from a direct one. -/
inductive Reader (V : ι → Type) where
  | idle
  | loadSeq (loop : Bool)
  | snapshot (loop : Bool) (seq1 : BitVec 32) (temp : Copy V) (rest : Finset ι)
  | result (loop : Bool) (value : Copy V) (rest : Finset ι)

inductive WriteAccess (ι : Type) where
  | call | loadSeq | storeSeq
  | copy (i : ι)

inductive ReadAccess (ι : Type) where
  | call (loop : Bool)
  | loadSeq
  | copy (i : ι)
  | ret

variable [DecidableEq ι] [Fintype ι]

def Writer.step (newData : ∀ i, V i) (m : Shared V) :
    Writer V → WriteAccess ι → Option (Shared V × Writer V)
  | .idle, .call => some (m, .loadSeq newData)
  | .loadSeq d, .loadSeq => some (m, .storeOdd d m.seq)
  | .storeOdd d seq, .storeSeq => some ({ m with seq := seq + 1 }, .setter d seq Finset.univ)
  | .setter d seq rest, .copy i =>
      if i ∈ rest then
        some ({ m with data := Function.update m.data i (d i) }, .setter d seq (rest.erase i))
      else none
  | .setter _ seq rest, .storeSeq =>
      if rest = ∅ then some ({ m with seq := seq + 2 }, .idle) else none
  | _, _ => none

/-- A `try_read` without a value ends the call, or starts the next round of
the loop in `read`. -/
def Reader.nullopt : Bool → Reader V
  | true => .loadSeq true
  | false => .idle

/-- One access of `try_read`. Readers never store into the lock. -/
def Reader.step (m : Shared V) : Reader V → ReadAccess ι → Option (Reader V)
  | .idle, .call loop => some (.loadSeq loop)
  | .loadSeq loop, .loadSeq =>
      if m.seq &&& 1 ≠ 0 then some (.nullopt loop)
      else some (.snapshot loop m.seq (fun _ => none) Finset.univ)
  | .snapshot loop seq1 temp rest, .copy i =>
      if i ∈ rest then
        some (.snapshot loop seq1 (Function.update temp i (some (m.data i))) (rest.erase i))
      else none
  | .snapshot loop seq1 _ rest, .loadSeq =>
      if rest = ∅ then
        if seq1 ≠ m.seq then some (.nullopt loop)
        -- the snapshot is dropped here: `return _data` copies the members again
        else some (.result loop (fun _ => none) Finset.univ)
      else none
  | .result loop value rest, .copy i =>
      if i ∈ rest then
        some (.result loop (Function.update value i (some (m.data i))) (rest.erase i))
      else none
  | .result _ _ rest, .ret => if rest = ∅ then some .idle else none
  | _, _ => none

/-- A snapshot that passed the sequence check, with the number of writes
completed before its first load and of the writes that stored `_seq` since. -/
structure Accepted (V : ι → Type) where
  temp : Copy V
  base : Nat
  overlap : Nat

structure Returned (V : ι → Type) where
  begun : Nat
  value : Copy V

/-- What happened so far. No access depends on it. -/
structure History (V : ι → Type) (R : Type) where
  started : Nat
  completed : Nat
  begun : R → Nat
  base : R → Nat
  overlap : R → Finset Nat
  accepted : R → List (Accepted V)
  returned : R → List (Returned V)

def History.noteStore (h : History V R) : History V R :=
  { h with overlap := fun r => insert h.started (h.overlap r) }

def History.noteWrite (h : History V R) : Writer V → WriteAccess ι → History V R
  | .idle, .call => { h with started := h.started + 1 }
  | .storeOdd _ _, .storeSeq => h.noteStore
  | .setter _ _ _, .storeSeq => { h.noteStore with completed := h.completed + 1 }
  | _, _ => h

def History.noteRead [DecidableEq R] (h : History V R) (m : Shared V) (r : R) :
    Reader V → ReadAccess ι → History V R
  | .idle, .call _ => { h with begun := Function.update h.begun r h.completed }
  | .loadSeq _, .loadSeq =>
      { h with
        base := Function.update h.base r h.completed
        overlap := Function.update h.overlap r ∅ }
  | .snapshot _ seq1 temp _, .loadSeq =>
      if seq1 ≠ m.seq then h
      else
        let entry : Accepted V := ⟨temp, h.base r, (h.overlap r).card⟩
        { h with accepted := Function.update h.accepted r (h.accepted r ++ [entry]) }
  | .result _ value _, .ret =>
      let entry : Returned V := ⟨h.begun r, value⟩
      { h with returned := Function.update h.returned r (h.returned r ++ [entry]) }
  | _, _ => h

structure System (V : ι → Type) (R : Type) where
  shared : Shared V
  writer : Writer V
  readers : R → Reader V
  history : History V R

inductive Label (ι R : Type) where
  | writer (a : WriteAccess ι)
  | reader (r : R) (a : ReadAccess ι)

/-- Version 0 is the initial content, version `k + 1` the argument of the
write call number `k`. -/
def System.init (version : Nat → ∀ i, V i) : System V R where
  shared := ⟨0, version 0⟩
  writer := .idle
  readers := fun _ => .idle
  history := ⟨0, 0, fun _ => 0, fun _ => 0, fun _ => ∅, fun _ => [], fun _ => []⟩

variable [DecidableEq R]

/-- A sequentially consistent interleaving takes one access of one task at a
time. -/
def System.step (version : Nat → ∀ i, V i) (s : System V R) : Label ι R → Option (System V R)
  | .writer a =>
      (s.writer.step (version (s.history.started + 1)) s.shared a).map fun p =>
        { s with shared := p.1, writer := p.2, history := s.history.noteWrite s.writer a }
  | .reader r a =>
      ((s.readers r).step s.shared a).map fun p =>
        { s with
          readers := Function.update s.readers r p
          history := s.history.noteRead s.shared r (s.readers r) a }

omit [DecidableEq R]

inductive Writer.Moves (newData : ∀ i, V i) (m : Shared V) :
    Writer V → WriteAccess ι → Shared V → Writer V → Prop where
  | call : Moves newData m .idle .call m (.loadSeq newData)
  | load (d) : Moves newData m (.loadSeq d) .loadSeq m (.storeOdd d m.seq)
  | odd (d seq) : Moves newData m (.storeOdd d seq) .storeSeq { m with seq := seq + 1 }
      (.setter d seq Finset.univ)
  | copy (d seq rest i) (hi : i ∈ rest) : Moves newData m (.setter d seq rest) (.copy i)
      { m with data := Function.update m.data i (d i) } (.setter d seq (rest.erase i))
  | even (d seq) : Moves newData m (.setter d seq ∅) .storeSeq { m with seq := seq + 2 } .idle

theorem Writer.moves_of_step {newData : ∀ i, V i} {m m' : Shared V} {w w' : Writer V}
    {a : WriteAccess ι} (h : w.step newData m a = some (m', w')) :
    w.Moves newData m a m' w' := by
  cases w with
  | idle =>
    cases a <;> simp only [Writer.step, Option.some.injEq, Prod.mk.injEq, reduceCtorEq] at h
    obtain ⟨rfl, rfl⟩ := h
    exact .call
  | loadSeq d =>
    cases a <;> simp only [Writer.step, Option.some.injEq, Prod.mk.injEq, reduceCtorEq] at h
    obtain ⟨rfl, rfl⟩ := h
    exact .load d
  | storeOdd d seq =>
    cases a <;> simp only [Writer.step, Option.some.injEq, Prod.mk.injEq, reduceCtorEq] at h
    obtain ⟨rfl, rfl⟩ := h
    exact .odd d seq
  | setter d seq rest =>
    cases a with
    | call | loadSeq => simp [Writer.step] at h
    | storeSeq =>
      simp only [Writer.step, Option.ite_none_right_eq_some, Option.some.injEq,
        Prod.mk.injEq] at h
      obtain ⟨rfl, rfl, rfl⟩ := h
      exact .even d seq
    | copy i =>
      simp only [Writer.step, Option.ite_none_right_eq_some, Option.some.injEq,
        Prod.mk.injEq] at h
      obtain ⟨hi, rfl, rfl⟩ := h
      exact .copy d seq rest i hi

inductive Reader.Moves (m : Shared V) : Reader V → ReadAccess ι → Reader V → Prop where
  | call (loop) : Moves m .idle (.call loop) (.loadSeq loop)
  | odd (loop) (h : m.seq &&& 1 ≠ 0) : Moves m (.loadSeq loop) .loadSeq (.nullopt loop)
  | even (loop) (h : m.seq &&& 1 = 0) : Moves m (.loadSeq loop) .loadSeq
      (.snapshot loop m.seq (fun _ => none) Finset.univ)
  | copyTemp (loop seq1 temp rest i) (hi : i ∈ rest) :
      Moves m (.snapshot loop seq1 temp rest) (.copy i)
        (.snapshot loop seq1 (Function.update temp i (some (m.data i))) (rest.erase i))
  | changed (loop seq1 temp) (h : seq1 ≠ m.seq) :
      Moves m (.snapshot loop seq1 temp ∅) .loadSeq (.nullopt loop)
  | accept (loop temp) : Moves m (.snapshot loop m.seq temp ∅) .loadSeq
      (.result loop (fun _ => none) Finset.univ)
  | copyResult (loop value rest i) (hi : i ∈ rest) : Moves m (.result loop value rest) (.copy i)
      (.result loop (Function.update value i (some (m.data i))) (rest.erase i))
  | ret (loop value) : Moves m (.result loop value ∅) .ret .idle

theorem Reader.moves_of_step {m : Shared V} {p p' : Reader V} {a : ReadAccess ι}
    (h : p.step m a = some p') : p.Moves m a p' := by
  cases p with
  | idle =>
    cases a <;> simp only [Reader.step, Option.some.injEq, reduceCtorEq] at h
    subst h
    exact .call _
  | loadSeq loop =>
    cases a <;> simp only [Reader.step, reduceCtorEq] at h
    split at h
    · case isTrue ho =>
      cases h
      exact .odd loop ho
    · case isFalse ho =>
      cases h
      apply Reader.Moves.even loop
      simpa using ho
  | snapshot loop seq1 temp rest =>
    cases a with
    | call | ret => simp [Reader.step] at h
    | copy i =>
      simp only [Reader.step, Option.ite_none_right_eq_some, Option.some.injEq] at h
      obtain ⟨hi, rfl⟩ := h
      exact .copyTemp loop seq1 temp rest i hi
    | loadSeq =>
      simp only [Reader.step, Option.ite_none_right_eq_some] at h
      obtain ⟨rfl, h⟩ := h
      by_cases he : seq1 = m.seq
      · subst he
        simp only [ne_eq, not_true_eq_false, ↓reduceIte, Option.some.injEq] at h
        subst h
        exact .accept loop temp
      · simp only [ne_eq, he, not_false_eq_true, ↓reduceIte, Option.some.injEq] at h
        subst h
        exact .changed loop seq1 temp he
  | result loop value rest =>
    cases a with
    | call | loadSeq => simp [Reader.step] at h
    | copy i =>
      simp only [Reader.step, Option.ite_none_right_eq_some, Option.some.injEq] at h
      obtain ⟨hi, rfl⟩ := h
      exact .copyResult loop value rest i hi
    | ret =>
      simp only [Reader.step, Option.ite_none_right_eq_some, Option.some.injEq] at h
      obtain ⟨rfl, rfl⟩ := h
      exact .ret loop value

/-- A field of the copy for the return was just loaded, or was there before. -/
theorem Reader.Moves.loaded {m : Shared V} {p : Reader V} {a : ReadAccess ι} {loop : Bool}
    {value : Copy V} {rest : Finset ι} {i : ι} {x : V i} (h : p.Moves m a (.result loop value rest)) (hx : value i = some x) :
    x = m.data i ∨ ∃ value rest, p = .result loop value rest ∧ value i = some x := by
  generalize hp' : Reader.result loop value rest = p' at h
  cases h with
  | call | even | copyTemp | ret => cases hp'
  | odd loop => cases loop <;> cases hp'
  | changed loop => cases loop <;> cases hp'
  | accept =>
    cases hp'
    cases hx
  | copyResult loop value rest j hj =>
    cases hp'
    by_cases hji : j = i
    · subst j
      rw [Function.update_self] at hx
      exact .inl (Option.some.inj hx).symm
    · rw [Function.update_of_ne (Ne.symm hji)] at hx
      exact .inr ⟨value, rest, rfl, hx⟩

variable [DecidableEq R]

theorem System.step_writer {version : Nat → ∀ i, V i} {s t : System V R} {a : WriteAccess ι}
    (h : s.step version (.writer a) = some t) :
    ∃ m w, s.writer.Moves (version (s.history.started + 1)) s.shared a m w ∧
      t = ⟨m, w, s.readers, s.history.noteWrite s.writer a⟩ := by
  simp only [System.step, Option.map_eq_some_iff] at h
  obtain ⟨⟨m, w⟩, hw, rfl⟩ := h
  exact ⟨m, w, Writer.moves_of_step hw, rfl⟩

theorem System.step_reader {version : Nat → ∀ i, V i} {s t : System V R} {r : R}
    {a : ReadAccess ι} (h : s.step version (.reader r a) = some t) :
    ∃ p, (s.readers r).Moves s.shared a p ∧
      t = ⟨s.shared, s.writer, Function.update s.readers r p,
        s.history.noteRead s.shared r (s.readers r) a⟩ := by
  simp only [System.step, Option.map_eq_some_iff] at h
  obtain ⟨p, hp, rfl⟩ := h
  exact ⟨p, Reader.moves_of_step hp, rfl⟩

end Thermometer.SequenceLock
