import Thermometer.SequenceCheck

namespace Thermometer.SequenceLock

open Thermometer.Transition

variable {ι R : Type} {V : ι → Type} [Fintype ι]

def Label.byWriter : Label ι R → Bool
  | .writer _ => true
  | .reader _ _ => false

def Label.byReader [DecidableEq R] (r : R) : Label ι R → Bool
  | .writer _ => false
  | .reader q _ => decide (q = r)

/-- What one reader does in a run. -/
def Label.access [DecidableEq R] (r : R) : Label ι R → Option (ReadAccess ι)
  | .writer _ => none
  | .reader q a => if q = r then some a else none

/-- The accesses that a call of `write` still has to make. -/
def Writer.rank : Writer V → Nat
  | .idle => 0
  | .loadSeq _ => Fintype.card ι + 3
  | .storeOdd _ _ => Fintype.card ι + 2
  | .setter _ _ rest => rest.card + 1

/-- The accesses that a call of `read` still has to make when nobody stores. -/
def Reader.rank (seq : BitVec 32) : Reader V → Nat
  | .idle => 0
  | .loadSeq _ => 2 * Fintype.card ι + 3
  | .snapshot _ seq1 _ rest =>
      if seq1 = seq then rest.card + Fintype.card ι + 2 else rest.card + 2 * Fintype.card ι + 4
  | .result _ _ rest => rest.card + 1

/-- The accesses of a call of `read`, with the call itself, when nobody stores. -/
def Reader.left (seq : BitVec 32) : Reader V → Nat
  | .idle => 2 * Fintype.card ι + 4
  | p => p.rank seq

/-- The fields that need no copying any more have a value. -/
def Reader.Filled : Reader V → Prop
  | .result _ value rest => ∀ i ∉ rest, (value i).isSome
  | _ => True

/-- The reader is in the loop of `read`, if it is in a call. -/
def Reader.Loops : Reader V → Prop
  | .idle => True
  | .loadSeq loop | .snapshot loop _ _ _ | .result loop _ _ => loop = true

variable [DecidableEq ι] [DecidableEq R]

theorem Writer.moves_rank {newData : ∀ i, V i} {m m' : Shared V} {w w' : Writer V}
    {a : WriteAccess ι} (h : w.Moves newData m a m' w') (hw : w ≠ .idle) :
    w'.rank + 1 = w.rank := by
  cases h with
  | call => exact absurd rfl hw
  | load | odd | even => simp [Writer.rank]
  | copy d seq rest i hi =>
    have hcard := Finset.card_erase_add_one hi
    simp only [Writer.rank]
    omega

omit [DecidableEq ι] in
theorem Reader.rank_le (seq : BitVec 32) (p : Reader V) :
    p.rank seq ≤ 3 * Fintype.card ι + 4 := by
  cases p with
  | idle => exact Nat.zero_le _
  | loadSeq loop =>
    simp only [Reader.rank]
    omega
  | snapshot loop seq1 temp rest =>
    have hcard := Finset.card_le_univ rest
    simp only [Reader.rank]
    split <;> omega
  | result loop value rest =>
    have hcard := Finset.card_le_univ rest
    simp only [Reader.rank]
    omega

/-- Nobody stores: the snapshot that a round of the loop takes passes the check. -/
theorem Reader.moves_rank {m : Shared V} {p p' : Reader V} {a : ReadAccess ι}
    (heven : m.seq &&& 1 = 0) (h : p.Moves m a p') (hp : p ≠ .idle) :
    p'.rank m.seq + 1 ≤ p.rank m.seq := by
  cases h with
  | call loop => exact absurd rfl hp
  | odd loop ho => exact absurd heven ho
  | even loop he =>
    simp only [Reader.rank, ↓reduceIte, Finset.card_univ]
    omega
  | copyTemp loop seq1 temp rest i hi =>
    have hcard := Finset.card_erase_add_one hi
    simp only [Reader.rank]
    split <;> omega
  | changed loop seq1 temp hne => cases loop <;> simp [Reader.rank, Reader.nullopt, hne]
  | accept loop temp => simp [Reader.rank]
  | copyResult loop value rest i hi =>
    have hcard := Finset.card_erase_add_one hi
    simp only [Reader.rank]
    omega
  | ret loop value => simp [Reader.rank]

omit [DecidableEq ι] in
theorem Writer.rank_pos {w : Writer V} (h : w ≠ .idle) : 0 < w.rank := by
  cases w with
  | idle => exact absurd rfl h
  | loadSeq | storeOdd | setter => simp [Writer.rank]

theorem Writer.enabled (newData : ∀ i, V i) (m : Shared V) (w : Writer V) :
    ∃ a p, w.step newData m a = some p := by
  cases w with
  | idle => exact ⟨.call, _, rfl⟩
  | loadSeq d => exact ⟨.loadSeq, _, rfl⟩
  | storeOdd d seq => exact ⟨.storeSeq, _, rfl⟩
  | setter d seq rest =>
    by_cases he : rest = ∅
    · exact ⟨.storeSeq, _, if_pos he⟩
    · obtain ⟨i, hi⟩ := Finset.nonempty_iff_ne_empty.mpr he
      exact ⟨.copy i, _, if_pos hi⟩

theorem Reader.enabled (m : Shared V) (p : Reader V) :
    ∃ a p', a ≠ .call false ∧ p.step m a = some p' := by
  cases p with
  | idle => exact ⟨.call true, _, by simp, rfl⟩
  | loadSeq loop =>
    by_cases hodd : m.seq &&& 1 ≠ 0
    · exact ⟨.loadSeq, _, by simp, if_pos hodd⟩
    · exact ⟨.loadSeq, _, by simp, if_neg hodd⟩
  | snapshot loop seq1 temp rest =>
    by_cases he : rest = ∅
    · by_cases hne : seq1 ≠ m.seq
      · exact ⟨.loadSeq, _, by simp, by rw [Reader.step, if_pos he, if_pos hne]⟩
      · exact ⟨.loadSeq, _, by simp, by rw [Reader.step, if_pos he, if_neg hne]⟩
    · obtain ⟨i, hi⟩ := Finset.nonempty_iff_ne_empty.mpr he
      exact ⟨.copy i, _, by simp, if_pos hi⟩
  | result loop value rest =>
    by_cases he : rest = ∅
    · exact ⟨.ret, _, by simp, if_pos he⟩
    · obtain ⟨i, hi⟩ := Finset.nonempty_iff_ne_empty.mpr he
      exact ⟨.copy i, _, by simp, if_pos hi⟩

theorem Reader.Filled.moves {m : Shared V} {p p' : Reader V} {a : ReadAccess ι} (hp : p.Filled)
    (h : p.Moves m a p') : p'.Filled := by
  cases h with
  | call | even | copyTemp | ret => trivial
  | odd loop | changed loop => cases loop <;> trivial
  | accept => exact fun i hi => absurd (Finset.mem_univ i) hi
  | copyResult loop value rest i hi =>
    intro j hj
    by_cases hji : j = i
    · subst j
      simp
    · rw [Function.update_of_ne hji]
      exact hp j (by simpa [hji] using hj)

theorem Reader.Loops.moves {m : Shared V} {p p' : Reader V} {a : ReadAccess ι} (hp : p.Loops)
    (ha : a ≠ .call false) (h : p.Moves m a p') : p'.Loops ∧ (a ≠ .ret → p' ≠ .idle) := by
  cases h with
  | call loop =>
    have hloop : loop = true := by
      by_contra hfalse
      exact ha (by simpa using hfalse)
    exact ⟨hloop, fun _ => by simp⟩
  | odd loop | changed loop =>
    obtain rfl : loop = true := hp
    exact ⟨rfl, fun _ => by simp [Reader.nullopt]⟩
  | even | copyTemp | accept | copyResult => exact ⟨hp, fun _ => by simp⟩
  | ret => exact ⟨trivial, fun hret => absurd rfl hret⟩

omit [DecidableEq ι] in
theorem Reader.left_of_ne {seq : BitVec 32} {p : Reader V} (hp : p ≠ .idle) :
    p.left seq = p.rank seq := by
  cases p with
  | idle => exact absurd rfl hp
  | loadSeq | snapshot | result => rfl

omit [DecidableEq ι] in
theorem Reader.left_le (seq : BitVec 32) (p : Reader V) :
    p.left seq ≤ 3 * Fintype.card ι + 4 := by
  by_cases hp : p = .idle
  · subst p
    simp only [Reader.left]
    omega
  · rw [Reader.left_of_ne hp]
    exact p.rank_le seq

/-- Each access inside a call brings it nearer to its return. -/
theorem Reader.Loops.left_lt {m : Shared V} {p p' : Reader V} {a : ReadAccess ι} (hp : p.Loops)
    (heven : m.seq &&& 1 = 0) (hcall : a ≠ .call false) (ha : a ≠ .ret) (h : p.Moves m a p') :
    p'.left m.seq + 1 ≤ p.left m.seq := by
  have hp' := (hp.moves hcall h).2 ha
  rw [Reader.left_of_ne hp']
  by_cases hidle : p = .idle
  · subst p
    cases h with
    | call => exact Nat.le_refl _
  · rw [Reader.left_of_ne hidle]
    exact Reader.moves_rank heven h hidle

def Writing (completed : Nat) (s : System V R) : Prop :=
  s.writer ≠ .idle ∧ s.history.completed = completed

theorem writing_step {version : Nat → ∀ i, V i} {s t : System V R} {a : Label ι R}
    {completed : Nat} (hs : Writing completed s) (h : s.step version a = some t) :
    (t.writer.rank + (if a.byWriter then 1 else 0) = s.writer.rank) ∧
      (Writing completed t ∨ (t.writer = .idle ∧ t.history.completed = completed + 1)) := by
  obtain ⟨hbusy, hco⟩ := hs
  cases a with
  | reader r a =>
    obtain ⟨p, -, rfl⟩ := System.step_reader h
    exact ⟨rfl, .inl ⟨hbusy, (noteRead_counts _ _ _ _ _).2.trans hco⟩⟩
  | writer a =>
    obtain ⟨m, w, hm, rfl⟩ := System.step_writer h
    refine ⟨Writer.moves_rank hm hbusy, ?_⟩
    generalize s.writer = w₀ at hm hbusy ⊢
    cases hm with
    | call => exact absurd rfl hbusy
    | load | odd | copy => exact .inl ⟨by simp, hco⟩
    | even d seq => exact .inr ⟨rfl, congrArg (· + 1) hco⟩

/-- A call of `write` is wait-free: the writer can always take its next access,
and the call is complete after three accesses and one for each field, whatever
the readers do in between. -/
theorem write_waitFree (version : Nat → ∀ i, V i) {s t : System V R} {d : ∀ i, V i}
    {as : List (Label ι R)} (hs : s.writer = .loadSeq d)
    (h : run (System.step version) s as = some t) :
    (∃ a u, t.step version (.writer a) = some u) ∧
    (Fintype.card ι + 3 ≤ as.countP Label.byWriter →
      ∃ bs cs u, as = bs ++ cs ∧ bs.countP Label.byWriter ≤ Fintype.card ι + 3 ∧
        run (System.step version) s bs = some u ∧ u.writer = .idle ∧
        u.history.completed = s.history.completed + 1) := by
  constructor
  · obtain ⟨a, p, hp⟩ := Writer.enabled (version (t.history.started + 1)) t.shared t.writer
    exact ⟨a, _, by rw [System.step, hp]; rfl⟩
  · intro hown
    have hrank : s.writer.rank = Fintype.card ι + 3 := by rw [hs]; rfl
    obtain ⟨bs, a, cs, u, v, rfl, hlt, hbs, hu, hv, hdone⟩ :=
      ends_of_rank (Writing s.history.completed) (fun s => s.writer.rank) Label.byWriter
        (fun _ => True) (fun s hs => Writer.rank_pos hs.1)
        (fun s a t _ hs ht _ => (writing_step hs ht).1.le) (fun _ _ => trivial)
        ⟨by simp [hs], rfl⟩ h (hrank ▸ hown)
    refine ⟨bs ++ [a], cs, v, by simp, ?_, run_append hbs (run_cons.mpr ⟨v, hv, rfl⟩), ?_⟩
    · rw [List.countP_append, List.countP_singleton]
      split <;> omega
    · exact (writing_step hu hv).2.resolve_left hdone

def watchedWrite : List (Label Bool Unit) :=
  [.reader () (.call true), .writer .loadSeq, .writer .storeSeq, .reader () .loadSeq,
    .writer (.copy true), .reader () .loadSeq, .writer (.copy false), .writer .storeSeq]

theorem write_waitFree_watchedWrite :
    ∃ s t : System (fun _ : Bool => Nat) Unit,
      run (System.step fun k _ => k) (System.init fun k _ => k) [.writer .call] = some s ∧
      run (System.step fun k _ => k) s watchedWrite = some t ∧
      (∃ a u, t.step (fun k _ => k) (.writer a) = some u) ∧
      ∃ bs cs u, watchedWrite = bs ++ cs ∧ bs.countP Label.byWriter ≤ 5 ∧
        run (System.step fun k _ => k) s bs = some u ∧ u.writer = .idle ∧
        u.history.completed = 1 := by
  obtain ⟨s, t, hs, hcalled, hco, ht⟩ : ∃ s t : System (fun _ : Bool => Nat) Unit,
      run (System.step fun k _ => k) (System.init fun k _ => k) [.writer .call] = some s ∧
      s.writer = .loadSeq (fun _ => 1) ∧ s.history.completed = 0 ∧
      run (System.step fun k _ => k) s watchedWrite = some t := ⟨_, _, rfl, rfl, rfl, rfl⟩
  obtain ⟨henabled, hends⟩ := write_waitFree _ hcalled ht
  obtain ⟨bs, cs, u, hsplit, hcount, hbs, hidle, hdone⟩ := hends (by decide)
  exact ⟨s, t, hs, ht, henabled, bs, cs, u, hsplit, hcount, hbs, hidle, by rw [hdone, hco]⟩

/-- Inside the loop of `read`, with every field of the returned copy so far as it
is stored. -/
def Reader.Trying (data : ∀ i, V i) : Reader V → Prop
  | .loadSeq true | .snapshot true _ _ _ => True
  | .result true value rest => ∀ i ∉ rest, value i = some (data i)
  | _ => False

structure Reading (m : Shared V) (r : R) (answers : List (Returned V)) (s : System V R) : Prop where
  shared : s.shared = m
  trying : (s.readers r).Trying m.data
  returned : s.history.returned r = answers

omit [DecidableEq ι] [DecidableEq R] in
theorem Reading.rank_pos {m : Shared V} {r : R} {answers : List (Returned V)} {s : System V R}
    (hs : Reading m r answers s) : 0 < (s.readers r).rank m.seq := by
  have htrying := hs.trying
  cases hp : s.readers r with
  | idle => simp [hp, Reader.Trying] at htrying
  | loadSeq | result => simp [Reader.rank]
  | snapshot loop seq1 temp rest =>
    simp only [Reader.rank]
    split <;> omega

theorem Reading.step_other {version : Nat → ∀ i, V i} {m : Shared V} {r q : R}
    {answers : List (Returned V)} {s t : System V R} {a : ReadAccess ι}
    (hs : Reading m r answers s) (hqr : q ≠ r) (h : s.step version (.reader q a) = some t) :
    Reading m r answers t ∧ t.readers r = s.readers r := by
  obtain ⟨p, -, rfl⟩ := System.step_reader h
  obtain ⟨-, -, -, -, hret⟩ := noteRead_other s.history s.shared hqr.symm (s.readers q) a
  have hsame : Function.update s.readers q p r = s.readers r := Function.update_of_ne hqr.symm _ _
  exact ⟨⟨hs.shared, by simpa only [hsame] using hs.trying, hret.trans hs.returned⟩, hsame⟩

/-- Nobody stores: the returned copy is what is stored. -/
theorem Reading.step_self {version : Nat → ∀ i, V i} {m : Shared V} {r : R}
    {answers : List (Returned V)} {s t : System V R} {a : ReadAccess ι}
    (hs : Reading m r answers s) (heven : m.seq &&& 1 = 0)
    (h : s.step version (.reader r a) = some t) :
    (t.readers r).rank m.seq + 1 ≤ (s.readers r).rank m.seq ∧
      (Reading m r answers t ∨ (t.readers r = .idle ∧
        ∃ begun, t.history.returned r = answers ++ [⟨begun, whole m.data⟩])) := by
  obtain ⟨hshared, htrying, hret⟩ := hs
  obtain ⟨p, hp, rfl⟩ := System.step_reader h
  subst m
  simp only [Function.update_self]
  have hbusy : s.readers r ≠ .idle := by
    intro hidle
    simp [hidle, Reader.Trying] at htrying
  refine ⟨Reader.moves_rank heven hp hbusy, ?_⟩
  generalize s.readers r = p₀ at hp htrying ⊢
  cases hp with
  | call loop => exact htrying.elim
  | odd loop ho => exact absurd heven ho
  | even loop he =>
    refine .inl ⟨rfl, ?_, hret⟩
    cases loop
    · exact htrying.elim
    · simp [Reader.Trying]
  | copyTemp loop seq1 temp rest i hi =>
    refine .inl ⟨rfl, ?_, hret⟩
    cases loop
    · exact htrying.elim
    · simp [Reader.Trying]
  | changed loop seq1 temp hne =>
    cases loop with
    | false => exact htrying.elim
    | true =>
      refine .inl ⟨rfl, ?_, ?_⟩
      · simp [Reader.nullopt, Reader.Trying]
      · simpa [History.noteRead, hne] using hret
  | accept loop temp =>
    cases loop with
    | false => exact htrying.elim
    | true =>
      refine .inl ⟨rfl, by simp [Reader.Trying], ?_⟩
      simpa [History.noteRead] using hret
  | copyResult loop value rest i hi =>
    cases loop with
    | false => exact htrying.elim
    | true =>
      refine .inl ⟨rfl, ?_, hret⟩
      simp only [Function.update_self]
      intro j hj
      by_cases hji : j = i
      · subst j
        exact Function.update_self ..
      · rw [Function.update_of_ne hji]
        apply htrying j
        simpa [hji] using hj
  | ret loop value =>
    cases loop with
    | false => exact htrying.elim
    | true =>
      have hvalue : value = whole s.shared.data := funext fun i => htrying i (by simp)
      refine .inr ⟨rfl, s.history.begun r, ?_⟩
      simp [History.noteRead, hret, hvalue]

/-- A call of `read` is obstruction-free: the reader can always take its next access,
and from whatever point of its loop before the returned copy it returns what is
stored after so many accesses of its own, if no access of the writer comes between
them. -/
theorem read_obstructionFree (version : Nat → ∀ i, V i) {s t : System V R} {r : R}
    {as : List (Label ι R)} (heven : s.shared.seq &&& 1 = 0)
    (hs : s.readers r = .loadSeq true ∨
      ∃ seq1 temp rest, s.readers r = .snapshot true seq1 temp rest)
    (halone : ∀ a ∈ as, a.byWriter = false) (h : run (System.step version) s as = some t) :
    (∃ a u, t.step version (.reader r a) = some u) ∧
    (3 * Fintype.card ι + 4 ≤ as.countP (Label.byReader r) →
      ∃ bs cs u begun, as = bs ++ cs ∧ bs.countP (Label.byReader r) ≤ 3 * Fintype.card ι + 4 ∧
        run (System.step version) s bs = some u ∧ u.readers r = .idle ∧
        u.history.returned r = s.history.returned r ++ [⟨begun, whole s.shared.data⟩]) := by
  constructor
  · obtain ⟨a, p, -, hp⟩ := Reader.enabled t.shared (t.readers r)
    exact ⟨a, _, by rw [System.step, hp]; rfl⟩
  · intro hown
    have htrying : (s.readers r).Trying s.shared.data := by
      obtain hp | ⟨seq1, temp, rest, hp⟩ := hs <;> simp [hp, Reader.Trying]
    have hrank := (s.readers r).rank_le s.shared.seq
    obtain ⟨bs, a, cs, u, v, rfl, hlt, hbs, hu, hv, hdone⟩ :=
      ends_of_rank (Reading s.shared r (s.history.returned r))
        (fun u => (u.readers r).rank s.shared.seq) (Label.byReader r)
        (fun a => a.byWriter = false) (fun u hu => hu.rank_pos) (fun u a v ha hu hv _ => by
          cases a with
          | writer a => cases ha
          | reader q a =>
            by_cases hqr : q = r
            · subst q
              simpa [Label.byReader] using (hu.step_self heven hv).1
            · simp [Label.byReader, hqr, (hu.step_other hqr hv).2])
        halone ⟨rfl, htrying, rfl⟩ h (hrank.trans hown)
    have hfinal : v.readers r = .idle ∧ ∃ begun,
        v.history.returned r = s.history.returned r ++ [⟨begun, whole s.shared.data⟩] := by
      cases a with
      | writer a => cases halone (.writer a) (by simp)
      | reader q a =>
        by_cases hqr : q = r
        · subst q
          exact (hu.step_self heven hv).2.resolve_left hdone
        · exact absurd (hu.step_other hqr hv).1 hdone
    obtain ⟨hidle, begun, hret⟩ := hfinal
    refine ⟨bs ++ [a], cs, v, begun, by simp, ?_, run_append hbs (run_singleton hv), hidle, hret⟩
    rw [List.countP_append, List.countP_singleton]
    split <;> omega

def overtakenRead : List (Label Bool Unit) :=
  [.reader () (.call true), .reader () .loadSeq, .reader () (.copy false), .writer .call,
    .writer .loadSeq, .writer .storeSeq, .writer (.copy true), .writer (.copy false),
    .writer .storeSeq]

def undisturbedRead : List (Label Bool Unit) :=
  [.reader () (.copy true), .reader () .loadSeq, .reader () .loadSeq, .reader () (.copy true),
    .reader () (.copy false), .reader () .loadSeq, .reader () (.copy false),
    .reader () (.copy true), .reader () .ret, .reader () (.call true)]

theorem read_obstructionFree_overtakenRead :
    ∃ s t : System (fun _ : Bool => Nat) Unit,
      run (System.step fun k _ => k) (System.init fun k _ => k) overtakenRead = some s ∧
      run (System.step fun k _ => k) s undisturbedRead = some t ∧
      (∃ a u, t.step (fun k _ => k) (.reader () a) = some u) ∧
      ∃ bs cs u begun, undisturbedRead = bs ++ cs ∧ bs.countP (Label.byReader ()) ≤ 10 ∧
        run (System.step fun k _ => k) s bs = some u ∧ u.readers () = .idle ∧
        u.history.returned () = s.history.returned () ++ [⟨begun, whole s.shared.data⟩] := by
  obtain ⟨s, t, temp, rest, hs, heven, hp, ht⟩ :
      ∃ (s t : System (fun _ : Bool => Nat) Unit) (temp : _) (rest : _),
        run (System.step fun k _ => k) (System.init fun k _ => k) overtakenRead = some s ∧
        s.shared.seq &&& 1 = 0 ∧ s.readers () = .snapshot true 0 temp rest ∧
        run (System.step fun k _ => k) s undisturbedRead = some t :=
    ⟨_, _, _, _, rfl, rfl, rfl, rfl⟩
  have halone : ∀ a ∈ undisturbedRead, a.byWriter = false := by
    simp [undisturbedRead, Label.byWriter]
  obtain ⟨henabled, hends⟩ := read_obstructionFree _ heven (.inr ⟨0, temp, rest, hp⟩) halone ht
  exact ⟨s, t, hs, ht, henabled, hends (by decide)⟩

theorem run_setter (version : Nat → ∀ i, V i) {s : System V R} {d : ∀ i, V i} {seq : BitVec 32}
    {rest : Finset ι} (hs : s.writer = .setter d seq rest) :
    ∃ as data, (∀ a ∈ as, Label.byWriter a = true) ∧ run (System.step version) s as =
      some { s with shared := { s.shared with data := data }, writer := .setter d seq ∅ } := by
  induction rest using Finset.induction_on generalizing s with
  | empty => exact ⟨[], s.shared.data, by simp, by rw [← hs]; rfl⟩
  | insert i rest hi ih =>
    obtain ⟨m, w, rs, hist⟩ := s
    subst hs
    obtain ⟨as, data, has, hrun⟩ := @ih
      ⟨{ m with data := Function.update m.data i (d i) }, .setter d seq rest, rs, hist⟩ rfl
    refine ⟨.writer (.copy i) :: as, data, by simpa using ⟨rfl, has⟩, run_cons.mpr ⟨_, ?_, hrun⟩⟩
    simp [System.step, Writer.step, History.noteWrite, Finset.erase_insert hi]

omit [Fintype ι] [DecidableEq ι] in
theorem access_of_byWriter {as : List (Label ι R)} (has : ∀ a ∈ as, a.byWriter = true) (r : R) :
    as.filterMap (Label.access r) = [] := by
  refine List.filterMap_eq_nil_iff.mpr fun a ha => ?_
  cases a with
  | writer a => rfl
  | reader q a => cases has _ ha

/-- A whole call of `write`, between whose stores of `_seq` the loop of `read` loads it
once. -/
theorem starvingRound (version : Nat → ∀ i, V i) {s : System V R} {r : R}
    (hinv : WriterInv version s) (hidle : s.writer = .idle) (hloop : s.readers r = .loadSeq true) :
    ∃ as t, run (System.step version) s as = some t ∧
      as.filterMap (Label.access r) = [.loadSeq] ∧ t.writer = .idle ∧
      t.history.completed = s.history.completed + 1 ∧ t.readers r = .loadSeq true ∧
      t.history.returned r = s.history.returned r := by
  have hodd : ¬ (s.shared.seq + 1#32) &&& 1#32 = 0#32 := by
    have hseq := hinv.seq
    simp only [System.touched, Writer.storing, hidle] at hseq
    rw [hseq, show BitVec.ofNat 32 _ + 1#32 = BitVec.ofNat 32 _ from (BitVec.ofNat_add _ 1).symm]
    exact fun h => by have := (ofNat_and_one _).mp h; omega
  obtain ⟨m, w, rs, hist⟩ := s
  subst hidle
  dsimp only at hloop hodd
  obtain ⟨u, hread, hu, hco, hloop', hret⟩ : ∃ u, System.step version
      ⟨{ m with seq := m.seq + 1 }, .setter (version (hist.started + 1)) m.seq Finset.univ, rs,
        (hist.noteWrite .idle .call).noteStore⟩ (.reader r .loadSeq) = some u ∧
      u.writer = .setter (version (hist.started + 1)) m.seq Finset.univ ∧
      u.history.completed = hist.completed ∧ u.readers r = .loadSeq true ∧
      u.history.returned r = hist.returned r := by
    simp [System.step, hloop, Reader.step, hodd, Reader.nullopt, History.noteRead,
      History.noteStore, History.noteWrite]
  obtain ⟨as, data, has, hcopies⟩ := run_setter version hu
  obtain ⟨t, heven, hidle, hco', hreaders, hret'⟩ : ∃ t, System.step version
      { u with
        shared := { u.shared with data := data }
        writer := .setter (version (hist.started + 1)) m.seq ∅ } (.writer .storeSeq) = some t ∧
      t.writer = .idle ∧ t.history.completed = u.history.completed + 1 ∧
      t.readers = u.readers ∧ t.history.returned = u.history.returned := by
    simp [System.step, Writer.step, History.noteWrite, History.noteStore]
  have hfirst : run (System.step version) ⟨m, .idle, rs, hist⟩
      [.writer .call, .writer .loadSeq, .writer .storeSeq, .reader r .loadSeq] = some u :=
    run_cons.mpr ⟨_, rfl, run_cons.mpr ⟨_, rfl, run_cons.mpr ⟨_, rfl, run_singleton hread⟩⟩⟩
  refine ⟨_, t, run_append hfirst (run_append hcopies (run_singleton heven)), ?_, hidle,
    by rw [hco', hco], by rw [hreaders, hloop'], by rw [hret', hret]⟩
  rw [List.filterMap_append, List.filterMap_append, access_of_byWriter has]
  simp [List.filterMap_cons, Label.access]

/-- The loop of `read` is not wait-free: next to a writer that completes one write after
the other it may load `_seq` any number of times, do nothing else, and still not
return. -/
theorem read_starves (version : Nat → ∀ i, V i) (r : R) (loads : Nat) :
    ∃ as s, run (System.step version) (System.init version : System V R) as = some s ∧
      as.filterMap (Label.access r) = .call true :: List.replicate loads .loadSeq ∧
      s.writer = .idle ∧ s.history.completed = loads ∧ s.readers r = .loadSeq true ∧
      s.history.returned r = [] := by
  induction loads with
  | zero =>
    refine ⟨[.reader r (.call true)], _, rfl, by simp [Label.access], rfl, rfl, ?_, rfl⟩
    exact Function.update_self ..
  | succ loads ih =>
    obtain ⟨as, s, has, haccess, hidle, hco, hloop, hret⟩ := ih
    obtain ⟨bs, t, hbs, hone, hidle', hco', hloop', hret'⟩ :=
      starvingRound version (reachable_inv has).1 hidle hloop
    refine ⟨as ++ bs, t, run_append has hbs, ?_, hidle', by rw [hco', hco], hloop',
      hret'.trans hret⟩
    rw [List.filterMap_append, haccess, hone, List.replicate_succ', List.cons_append]

end Thermometer.SequenceLock
