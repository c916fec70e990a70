import Mathlib.Data.List.Basic

namespace Thermometer

/-- The exceptions of the standard library that the containers throw. -/
inductive StdException where
  | lengthError (what : String)
  | outOfRange (what : String)
  deriving DecidableEq

/-- A fixed storage of `N` elements, of which the first `size` are in use. -/
structure InplaceVector (T : Type) (N : Nat) where
  storage : Vector T N
  size : Nat
  size_le : size ≤ N
  deriving DecidableEq

namespace InplaceVector

variable {T : Type} {N : Nat}

instance [Inhabited T] : Inhabited (InplaceVector T N) :=
  ⟨{ storage := Vector.replicate N default, size := 0, size_le := Nat.zero_le N }⟩

/-- The elements from `begin()` to `end()`. -/
def toList (v : InplaceVector T N) : List T := v.storage.toList.take v.size

/-- The loop of the constructor from a list, which ends when the storage is full. -/
def fill (v : InplaceVector T N) : List T → InplaceVector T N
  | [] => v
  | value :: rest =>
      if h : v.size < N then
        fill { storage := v.storage.set v.size value, size := v.size + 1, size_le := h } rest
      else v

def ofList [Inhabited T] (il : List T) : InplaceVector T N := fill default il

def emplaceBack (v : InplaceVector T N) (value : T) : Except StdException (InplaceVector T N) :=
  if h : v.size ≥ N then .error (.lengthError "inplace_vector: capacity exceeded")
  else .ok
    { storage := v.storage.set v.size value (by omega)
      size := v.size + 1
      size_le := by omega }

def pushBack (v : InplaceVector T N) (value : T) : Except StdException (InplaceVector T N) :=
  v.emplaceBack value

/-- The loop of `assign`. The size is set only when the whole range has been copied. -/
def assignLoop (v : InplaceVector T N) (newSize : Nat) (hsize : newSize ≤ N) :
    List T → InplaceVector T N × Option StdException
  | [] => ({ v with size := newSize, size_le := hsize }, none)
  | value :: rest =>
      if h : newSize ≥ N then (v, some (.lengthError "inplace_vector: capacity exceeded"))
      else assignLoop { v with storage := v.storage.set newSize value } (newSize + 1) (by omega) rest

def assign (v : InplaceVector T N) (range : List T) : InplaceVector T N × Option StdException :=
  assignLoop v 0 (Nat.zero_le N) range

/-- The sizes are exchanged, and then the storages with all that they hold. -/
def swap (v other : InplaceVector T N) : InplaceVector T N × InplaceVector T N :=
  ({ storage := other.storage, size := other.size, size_le := other.size_le },
    { storage := v.storage, size := v.size, size_le := v.size_le })

def write (v : InplaceVector T N) (pos : Nat) (value : T) (h : pos < v.size) :
    InplaceVector T N :=
  { v with storage := v.storage.set pos value (Nat.lt_of_lt_of_le h v.size_le) }

def empty (v : InplaceVector T N) : Bool := v.size == 0

def full (v : InplaceVector T N) : Bool := v.size == N

def data (v : InplaceVector T N) (pos : Fin v.size) : T :=
  v.storage.get (pos.castLE v.size_le)

def iterate (v : InplaceVector T N) : List T := List.ofFn fun i : Fin v.size => v.data i

/-- From `rbegin()` to `rend()`: a reverse iterator reads one before where it stands. -/
def iterateReverse (v : InplaceVector T N) : List T := List.ofFn fun i : Fin v.size => v.data i.rev

def at' (v : InplaceVector T N) (pos : Nat) : Except StdException T :=
  if h : pos ≥ v.size then .error (.outOfRange "inplace_vector::at: index out of range")
  else .ok (v.data ⟨pos, by omega⟩)

def front (v : InplaceVector T N) : Except StdException T :=
  if h : v.size = 0 then .error (.outOfRange "inplace_vector::front: empty vector")
  else .ok (v.data ⟨0, by omega⟩)

def back (v : InplaceVector T N) : Except StdException T :=
  if h : v.size = 0 then .error (.outOfRange "inplace_vector::back: empty vector")
  else .ok (v.data ⟨v.size - 1, by omega⟩)

/-- `std::equal`, which compares as many elements as the first range has. -/
def equal [BEq T] : List T → List T → Bool
  | [], _ => true
  | _ :: _, [] => false
  | a :: first, b :: second => if a == b then equal first second else false

/-- `operator==`. The second range starts at the beginning of the other storage. -/
def eq [BEq T] {M : Nat} (v : InplaceVector T N) (other : InplaceVector T M) : Bool :=
  if v.size ≠ other.size then false else equal v.toList other.storage.toList

theorem toList_default [Inhabited T] : (default : InplaceVector T N).toList = [] :=
  List.take_zero

theorem default_room [Inhabited T] {n : Nat} (h : n ≤ N) :
    (default : InplaceVector T N).size + n ≤ N :=
  Nat.le_trans (Nat.le_of_eq (Nat.zero_add n)) h

theorem length_toList (v : InplaceVector T N) : v.toList.length = v.size := by
  have h := v.size_le
  simp only [toList, List.length_take, Vector.length_toList]
  omega

theorem emplaceBack_of_lt (v : InplaceVector T N) (value : T) (h : v.size < N) :
    ∃ w, v.emplaceBack value = .ok w ∧ w.size = v.size + 1 ∧ w.toList = v.toList ++ [value] := by
  refine ⟨_, dif_neg (by omega), rfl, ?_⟩
  have hlen : v.size < v.storage.toList.length := by
    rw [Vector.length_toList]
    exact h
  simp only [toList, Vector.toList_set, List.take_add_one, List.take_set_of_le (Nat.le_refl v.size),
    List.getElem?_set_self hlen, Option.toList_some]

theorem emplaceBack_of_ge (v : InplaceVector T N) (value : T) (h : N ≤ v.size) :
    v.emplaceBack value = .error (.lengthError "inplace_vector: capacity exceeded") :=
  dif_pos h

/-- What does not fit is dropped without a word. -/
theorem toList_fill (v : InplaceVector T N) (il : List T) :
    (v.fill il).toList = v.toList ++ il.take (N - v.size) := by
  induction il generalizing v with
  | nil => simp [fill]
  | cons value rest ih =>
    by_cases hlt : v.size < N
    · obtain ⟨w, hw, hsize, hlist⟩ := emplaceBack_of_lt v value hlt
      rw [emplaceBack, dif_neg (by omega)] at hw
      have hroom : N - v.size = N - w.size + 1 := by omega
      rw [fill, dif_pos hlt, Except.ok.inj hw, ih w, hlist, hroom, List.take_succ_cons,
        List.append_assoc]
      rfl
    · have hroom : N - v.size = 0 := by omega
      rw [fill, dif_neg hlt, hroom, List.take_zero, List.append_nil]

theorem toList_fill_of_le (v : InplaceVector T N) {il : List T} (h : v.size + il.length ≤ N) :
    (v.fill il).toList = v.toList ++ il := by
  rw [toList_fill, List.take_of_length_le (by omega)]

theorem foldlM_emplaceBack (v : InplaceVector T N) {l : List T} (h : v.size + l.length ≤ N) :
    l.foldlM emplaceBack v = .ok (v.fill l) := by
  induction l generalizing v with
  | nil => rfl
  | cons value rest ih =>
    rw [List.length_cons] at h
    have hlt : v.size < N := by omega
    have hstep : v.emplaceBack value = .ok _ := dif_neg (by omega)
    rw [List.foldlM_cons, hstep, fill, dif_pos hlt]
    exact ih _ (by change v.size + 1 + rest.length ≤ N; omega)

theorem toList_ofList [Inhabited T] {il : List T} (h : il.length ≤ N) :
    (ofList il : InplaceVector T N).toList = il := by
  rw [ofList, toList_fill_of_le default (default_room h), toList_default, List.nil_append]

theorem foldlM_emplaceBack_default [Inhabited T] {l : List T} (h : l.length ≤ N) :
    l.foldlM emplaceBack (default : InplaceVector T N) = .ok (ofList l) :=
  foldlM_emplaceBack default (default_room h)

theorem foldlM_emplaceBack_of_gt (v : InplaceVector T N) {l : List T} (h : N < v.size + l.length) :
    l.foldlM emplaceBack v = .error (.lengthError "inplace_vector: capacity exceeded") := by
  induction l generalizing v with
  | nil => exact absurd h (by simpa using v.size_le)
  | cons value rest ih =>
    rw [List.length_cons] at h
    rw [List.foldlM_cons]
    by_cases hfull : N ≤ v.size
    · rw [emplaceBack_of_ge v value hfull]
      rfl
    · obtain ⟨w, hw, hsize, -⟩ := emplaceBack_of_lt v value (by omega)
      rw [hw]
      exact ih w (by omega)

theorem assignLoop_of_le (v : InplaceVector T N) (newSize : Nat) (hsize : newSize ≤ N)
    {range : List T} (h : newSize + range.length ≤ N) :
    assignLoop v newSize hsize range =
      (fill { v with size := newSize, size_le := hsize } range, none) := by
  induction range generalizing v newSize with
  | nil => rfl
  | cons value rest ih =>
    rw [List.length_cons] at h
    rw [assignLoop, dif_neg (by omega), ih _ _ _ (by omega), fill,
      dif_pos (show newSize < N by omega)]

/-- A range that does not fit leaves its beginning in the storage. -/
theorem assignLoop_of_gt (v : InplaceVector T N) (newSize : Nat) (hsize : newSize ≤ N)
    {range : List T} (h : N < newSize + range.length) :
    (assignLoop v newSize hsize range).2 =
        some (.lengthError "inplace_vector: capacity exceeded") ∧
      (assignLoop v newSize hsize range).1.size = v.size ∧
      (assignLoop v newSize hsize range).1.storage.toList =
        v.storage.toList.take newSize ++ range.take (N - newSize) := by
  induction range generalizing v newSize with
  | nil => exact absurd h (by simpa using hsize)
  | cons value rest ih =>
    rw [List.length_cons] at h
    rw [assignLoop]
    split
    next hfull =>
      have hN : newSize = N := by omega
      refine ⟨rfl, rfl, ?_⟩
      rw [hN, Nat.sub_self, List.take_zero, List.append_nil, List.take_of_length_le]
      exact Nat.le_of_eq Vector.length_toList
    next hroom =>
      obtain ⟨hthrow, hkeep, hstorage⟩ :=
        ih { v with storage := v.storage.set newSize value } (newSize + 1) (by omega) (by omega)
      refine ⟨hthrow, hkeep, ?_⟩
      have hlen : newSize < v.storage.toList.length := by
        rw [Vector.length_toList]
        omega
      have hsub : N - newSize = N - (newSize + 1) + 1 := by omega
      rw [hstorage, hsub, List.take_succ_cons, Vector.toList_set, List.take_add_one,
        List.take_set_of_le (Nat.le_refl newSize), List.getElem?_set_self hlen, Option.toList_some,
        List.append_assoc]
      rfl

theorem assign_of_le (v : InplaceVector T N) {range : List T} (h : range.length ≤ N) :
    ∃ w, v.assign range = (w, none) ∧ w.toList = range := by
  refine ⟨_, assignLoop_of_le v 0 (Nat.zero_le N) (by omega), ?_⟩
  exact toList_fill_of_le _ (by simpa using h)

theorem assign_of_gt (v : InplaceVector T N) {range : List T} (h : N < range.length) :
    (v.assign range).2 = some (.lengthError "inplace_vector: capacity exceeded") ∧
      (v.assign range).1.size = v.size ∧ (v.assign range).1.toList = range.take v.size := by
  have hgt : N < 0 + range.length := by omega
  obtain ⟨hthrow, hsize, hstorage⟩ := assignLoop_of_gt v 0 (Nat.zero_le N) hgt
  refine ⟨hthrow, hsize, ?_⟩
  have hkeep : (v.assign range).1.size = v.size := hsize
  have hstore : (v.assign range).1.storage.toList = range.take N := hstorage
  rw [toList, hkeep, hstore, List.take_take, Nat.min_eq_left v.size_le]

theorem toList_write (v : InplaceVector T N) (pos : Nat) (value : T) (h : pos < v.size) :
    (v.write pos value h).toList = v.toList.set pos value := by
  simp only [toList, write, Vector.toList_set, List.take_set]

/-- The elements behind the size change places too, so each vector shows what the other
one showed. -/
theorem swap_toList (v other : InplaceVector T N) :
    Prod.map toList toList (v.swap other) = (other.toList, v.toList) := rfl

theorem toList_getElem? (v : InplaceVector T N) (pos : Fin v.size) :
    v.toList[pos.val]? = some (v.data pos) := by
  have hlt : pos.val < v.storage.toList.length := by
    rw [Vector.length_toList]
    exact Nat.lt_of_lt_of_le pos.isLt v.size_le
  rw [toList, List.getElem?_take_of_lt pos.isLt, List.getElem?_eq_getElem hlt, data,
    Vector.getElem_toList]
  rfl

theorem toList_getElem?_of_ge (v : InplaceVector T N) {pos : Nat} (h : v.size ≤ pos) :
    v.toList[pos]? = none :=
  List.getElem?_eq_none (by rw [length_toList]; exact h)

theorem iterate_eq (v : InplaceVector T N) : v.iterate = v.toList := by
  apply List.ext_getElem?
  intro i
  rw [iterate, List.getElem?_ofFn]
  split
  next h => exact (v.toList_getElem? ⟨i, h⟩).symm
  next h => exact (v.toList_getElem?_of_ge (by omega)).symm

theorem iterateReverse_eq (v : InplaceVector T N) : v.iterateReverse = v.toList.reverse := by
  apply List.ext_getElem?
  intro i
  rw [iterateReverse, List.getElem?_ofFn]
  split
  next h =>
    rw [List.getElem?_reverse (by rw [length_toList]; exact h), length_toList,
      ← v.toList_getElem? (Fin.rev ⟨i, h⟩), Fin.val_rev, Nat.add_comm i 1, Nat.sub_sub]
  next h =>
    rw [List.getElem?_eq_none]
    rw [List.length_reverse, length_toList]
    omega

theorem at'_eq (v : InplaceVector T N) (pos : Nat) :
    v.at' pos = (v.toList[pos]?).elim
      (.error (.outOfRange "inplace_vector::at: index out of range")) .ok := by
  unfold at'
  split
  next h => rw [v.toList_getElem?_of_ge h, Option.elim_none]
  next h => rw [v.toList_getElem? ⟨pos, by omega⟩, Option.elim_some]

theorem front_eq (v : InplaceVector T N) :
    v.front = (v.toList.head?).elim
      (.error (.outOfRange "inplace_vector::front: empty vector")) .ok := by
  rw [List.head?_eq_getElem?, front]
  split
  next h => rw [v.toList_getElem?_of_ge (by omega), Option.elim_none]
  next h => rw [v.toList_getElem? ⟨0, by omega⟩, Option.elim_some]

theorem back_eq (v : InplaceVector T N) :
    v.back = (v.toList.getLast?).elim
      (.error (.outOfRange "inplace_vector::back: empty vector")) .ok := by
  rw [List.getLast?_eq_getElem?, length_toList, back]
  split
  next h => rw [v.toList_getElem?_of_ge (by omega), Option.elim_none]
  next h => rw [v.toList_getElem? ⟨v.size - 1, by omega⟩, Option.elim_some]

theorem equal_take [BEq T] (first second : List T) (h : first.length ≤ second.length) :
    equal first second = (first == second.take first.length) := by
  induction first generalizing second with
  | nil => rfl
  | cons a first ih =>
    cases second with
    | nil => exact absurd h (by simp)
    | cons b second =>
      rw [List.length_cons, List.length_cons] at h
      rw [equal, ih second (by omega)]
      simp

theorem eq_iff [BEq T] {M : Nat} (v : InplaceVector T N) (other : InplaceVector T M) :
    v.eq other = (v.toList == other.toList) := by
  unfold eq
  split
  next h =>
    apply Eq.symm
    rw [Bool.eq_false_iff]
    intro heq
    apply h
    have hlen := List.length_eq_of_beq heq
    rwa [length_toList, length_toList] at hlen
  next h =>
    have hsize : v.size = other.size := not_not.mp h
    have hlen : v.toList.length ≤ other.storage.toList.length := by
      rw [length_toList, hsize, Vector.length_toList]
      exact other.size_le
    rw [equal_take _ _ hlen, length_toList, hsize]
    rfl

end InplaceVector

end Thermometer
