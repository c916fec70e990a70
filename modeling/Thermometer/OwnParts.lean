import Thermometer.InplaceString

namespace Thermometer

namespace InplaceVector

variable {T : Type} {N : Nat}

/-- The loop of `assign` over `n` elements of the vector itself, from `it` on. An
element is read when its turn comes, from the storage that the loop overwrites. -/
def assignOwnLoop (v : InplaceVector T N) (newSize : Nat) (hsize : newSize ≤ N) (it : Nat) :
    (n : Nat) → it + n ≤ N → InplaceVector T N × Option StdException
  | 0, _ => ({ v with size := newSize, size_le := hsize }, none)
  | n + 1, hread =>
      if h : newSize ≥ N then (v, some (.lengthError "inplace_vector: capacity exceeded"))
      else
        assignOwnLoop { v with storage := v.storage.set newSize (v.storage.get ⟨it, by omega⟩) }
          (newSize + 1) (by omega) (it + 1) n (by omega)

def assignOwn (v : InplaceVector T N) (i j : Nat) (hij : i ≤ j) (hj : j ≤ N) :
    InplaceVector T N × Option StdException :=
  assignOwnLoop v 0 (Nat.zero_le N) i (j - i) (by omega)

/-- As long as it does not write behind the position it reads, the loop does what
it would do on a copy made beforehand. -/
theorem assignOwnLoop_eq (v : InplaceVector T N) (newSize : Nat) (hsize : newSize ≤ N) (it n : Nat)
    (hread : it + n ≤ N) (hle : newSize ≤ it) :
    assignOwnLoop v newSize hsize it n hread =
      assignLoop v newSize hsize ((v.storage.toList.drop it).take n) := by
  induction n generalizing v newSize it with
  | zero => rfl
  | succ n ih =>
    have hlt : it < v.storage.toList.length := by
      rw [Vector.length_toList]
      omega
    have hrest : (v.storage.toList.set newSize (v.storage.get ⟨it, by omega⟩)).drop (it + 1) =
        v.storage.toList.drop (it + 1) := List.drop_set_of_lt (by omega)
    rw [List.drop_eq_getElem_cons hlt, List.take_succ_cons, assignOwnLoop, assignLoop]
    split
    next => rfl
    next hroom =>
      rw [ih _ (newSize + 1) _ (it + 1) _ (by omega), Vector.toList_set, hrest]
      rfl

theorem assignOwn_eq (v : InplaceVector T N) (i j : Nat) (hij : i ≤ j) (hj : j ≤ N) :
    v.assignOwn i j hij hj = v.assign ((v.storage.toList.drop i).take (j - i)) :=
  assignOwnLoop_eq v 0 (Nat.zero_le N) i (j - i) (by omega) (Nat.zero_le i)

theorem part_toList (v : InplaceVector T N) {i j : Nat} (hj : j ≤ v.size) :
    (v.storage.toList.drop i).take (j - i) = (v.toList.drop i).take (j - i) := by
  rw [toList, List.drop_take, List.take_take, Nat.min_eq_left (by omega)]

/-- An assignment from a part of the vector leaves that part. -/
def KeepsParts (v : InplaceVector T N) : Prop :=
  ∀ i j (hij : i ≤ j) (hj : j ≤ v.size),
    ∃ w, v.assignOwn i j hij (Nat.le_trans hj v.size_le) = (w, none) ∧
      w.toList = (v.toList.drop i).take (j - i)

theorem keepsParts (v : InplaceVector T N) : v.KeepsParts := by
  intro i j hij hj
  have hfits : ((v.toList.drop i).take (j - i)).length ≤ N := by
    have hsize := v.size_le
    rw [List.length_take]
    omega
  rw [assignOwn_eq, part_toList v hj]
  exact v.assign_of_le hfits

end InplaceVector

namespace InplaceString

open Transition Objects

variable {N : Nat}

/-- Assignment from a `string_view` of the string's own bytes from `i` to `j`. -/
def assignOwnView (s : InplaceString N) (i j : Nat) (hij : i ≤ j) (hj : j ≤ N + 1) :
    InplaceString N × Option StdException :=
  if j - i > N then (s, some (.outOfRange "string_view exceeds inplace_string capacity"))
  else
    match s.storage.assignOwn i j hij hj with
    | (storage, some e) => ({ storage }, some e)
    | (storage, none) => (updateNullTerminator { storage }, none)

def cStringFrom (s : InplaceString N) (i : Nat) : List UInt8 := viewOfCString (s.data.toList.drop i)

theorem length_cStringFrom_le (s : InplaceString N) {i : Nat} (hi : i ≤ N + 1) :
    i + (s.cStringFrom i).length ≤ N + 1 := by
  have hle := (List.takeWhile_prefix (· ≠ 0) (l := s.data.toList.drop i)).length_le
  rw [List.length_drop, Vector.length_toList] at hle
  simp only [cStringFrom, viewOfCString]
  omega

/-- Assignment from `data() + i`. The length of the C string is found before the copy. -/
def assignOwnCString (s : InplaceString N) (i : Nat) (hi : i ≤ N + 1) :
    InplaceString N × Option StdException :=
  s.assignOwnView i (i + (s.cStringFrom i).length) (Nat.le_add_right _ _)
    (s.length_cStringFrom_le hi)

theorem assignOwnView_eq (s : InplaceString N) (i j : Nat) (hij : i ≤ j) (hj : j ≤ N + 1) :
    s.assignOwnView i j hij hj = s.assignView ((s.data.toList.drop i).take (j - i)) := by
  have hlen : ((s.data.toList.drop i).take (j - i)).length = j - i := by
    rw [List.length_take, List.length_drop, Vector.length_toList]
    omega
  rw [assignOwnView, assignView, hlen, InplaceVector.assignOwn_eq]
  rfl

theorem assignOwnCString_eq (s : InplaceString N) (i : Nat) (hi : i ≤ N + 1) :
    s.assignOwnCString i hi = s.assignView (s.cStringFrom i) := by
  have hprefix : s.cStringFrom i <+: s.data.toList.drop i := List.takeWhile_prefix _
  rw [assignOwnCString, assignOwnView_eq, Nat.add_sub_cancel_left,
    ← List.prefix_iff_eq_take.mp hprefix]

inductive OwnCall where
  | other (a : Call)
  | view (i j : Nat)
  | cString (i : Nat)

def ownClass (N : Nat) : Class Make OwnCall StdException (InplaceString N) where
  make := (stringClass N).make
  call s
    | .other a => (stringClass N).call s a
    | .view i j =>
        if h : i ≤ j ∧ j ≤ s.size then
          some (s.assignOwnView i j h.1 (Nat.le_trans h.2 s.storage.size_le))
        else none
    | .cString i =>
        if h : i ≤ s.size then some (s.assignOwnCString i (Nat.le_trans h s.storage.size_le))
        else none
  swap := stdSwap

theorem ownClass_keeps : (ownClass N).Keeps Terminated where
  make := stringClass_keeps.make
  call s a r hs hr := by
    cases a with
    | other a => exact stringClass_keeps.call s a r hs hr
    | view i j =>
      obtain ⟨_, hassign⟩ := Option.dite_none_right_eq_some.mp hr
      rw [← Option.some.inj hassign, assignOwnView_eq]
      exact hs.assignView _
    | cString i =>
      obtain ⟨_, hassign⟩ := Option.dite_none_right_eq_some.mp hr
      rw [← Option.some.inj hassign, assignOwnCString_eq]
      exact hs.assignView _
  swap := stringClass_keeps.swap

theorem Terminated.cStringFrom_eq {s : InplaceString N} (hs : s.Terminated) {i : Nat}
    (hi : i ≤ s.size) : s.cStringFrom i = viewOfCString (s.text.drop i) := by
  obtain ⟨rest, hrest⟩ := hs.data_eq
  have hlen : i ≤ s.text.length := Nat.le_trans hi (Nat.le_of_eq s.storage.length_toList.symm)
  rw [cStringFrom, hrest, List.drop_append_of_le_length hlen, viewOfCString_append]

theorem assignView_holds (s : InplaceString N) {sv : List UInt8} (h : sv.length ≤ N) :
    ∃ t, s.assignView sv = (t, none) ∧ t.Holds sv := by
  obtain ⟨t, ht, htext, hterm⟩ := s.assignView_of_le h
  exact ⟨t, ht, htext ▸ hterm.holds⟩

/-- An assignment from a part of the string leaves that part, up to its first NUL if
the part is given as a C string. -/
structure KeepsParts (s : InplaceString N) : Prop where
  view : ∀ i j (hij : i ≤ j) (hj : j ≤ s.size),
    ∃ t, s.assignOwnView i j hij (Nat.le_trans hj s.storage.size_le) = (t, none) ∧
      t.Holds ((s.toString.drop i).take (j - i))
  cString : ∀ i (hi : i ≤ s.size),
    s.cStringFrom i = (s.toString.drop i).takeWhile (· ≠ 0) ∧
      ∃ t, s.assignOwnCString i (Nat.le_trans hi s.storage.size_le) = (t, none) ∧
        t.Holds (s.cStringFrom i)

theorem Terminated.keepsParts {s : InplaceString N} (hs : s.Terminated) : s.KeepsParts where
  view i j hij hj := by
    have hfits : ((s.text.drop i).take (j - i)).length ≤ N := by
      have hsize := hs.holds.size_le
      rw [List.length_take]
      omega
    have hpart : (s.data.toList.drop i).take (j - i) = (s.text.drop i).take (j - i) :=
      s.storage.part_toList hj
    rw [assignOwnView_eq, hpart, hs.holds.toString]
    exact s.assignView_holds hfits
  cString i hi := by
    have heq : s.cStringFrom i = (s.toString.drop i).takeWhile (· ≠ 0) := by
      rw [hs.cStringFrom_eq hi, hs.holds.toString, viewOfCString]
    have hfits : (s.cStringFrom i).length ≤ N := by
      have hle := (List.takeWhile_prefix (· ≠ 0) (l := s.toString.drop i)).length_le
      have hsize := hs.holds.size_le
      rw [List.length_drop, hs.holds.toString, ← hs.holds.size] at hle
      rw [heq, hs.holds.toString]
      omega
    refine ⟨heq, ?_⟩
    rw [assignOwnCString_eq]
    exact s.assignView_holds hfits

variable {X T : Type} [DecidableEq X] {M : Nat}

/-- A string can be assigned from a part of itself at any point of any run, and so can
every vector. -/
theorem keeps_own_parts {as : List (Op X Make OwnCall)} {s : State X StdException (InplaceString N)}
    (h : run (ownClass N).step State.start as = some s) {x : X} {w : InplaceString N}
    (hx : s.objects x = some w) (v : InplaceVector T M) : w.KeepsParts ∧ v.KeepsParts :=
  ⟨(ownClass_keeps.run h x w hx).keepsParts, v.keepsParts⟩

def ownParts : List (Op Nat Make OwnCall) :=
  [.construct 0 (.view [97, 98, 0, 99]), .call 0 (.view 1 4), .call 0 (.cString 2)]

theorem keeps_own_parts_twice :
    ∃ s w, run (ownClass 4).step State.start ownParts = some s ∧ s.objects 0 = some w ∧
      w.KeepsParts ∧ (InplaceVector.ofList [1, 2, 3] : InplaceVector Nat 3).KeepsParts := by
  obtain ⟨s, w, hs, hw⟩ : ∃ s w, run (ownClass 4).step State.start ownParts = some s ∧
      s.objects 0 = some w := ⟨_, _, rfl, rfl⟩
  exact ⟨s, w, hs, hw, keeps_own_parts hs hw _⟩

end InplaceString

end Thermometer
