import Thermometer.InplaceVector
import Thermometer.Objects

namespace Thermometer.InplaceVector

open Transition Objects

variable {T : Type} {N : Nat}

inductive Make (T : Type) where
  | default
  | list (il : List T)

/-- The member functions that change a vector, and a write through a reference or an iterator. -/
inductive Call (T : Type) where
  | emplaceBack (value : T)
  | pushBack (value : T)
  | assign (range : List T)
  | write (pos : Nat) (value : T)

def outcome (v : InplaceVector T N) :
    Except StdException (InplaceVector T N) → InplaceVector T N × Option StdException
  | .ok w => (w, none)
  | .error e => (v, some e)

def vectorClass (T : Type) [Inhabited T] (N : Nat) :
    Class (Make T) (Call T) StdException (InplaceVector T N) where
  make
    | .default => .ok default
    | .list il => .ok (ofList il)
  call v
    | .emplaceBack value => some (v.outcome (v.emplaceBack value))
    | .pushBack value => some (v.outcome (v.pushBack value))
    | .assign range => some (v.assign range)
    | .write pos value => if h : pos < v.size then some (v.write pos value h, none) else none
  swap := InplaceVector.swap

def append (N : Nat) (l : List T) (value : T) : List T × Option StdException :=
  if l.length < N then (l ++ [value], none)
  else (l, some (.lengthError "inplace_vector: capacity exceeded"))

/-- What a vector is for: a list that holds at most `N` elements. -/
def listClass (T : Type) (N : Nat) : Class (Make T) (Call T) StdException (List T) where
  make
    | .default => .ok []
    | .list il => .ok il
  call l
    | .emplaceBack value => some (append N l value)
    | .pushBack value => some (append N l value)
    | .assign range => some (range, none)
    | .write pos value => if pos < l.length then some (l.set pos value, none) else none
  swap := stdSwap

def Make.Fits (N : Nat) : Make T → Prop
  | .list il => il.length ≤ N
  | .default => True

def Call.Fits (N : Nat) : Call T → Prop
  | .assign range => range.length ≤ N
  | _ => True

theorem append_toList (v : InplaceVector T N) (value : T) :
    append N v.toList value = Prod.map toList id (v.outcome (v.emplaceBack value)) := by
  rw [append, length_toList]
  split
  next h =>
    obtain ⟨w, hw, -, hlist⟩ := emplaceBack_of_lt v value h
    rw [hw, ← hlist]
    rfl
  next h =>
    rw [emplaceBack_of_ge v value (by omega)]
    rfl

theorem vectorClass_refines [Inhabited T] :
    (vectorClass T N).Refines (listClass T N) toList (Make.Fits N) (Call.Fits N) where
  make c hc := by
    cases c with
    | default => exact congrArg Except.ok toList_default.symm
    | list il => exact congrArg Except.ok (toList_ofList hc).symm
  call v a ha := by
    cases a with
    | emplaceBack value => exact congrArg some (append_toList v value)
    | pushBack value => exact congrArg some (append_toList v value)
    | assign range =>
      obtain ⟨w, hassign, hlist⟩ := v.assign_of_le ha
      have hcall : (v.assign range) = (w, none) := hassign
      simp only [vectorClass, listClass, hcall, Option.map_some, Prod.map, id, hlist]
    | write pos value =>
      simp only [vectorClass, listClass, length_toList]
      by_cases h : pos < v.size
      · rw [if_pos h, dif_pos h, ← toList_write v pos value h]
        rfl
      · rw [if_neg h, dif_neg h]
        rfl
  swap v w := (swap_toList v w).symm

/-- Everything that can be asked of a vector, answered by its list. -/
structure Shows [BEq T] (v : InplaceVector T N) (l : List T) : Prop where
  size_le : v.size ≤ N
  size : v.size = l.length
  empty : v.empty = l.isEmpty
  full : v.full = (l.length == N)
  iterate : v.iterate = l
  iterateReverse : v.iterateReverse = l.reverse
  data : ∀ pos : Fin v.size, l[pos.val]? = some (v.data pos)
  at' : ∀ pos, v.at' pos = (l[pos]?).elim
    (.error (.outOfRange "inplace_vector::at: index out of range")) .ok
  front : v.front = (l.head?).elim
    (.error (.outOfRange "inplace_vector::front: empty vector")) .ok
  back : v.back = (l.getLast?).elim
    (.error (.outOfRange "inplace_vector::back: empty vector")) .ok
  eq : ∀ {M : Nat} (other : InplaceVector T M), v.eq other = (l == other.toList)
  emplaceBack : ∀ value, v.emplaceBack value =
    .error (.lengthError "inplace_vector: capacity exceeded") ↔ l.length = N

theorem shows_toList [BEq T] (v : InplaceVector T N) : v.Shows v.toList where
  size_le := v.size_le
  size := v.length_toList.symm
  empty := by
    rw [InplaceVector.empty, ← length_toList]
    cases v.toList <;> rfl
  full := by rw [InplaceVector.full, length_toList]
  iterate := v.iterate_eq
  iterateReverse := v.iterateReverse_eq
  data := v.toList_getElem?
  at' := v.at'_eq
  front := v.front_eq
  back := v.back_eq
  eq := v.eq_iff
  emplaceBack value := by
    rw [length_toList]
    by_cases h : v.size < N
    · obtain ⟨w, hw, -⟩ := emplaceBack_of_lt v value h
      rw [hw]
      exact iff_of_false (by simp) (by omega)
    · exact iff_of_true (emplaceBack_of_ge v value (by omega)) (by have := v.size_le; omega)

variable {X : Type} [DecidableEq X]

/-- In every run the vectors are lists of at most `N` elements, whatever their
storage holds behind the elements in use. -/
theorem refines_list [Inhabited T] [BEq T] {as : List (Op X (Make T) (Call T))}
    (hwithin : ∀ a ∈ as, a.Within (Make.Fits N) (Call.Fits N))
    {s : State X StdException (InplaceVector T N)}
    (h : run (vectorClass T N).step State.start as = some s) :
    ∃ lists, run (listClass T N).step State.start as = some lists ∧ State.Rel Shows s lists :=
  vectorClass_refines.run_rel hwithin h fun _ v _ => v.shows_toList

def shrinks : List (Op Nat (Make Nat) (Call Nat)) :=
  [.construct 0 (.list [1, 2]), .call 0 (.pushBack 3), .call 0 (.assign [7]), .copy 1 0,
    .call 1 (.write 0 9), .swap 0 1]

theorem refines_list_shrinks :
    ∃ s, run (vectorClass Nat 2).step State.start shrinks = some s ∧
      ∃ lists, run (listClass Nat 2).step State.start shrinks = some lists ∧
        State.Rel Shows s lists := by
  obtain ⟨s, hs⟩ : ∃ s, run (vectorClass Nat 2).step State.start shrinks = some s := ⟨_, rfl⟩
  have hwithin : ∀ a ∈ shrinks, a.Within (Make.Fits 2) (Call.Fits 2) := by
    simp [shrinks, Op.Within, Make.Fits, Call.Fits]
  exact ⟨s, hs, refines_list hwithin hs⟩

example : (run (listClass Nat 2).step State.start shrinks).map (State.objects · 0) =
    some (some [9]) := rfl

end Thermometer.InplaceVector
