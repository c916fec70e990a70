import Thermometer.InplaceVector
import Thermometer.Objects

namespace Thermometer

/-- A text of at most `N` bytes in a storage with room for a NUL behind it. -/
structure InplaceString (N : Nat) where
  storage : InplaceVector UInt8 (N + 1)

namespace InplaceString

open Transition Objects

variable {N : Nat}

/-- The byte behind the last one becomes NUL, if the storage goes that far. -/
def updateNullTerminator (s : InplaceString N) : InplaceString N :=
  if h : s.storage.size < N + 1 then
    { storage := { s.storage with storage := s.storage.storage.set s.storage.size 0 } }
  else s

instance : Inhabited (InplaceString N) := ⟨updateNullTerminator { storage := default }⟩

/-- Assignment from a `string_view`, with the exception that left it. -/
def assignView (s : InplaceString N) (sv : List UInt8) : InplaceString N × Option StdException :=
  if sv.length > N then (s, some (.outOfRange "string_view exceeds inplace_string capacity"))
  else
    match s.storage.assign sv with
    | (storage, some e) => ({ storage }, some e)
    | (storage, none) => (updateNullTerminator { storage }, none)

def assignString (s : InplaceString N) (str : List UInt8) : InplaceString N × Option StdException :=
  s.assignView str

/-- The `string_view` of a C string ends before the first NUL. -/
def viewOfCString (bytes : List UInt8) : List UInt8 := bytes.takeWhile (· ≠ 0)

def assignCString (s : InplaceString N) (str : List UInt8) :
    InplaceString N × Option StdException :=
  s.assignView (viewOfCString str)

def construct (sv : List UInt8) : Except StdException (InplaceString N) :=
  made (assignView default sv)

def size (s : InplaceString N) : Nat := s.storage.size

def data (s : InplaceString N) : Vector UInt8 (N + 1) := s.storage.storage

def cString (s : InplaceString N) : List UInt8 := viewOfCString s.data.toList

def toString (s : InplaceString N) : List UInt8 := s.storage.iterate

def eq {M : Nat} (s : InplaceString N) (other : InplaceString M) : Bool :=
  if s.storage.size ≠ other.storage.size then false
  else InplaceVector.equal s.storage.iterate other.data.toList

def write (s : InplaceString N) (pos : Nat) (c : UInt8) (h : pos < s.size) : InplaceString N :=
  { storage := s.storage.write pos c h }

inductive Make where
  | default
  | view (sv : List UInt8)
  | cString (str : List UInt8)

/-- The assignments, apart from copy and move, and a write through an iterator. -/
inductive Call where
  | view (sv : List UInt8)
  | string (str : List UInt8)
  | cString (str : List UInt8)
  | write (pos : Nat) (c : UInt8)

def stringClass (N : Nat) : Class Make Call StdException (InplaceString N) where
  make
    | .default => .ok default
    | .view sv => construct sv
    | .cString str => construct (viewOfCString str)
  call s
    | .view sv => some (s.assignView sv)
    | .string str => some (s.assignString str)
    | .cString str => some (s.assignCString str)
    | .write pos c => if h : pos < s.size then some (s.write pos c h, none) else none
  swap := stdSwap

/-- A text replaces the old one if it has at most `N` bytes. -/
def accept (N : Nat) (old new : List UInt8) : List UInt8 × Option StdException :=
  if N < new.length then (old, some (.outOfRange "string_view exceeds inplace_string capacity"))
  else (new, none)

/-- What a string is for: the last text that it accepted. -/
def textClass (N : Nat) : Class Make Call StdException (List UInt8) where
  make
    | .default => .ok []
    | .view sv => made (accept N [] sv)
    | .cString str => made (accept N [] (viewOfCString str))
  call text
    | .view sv => some (accept N text sv)
    | .string str => some (accept N text str)
    | .cString str => some (accept N text (viewOfCString str))
    | .write pos c => if pos < text.length then some (text.set pos c, none) else none
  swap := stdSwap

def text (s : InplaceString N) : List UInt8 := s.storage.toList

def Terminated (s : InplaceString N) : Prop := s.data.toList[s.size]? = some 0

theorem text_updateNullTerminator (s : InplaceString N) : s.updateNullTerminator.text = s.text := by
  unfold updateNullTerminator
  split
  · simp only [text, InplaceVector.toList, Vector.toList_set]
    exact List.take_set_of_le (Nat.le_refl s.storage.size)
  · rfl

theorem terminated_updateNullTerminator {s : InplaceString N} (h : s.size ≤ N) :
    s.updateNullTerminator.Terminated := by
  have hroom : s.storage.size < N + 1 := Nat.lt_succ_of_le h
  have hlen : s.storage.size < s.storage.storage.toList.length := by
    rw [Vector.length_toList]
    exact hroom
  rw [updateNullTerminator, dif_pos hroom]
  simp only [Terminated, data, size, Vector.toList_set]
  exact List.getElem?_set_self hlen

/-- The capacity of the storage is never exceeded, so the only exception is the
one of the string itself. -/
theorem assignView_of_gt (s : InplaceString N) {sv : List UInt8} (h : N < sv.length) :
    s.assignView sv =
      (s, some (.outOfRange "string_view exceeds inplace_string capacity")) :=
  if_pos h

theorem assignView_of_le (s : InplaceString N) {sv : List UInt8} (h : sv.length ≤ N) :
    ∃ t, s.assignView sv = (t, none) ∧ t.text = sv ∧ t.Terminated := by
  obtain ⟨storage, hassign, hlist⟩ := s.storage.assign_of_le (Nat.le_succ_of_le h)
  refine ⟨updateNullTerminator { storage }, ?_, ?_, ?_⟩
  · rw [assignView, if_neg (by omega), hassign]
  · rw [text_updateNullTerminator]
    exact hlist
  · apply terminated_updateNullTerminator
    change storage.size ≤ N
    rwa [← InplaceVector.length_toList, hlist]

theorem assignView_accept (s : InplaceString N) (sv : List UInt8) :
    accept N s.text sv = Prod.map text id (s.assignView sv) := by
  by_cases h : N < sv.length
  · rw [assignView_of_gt s h, accept, if_pos h]
    rfl
  · obtain ⟨t, ht, htext, -⟩ := assignView_of_le s (Nat.le_of_not_lt h)
    rw [ht, accept, if_neg h, Prod.map_apply, htext, id]

theorem Terminated.assignView {s : InplaceString N} (hs : s.Terminated) (sv : List UInt8) :
    (s.assignView sv).1.Terminated := by
  by_cases h : N < sv.length
  · rw [assignView_of_gt s h]
    exact hs
  · obtain ⟨t, ht, -, hterm⟩ := assignView_of_le s (Nat.le_of_not_lt h)
    rw [ht]
    exact hterm

theorem Terminated.write {s : InplaceString N} (hs : s.Terminated) {pos : Nat} (c : UInt8)
    (h : pos < s.size) : (s.write pos c h).Terminated := by
  have hne : pos ≠ s.storage.size := Nat.ne_of_lt h
  simp only [Terminated, InplaceString.write, data, size, InplaceVector.write, Vector.toList_set,
    List.getElem?_set_ne hne]
  exact hs

theorem terminated_default : (default : InplaceString N).Terminated :=
  terminated_updateNullTerminator (Nat.zero_le N)

theorem stringClass_keeps : (stringClass N).Keeps Terminated where
  make c s hs := by
    cases c with
    | default => exact Except.ok.inj hs ▸ terminated_default
    | view sv => exact made_eq_ok hs ▸ terminated_default.assignView sv
    | cString str => exact made_eq_ok hs ▸ terminated_default.assignView (viewOfCString str)
  call s a r hs hr := by
    cases a with
    | view sv => exact Option.some.inj hr ▸ hs.assignView sv
    | string str => exact Option.some.inj hr ▸ hs.assignView str
    | cString str => exact Option.some.inj hr ▸ hs.assignView (viewOfCString str)
    | write pos c =>
      obtain ⟨hpos, hwrite⟩ := Option.dite_none_right_eq_some.mp hr
      exact Option.some.inj hwrite ▸ hs.write c hpos
  swap _ _ hs ht := ⟨ht, hs⟩

theorem construct_accept (sv : List UInt8) :
    made (accept N [] sv) = (construct sv : Except StdException (InplaceString N)).map text := by
  have htext : (default : InplaceString N).text = [] :=
    (text_updateNullTerminator _).trans InplaceVector.toList_default
  rw [construct, ← made_map, ← assignView_accept, htext]

theorem stringClass_refines :
    (stringClass N).Refines (textClass N) text (fun _ => True) (fun _ => True) where
  make c _ := by
    cases c with
    | default =>
      exact congrArg Except.ok
        ((text_updateNullTerminator _).trans InplaceVector.toList_default).symm
    | view sv => exact construct_accept sv
    | cString str => exact construct_accept (viewOfCString str)
  call s a _ := by
    cases a with
    | view sv => exact congrArg some (assignView_accept s sv)
    | string str => exact congrArg some (assignView_accept s str)
    | cString str => exact congrArg some (assignView_accept s (viewOfCString str))
    | write pos c =>
      have hlen : s.text.length = s.size := s.storage.length_toList
      simp only [stringClass, textClass, hlen]
      by_cases h : pos < s.size
      · rw [if_pos h, dif_pos h]
        exact congrArg (fun l => some (l, none)) (s.storage.toList_write pos c h).symm
      · rw [if_neg h, dif_neg h]
        rfl
  swap _ _ := rfl

structure Holds (s : InplaceString N) (text : List UInt8) : Prop where
  size_le : s.size ≤ N
  size : s.size = text.length
  terminated : s.data.toList[s.size]? = some 0
  toString : s.toString = text
  cString : s.cString = text.takeWhile (· ≠ 0)
  refuses : ∀ sv, N < sv.length → s.assignView sv =
    (s, some (.outOfRange "string_view exceeds inplace_string capacity"))
  accepts : ∀ sv, sv.length ≤ N → (s.assignView sv).2 = none
  eq : ∀ {M : Nat} (other : InplaceString M), s.eq other = true ↔ text = other.toString

theorem viewOfCString_append (l rest : List UInt8) :
    viewOfCString (l ++ 0 :: rest) = viewOfCString l := by
  induction l with
  | nil => rfl
  | cons c l ih =>
    by_cases hc : c = 0
    · rw [hc]
      rfl
    · simp only [viewOfCString] at ih ⊢
      rw [List.cons_append, List.takeWhile_cons_of_pos (by simpa using hc), ih,
        List.takeWhile_cons_of_pos (by simpa using hc)]

theorem Terminated.data_eq {s : InplaceString N} (hs : s.Terminated) :
    ∃ rest, s.data.toList = s.text ++ 0 :: rest := by
  obtain ⟨hlt, hzero⟩ := List.getElem?_eq_some_iff.mp hs
  refine ⟨s.data.toList.drop (s.size + 1), ?_⟩
  calc
    s.data.toList = s.data.toList.take s.size ++ s.data.toList.drop s.size :=
      (List.take_append_drop s.size _).symm
    _ = s.text ++ 0 :: s.data.toList.drop (s.size + 1) := by
      rw [List.drop_eq_getElem_cons hlt, hzero]
      rfl

theorem Terminated.holds {s : InplaceString N} (hs : s.Terminated) : s.Holds s.text where
  size_le := by
    have hlt := (List.getElem?_eq_some_iff.mp hs).1
    rw [Vector.length_toList] at hlt
    exact Nat.le_of_lt_succ hlt
  size := s.storage.length_toList.symm
  terminated := hs
  toString := s.storage.iterate_eq
  cString := by
    obtain ⟨rest, hrest⟩ := hs.data_eq
    rw [InplaceString.cString, hrest, viewOfCString_append]
    rfl
  refuses _ := s.assignView_of_gt
  accepts sv h := by
    obtain ⟨t, ht, -⟩ := s.assignView_of_le h
    rw [ht]
  eq other := by
    have heq : s.eq other = s.storage.eq other.storage := by
      rw [InplaceString.eq, InplaceVector.iterate_eq]
      rfl
    rw [heq, InplaceVector.eq_iff, beq_iff_eq, InplaceString.toString, InplaceVector.iterate_eq]
    rfl

variable {X : Type} [DecidableEq X]

/-- In every run, through assignments that throw as well, a string holds the text
that was accepted last. -/
theorem holds_text {as : List (Op X Make Call)} {s : State X StdException (InplaceString N)}
    (h : run (stringClass N).step State.start as = some s) :
    ∃ texts, run (textClass N).step State.start as = some texts ∧ State.Rel Holds s texts :=
  stringClass_refines.run_rel (fun a _ => by cases a <;> trivial) h
    fun x w hw => (stringClass_keeps.run h x w hw).holds

def rewrites : List (Op Nat Make Call) :=
  [.construct 0 (.view [97, 98, 99]), .call 0 (.string [1, 2, 3, 4]), .copy 1 0,
    .call 0 (.cString [120, 121, 0, 122]), .call 0 (.write 0 0)]

theorem holds_text_rewrites :
    ∃ s, run (stringClass 3).step State.start rewrites = some s ∧
      ∃ texts, run (textClass 3).step State.start rewrites = some texts ∧
        State.Rel Holds s texts := by
  obtain ⟨s, hs⟩ : ∃ s, run (stringClass 3).step State.start rewrites = some s := ⟨_, rfl⟩
  exact ⟨s, hs, holds_text hs⟩

example : (run (textClass 3).step State.start rewrites).map (State.objects · 0) =
    some (some [0, 121]) := rfl

end InplaceString

end Thermometer
