import Thermometer.InplaceVector
import Thermometer.Objects

namespace Thermometer.InplaceVector

open Objects

variable {T : Type} {N : Nat}

/-- A failed `assign` leaves the vector as it was just when what it has copied by
then is what the vector held. -/
theorem assign_keeps_iff (v : InplaceVector T N) {range : List T} (h : N < range.length) :
    ((v.assign range).2 = some (.lengthError "inplace_vector: capacity exceeded") ∧
        (v.assign range).1.size = v.size ∧ (v.assign range).1.toList = v.toList) ↔
      range.take v.size = v.toList := by
  obtain ⟨hthrow, hsize, hlist⟩ := v.assign_of_gt h
  rw [hlist]
  exact ⟨fun hkeep => hkeep.2.2, fun htake => ⟨hthrow, hsize, htake⟩⟩

theorem assign_keeps_iff_overwrites :
    ((assign (ofList [1] : InplaceVector Nat 3) [4, 3, 2, 1]).2 =
          some (.lengthError "inplace_vector: capacity exceeded") ∧
        (assign (ofList [1] : InplaceVector Nat 3) [4, 3, 2, 1]).1.size =
          (ofList [1] : InplaceVector Nat 3).size ∧
        (assign (ofList [1] : InplaceVector Nat 3) [4, 3, 2, 1]).1.toList =
          (ofList [1] : InplaceVector Nat 3).toList) ↔
      [4, 3, 2, 1].take (ofList [1] : InplaceVector Nat 3).size =
        (ofList [1] : InplaceVector Nat 3).toList :=
  assign_keeps_iff (ofList [1]) (by decide)

theorem failedAssign_overwrites :
    (ofList [1] : InplaceVector Nat 3).toList = [1] ∧
      (assign (ofList [1] : InplaceVector Nat 3) [4, 3, 2, 1]).2 =
        some (.lengthError "inplace_vector: capacity exceeded") ∧
      (assign (ofList [1] : InplaceVector Nat 3) [4, 3, 2, 1]).1.toList = [4] := by
  decide

variable [Inhabited T]

def constructed (l : List T) : Except StdException (InplaceVector T N) := .ok (ofList l)

def assigned (l : List T) : Except StdException (InplaceVector T N) := made (assign default l)

def emplaced (l : List T) : Except StdException (InplaceVector T N) := l.foldlM emplaceBack default

def Agree (N : Nat) (l : List T) : Prop :=
  (∃ v : InplaceVector T N, constructed l = .ok v ∧ assigned l = .ok v ∧ emplaced l = .ok v ∧
      v.toList = l ∧ l.length ≤ N) ∨
    (N < l.length ∧ ∃ what,
      constructed l = (.error (.lengthError what) : Except StdException (InplaceVector T N)) ∧
      assigned l = (.error (.lengthError what) : Except StdException (InplaceVector T N)) ∧
      emplaced l = (.error (.lengthError what) : Except StdException (InplaceVector T N)))

/-- The three ways of filling a vector agree on the lists that fit, and on no other:
the constructor drops what the other two refuse. -/
theorem fillings_agree_iff (l : List T) : Agree N l ↔ l.length ≤ N := by
  constructor
  · rintro (⟨_, _, _, _, _, hfits⟩ | ⟨_, _, hthrow, _⟩)
    · exact hfits
    · exact absurd hthrow (by simp [constructed])
  · intro hfits
    refine .inl ⟨ofList l, rfl, ?_, foldlM_emplaceBack_default hfits, toList_ofList hfits, hfits⟩
    have hroom : 0 + l.length ≤ N := default_room (T := T) hfits
    rw [assigned, assign, assignLoop_of_le default 0 (Nat.zero_le N) hroom]
    rfl

theorem constructor_drops :
    ¬ Agree 1 [1, 2] ∧ (ofList [1, 2] : InplaceVector Nat 1).toList = [1] ∧
      (assigned [1, 2] : Except StdException (InplaceVector Nat 1)) =
        .error (.lengthError "inplace_vector: capacity exceeded") ∧
      (emplaced [1, 2] : Except StdException (InplaceVector Nat 1)) =
        .error (.lengthError "inplace_vector: capacity exceeded") := by
  refine ⟨?_, rfl, rfl, rfl⟩
  rintro (⟨_, _, _, _, _, hfits⟩ | ⟨_, _, hthrow, _⟩)
  · exact absurd hfits (by decide)
  · exact absurd hthrow (by simp [constructed])

end Thermometer.InplaceVector
