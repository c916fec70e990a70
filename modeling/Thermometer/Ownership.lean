import Mathlib.Logic.Function.Basic
import Mathlib.Data.Option.Basic

namespace Thermometer.Ownership

variable {X Q : Type*}

/-- No resource has two holders. -/
def Exclusive (f : X → Option Q) : Prop := ∀ x y q, f x = some q → f y = some q → x = y

def Held (f : X → Option Q) (q : Q) : Prop := ∃ x, f x = some q

variable [DecidableEq X]

def grant (f : X → Option Q) (x : X) (q : Q) : X → Option Q := Function.update f x (some q)

def drop (f : X → Option Q) (x : X) : X → Option Q := Function.update f x none

/-- What `src` held passes to `dst`. Whatever `dst` held before has no holder
afterwards. -/
def transfer (f : X → Option Q) (dst src : X) : X → Option Q :=
  Function.update (Function.update f src none) dst (f src)

theorem drop_eq_some {f : X → Option Q} {x y : X} {q : Q} :
    drop f x y = some q ↔ y ≠ x ∧ f y = some q := by
  by_cases h : y = x <;> simp [drop, h]

theorem grant_eq_some {f : X → Option Q} {x y : X} {q r : Q} :
    grant f x q y = some r ↔ (y = x ∧ q = r) ∨ (y ≠ x ∧ f y = some r) := by
  by_cases h : y = x <;> simp [grant, h]

theorem transfer_eq_some {f : X → Option Q} {dst src y : X} {q : Q} :
    transfer f dst src y = some q ↔
      (y = dst ∧ f src = some q) ∨ (y ≠ dst ∧ y ≠ src ∧ f y = some q) := by
  by_cases hd : y = dst
  · simp [transfer, hd]
  · by_cases hs : y = src
    · subst y
      simp [transfer, hd]
    · simp [transfer, hd, hs]

theorem Exclusive.drop {f : X → Option Q} (hf : Exclusive f) (x : X) :
    Exclusive (Ownership.drop f x) := by
  intro y z q hy hz
  exact hf y z q (drop_eq_some.mp hy).2 (drop_eq_some.mp hz).2

theorem Exclusive.grant {f : X → Option Q} (hf : Exclusive f) (x : X) {q : Q} (hq : ¬ Held f q) :
    Exclusive (Ownership.grant f x q) := by
  intro y z r hy hz
  obtain ⟨rfl, rfl⟩ | ⟨_, hfy⟩ := grant_eq_some.mp hy
  · obtain ⟨rfl, _⟩ | ⟨_, hfz⟩ := grant_eq_some.mp hz
    · rfl
    · exact absurd ⟨z, hfz⟩ hq
  · obtain ⟨rfl, rfl⟩ | ⟨_, hfz⟩ := grant_eq_some.mp hz
    · exact absurd ⟨y, hfy⟩ hq
    · exact hf y z r hfy hfz

theorem Exclusive.transfer {f : X → Option Q} (hf : Exclusive f) (dst src : X) :
    Exclusive (Ownership.transfer f dst src) := by
  intro y z q hy hz
  obtain ⟨rfl, hfy⟩ | ⟨_, hys, hfy⟩ := transfer_eq_some.mp hy
  · obtain ⟨rfl, _⟩ | ⟨_, hzs, hfz⟩ := transfer_eq_some.mp hz
    · rfl
    · exact absurd (hf z src q hfz hfy) hzs
  · obtain ⟨rfl, hfz⟩ | ⟨_, _, hfz⟩ := transfer_eq_some.mp hz
    · exact absurd (hf y src q hfy hfz) hys
    · exact hf y z q hfy hfz

theorem held_grant {f : X → Option Q} {x : X} (hx : f x = none) (q r : Q) :
    Held (grant f x q) r ↔ r = q ∨ Held f r := by
  constructor
  · rintro ⟨y, hy⟩
    obtain ⟨_, rfl⟩ | ⟨_, hfy⟩ := grant_eq_some.mp hy
    · exact .inl rfl
    · exact .inr ⟨y, hfy⟩
  · rintro (rfl | ⟨y, hy⟩)
    · exact ⟨x, grant_eq_some.mpr (.inl ⟨rfl, rfl⟩)⟩
    · have hne : y ≠ x := fun he => by simp [he, hx] at hy
      exact ⟨y, grant_eq_some.mpr (.inr ⟨hne, hy⟩)⟩

theorem held_drop {f : X → Option Q} (hf : Exclusive f) {x : X} {q : Q} (hx : f x = some q)
    (r : Q) : Held (drop f x) r ↔ r ≠ q ∧ Held f r := by
  constructor
  · rintro ⟨y, hy⟩
    obtain ⟨hne, hfy⟩ := drop_eq_some.mp hy
    exact ⟨fun he => hne (hf y x q (he ▸ hfy) hx), y, hfy⟩
  · rintro ⟨hne, y, hy⟩
    refine ⟨y, drop_eq_some.mpr ⟨fun he => hne ?_, hy⟩⟩
    exact Option.some.inj (hy.symm.trans (he ▸ hx))

theorem held_drop_of_none {f : X → Option Q} {x : X} (hx : f x = none) (r : Q) :
    Held (drop f x) r ↔ Held f r := by
  rw [drop, ← hx, Function.update_eq_self]

theorem held_transfer {f : X → Option Q} {dst src : X} (hdst : f dst = none) (q : Q) :
    Held (transfer f dst src) q ↔ Held f q := by
  constructor
  · rintro ⟨y, hy⟩
    obtain ⟨_, hfs⟩ | ⟨_, _, hfy⟩ := transfer_eq_some.mp hy
    · exact ⟨src, hfs⟩
    · exact ⟨y, hfy⟩
  · rintro ⟨y, hy⟩
    by_cases hys : y = src
    · exact ⟨dst, transfer_eq_some.mpr (.inl ⟨rfl, hys ▸ hy⟩)⟩
    · have hyd : y ≠ dst := fun he => by simp [he, hdst] at hy
      exact ⟨y, transfer_eq_some.mpr (.inr ⟨hyd, hys, hy⟩)⟩

/-- A transfer onto a holder leaves what it held without any holder. -/
theorem not_held_transfer {f : X → Option Q} (hf : Exclusive f) {dst src : X} (hne : dst ≠ src)
    {q : Q} (hdst : f dst = some q) : ¬ Held (transfer f dst src) q := by
  rintro ⟨y, hy⟩
  obtain ⟨_, hfs⟩ | ⟨hyd, _, hfy⟩ := transfer_eq_some.mp hy
  · exact hne (hf dst src q hdst hfs)
  · exact hyd (hf y dst q hfy hdst)

theorem held_of_held_transfer {f : X → Option Q} {dst src : X} {q : Q}
    (h : Held (transfer f dst src) q) : Held f q := by
  obtain ⟨y, hy⟩ := h
  obtain ⟨_, hfs⟩ | ⟨_, _, hfy⟩ := transfer_eq_some.mp hy
  · exact ⟨src, hfs⟩
  · exact ⟨y, hfy⟩

end Thermometer.Ownership
