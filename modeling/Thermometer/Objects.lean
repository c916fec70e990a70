import Thermometer.Transition
import Mathlib.Logic.Function.Basic

namespace Thermometer.Objects

open Transition

variable {X C A ε σ τ : Type}

/-- What the constructors of a class make, what its member functions do to an object and
what `swap` does to two. Constructors and member functions may throw. A call outside the
contract of the class is refused. -/
structure Class (C A ε σ : Type) where
  make : C → Except ε σ
  call : σ → A → Option (σ × Option ε)
  swap : σ → σ → σ × σ

/-- `std::swap` on a class that has none of its own: a copy and two assignments. -/
def stdSwap (v w : σ) : σ × σ :=
  let tmp := v
  (w, tmp)

/-- The outcome of a constructor that calls a member function on the new object. -/
def made : σ × Option ε → Except ε σ
  | (v, none) => .ok v
  | (_, some e) => .error e

theorem made_map (f : σ → τ) (r : σ × Option ε) : made (Prod.map f id r) = (made r).map f := by
  obtain ⟨v, thrown⟩ := r
  cases thrown <;> rfl

theorem made_eq_ok {r : σ × Option ε} {v : σ} (h : made r = .ok v) : r.1 = v := by
  obtain ⟨w, thrown⟩ := r
  cases thrown with
  | none => exact Except.ok.inj h
  | some e => cases h

/-- The life of objects at places `X`. A move of a class that owns nothing is a copy. -/
inductive Op (X C A : Type) where
  | construct (x : X) (c : C)
  | copy (x y : X)
  | assign (x y : X)
  | swap (x y : X)
  | call (x : X) (a : A)
  | destroy (x : X)

/-- The objects that exist, and the exception that the last operation threw. -/
structure State (X ε σ : Type) where
  objects : X → Option σ
  thrown : Option ε

def State.start : State X ε σ := ⟨fun _ => none, none⟩

def State.map (f : σ → τ) (s : State X ε σ) : State X ε τ :=
  ⟨fun x => (s.objects x).map f, s.thrown⟩

variable [DecidableEq X]

def State.put (s : State X ε σ) (x : X) (v : Option σ) (thrown : Option ε) : State X ε σ :=
  ⟨Function.update s.objects x v, thrown⟩

/-- An object is constructed where there is none, and used where there is one. -/
def Class.step (K : Class C A ε σ) (s : State X ε σ) : Op X C A → Option (State X ε σ)
  | .construct x c =>
      match s.objects x with
      | some _ => none
      | none =>
          match K.make c with
          | .ok v => some (s.put x (some v) none)
          | .error e => some { s with thrown := some e }
  | .copy x y =>
      match s.objects x with
      | some _ => none
      | none => (s.objects y).map fun v => s.put x (some v) none
  | .assign x y => (s.objects x).bind fun _ => (s.objects y).map fun v => s.put x (some v) none
  | .swap x y =>
      (s.objects x).bind fun v => (s.objects y).map fun w =>
        (s.put x (some (K.swap v w).1) none).put y (some (K.swap v w).2) none
  | .call x a =>
      (s.objects x).bind fun v => (K.call v a).map fun r => s.put x (some r.1) r.2
  | .destroy x =>
      (s.objects x).map fun _ => s.put x none none

def Op.Within (G : C → Prop) (H : A → Prop) : Op X C A → Prop
  | .construct _ c => G c
  | .call _ a => H a
  | _ => True

/-- On such arguments the class `K` does what `L` does, seen through `f`. -/
structure Class.Refines (K : Class C A ε σ) (L : Class C A ε τ) (f : σ → τ)
    (G : C → Prop) (H : A → Prop) : Prop where
  make : ∀ c, G c → L.make c = (K.make c).map f
  call : ∀ v a, H a → L.call (f v) a = (K.call v a).map (Prod.map f id)
  swap : ∀ v w, L.swap (f v) (f w) = Prod.map f f (K.swap v w)

theorem State.map_put (f : σ → τ) (s : State X ε σ) (x : X) (v : Option σ) (thrown : Option ε) :
    (s.put x v thrown).map f = (s.map f).put x (v.map f) thrown := by
  simp only [State.put, State.map, State.mk.injEq, and_true]
  funext y
  by_cases h : y = x
  · subst y
    simp only [Function.update_self]
  · simp only [Function.update_of_ne h]

theorem State.put_eq_some {s : State X ε σ} {x y : X} {v : Option σ} {thrown : Option ε} {w : σ}
    (h : (s.put x v thrown).objects y = some w) : v = some w ∨ s.objects y = some w := by
  change Function.update s.objects x v y = some w at h
  by_cases hy : y = x
  · subst y
    rw [Function.update_self] at h
    exact .inl h
  · rw [Function.update_of_ne hy] at h
    exact .inr h

variable {K : Class C A ε σ} {L : Class C A ε τ} {f : σ → τ} {G : C → Prop} {H : A → Prop}

theorem Class.Refines.step (h : K.Refines L f G H) (s : State X ε σ) {a : Op X C A}
    (ha : a.Within G H) : L.step (s.map f) a = (K.step s a).map (State.map f) := by
  have hmap : ∀ x, (s.map f).objects x = (s.objects x).map f := fun _ => rfl
  cases a with
  | construct x c =>
    cases hx : s.objects x with
    | some v => simp [Class.step, hmap, hx]
    | none =>
      have hmake := h.make c ha
      cases hc : K.make c with
      | ok v =>
        have hL : L.make c = .ok (f v) := by rw [hmake, hc]; rfl
        simp [Class.step, hmap, hx, hc, hL, State.map_put]
      | error e =>
        have hL : L.make c = .error e := by rw [hmake, hc]; rfl
        simp [Class.step, hmap, hx, hc, hL]
        rfl
  | copy x y =>
    cases hx : s.objects x <;> cases hy : s.objects y <;>
      simp [Class.step, hmap, hx, hy, State.map_put]
  | assign x y =>
    cases hx : s.objects x <;> cases hy : s.objects y <;>
      simp [Class.step, hmap, hx, hy, State.map_put]
  | swap x y =>
    cases hx : s.objects x <;> cases hy : s.objects y <;>
      simp [Class.step, hmap, hx, hy, h.swap, State.map_put]
  | call x a =>
    cases hx : s.objects x with
    | none => simp [Class.step, hmap, hx]
    | some v =>
      have hL := h.call v a ha
      cases hc : K.call v a <;> simp [Class.step, hmap, hx, hL, hc, State.map_put]
  | destroy x =>
    cases hx : s.objects x <;> simp [Class.step, hmap, hx, State.map_put]

theorem Class.Refines.run (h : K.Refines L f G H) (s : State X ε σ) {as : List (Op X C A)}
    (has : ∀ a ∈ as, a.Within G H) :
    run L.step (s.map f) as = (run K.step s as).map (State.map f) :=
  run_map (State.map f) (fun s _ ha => h.step s ha) has

/-- Whatever is constructed has the property, and member functions and `swap` keep it. -/
structure Class.Keeps (K : Class C A ε σ) (I : σ → Prop) : Prop where
  make : ∀ c v, K.make c = .ok v → I v
  call : ∀ v a r, I v → K.call v a = some r → I r.1
  swap : ∀ v w, I v → I w → I (K.swap v w).1 ∧ I (K.swap v w).2

def State.All (I : σ → Prop) (s : State X ε σ) : Prop := ∀ x v, s.objects x = some v → I v

theorem State.All.put {I : σ → Prop} {s : State X ε σ} (hs : s.All I) (x : X) {v : Option σ}
    (thrown : Option ε) (hv : ∀ w, v = some w → I w) : (s.put x v thrown).All I := by
  intro y w hw
  obtain h | h := State.put_eq_some hw
  · exact hv w h
  · exact hs y w h

theorem Class.Keeps.step {I : σ → Prop} (h : K.Keeps I) {s t : State X ε σ} {a : Op X C A}
    (hs : s.All I) (ht : K.step s a = some t) : t.All I := by
  have hput : ∀ {s : State X ε σ} {v : σ} (x : X) (thrown : Option ε), s.All I → I v →
      (s.put x (some v) thrown).All I :=
    fun x thrown hs hv => hs.put x thrown fun w hw => Option.some.inj hw ▸ hv
  cases a with
  | construct x c =>
    cases hx : s.objects x with
    | some v => simp [Class.step, hx] at ht
    | none =>
      cases hc : K.make c with
      | ok v =>
        simp only [Class.step, hx, hc, Option.some.injEq] at ht
        exact ht ▸ hput x none hs (h.make c v hc)
      | error e =>
        simp only [Class.step, hx, hc, Option.some.injEq] at ht
        exact ht ▸ hs
  | copy x y =>
    cases hx : s.objects x with
    | some v => simp [Class.step, hx] at ht
    | none =>
      simp only [Class.step, hx] at ht
      obtain ⟨v, hv, rfl⟩ := Option.map_eq_some_iff.mp ht
      exact hput x none hs (hs y v hv)
  | assign x y =>
    obtain ⟨_, _, ht⟩ := Option.bind_eq_some_iff.mp ht
    obtain ⟨v, hv, rfl⟩ := Option.map_eq_some_iff.mp ht
    exact hput x none hs (hs y v hv)
  | swap x y =>
    obtain ⟨v, hv, ht⟩ := Option.bind_eq_some_iff.mp ht
    obtain ⟨w, hw, rfl⟩ := Option.map_eq_some_iff.mp ht
    obtain ⟨hfirst, hsecond⟩ := h.swap v w (hs x v hv) (hs y w hw)
    exact hput y none (hput x none hs hfirst) hsecond
  | call x a =>
    obtain ⟨v, hv, ht⟩ := Option.bind_eq_some_iff.mp ht
    obtain ⟨r, hr, rfl⟩ := Option.map_eq_some_iff.mp ht
    exact hput x r.2 hs (h.call v a r (hs x v hv) hr)
  | destroy x =>
    obtain ⟨v, _, rfl⟩ := Option.map_eq_some_iff.mp ht
    apply hs.put x none
    simp

theorem Class.Keeps.run {I : σ → Prop} (h : K.Keeps I) {s : State X ε σ} {as : List (Op X C A)}
    (hs : Transition.run K.step State.start as = some s) : s.All I :=
  run_invariant (fun _ _ _ hs ht => h.step hs ht)
    (fun x v hv => absurd hv (by simp [State.start])) hs

/-- The same places have objects, related pairwise, and the same exception was thrown. -/
structure State.Rel (R : σ → τ → Prop) (s : State X ε σ) (t : State X ε τ) : Prop where
  objects : ∀ x, Option.Rel R (s.objects x) (t.objects x)
  thrown : s.thrown = t.thrown

omit [DecidableEq X] in
theorem State.rel_map {R : σ → τ → Prop} {s : State X ε σ} (hs : s.All fun v => R v (f v)) :
    State.Rel R s (s.map f) where
  objects x := by
    change Option.Rel R (s.objects x) ((s.objects x).map f)
    cases hx : s.objects x with
    | none => exact .none
    | some v => exact .some (hs x v hx)
  thrown := rfl

theorem Class.Refines.run_rel (h : K.Refines L f G H) {R : σ → τ → Prop} {s : State X ε σ}
    {as : List (Op X C A)} (has : ∀ a ∈ as, a.Within G H)
    (hs : Transition.run K.step State.start as = some s) (hR : s.All fun v => R v (f v)) :
    ∃ t, Transition.run L.step State.start as = some t ∧ State.Rel R s t := by
  refine ⟨s.map f, ?_, State.rel_map hR⟩
  have hrun := h.run State.start has
  rwa [hs] at hrun

end Thermometer.Objects
