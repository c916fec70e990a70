import Mathlib.Data.Option.Basic

namespace Thermometer.Transition

variable {σ τ α β : Type*}

/-- Execute a labelled partial step along a list of labels. A label that the
step refuses makes the whole run undefined. -/
def run (step : σ → α → Option σ) : σ → List α → Option σ
  | s, [] => some s
  | s, a :: as => (step s a).bind (fun t => run step t as)

/-- Every label of the run meets a condition in the state it is taken from. -/
def Meets (step : σ → α → Option σ) (ok : σ → α → Prop) : σ → List α → Prop
  | _, [] => True
  | s, a :: as => ok s a ∧ ∀ t, step s a = some t → Meets step ok t as

def Always (step : σ → α → Option σ) (P : σ → Prop) : σ → List α → Prop
  | s, [] => P s
  | s, a :: as => P s ∧ ∀ t, step s a = some t → Always step P t as

variable {step : σ → α → Option σ} {ok : σ → α → Prop} {I P : σ → Prop}

theorem run_cons {s u : σ} {a : α} {as : List α} :
    run step s (a :: as) = some u ↔ ∃ t, step s a = some t ∧ run step t as = some u := by
  simp only [run, Option.bind_eq_some_iff]

theorem run_singleton {s t : σ} {a : α} (h : step s a = some t) : run step s [a] = some t :=
  run_cons.mpr ⟨t, h, rfl⟩

theorem run_append {s t u : σ} {as bs : List α} (hs : run step s as = some t)
    (ht : run step t bs = some u) : run step s (as ++ bs) = some u := by
  induction as generalizing s with
  | nil =>
    simp only [run, Option.some.injEq] at hs
    exact hs ▸ ht
  | cons a as ih =>
    obtain ⟨r, hr, hrest⟩ := run_cons.mp hs
    exact run_cons.mpr ⟨r, hr, ih hrest⟩

/-- The invariant rule with a side condition on each step. -/
theorem run_meets (hstep : ∀ s a t, I s → ok s a → step s a = some t → I t)
    {s u : σ} {as : List α} (hs : I s) (hok : Meets step ok s as)
    (h : run step s as = some u) : I u := by
  induction as generalizing s with
  | nil =>
    simp only [run, Option.some.injEq] at h
    exact h ▸ hs
  | cons a as ih =>
    obtain ⟨t, ht, hu⟩ := run_cons.mp h
    exact ih (hstep s a t hs hok.1 ht) (hok.2 t ht) hu

theorem meets_true (s : σ) (as : List α) : Meets step (fun _ _ => True) s as := by
  induction as generalizing s with
  | nil => trivial
  | cons a as ih => exact ⟨trivial, fun t _ => ih t⟩

theorem run_invariant (hstep : ∀ s a t, I s → step s a = some t → I t)
    {s u : σ} {as : List α} (hs : I s) (h : run step s as = some u) : I u :=
  run_meets (fun s a t hi (_ : True) ht => hstep s a t hi ht) hs (meets_true s as) h

theorem meets_cons {s t : σ} {a : α} {as : List α} (ht : step s a = some t) :
    Meets step ok s (a :: as) ↔ ok s a ∧ Meets step ok t as := by
  simp [Meets, ht]

theorem Meets.and_left {s : σ} {as : List α} {G : α → Prop} (h : Meets step ok s as)
    (hG : ∀ a ∈ as, G a) : Meets step (fun s a => G a ∧ ok s a) s as := by
  induction as generalizing s with
  | nil => trivial
  | cons a as ih =>
    exact ⟨⟨hG a (by simp), h.1⟩, fun t ht => ih (h.2 t ht) (fun b hb => hG b (by simp [hb]))⟩

theorem Meets.of_run {ok' : σ → α → Prop}
    (hstep : ∀ s a t, I s → ok s a → step s a = some t → ok' s a ∧ I t)
    {s u : σ} {as : List α} (hs : I s) (hok : Meets step ok s as)
    (h : run step s as = some u) : Meets step ok' s as := by
  induction as generalizing s with
  | nil => trivial
  | cons a as ih =>
    obtain ⟨t, ht, hu⟩ := run_cons.mp h
    obtain ⟨hok', hinv⟩ := hstep s a t hs hok.1 ht
    exact (meets_cons ht).mpr ⟨hok', ih hinv (hok.2 t ht) hu⟩

theorem always_start {s : σ} {as : List α} (h : Always step P s as) : P s := by
  cases as with
  | nil => exact h
  | cons a as => exact h.1

/-- What keeps an invariant under a condition on each step, holds throughout a run
whose steps meet the condition. -/
theorem always_of_meets (hI : ∀ s, I s → P s)
    (hkeep : ∀ s a t, I s → ok s a → step s a = some t → I t)
    {s : σ} {as : List α} (hs : I s) (h : Meets step ok s as) : Always step P s as := by
  induction as generalizing s with
  | nil => exact hI s hs
  | cons a as ih =>
    exact ⟨hI s hs, fun t ht => ih (hkeep s a t hs h.1 ht) (h.2 t ht)⟩

/-- A condition is exact for a property when it keeps an invariant that implies
the property, and a step outside it always breaks the property. -/
theorem always_iff_meets (G : α → Prop) (hI : ∀ s, I s → P s)
    (hkeep : ∀ s a t, G a → I s → ok s a → step s a = some t → I t)
    (hbreak : ∀ s a t, G a → I s → ¬ ok s a → step s a = some t → ¬ P t)
    {s u : σ} {as : List α} (hG : ∀ a ∈ as, G a) (hs : I s) (h : run step s as = some u) :
    Always step P s as ↔ Meets step ok s as := by
  induction as generalizing s with
  | nil => exact ⟨fun _ => trivial, fun _ => hI s hs⟩
  | cons a as ih =>
    obtain ⟨t, ht, hu⟩ := run_cons.mp h
    have ha : G a := hG a (by simp)
    have hrestG : ∀ b ∈ as, G b := fun b hb => hG b (by simp [hb])
    have hdet : ∀ t', step s a = some t' → t' = t :=
      fun t' ht' => Option.some.inj (ht'.symm.trans ht)
    constructor
    · rintro ⟨_, hrest⟩
      have hok : ok s a := by
        by_contra hno
        exact hbreak s a t ha hs hno ht (always_start (hrest t ht))
      refine ⟨hok, fun t' ht' => ?_⟩
      rw [hdet t' ht']
      exact (ih hrestG (hkeep s a t ha hs hok ht) hu).mp (hrest t ht)
    · rintro ⟨hok, hrest⟩
      refine ⟨hI s hs, fun t' ht' => ?_⟩
      rw [hdet t' ht']
      exact (ih hrestG (hkeep s a t ha hs hok ht) hu).mpr (hrest t ht)

theorem run_map {step' : τ → α → Option τ} (f : σ → τ) {G : α → Prop}
    (hstep : ∀ s a, G a → step' (f s) a = (step s a).map f)
    {s : σ} {as : List α} (hG : ∀ a ∈ as, G a) :
    run step' (f s) as = (run step s as).map f := by
  induction as generalizing s with
  | nil => rfl
  | cons a as ih =>
    have hrest : ∀ b ∈ as, G b := fun b hb => hG b (by simp [hb])
    rw [run, run, hstep s a (hG a (by simp))]
    cases step s a with
    | none => rfl
    | some t => exact ih hrest

def withHistory {η : Type*} (step : σ → α → Option σ) (note : σ → α → η → η) (p : σ × η) (a : α) :
    Option (σ × η) :=
  (step p.1 a).map fun t => (t, note p.1 a p.2)

theorem run_withHistory {η : Type*} (note : σ → α → η → η) {J : σ → η → Prop} {G : α → Prop}
    (hstep : ∀ s k a t, G a → J s k → step s a = some t → J t (note s a k))
    {s u : σ} {k : η} {as : List α} (hG : ∀ a ∈ as, G a) (hs : J s k)
    (h : run step s as = some u) :
    ∃ l, run (withHistory step note) (s, k) as = some (u, l) ∧ J u l := by
  induction as generalizing s k with
  | nil =>
    simp only [run, Option.some.injEq] at h
    subst u
    exact ⟨k, rfl, hs⟩
  | cons a as ih =>
    obtain ⟨t, ht, hu⟩ := run_cons.mp h
    have hrest : ∀ b ∈ as, G b := fun b hb => hG b (by simp [hb])
    obtain ⟨l, hl, hJ⟩ := ih hrest (hstep s k a t (hG a (by simp)) hs ht) hu
    exact ⟨l, run_cons.mpr ⟨(t, note s a k), by simp [withHistory, ht], hl⟩, hJ⟩

/-- A projection that follows or ignores each step sends runs to runs. -/
theorem run_project {step' : τ → β → Option τ} (f : σ → τ)
    (hstep : ∀ s a t, step s a = some t → f t = f s ∨ ∃ b, step' (f s) b = some (f t))
    {s u : σ} {as : List α} (h : run step s as = some u) :
    ∃ bs, run step' (f s) bs = some (f u) := by
  induction as generalizing s with
  | nil =>
    simp only [run, Option.some.injEq] at h
    exact ⟨[], by simp [run, h]⟩
  | cons a as ih =>
    obtain ⟨t, ht, hu⟩ := run_cons.mp h
    obtain ⟨bs, hbs⟩ := ih hu
    obtain he | ⟨b, hb⟩ := hstep s a t ht
    · exact ⟨bs, he ▸ hbs⟩
    · exact ⟨b :: bs, run_cons.mpr ⟨f t, hb, hbs⟩⟩

/-- What every step conserves of a weight of the state and of two counts of the
labels, every run does. -/
theorem run_balance (weight : σ → Nat) (gain loss : α → Bool)
    (hstep : ∀ s a t, step s a = some t →
      weight s + (if gain a then 1 else 0) = weight t + (if loss a then 1 else 0))
    {s u : σ} {as : List α} (h : run step s as = some u) :
    weight s + as.countP gain = weight u + as.countP loss := by
  induction as generalizing s with
  | nil =>
    simp only [run, Option.some.injEq] at h
    rw [h]
    rfl
  | cons a as ih =>
    obtain ⟨t, ht, hu⟩ := run_cons.mp h
    have hfirst := hstep s a t ht
    have hrest := ih hu
    rw [List.countP_cons, List.countP_cons]
    omega

/-- A rank that falls with each own step, and grows with no other, bounds how many
of them a run has. -/
theorem countP_add_rank_le (rank : σ → Nat) (own : α → Bool) (G : α → Prop)
    (hstep : ∀ s a t, G a → I s → step s a = some t →
      I t ∧ rank t + (if own a then 1 else 0) ≤ rank s)
    {s u : σ} {as : List α} (hG : ∀ a ∈ as, G a) (hs : I s) (h : run step s as = some u) :
    I u ∧ rank u + as.countP own ≤ rank s := by
  induction as generalizing s with
  | nil =>
    simp only [run, Option.some.injEq] at h
    subst u
    exact ⟨hs, Nat.le_refl _⟩
  | cons a as ih =>
    obtain ⟨t, ht, hu⟩ := run_cons.mp h
    obtain ⟨hinv, hfirst⟩ := hstep s a t (hG a (by simp)) hs ht
    obtain ⟨hend, hrest⟩ := ih (fun b hb => hG b (by simp [hb])) hinv hu
    refine ⟨hend, ?_⟩
    rw [List.countP_cons]
    omega

/-- A task whose rank falls with each step of its own while it is busy, and grows with
no step of the others, is busy to the end of a run, or has a step after which it is
not. -/
theorem busy_or_ends (busy : σ → Prop) (rank : σ → Nat) (own : α → Bool) (G : α → Prop)
    (hstep : ∀ s a t, G a → busy s → step s a = some t → busy t →
      rank t + (if own a then 1 else 0) ≤ rank s)
    {s t : σ} {as : List α} (hG : ∀ a ∈ as, G a) (hs : busy s) (h : run step s as = some t) :
    (busy t ∧ rank t + as.countP own ≤ rank s) ∨
    ∃ bs a cs u v, as = bs ++ a :: cs ∧ run step s bs = some u ∧ busy u ∧
      rank u + bs.countP own ≤ rank s ∧ step u a = some v ∧ ¬ busy v ∧ run step v cs = some t := by
  induction as generalizing s with
  | nil =>
    simp only [run, Option.some.injEq] at h
    subst t
    exact .inl ⟨hs, Nat.le_refl _⟩
  | cons a as ih =>
    obtain ⟨r, hr, hrest⟩ := run_cons.mp h
    by_cases hbusy : busy r
    · have hrank := hstep s a r (hG a (by simp)) hs hr hbusy
      obtain ⟨ht, hle⟩ | ⟨bs, b, cs, u, v, rfl, hrun, hu, hle, hv, hdone, hcs⟩ :=
        ih (fun b hb => hG b (by simp [hb])) hbusy hrest
      · refine .inl ⟨ht, ?_⟩
        rw [List.countP_cons]
        omega
      · refine .inr ⟨a :: bs, b, cs, u, v, rfl, run_cons.mpr ⟨r, hr, hrun⟩, hu, ?_, hv, hdone, hcs⟩
        rw [List.countP_cons]
        omega
    · exact .inr ⟨[], a, as, s, r, rfl, rfl, hs, Nat.le_refl _, hr, hbusy, hrest⟩

theorem ends_of_rank (busy : σ → Prop) (rank : σ → Nat) (own : α → Bool) (G : α → Prop)
    (hpos : ∀ s, busy s → 0 < rank s)
    (hstep : ∀ s a t, G a → busy s → step s a = some t → busy t →
      rank t + (if own a then 1 else 0) ≤ rank s)
    {s t : σ} {as : List α} (hG : ∀ a ∈ as, G a) (hs : busy s) (h : run step s as = some t)
    (hown : rank s ≤ as.countP own) :
    ∃ bs a cs u v, as = bs ++ a :: cs ∧ bs.countP own < rank s ∧ run step s bs = some u ∧
      busy u ∧ step u a = some v ∧ ¬ busy v := by
  obtain ⟨ht, hle⟩ | ⟨bs, a, cs, u, v, has, hrun, hu, hle, hv, hdone, -⟩ :=
    busy_or_ends busy rank own G hstep hG hs h
  · have hrank := hpos t ht
    omega
  · have hrank := hpos u hu
    exact ⟨bs, a, cs, u, v, has, by omega, hrun, hu, hv, hdone⟩

end Thermometer.Transition
