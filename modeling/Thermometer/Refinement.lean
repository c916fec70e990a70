import Thermometer.Transition

namespace Thermometer.Refinement

open Thermometer.Transition

variable {σ τ α β ε : Type*}

/-- The events that an observer sees along a run. A step need not show one. -/
def trace (step : σ → α → Option σ) (event : σ → α → Option ε) : σ → List α → List ε
  | _, [] => []
  | s, a :: as => (event s a).toList ++
      ((step s a).map fun t => trace step event t as).getD []

variable {step : σ → α → Option σ} {event : σ → α → Option ε}
  {step' : τ → β → Option τ} {event' : τ → β → Option ε}

theorem trace_cons {s t : σ} {a : α} {as : List α} (h : step s a = some t) :
    trace step event s (a :: as) = (event s a).toList ++ trace step event t as := by
  simp [trace, h]

theorem trace_append {s t : σ} {as : List α} (h : run step s as = some t) (bs : List α) :
    trace step event s (as ++ bs) = trace step event s as ++ trace step event t bs := by
  induction as generalizing s with
  | nil =>
    simp only [run, Option.some.injEq] at h
    subst t
    rfl
  | cons a as ih =>
    obtain ⟨r, hr, hrest⟩ := run_cons.mp h
    rw [List.cons_append, trace_cons hr, trace_cons hr, ih hrest, List.append_assoc]

theorem trace_singleton {s t : σ} {a : α} (h : step s a = some t) :
    trace step event s [a] = (event s a).toList := by
  rw [trace_cons h]
  exact List.append_nil _

/-- A weak forward simulation: a step that meets the condition is matched by a
run with the same events. -/
def Simulates (step : σ → α → Option σ) (event : σ → α → Option ε) (ok : σ → α → Prop)
    (step' : τ → β → Option τ) (event' : τ → β → Option ε) (Rel : σ → τ → Prop) : Prop :=
  ∀ s a t u, Rel s u → ok s a → step s a = some t →
    ∃ bs v, run step' u bs = some v ∧ trace step' event' u bs = (event s a).toList ∧ Rel t v

theorem Simulates.run {ok : σ → α → Prop} {Rel : σ → τ → Prop}
    (hsim : Simulates step event ok step' event' Rel) {s t : σ} {u : τ} {as : List α}
    (hs : Rel s u) (hok : Meets step ok s as) (h : run step s as = some t) :
    ∃ bs v, Transition.run step' u bs = some v ∧
      trace step' event' u bs = trace step event s as ∧ Rel t v := by
  induction as generalizing s u with
  | nil =>
    simp only [Transition.run, Option.some.injEq] at h
    subst t
    exact ⟨[], u, rfl, rfl, hs⟩
  | cons a as ih =>
    obtain ⟨r, hr, hrest⟩ := run_cons.mp h
    obtain ⟨bs, v, hbs, htrace, hv⟩ := hsim s a r u hs hok.1 hr
    obtain ⟨cs, w, hcs, htrace', hw⟩ := ih hv (hok.2 r hr) hrest
    refine ⟨bs ++ cs, w, run_append hbs hcs, ?_, hw⟩
    rw [trace_append hbs, htrace, htrace', trace_cons hr]

end Thermometer.Refinement
