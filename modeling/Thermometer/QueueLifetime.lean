import Thermometer.QueueRegistry
import Mathlib.Data.List.Count

namespace Thermometer.Publisher

open Thermometer.Transition Thermometer.Ownership

variable {T X H : Type}

/-- The call is made on a queue that exists, and creates one that does not. -/
def QueueCall.Valid (live : Set H) : QueueCall H → Prop
  | .create none => True
  | .create (some h) => h ∉ live
  | .send q | .receive q | .delete q => ∃ h ∈ live, q = some h

def QueueCall.apply (live : Set H) : QueueCall H → Set H
  | .create (some h) => insert h live
  | .delete (some h) => live \ {h}
  | _ => live

/-- Every call of the list is valid for the queues created and not deleted by
the calls before it. -/
def WellUsed : Set H → List (QueueCall H) → Prop
  | _, [] => True
  | live, c :: cs => c.Valid live ∧ WellUsed (c.apply live) cs

theorem wellUsed_concat {live : Set H} {cs : List (QueueCall H)} {c : QueueCall H} :
    WellUsed live (cs ++ [c]) ↔ WellUsed live cs ∧ c.Valid (cs.foldl QueueCall.apply live) := by
  induction cs generalizing live with
  | nil => simp [WellUsed]
  | cons d cs ih => simp only [List.cons_append, WellUsed, ih, List.foldl_cons, and_assoc]

/-- A handle is deleted at most once for each time it was created. -/
theorem wellUsed_count [DecidableEq H] {live : Set H} {cs : List (QueueCall H)}
    (h : WellUsed live cs) (k : H) :
    (k ∉ live → cs.count (.delete (some k)) ≤ cs.count (.create (some k))) ∧
      (k ∈ live → cs.count (.delete (some k)) ≤ cs.count (.create (some k)) + 1) := by
  induction cs generalizing live with
  | nil => simp
  | cons c cs ih =>
    obtain ⟨hout, hin⟩ := ih h.2
    cases c with
    | create q =>
      cases q with
      | none => simpa [QueueCall.apply, List.count_cons] using And.intro hout hin
      | some g =>
        by_cases hg : g = k
        · subst g
          have hle := hin (Set.mem_insert k live)
          have hk : k ∉ live := h.1
          simp only [List.count_cons, hk, not_false_eq_true, forall_const, false_implies,
            and_true, beq_self_eq_true, ↓reduceIte, reduceCtorEq, beq_iff_eq, Nat.add_zero]
          omega
        · simpa [QueueCall.apply, List.count_cons, hg, Ne.symm hg] using And.intro hout hin
    | delete q =>
      obtain ⟨g, hg, rfl⟩ := h.1
      by_cases hgk : g = k
      · subst g
        have hle := hout (by simp [QueueCall.apply])
        simp only [List.count_cons, hg, not_true_eq_false, false_implies, true_and,
          forall_const, beq_self_eq_true, ↓reduceIte, reduceCtorEq, beq_iff_eq, Nat.add_zero]
        omega
      · simpa [QueueCall.apply, List.count_cons, hgk, Ne.symm hgk] using And.intro hout hin
    | send | receive => simpa [QueueCall.apply, List.count_cons] using And.intro hout hin

variable [DecidableEq X] [DecidableEq H]

def WaitsOwned (s : State T X H) : Op T X H → Prop
  | .wait x => s.owner x ≠ none
  | _ => True

/-- The calls made so far were sound, and left exactly the queues that exist. -/
structure Sound (s : State T X H) : Prop where
  registered : Registered s
  used : WellUsed ∅ s.calls
  live : s.calls.foldl QueueCall.apply ∅ = {h | Exists s.kernel (some h)}

omit [DecidableEq X] [DecidableEq H] in
theorem Sound.init : Sound (State.init : State T X H) where
  registered := Registered.init
  used := trivial
  live := by simp [State.init, Exists]

omit [DecidableEq X] [DecidableEq H] in
theorem Sound.call {s : State T X H} (hs : Sound s) {c : QueueCall H}
    (hc : c.Valid {h | Exists s.kernel (some h)}) :
    WellUsed ∅ (s.calls ++ [c]) ∧ (s.calls ++ [c]).foldl QueueCall.apply ∅ =
      c.apply {h | Exists s.kernel (some h)} := by
  refine ⟨wellUsed_concat.mpr ⟨hs.used, by rw [hs.live]; exact hc⟩, ?_⟩
  rw [List.foldl_append, hs.live]
  rfl

theorem Sound.step {depth : Nat} {s t : State T X H} {a : Op T X H} (hs : Sound s)
    (ha : a.Creates) (hok : WaitsOwned s a) (h : s.step depth a = some t) : Sound t := by
  have hreg := hs.registered.step ha h
  cases State.steps_of_step h with
  | create x q hp hx hf =>
    obtain ⟨k, rfl⟩ : ∃ k, q = some k :=
      Option.ne_none_iff_exists'.mp fun he => by simp [he, Op.Creates] at ha
    obtain ⟨hu, hl⟩ := hs.call (c := .create (some k)) (not_exists_of_fresh hf)
    refine ⟨hreg, hu, hl.trans ?_⟩
    ext g
    simp [QueueCall.apply, exists_create, or_comm]
  | insert | moveConstruct | selfAssign | moveAssign | discard | lock | unlock =>
    exact ⟨hreg, hs.used, hs.live⟩
  | destroy x k hm hx =>
    have howner : s.owner x = some (some k) := by simp [State.owner, hx, Subscriber.owns]
    have hin : some k ∈ s.queues := hs.registered.registered _ ⟨x, howner⟩
    obtain ⟨hu, hl⟩ := hs.call (c := .delete (some k)) ⟨k, hs.registered.exist _ hin, rfl⟩
    simp only [State.unsubscribe, hin, ↓reduceIte] at hreg ⊢
    refine ⟨hreg, hu, hl.trans ?_⟩
    ext g
    simp [QueueCall.apply, exists_delete]
  | send data q qs hm =>
    have hin : q ∈ s.queues := (hs.registered.loop data _ hm).subset (by simp)
    have hex := hs.registered.exist q hin
    obtain ⟨k, items, rfl, hk⟩ := hex
    obtain ⟨hu, hl⟩ := hs.call (c := .send (some k)) ⟨k, hs.registered.exist _ hin, rfl⟩
    refine ⟨hreg, hu, hl.trans ?_⟩
    ext g
    simp [QueueCall.apply, exists_send]
  | wait x o items kernel hx hr =>
    obtain ⟨q, hq⟩ := Option.ne_none_iff_exists'.mp hok
    have hqo : o.queue = q := by
      simp only [State.owner, hx, Option.bind_some, Subscriber.owns] at hq
      split at hq <;> simp_all
    have hex := hs.registered.exist q (hs.registered.registered q ⟨x, hq⟩)
    obtain ⟨k, items', rfl, hk⟩ := hex
    rw [hqo] at hr ⊢
    obtain ⟨hu, hl⟩ := hs.call (c := .receive (some k)) ⟨k, ⟨k, items', rfl, hk⟩, rfl⟩
    refine ⟨?_, hu, hl.trans ?_⟩
    · rwa [hqo] at hreg
    · ext g
      simp [QueueCall.apply, exists_receive hr]

/-- The one operation that deletes a queue is the destructor of its owner. -/
theorem Registered.delete_owner {depth : Nat} {s t : State T X H} {a : Op T X H}
    (hs : Registered s) {q : QueueHandle H} {x : X} (h : s.step depth a = some t)
    (hcall : t.calls = s.calls ++ [.delete q]) (hx : s.owner x = some q) : a = .destroy x := by
  cases State.steps_of_step h with
  | destroy y k hm hy =>
    have howner : s.owner y = some (some k) := by simp [State.owner, hy, Subscriber.owns]
    have hin : some k ∈ s.queues := hs.registered _ ⟨y, howner⟩
    simp only [State.unsubscribe, hin, ↓reduceIte] at hcall
    have hq : some k = q := by simpa using hcall
    rw [hs.exclusive x y q hx (hq ▸ howner)]
  | _ => simp [State.moveSubscriber] at hcall

/-- Queues are used between their creation and their deletion only, deleted
once, and not while anybody but the dying Subscriber owns them. -/
theorem queue_lifetime (depth : Nat) {as : List (Op T X H)} {s : State T X H}
    (hc : ∀ a ∈ as, a.Creates) (hok : Meets (State.step depth) WaitsOwned State.init as)
    (h : run (State.step depth) State.init as = some s) :
    WellUsed ∅ s.calls ∧
    (∀ k, s.calls.count (.delete (some k)) ≤ s.calls.count (.create (some k))) ∧
    (∀ x q, s.owner x = some q → Exists s.kernel q) ∧
    ∀ a t q, s.step depth a = some t → t.calls = s.calls ++ [.delete q] →
      ∀ x, s.owner x = some q → a = .destroy x := by
  have hs : Sound s :=
    run_meets (fun s a t hi hok ht => hi.step hok.1 hok.2 ht) Sound.init (hok.and_left hc) h
  refine ⟨hs.used, fun k => (wellUsed_count hs.used k).1 (by simp), fun x q hx => ?_, ?_⟩
  · exact hs.registered.exist q (hs.registered.registered q ⟨x, hx⟩)
  · intro a t q ht hcall x hx
    exact hs.registered.delete_owner ht hcall hx

def reuse : List (Op Char Nat Nat) :=
  [.create 0 (some 7), .insert 0, .moveAssign 0 0, .moveConstruct 1 0, .destroy 1,
    .create 2 (some 7), .lock '1', .unlock, .insert 2, .destroy 0, .lock '2', .send, .unlock,
    .wait 2, .destroy 2]

theorem queue_lifetime_reuse :
    ∃ s, run (State.step 1) State.init reuse = some s ∧ WellUsed ∅ s.calls := by
  have hok : Meets (State.step 1) WaitsOwned State.init reuse := by
    repeat
      refine (meets_cons rfl).mpr ⟨?_, ?_⟩
      · first | trivial | exact fun h => by cases h
    trivial
  have hc : ∀ a ∈ reuse, a.Creates := by simp [reuse, Op.Creates]
  exact ⟨_, rfl, (queue_lifetime 1 hc hok rfl).1⟩

/-- Which Subscribers were the source of a move since they got their value. -/
def movedAfter (moved : X → Bool) : Op T X H → X → Bool
  | .insert x => Function.update moved x false
  | .moveConstruct dst src => Function.update (Function.update moved src true) dst false
  | .moveAssign dst src =>
      if dst = src then moved else Function.update (Function.update moved src true) dst false
  | _ => moved

def WaitsUnmoved : (X → Bool) → List (Op T X H) → Prop
  | _, [] => True
  | moved, a :: as => (∀ x, a = .wait x → moved x = false) ∧ WaitsUnmoved (movedAfter moved a) as

/-- The third Subscriber is never moved from, but it was made from one that
was, and waits on the stale handle it got there. -/
def staleWait : List (Op Char Nat Nat) :=
  [.create 0 (some 7), .insert 0, .moveConstruct 1 0, .moveConstruct 2 0, .destroy 1, .wait 2]

theorem staleWait_misuses :
    (∀ a ∈ staleWait, a.Creates) ∧ WaitsUnmoved (fun _ => false) staleWait ∧
      ∃ s, run (State.step 1) State.init staleWait = some s ∧ ¬ WellUsed ∅ s.calls := by
  refine ⟨by simp [staleWait, Op.Creates], ?_, _, rfl, ?_⟩
  · simp [staleWait, WaitsUnmoved, movedAfter]
  · change ¬ WellUsed ∅ [.create (some 7), .delete (some 7), .receive (some 7)]
    simp [WellUsed, QueueCall.Valid, QueueCall.apply]

end Thermometer.Publisher
