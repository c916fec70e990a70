import Mathlib.Data.List.Basic

namespace Thermometer.BoundedFifo

variable {T : Type*}

inductive Event (T : Type*) where
  | put (item : T)
  | take

/-- What was taken out so far, and what still waits. -/
structure Inbox (T : Type*) where
  received : List T
  pending : List T

def Inbox.empty : Inbox T := ⟨[], []⟩

def Inbox.contents (b : Inbox T) : List T := b.received ++ b.pending

/-- A full inbox drops the newest item. Nothing is taken out of an empty one. -/
def Inbox.step (depth : Nat) (b : Inbox T) : Event T → Inbox T
  | .put item => if b.pending.length < depth then { b with pending := b.pending ++ [item] } else b
  | .take =>
      match b.pending with
      | [] => b
      | item :: rest => ⟨b.received ++ [item], rest⟩

def fold (depth : Nat) (events : List (Event T)) : Inbox T :=
  events.foldl (Inbox.step depth) Inbox.empty

def puts (events : List (Event T)) : List T :=
  events.filterMap fun
    | .put item => some item
    | .take => none

def accepted (depth : Nat) : Inbox T → List (Event T) → List T
  | _, [] => []
  | b, .put item :: events =>
      if b.pending.length < depth then item :: accepted depth (b.step depth (.put item)) events
      else accepted depth (b.step depth (.put item)) events
  | b, .take :: events => accepted depth (b.step depth .take) events

theorem contents_take (depth : Nat) (b : Inbox T) : (b.step depth .take).contents = b.contents := by
  obtain ⟨received, pending⟩ := b
  cases pending with
  | nil => rfl
  | cons item rest => simp [Inbox.step, Inbox.contents]

/-- What was received and what is pending are together the accepted items, in order. -/
theorem contents_foldl (depth : Nat) (b : Inbox T) (events : List (Event T)) :
    (events.foldl (Inbox.step depth) b).contents = b.contents ++ accepted depth b events := by
  induction events generalizing b with
  | nil => exact (List.append_nil _).symm
  | cons event events ih =>
    rw [List.foldl_cons, ih]
    cases event with
    | take => rw [contents_take, accepted]
    | put item =>
      rw [accepted]
      split
      next h => simp [Inbox.step, h, Inbox.contents]
      next h => simp [Inbox.step, h]

theorem accepted_sublist (depth : Nat) (b : Inbox T) (events : List (Event T)) :
    (accepted depth b events).Sublist (puts events) := by
  induction events generalizing b with
  | nil => exact List.Sublist.refl _
  | cons event events ih =>
    cases event with
    | take => exact ih _
    | put item =>
      rw [accepted]
      split
      · exact (ih _).cons_cons item
      · exact (ih _).cons item

theorem pending_le {depth : Nat} {b : Inbox T} (h : b.pending.length ≤ depth)
    (events : List (Event T)) : (events.foldl (Inbox.step depth) b).pending.length ≤ depth := by
  induction events generalizing b with
  | nil => exact h
  | cons event events ih =>
    apply ih
    cases event with
    | take =>
      obtain ⟨received, pending⟩ := b
      cases pending with
      | nil => exact h
      | cons item rest =>
        rw [List.length_cons] at h
        exact Nat.le_of_succ_le h
    | put item =>
      rw [Inbox.step]
      split
      · simp only [List.length_append, List.length_singleton]
        omega
      · exact h

theorem fold_concat (depth : Nat) (events : List (Event T)) (event : Event T) :
    fold depth (events ++ [event]) = (fold depth events).step depth event :=
  List.foldl_concat ..

theorem take_cons {depth : Nat} {b : Inbox T} {item : T} {rest : List T}
    (h : b.pending = item :: rest) : b.step depth .take = ⟨b.received ++ [item], rest⟩ := by
  rw [Inbox.step, h]

theorem received_put (depth : Nat) (b : Inbox T) (item : T) :
    (b.step depth (.put item)).received = b.received := by
  rw [Inbox.step]
  split <;> rfl

theorem puts_append (events events' : List (Event T)) :
    puts (events ++ events') = puts events ++ puts events' :=
  List.filterMap_append

/-- An item is lost only if as many items as there is room for were pending. -/
theorem put_dropped {depth : Nat} {events : List (Event T)} {item : T}
    (h : (fold depth (events ++ [.put item])).contents ≠ (fold depth events).contents ++ [item]) :
    (fold depth events).pending.length = depth := by
  have hle : (fold depth events).pending.length ≤ depth := pending_le (Nat.zero_le depth) events
  by_contra hne
  apply h
  rw [fold_concat, Inbox.step, if_pos (by omega)]
  simp [Inbox.contents]

end Thermometer.BoundedFifo
