import Thermometer.OtaTask

namespace Thermometer.OtaTask

open Thermometer.ParseVersion

/-- A round with what the server and the calls answer. The flag tells whether
the device comes up with the new image after a restart. -/
structure Round where
  results : Results
  boots : Bool

def afterRound (running : List Char) (round : Round) : List Char :=
  if .restart ∈ doOta running round.results ∧ round.boots = true then round.results.version
  else running

/-- The changes of the running version in a run of the task, each with the
version before and after it. -/
def changes (running : List Char) : List Round → List (List Char × List Char)
  | [] => []
  | round :: rest =>
      if afterRound running round = running then changes running rest
      else (running, afterRound running round) :: changes (afterRound running round) rest

def installed (running : List Char) (rounds : List Round) : List (List Char) :=
  (changes running rounds).map Prod.snd

theorem newer_of_finish {running : List Char} {r : Results} {err : EspErr}
    (h : .finish err ∈ doOta running r) : Newer running r.version := by
  by_cases hd : Downloads running r
  · exact (isNewerVersion_iff _ _).mp hd.2.2
  · exact absurd (doOta_of_not_downloads hd _ h) (by simp)

theorem newer_of_restart {running : List Char} {r : Results} (h : .restart ∈ doOta running r) :
    Newer running r.version := by
  by_cases hd : Downloads running r
  · exact (isNewerVersion_iff _ _).mp hd.2.2
  · exact absurd (doOta_of_not_downloads hd _ h) (by simp)

theorem afterRound_newer (running : List Char) (round : Round)
    (h : afterRound running round ≠ running) : Newer running (afterRound running round) := by
  unfold afterRound at h ⊢
  split at h
  · rename_i hr
    rw [if_pos hr]
    exact newer_of_restart hr.1
  · exact absurd rfl h

theorem changes_newer (running : List Char) (rounds : List Round) :
    ∀ p ∈ changes running rounds, Newer p.1 p.2 := by
  induction rounds generalizing running with
  | nil => simp [changes]
  | cons round rest ih =>
    intro p hp
    simp only [changes] at hp
    split at hp
    · exact ih running p hp
    · rename_i hne
      obtain rfl | hp := List.mem_cons.mp hp
      · exact afterRound_newer running round hne
      · exact ih _ p hp

theorem installed_newer (running : List Char) (rounds : List Round) :
    ∀ new ∈ installed running rounds, Newer running new := by
  induction rounds generalizing running with
  | nil => simp [installed, changes]
  | cons round rest ih =>
    intro new hnew
    simp only [installed, changes] at hnew
    split at hnew
    · exact ih running new hnew
    · rename_i hne
      have hfirst := afterRound_newer running round hne
      obtain rfl | hnew := List.mem_cons.mp hnew
      · exact hfirst
      · exact hfirst.trans (ih _ new hnew)

theorem installed_pairwise (running : List Char) (rounds : List Round) :
    (installed running rounds).Pairwise Newer := by
  induction rounds generalizing running with
  | nil => exact List.Pairwise.nil
  | cons round rest ih =>
    simp only [installed, changes]
    split
    · exact ih running
    · exact List.pairwise_cons.mpr ⟨installed_newer _ rest, ih _⟩

/-- Updates never go backwards or round in a circle: each change goes from a
version that parses to a strictly greater one, so the installed versions
increase, are greater than the first one, and no triple comes twice. An image
whose version does not parse is not even finished. -/
theorem updates_increase (running : List Char) (rounds : List Round) :
    (∀ p ∈ changes running rounds, Newer p.1 p.2) ∧
    (∀ new ∈ installed running rounds, Newer running new) ∧
    (installed running rounds).Pairwise Newer ∧
    ((installed running rounds).map parseVersion).Nodup ∧
    ∀ current r err, parseVersion r.version = none → .finish err ∉ doOta current r := by
  refine ⟨changes_newer running rounds, installed_newer running rounds,
    installed_pairwise running rounds, ?_, fun current r err hnone hf => ?_⟩
  · apply List.pairwise_map.mpr ((installed_pairwise running rounds).imp _)
    rintro old new ⟨v, w, hv, hw, hlt⟩ heq
    obtain rfl : v = w := Option.some.inj (hv.symm.trans (heq.trans hw))
    exact lt_irrefl _ hlt
  · obtain ⟨_, w, _, hw, _⟩ := newer_of_finish hf
    exact absurd (hnone.symm.trans hw) (by simp)

end Thermometer.OtaTask
