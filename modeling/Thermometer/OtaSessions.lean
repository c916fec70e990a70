import Thermometer.OtaUpdates
import Thermometer.Transition

namespace Thermometer.OtaTask

open Thermometer.ParseVersion Thermometer.Transition

/-- The life of a handle of `esp_https_ota`, as its driver wants it used. -/
inductive Session where
  | closed | opened | described | downloading | downloaded | updated
  deriving DecidableEq

/-- `esp_https_ota_finish` belongs to a download that has ended, and `esp_https_ota_abort`
to one that has not begun. Both release the handle. -/
def Session.step : Session → Call → Option Session
  | .closed, .otaBegin err => some (if err = espOk then .opened else .closed)
  | .opened, .getImgDesc err => some (if err = espOk then .described else .opened)
  | .opened, .abort => some .closed
  | .described, .abort => some .closed
  | .described, .perform err =>
      some (if err = espErrHttpsOtaInProgress then .downloading else .downloaded)
  | .downloading, .perform err =>
      some (if err = espErrHttpsOtaInProgress then .downloading else .downloaded)
  | .downloaded, .finish err => some (if err = espOk then .updated else .closed)
  | .updated, .restart => some .closed
  | _, _ => none

/-- The call of `do_ota` comes to its end. A download may go on for ever. -/
def returns (runningVersion : List Char) (r : Results) : Bool :=
  if r.begun ≠ espOk then true
  else if r.imgDesc ≠ espOk then true
  else if ! isNewerVersion r.version runningVersion then true
  else (performLoop r.perform).2.isSome

/-- The calls of `ota_task`, over the restarts of the device. A round that does not
return is the last one. -/
def otaTask (running : List Char) : List Round → List Call
  | [] => []
  | round :: rest =>
      doOta running round.results ++
        if returns running round.results then otaTask (afterRound running round) rest else []

def Session.InDownload (s : Session) : Prop := s = .described ∨ s = .downloading

theorem performLoop_session {s : Session} (hs : s.InDownload) (perform : List EspErr) :
    ∃ t, run Session.step s (performLoop perform).1 = some t ∧
      ((performLoop perform).2.isSome = true → t = .downloaded) ∧
      ((performLoop perform).2 = none → t.InDownload) := by
  induction perform generalizing s with
  | nil => exact ⟨s, rfl, by simp [performLoop], fun _ => hs⟩
  | cons err rest ih =>
    have hperform : s.step (.perform err) =
        some (if err = espErrHttpsOtaInProgress then .downloading else .downloaded) := by
      obtain rfl | rfl := hs <;> rfl
    by_cases hgo : err = espErrHttpsOtaInProgress
    · rw [if_pos hgo] at hperform
      obtain ⟨t, ht, hend, hnot⟩ := ih (s := .downloading) (.inr rfl)
      have hloop : performLoop (err :: rest) =
          (.perform err :: (performLoop rest).1, (performLoop rest).2) := if_neg (by simp [hgo])
      rw [hloop]
      exact ⟨t, run_cons.mpr ⟨_, hperform, ht⟩, hend, hnot⟩
    · rw [if_neg hgo] at hperform
      have hloop : performLoop (err :: rest) = ([.perform err], some err) := if_pos hgo
      rw [hloop]
      exact ⟨.downloaded, run_singleton hperform, fun _ => rfl, by simp⟩

theorem cleanup_session (r : Results) {ended : Option EspErr} (hended : ended.isSome = true) :
    run Session.step .downloaded (cleanup r ended) = some .closed := by
  obtain ⟨err, rfl⟩ := Option.isSome_iff_exists.mp hended
  by_cases hfinish : r.finish = espOk
  · simp [cleanup, run, Session.step, hfinish]
  · simp [cleanup, run, Session.step, hfinish]

/-- One case for each way out of `do_ota`. -/
theorem doOta_session (running : List Char) (r : Results) :
    ∃ s, run Session.step .closed (doOta running r) = some s ∧
      (returns running r = true → s = .closed) ∧ (returns running r = false → s.InDownload) := by
  by_cases hbegun : r.begun = espOk
  · have hopened : Session.step .closed (.otaBegin r.begun) = some .opened := by
      simp [Session.step, hbegun]
    by_cases hdesc : r.imgDesc = espOk
    · have hdescribed : Session.step .opened (.getImgDesc r.imgDesc) = some .described := by
        simp [Session.step, hdesc]
      by_cases hnewer : isNewerVersion r.version running = true
      · obtain ⟨s, hs, hend, hgoing⟩ := performLoop_session (.inl rfl) r.perform
        have hcalls : doOta running r = .otaBegin r.begun :: .getImgDesc r.imgDesc ::
            ((performLoop r.perform).1 ++ cleanup r (performLoop r.perform).2) := by
          simp [doOta, hbegun, hdesc, hnewer]
        have hreturns : returns running r = (performLoop r.perform).2.isSome := by
          simp [returns, hbegun, hdesc, hnewer]
        rw [hcalls, hreturns]
        cases hlast : (performLoop r.perform).2 with
        | none =>
          refine ⟨s, run_cons.mpr ⟨_, hopened, run_cons.mpr ⟨_, hdescribed, ?_⟩⟩, by simp,
            fun _ => hgoing hlast⟩
          simpa [cleanup] using hs
        | some err =>
          obtain rfl := hend (by simp [hlast])
          exact ⟨.closed, run_cons.mpr ⟨_, hopened, run_cons.mpr ⟨_, hdescribed,
            run_append hs (cleanup_session r rfl)⟩⟩, fun _ => rfl, by simp⟩
      · have hcalls : doOta running r = [.otaBegin r.begun, .getImgDesc r.imgDesc, .abort] := by
          simp [doOta, hbegun, hdesc, hnewer]
        rw [hcalls]
        exact ⟨.closed, run_cons.mpr ⟨_, hopened, run_cons.mpr ⟨_, hdescribed, rfl⟩⟩, fun _ => rfl,
          by simp [returns, hnewer]⟩
    · have hcalls : doOta running r = [.otaBegin r.begun, .getImgDesc r.imgDesc, .abort] := by
        simp [doOta, hbegun, hdesc]
      have hopen : Session.step .opened (.getImgDesc r.imgDesc) = some .opened := by
        simp [Session.step, hdesc]
      rw [hcalls]
      exact ⟨.closed, run_cons.mpr ⟨_, hopened, run_cons.mpr ⟨_, hopen, rfl⟩⟩, fun _ => rfl,
        by simp [returns, hdesc]⟩
  · have hclosed : Session.step .closed (.otaBegin r.begun) = some .closed := by
      simp [Session.step, hbegun]
    have hcalls : doOta running r = [.otaBegin r.begun] := by simp [doOta, hbegun]
    rw [hcalls]
    exact ⟨.closed, run_singleton hclosed, fun _ => rfl, by simp [returns, hbegun]⟩

def Call.opens : Call → Bool
  | .otaBegin err => err = espOk
  | _ => false

def Call.closes : Call → Bool
  | .abort | .finish _ => true
  | _ => false

def Session.held : Session → Nat
  | .closed | .updated => 0
  | .opened | .described | .downloading | .downloaded => 1

theorem held_step {s t : Session} {c : Call} (h : s.step c = some t) :
    s.held + (if c.opens then 1 else 0) = t.held + (if c.closes then 1 else 0) := by
  cases s <;> cases c <;> simp only [Session.step, Option.some.injEq, reduceCtorEq] at h <;>
    subst t <;> simp only [Call.opens, Call.closes, apply_ite Session.held] <;> simp [Session.held]

/-- `ota_task` keeps to the contract of the driver in every run of any length, with any
results of the calls and over the restarts in between: no handle is used before it is
opened or after it is released, none is opened while another one is, all are released
but that of a download that still goes on, and a restart follows a successful finish. -/
theorem otaTask_sessions (running : List Char) (rounds : List Round) :
    ∃ s, run Session.step .closed (otaTask running rounds) = some s ∧
      (s = .closed ∨ s.InDownload) ∧
      (otaTask running rounds).countP Call.opens =
        s.held + (otaTask running rounds).countP Call.closes := by
  have hrun : ∃ s, run Session.step .closed (otaTask running rounds) = some s ∧
      (s = .closed ∨ s.InDownload) := by
    induction rounds generalizing running with
    | nil => exact ⟨.closed, rfl, .inl rfl⟩
    | cons round rest ih =>
      obtain ⟨s, hs, hreturned, hgoing⟩ := doOta_session running round.results
      rw [otaTask]
      by_cases hreturns : returns running round.results = true
      · obtain rfl := hreturned hreturns
        obtain ⟨t, ht, hlast⟩ := ih (afterRound running round)
        rw [if_pos hreturns]
        exact ⟨t, run_append hs ht, hlast⟩
      · rw [if_neg hreturns, List.append_nil]
        exact ⟨s, hs, .inr (hgoing (by simpa using hreturns))⟩
  obtain ⟨s, hs, hlast⟩ := hrun
  refine ⟨s, hs, hlast, ?_⟩
  simpa [Session.held] using
    run_balance Session.held Call.opens Call.closes (fun _ _ _ => held_step) hs

structure Installs (round : Round) : Prop where
  begun : round.results.begun = espOk
  imgDesc : round.results.imgDesc = espOk
  download : downloadResult round.results.perform = some espOk
  finish : round.results.finish = espOk
  boots : round.boots = true

theorem Installs.afterRound {running : List Char} {round : Round} (h : Installs round)
    (hnewer : Newer running round.results.version) :
    afterRound running round = round.results.version := by
  have hdownloads : Downloads running round.results :=
    ⟨h.begun, h.imgDesc, (isNewerVersion_iff _ _).mpr hnewer⟩
  have hrestart : .restart ∈ doOta running round.results := by
    rw [doOta_of_downloads hdownloads, h.download]
    simp [cleanup, h.finish]
  exact if_pos ⟨hrestart, h.boots⟩

def latest (running : List Char) (rounds : List Round) : List Char :=
  rounds.foldl afterRound running

theorem afterRound_eq_or (running : List Char) (round : Round) :
    afterRound running round = running ∨ afterRound running round = round.results.version := by
  unfold OtaTask.afterRound
  split
  · exact .inr rfl
  · exact .inl rfl

theorem latest_offered (running : List Char) (rounds : List Round) :
    latest running rounds = running ∨
      ∃ round ∈ rounds, latest running rounds = round.results.version := by
  induction rounds generalizing running with
  | nil => exact .inl rfl
  | cons round rest ih =>
    obtain hsame | ⟨later, hlater, heq⟩ := ih (afterRound running round)
    · obtain hkept | hnew := afterRound_eq_or running round
      · exact .inl (hsame.trans hkept)
      · exact .inr ⟨round, List.mem_cons_self, hsame.trans hnew⟩
    · exact .inr ⟨later, List.mem_cons_of_mem _ hlater, heq⟩

theorem afterRound_le {running : List Char} {v : Version} (hv : parseVersion running = some v)
    (round : Round) :
    ∃ u, parseVersion (afterRound running round) = some u ∧ v.triple ≤ u.triple ∧
      (Installs round → ∀ x, parseVersion round.results.version = some x →
        x.triple ≤ u.triple) := by
  by_cases hkept : afterRound running round = running
  · rw [hkept]
    refine ⟨v, hv, le_refl _, fun hinstalls x hx => not_lt.mp fun hlt => ?_⟩
    have hsame : running = round.results.version :=
      hkept.symm.trans (hinstalls.afterRound ⟨v, x, hv, hx, hlt⟩)
    rw [hsame, hx] at hv
    obtain rfl := Option.some.inj hv
    exact lt_irrefl _ hlt
  · have hnew := (afterRound_eq_or running round).resolve_left hkept
    obtain ⟨v', u, hv', hu, hlt⟩ := afterRound_newer running round hkept
    obtain rfl : v = v' := Option.some.inj (hv.symm.trans hv')
    refine ⟨u, hu, hlt.le, fun _ x hx => ?_⟩
    rw [hnew, hx] at hu
    obtain rfl := Option.some.inj hu
    exact le_refl _

/-- In the end the device runs a version that it ran from the start or was offered, and
that is as great as its first one and as every version offered in a round that went
through, whatever the results of the other rounds and in whichever order the server
offered them. Without a version of its own that parses it never updates. -/
theorem latest_greatest (running : List Char) (rounds : List Round) :
    (latest running rounds = running ∨
      ∃ round ∈ rounds, latest running rounds = round.results.version) ∧
    (∀ v, parseVersion running = some v →
      ∃ w, parseVersion (latest running rounds) = some w ∧ v.triple ≤ w.triple ∧
        ∀ round ∈ rounds, Installs round →
          ∀ x, parseVersion round.results.version = some x → x.triple ≤ w.triple) ∧
    (parseVersion running = none → latest running rounds = running) := by
  refine ⟨latest_offered running rounds, fun v hv => ?_, fun hnone => ?_⟩
  · induction rounds generalizing running v with
    | nil => exact ⟨v, hv, le_refl _, by simp⟩
    | cons round rest ih =>
      obtain ⟨u, hu, hvu, hoffer⟩ := afterRound_le hv round
      obtain ⟨w, hw, huw, hrest⟩ := ih _ u hu
      refine ⟨w, hw, hvu.trans huw, List.forall_mem_cons.mpr ⟨fun hinstalls x hx => ?_, hrest⟩⟩
      exact (hoffer hinstalls x hx).trans huw
  · induction rounds with
    | nil => rfl
    | cons round rest ih =>
      have hkept : afterRound running round = running := by
        by_contra hchange
        obtain ⟨v, -, hv, -⟩ := afterRound_newer running round hchange
        simp [hnone] at hv
      rw [latest, List.foldl_cons, hkept]
      exact ih

end Thermometer.OtaTask
