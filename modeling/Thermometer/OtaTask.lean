import Thermometer.EspErr
import Thermometer.ParseVersion

namespace Thermometer.OtaTask

open Thermometer.ParseVersion

def espErrHttpsOtaInProgress : EspErr := 0x9001

/-- What the calls of one round return. The list holds the results of
`esp_https_ota_perform` in order, as far as the download has got. -/
structure Results where
  begun : EspErr
  imgDesc : EspErr
  version : List Char
  perform : List EspErr
  finish : EspErr

/-- The calls `do_ota` makes, with what they returned. -/
inductive Call where
  | otaBegin (err : EspErr)
  | getImgDesc (err : EspErr)
  | abort
  | perform (err : EspErr)
  | finish (err : EspErr)
  | restart
  deriving DecidableEq

/-- The download loop, which goes on while the download is in progress. It
yields its calls and, once it has ended, the error code it ended with. -/
def performLoop : List EspErr → List Call × Option EspErr
  | [] => ([], none)
  | err :: rest =>
      if err ≠ espErrHttpsOtaInProgress then ([.perform err], some err)
      else (.perform err :: (performLoop rest).1, (performLoop rest).2)

/-- "Cleanup and Reboot", once the download has ended. Its error code is
overwritten by that of `esp_https_ota_finish`, without a look at it. -/
def cleanup (r : Results) : Option EspErr → List Call
  | none => []
  | some _ => .finish r.finish :: if r.finish = espOk then [.restart] else []

def doOta (runningVersion : List Char) (r : Results) : List Call :=
  .otaBegin r.begun ::
    if r.begun ≠ espOk then []
    else
      .getImgDesc r.imgDesc ::
        if r.imgDesc ≠ espOk then [.abort]
        else if ! isNewerVersion r.version runningVersion then [.abort]
        else
          (performLoop r.perform).1 ++ cleanup r (performLoop r.perform).2

def performs (calls : List Call) : List EspErr :=
  calls.filterMap fun c => match c with
    | .perform err => some err
    | _ => none

def lastPerform (calls : List Call) : Option EspErr := (performs calls).getLast?

/-- The round finishes and restarts after a complete download only, and aborts
the session when the download ended with an error. -/
structure CompleteOnly (calls : List Call) : Prop where
  finish : ∀ err, .finish err ∈ calls → lastPerform calls = some espOk
  restart : .restart ∈ calls → lastPerform calls = some espOk
  abort : ∀ err, lastPerform calls = some err → err ≠ espErrHttpsOtaInProgress → err ≠ espOk →
    .abort ∈ calls ∧ .restart ∉ calls

def Downloads (runningVersion : List Char) (r : Results) : Prop :=
  r.begun = espOk ∧ r.imgDesc = espOk ∧ isNewerVersion r.version runningVersion = true

def downloadResult (perform : List EspErr) : Option EspErr :=
  perform.find? (fun err => decide (err ≠ espErrHttpsOtaInProgress))

theorem performs_append (xs ys : List Call) : performs (xs ++ ys) = performs xs ++ performs ys :=
  List.filterMap_append

theorem performs_cleanup (r : Results) (ended : Option EspErr) :
    performs (cleanup r ended) = [] := by
  cases ended with
  | none => rfl
  | some err =>
    simp only [cleanup]
    split <;> rfl

theorem performLoop_result (perform : List EspErr) :
    (performLoop perform).2 = downloadResult perform := by
  induction perform with
  | nil => rfl
  | cons err rest ih =>
    by_cases h : err = espErrHttpsOtaInProgress
    · simpa [performLoop, downloadResult, h] using ih
    · simp [performLoop, downloadResult, h]

theorem performLoop_mem {perform : List EspErr} {c : Call} (h : c ∈ (performLoop perform).1) :
    ∃ err, c = .perform err := by
  induction perform with
  | nil => simp [performLoop] at h
  | cons err rest ih =>
    simp only [performLoop] at h
    split at h
    · exact ⟨err, List.mem_singleton.mp h⟩
    · obtain h | h := List.mem_cons.mp h
      · exact ⟨err, h⟩
      · exact ih h

/-- The last result is the one the loop ended with, and in progress as long as
the loop has not ended. -/
theorem performLoop_last (perform : List EspErr) :
    (∀ err, downloadResult perform = some err →
      (performs (performLoop perform).1).getLast? = some err) ∧
    (downloadResult perform = none →
      ∀ err ∈ performs (performLoop perform).1, err = espErrHttpsOtaInProgress) := by
  induction perform with
  | nil => simp [downloadResult, performLoop, performs]
  | cons err rest ih =>
    by_cases h : err = espErrHttpsOtaInProgress
    · have hp : performs (performLoop (err :: rest)).1 = err :: performs (performLoop rest).1 := by
        simp [performLoop, performs, h]
      have hd : downloadResult (err :: rest) = downloadResult rest := by
        simp [downloadResult, h]
      rw [hp, hd]
      refine ⟨fun e he => ?_, fun hn e he => ?_⟩
      · rw [List.getLast?_cons, ih.1 e he]
        rfl
      · obtain rfl | he := List.mem_cons.mp he
        · exact h
        · exact ih.2 hn e he
    · have hp : performs (performLoop (err :: rest)).1 = [err] := by
        simp [performLoop, performs, h]
      have hd : downloadResult (err :: rest) = some err := by
        simp [downloadResult, h]
      rw [hp, hd]
      simp

theorem doOta_of_downloads {runningVersion : List Char} {r : Results}
    (h : Downloads runningVersion r) :
    doOta runningVersion r = [.otaBegin r.begun, .getImgDesc r.imgDesc] ++
      (performLoop r.perform).1 ++ cleanup r (downloadResult r.perform) := by
  obtain ⟨hb, hd, hn⟩ := h
  simp [doOta, hb, hd, hn, performLoop_result]

theorem doOta_of_not_downloads {runningVersion : List Char} {r : Results}
    (h : ¬ Downloads runningVersion r) :
    ∀ c ∈ doOta runningVersion r, c = .otaBegin r.begun ∨ c = .getImgDesc r.imgDesc ∨ c = .abort := by
  intro c hc
  by_cases hbegun : r.begun = espOk
  · by_cases hdesc : r.imgDesc = espOk
    · have hnewer : isNewerVersion r.version runningVersion = false :=
        Bool.eq_false_iff.mpr fun hnewer => h ⟨hbegun, hdesc, hnewer⟩
      simpa [doOta, hbegun, hdesc, hnewer] using hc
    · simpa [doOta, hbegun, hdesc] using hc
  · apply Or.inl
    simpa [doOta, hbegun] using hc

theorem completeOnly_of_not_downloads {runningVersion : List Char} {r : Results}
    (h : ¬ Downloads runningVersion r) : CompleteOnly (doOta runningVersion r) := by
  have hcalls := doOta_of_not_downloads h
  have hlast : lastPerform (doOta runningVersion r) = none := by
    simp only [lastPerform, List.getLast?_eq_none_iff, performs, List.filterMap_eq_nil_iff]
    intro c hc
    obtain rfl | rfl | rfl := hcalls c hc <;> rfl
  refine ⟨fun err he => ?_, fun he => ?_, fun err he => by simp [hlast] at he⟩
  · simpa using hcalls _ he
  · simpa using hcalls _ he

theorem lastPerform_of_downloads {runningVersion : List Char} {r : Results}
    (h : Downloads runningVersion r) :
    lastPerform (doOta runningVersion r) = (performs (performLoop r.perform).1).getLast? := by
  rw [lastPerform, doOta_of_downloads h, performs_append, performs_append, performs_cleanup,
    List.append_nil]
  rfl

/-- A round keeps to complete downloads exactly when its download, if it gets
there and if it ends, ends without an error. -/
theorem completeOnly_iff (runningVersion : List Char) (r : Results) :
    CompleteOnly (doOta runningVersion r) ↔
      (Downloads runningVersion r → ∀ err, downloadResult r.perform = some err → err = espOk) := by
  constructor
  · intro hc hd err he
    have hin : .finish r.finish ∈ doOta runningVersion r := by
      simp [doOta_of_downloads hd, he, cleanup]
    have hlast := hc.finish r.finish hin
    rw [lastPerform_of_downloads hd, (performLoop_last r.perform).1 err he] at hlast
    exact Option.some.inj hlast
  · intro hok
    by_cases hd : Downloads runningVersion r
    · have hlast := lastPerform_of_downloads hd
      cases he : downloadResult r.perform with
      | none =>
        have hmem : ∀ c ∈ doOta runningVersion r,
            c = .otaBegin r.begun ∨ c = .getImgDesc r.imgDesc ∨ ∃ err, c = .perform err := by
          intro c hc
          rw [doOta_of_downloads hd, he] at hc
          simp only [cleanup, List.append_nil, List.mem_append, List.mem_cons, List.not_mem_nil,
            or_false] at hc
          obtain (hc | hc) | hc := hc
          · exact .inl hc
          · exact .inr (.inl hc)
          · exact .inr (.inr (performLoop_mem hc))
        refine ⟨fun err hf => by simpa using hmem _ hf, fun hr => by simpa using hmem _ hr, ?_⟩
        intro err hl hne
        rw [hlast] at hl
        exact absurd ((performLoop_last r.perform).2 he err (List.mem_of_getLast? hl)) hne
      | some err =>
        have hl : lastPerform (doOta runningVersion r) = some espOk := by
          rw [hlast, (performLoop_last r.perform).1 err he, hok hd err he]
        refine ⟨fun _ _ => hl, fun _ => hl, fun e hl' _ hne => ?_⟩
        exact absurd (Option.some.inj (hl'.symm.trans hl)) hne
    · exact completeOnly_of_not_downloads hd

def brokenDownload : Results where
  begun := espOk
  imgDesc := espOk
  version := "0.0.31".toList
  perform := [espErrHttpsOtaInProgress, -1]
  finish := espOk

/-- The session is finished and the device restarts, and nothing is aborted. -/
theorem brokenDownload_restarts :
    lastPerform (doOta "0.0.30".toList brokenDownload) = some (-1) ∧
      .restart ∈ doOta "0.0.30".toList brokenDownload ∧
      ¬ CompleteOnly (doOta "0.0.30".toList brokenDownload) := by
  have hlast : lastPerform (doOta "0.0.30".toList brokenDownload) = some (-1) := by decide
  have hin : .restart ∈ doOta "0.0.30".toList brokenDownload := by decide
  refine ⟨hlast, hin, fun hc => ?_⟩
  have hok := hc.restart hin
  rw [hlast] at hok
  exact absurd hok (by decide)

end Thermometer.OtaTask
