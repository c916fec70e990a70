import Mathlib.Logic.Function.Basic

namespace Thermometer.AtomicRegister

variable {D R : Type}

inductive Writer (D : Type) where
  | idle | committed
  | called (d : D)

/-- A call of a reader. The flag tells whether a write overlapped it so far. -/
inductive Reader (D : Type) where
  | idle
  | called (overlapped : Bool)
  | observed (d : D)

/-- A register with one writer, and every call between its two ends. -/
structure State (D R : Type) where
  value : D
  writer : Writer D
  readers : R → Reader D

inductive Op (D R : Type) where
  | callWrite (d : D)
  | commit | endWrite
  | callRead (r : R)
  | observe (r : R)
  | endRead (r : R)
  | refuse (r : R)

inductive Event (D R : Type) where
  | callWrite (d : D)
  | endWrite
  | callRead (r : R)
  | endRead (r : R) (answer : Option D)

def State.init (d : D) : State D R := ⟨d, .idle, fun _ => .idle⟩

def Writer.busy : Writer D → Bool
  | .idle => false
  | _ => true

def Reader.overlap : Reader D → Reader D
  | .called _ => .called true
  | p => p

/-- A write takes effect at `commit` and a read at `observe`, once each and
between the ends of the call. A read may end without an answer, but only when a
write overlapped it. -/
def State.step [DecidableEq R] (s : State D R) : Op D R → Option (State D R)
  | .callWrite d =>
      match s.writer with
      | .idle => some { s with writer := .called d, readers := fun r => (s.readers r).overlap }
      | _ => none
  | .commit =>
      match s.writer with
      | .called d => some { s with value := d, writer := .committed }
      | _ => none
  | .endWrite =>
      match s.writer with
      | .committed => some { s with writer := .idle }
      | _ => none
  | .callRead r =>
      match s.readers r with
      | .idle => some { s with readers := Function.update s.readers r (.called s.writer.busy) }
      | _ => none
  | .observe r =>
      match s.readers r with
      | .called _ => some { s with readers := Function.update s.readers r (.observed s.value) }
      | _ => none
  | .endRead r =>
      match s.readers r with
      | .observed _ => some { s with readers := Function.update s.readers r .idle }
      | _ => none
  | .refuse r =>
      match s.readers r with
      | .called true => some { s with readers := Function.update s.readers r .idle }
      | _ => none

/-- The ends of the calls are what the tasks see. -/
def event (s : State D R) : Op D R → Option (Event D R)
  | .callWrite d => some (.callWrite d)
  | .endWrite => some .endWrite
  | .callRead r => some (.callRead r)
  | .endRead r =>
      match s.readers r with
      | .observed d => some (.endRead r (some d))
      | _ => none
  | .refuse r => some (.endRead r none)
  | .commit | .observe _ => none

end Thermometer.AtomicRegister
