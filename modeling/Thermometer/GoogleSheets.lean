import Thermometer.DevicePosts
import Thermometer.InplaceString

namespace Thermometer.PosterTask

open Thermometer.Transition

def espErrHttpIncompleteData : EspErr := 0x700C

/-- `char buffer[32]`, which is not initialised. -/
abbrev Buffer := Vector UInt8 32

/-- What the calls of one `postToGoogleSheets` return. `read` is what
`esp_http_client_read` puts into a buffer of the given length, or none where it
returns a negative number. -/
structure Response where
  client : Bool
  perform : EspErr
  statusCode : Int
  read : Nat → Option (List UInt8)

inductive HttpCall where
  | init (client : Bool)
  | setHeader (key value : String)
  | setPostField (data : List Char) (size : Nat)
  | perform (err : EspErr)
  | getStatusCode (statusCode : Int)
  | read (size : Nat)
  | cleanup
  deriving DecidableEq

/-- Stores from a position on. There is no result when one is out of bounds. -/
def store (buffer : Buffer) (pos : Nat) : List UInt8 → Option Buffer
  | [] => some buffer
  | c :: rest => if h : pos < 32 then store (buffer.set pos c) (pos + 1) rest else none

/-- `std::string_view(buffer)`, which looks for a NUL. There is no result when it runs
out of the buffer. -/
def viewOfBuffer (buffer : Buffer) : Option (List UInt8) :=
  if 0 ∈ buffer.toList then some (InplaceString.viewOfCString buffer.toList) else none

/-- `std::string_view::find`, with none for `npos`. -/
def find (pattern : List UInt8) : List UInt8 → Option Nat
  | [] => if pattern = [] then some 0 else none
  | c :: text => if pattern <+: c :: text then some 0 else (find pattern text).map (· + 1)

def successText : List UInt8 := [83, 117, 99, 99, 101, 115, 115]

def Response.answered (r : Response) : Bool :=
  r.perform = espOk || r.perform = espErrHttpIncompleteData

def findSuccess (buffer : Buffer) (r : Response) : Option Bool :=
  if r.answered then
    match r.read 31 with
    | some bytes => do
        let buffer ← store buffer 0 bytes
        let buffer ← store buffer bytes.length [0]
        let text ← viewOfBuffer buffer
        return (find successText text).isSome
    | none => some false
  else some false

def postToGoogleSheets (payload : List Char) (buffer : Buffer) (r : Response) :
    Option (List HttpCall × Bool) :=
  if ! r.client then some ([.init false], false)
  else
    (findSuccess buffer r).map fun success =>
      (.init true :: .setHeader "Content-Type" "application/json" ::
        .setPostField payload payload.length :: .perform r.perform ::
        ((if r.answered then [.getStatusCode r.statusCode, .read 31] else []) ++ [.cleanup]),
        success)

def Response.Bounded (r : Response) : Prop := ∀ size bytes, r.read size = some bytes →
  bytes.length ≤ size

def Response.succeeds (r : Response) : Bool :=
  r.client && r.answered &&
    (r.read 31).any fun bytes => successText <:+: InplaceString.viewOfCString bytes

theorem store_eq (buffer : Buffer) (pos : Nat) (bytes : List UInt8) (h : pos + bytes.length ≤ 32) :
    ∃ filled, store buffer pos bytes = some filled ∧
      filled.toList =
        buffer.toList.take pos ++ bytes ++ buffer.toList.drop (pos + bytes.length) := by
  induction bytes generalizing buffer pos with
  | nil => exact ⟨buffer, rfl, by simp⟩
  | cons c rest ih =>
    rw [List.length_cons] at h
    have hpos : pos < 32 := by omega
    obtain ⟨filled, hfilled, heq⟩ := ih (buffer.set pos c) (pos + 1) (by omega)
    refine ⟨filled, by rw [store, dif_pos hpos, hfilled], ?_⟩
    have hlen : pos < buffer.toList.length := by simpa using hpos
    have htake : (buffer.toList.set pos c).take (pos + 1) = buffer.toList.take pos ++ [c] := by
      rw [List.take_add_one, List.take_set_of_le (Nat.le_refl pos), List.getElem?_set_self hlen]
      rfl
    rw [heq, Vector.toList_set, htake, List.drop_set_of_lt (by omega), List.length_cons,
      Nat.add_right_comm, Nat.add_assoc pos, List.append_assoc _ [c], List.singleton_append]

theorem find_isSome_iff {pattern text : List UInt8} :
    (find pattern text).isSome = true ↔ pattern <:+: text := by
  induction text with
  | nil => by_cases h : pattern = [] <;> simp [find, h]
  | cons c text ih =>
    rw [List.infix_cons_iff, ← ih]
    by_cases h : pattern <+: c :: text <;> simp [find, h]

/-- No store and no search leaves the buffer, and what was in it before has no
influence: the NUL stands right behind the bytes that were read. -/
theorem findSuccess_eq (buffer : Buffer) {r : Response} (hr : r.Bounded)
    (hclient : r.client = true) :
    findSuccess buffer r = some r.succeeds := by
  by_cases hanswered : r.answered = true
  · cases hread : r.read 31 with
    | none => simp [findSuccess, Response.succeeds, hanswered, hread]
    | some bytes =>
      have hlen := hr 31 bytes hread
      obtain ⟨filled, hfilled, hbytes⟩ := store_eq buffer 0 bytes (by omega)
      obtain ⟨ended, hended, hend⟩ := store_eq filled bytes.length [0]
        (by rw [List.length_singleton]; omega)
      rw [hbytes, List.take_zero, List.nil_append, List.take_left, List.append_assoc,
        List.singleton_append] at hend
      have hview : viewOfBuffer ended = some (InplaceString.viewOfCString bytes) := by
        rw [viewOfBuffer, hend, if_pos (by simp), InplaceString.viewOfCString_append]
      have hfind : (find successText (InplaceString.viewOfCString bytes)).isSome =
          decide (successText <:+: InplaceString.viewOfCString bytes) := by
        rw [Bool.eq_iff_iff, find_isSome_iff, decide_eq_true_iff]
      simp [findSuccess, Response.succeeds, hanswered, hclient, hread, hfilled, hended, hview,
        hfind]
  · simp [findSuccess, Response.succeeds, hanswered]

/-- The life of a client, as `esp_http_client` wants it used. -/
inductive Client where
  | absent
  | idle (body : Option (List Char))
  | performed
  deriving DecidableEq

/-- A request is performed with its whole body, and its response is read after that. -/
def Client.step : Client → HttpCall → Option Client
  | .absent, .init client => some (if client then .idle none else .absent)
  | .idle body, .setHeader _ _ => some (.idle body)
  | .idle _, .setPostField data size =>
      if size = data.length then some (.idle (some data)) else none
  | .idle (some _), .perform _ => some .performed
  | .performed, .getStatusCode _ => some .performed
  | .performed, .read _ => some .performed
  | .idle _, .cleanup => some .absent
  | .performed, .cleanup => some .absent
  | _, _ => none

def Client.made : Client → Nat
  | .absent => 0
  | .idle _ | .performed => 1

def HttpCall.makes : HttpCall → Bool
  | .init client => client
  | _ => false

def HttpCall.frees : HttpCall → Bool
  | .cleanup => true
  | _ => false

def HttpCall.body : HttpCall → Option (List Char)
  | .setPostField data _ => some data
  | _ => none

theorem Client.made_step {c d : Client} {call : HttpCall} (h : c.step call = some d) :
    c.made + (if call.makes then 1 else 0) = d.made + (if call.frees then 1 else 0) := by
  unfold Client.step at h
  split at h
  case h_1 client => cases client <;> cases h <;> rfl
  case h_3 data size =>
    obtain ⟨-, ⟨⟩⟩ := Option.ite_none_right_eq_some.mp h
    rfl
  all_goals cases h <;> rfl

theorem postToGoogleSheets_session (payload : List Char) (buffer : Buffer) {r : Response}
    (hr : r.Bounded) :
    ∃ calls, postToGoogleSheets payload buffer r = some (calls, r.succeeds) ∧
      run Client.step .absent calls = some .absent ∧
      calls.filterMap HttpCall.body = if r.client then [payload] else [] := by
  by_cases hclient : r.client = true
  · rw [postToGoogleSheets, if_neg (by simp [hclient]), findSuccess_eq buffer hr hclient,
      if_pos hclient]
    by_cases hanswered : r.answered = true
    · rw [if_pos hanswered]
      exact ⟨_, rfl, by simp [run, Client.step], rfl⟩
    · rw [if_neg hanswered]
      exact ⟨_, rfl, by simp [run, Client.step], rfl⟩
  · rw [postToGoogleSheets, if_pos (by simp [hclient]), if_neg hclient]
    exact ⟨[.init false], by simp [Response.succeeds, hclient], rfl, rfl⟩

structure Exchange where
  post : Post
  buffer : Buffer
  response : Response

def exchange : List Exchange → Option (List HttpCall × List Bool)
  | [] => some ([], [])
  | e :: rest => do
      let (calls, success) ← postToGoogleSheets e.post.payload e.buffer e.response
      let (later, successes) ← exchange rest
      return (calls ++ later, success :: successes)

theorem exchange_session {exchanges : List Exchange}
    (hbounded : ∀ e ∈ exchanges, e.response.Bounded) :
    ∃ calls, exchange exchanges = some (calls, exchanges.map fun e => e.response.succeeds) ∧
      run Client.step .absent calls = some .absent ∧
      calls.filterMap HttpCall.body =
        (exchanges.filter fun e => e.response.client).map fun e => e.post.payload := by
  induction exchanges with
  | nil => exact ⟨[], rfl, rfl, rfl⟩
  | cons e rest ih =>
    obtain ⟨hfirst, hrest⟩ := List.forall_mem_cons.mp hbounded
    obtain ⟨calls, hcalls, hsession, hbody⟩ :=
      postToGoogleSheets_session e.post.payload e.buffer hfirst
    obtain ⟨later, hlater, hnext, hbodies⟩ := ih hrest
    refine ⟨calls ++ later, ?_, run_append hsession hnext, ?_⟩
    · simp [exchange, hcalls, hlater]
    · rw [List.filterMap_append, hbody, hbodies]
      by_cases hclient : e.response.client = true
      · simp [hclient]
      · simp [hclient]

end Thermometer.PosterTask

namespace Thermometer.Device

open Thermometer.Transition
open Thermometer.SensorTask (oneSensor)

variable {ι H : Type} {V : ι → Type} [DecidableEq ι] [Fintype ι] [DecidableEq H]
  {layout : SensorReadings ≃ ∀ i, V i} {showFloat : Binary32 → List Char}
  {sensors : SensorTask.Sensors} {s t : State V H}

theorem payload_step {a : Label ι H}
    (hs : ∀ p ∈ s.posts, p.payload = PosterTask.toJson showFloat p.readings)
    (h : s.step layout showFloat sensors a = some t) :
    ∀ p ∈ t.posts, p.payload = PosterTask.toJson showFloat p.readings := by
  obtain hsame | ⟨now, r, -, hposted⟩ := State.posts_of_step h
  · rwa [hsame]
  · rw [hposted]
    exact List.forall_mem_append.mpr ⟨hs, by simp⟩

/-- Over the posts of any run of the device the HTTP client is used as it should be:
each one that is made is released once and not used after that, there is never more
than one, and a request is performed with its body, which is the JSON text of the
readings of that post. No access leaves the response buffer, and what a call returns
does not depend on the former contents of the buffer. -/
theorem posts_exchanged {clock : Int} {as : List (Label ι H)}
    (h : run (State.step layout showFloat sensors) (.init layout clock) as = some s)
    {exchanges : List PosterTask.Exchange}
    (hposts : exchanges.map PosterTask.Exchange.post = s.posts)
    (hbounded : ∀ e ∈ exchanges, e.response.Bounded) :
    ∃ calls, PosterTask.exchange exchanges =
        some (calls, exchanges.map fun e => e.response.succeeds) ∧
      run PosterTask.Client.step .absent calls = some .absent ∧
      calls.countP PosterTask.HttpCall.makes = calls.countP PosterTask.HttpCall.frees ∧
      calls.filterMap PosterTask.HttpCall.body =
        (exchanges.filter fun e => e.response.client).map fun e =>
          PosterTask.toJson showFloat e.post.readings := by
  have hpayload : ∀ p ∈ s.posts, p.payload = PosterTask.toJson showFloat p.readings :=
    run_invariant (fun _ _ _ => payload_step) (by simp [State.init]) h
  obtain ⟨calls, hcalls, hsession, hbodies⟩ := PosterTask.exchange_session hbounded
  refine ⟨calls, hcalls, hsession, ?_, ?_⟩
  · simpa [PosterTask.Client.made] using run_balance PosterTask.Client.made
      PosterTask.HttpCall.makes PosterTask.HttpCall.frees
      (fun _ _ _ => PosterTask.Client.made_step) hsession
  · rw [hbodies]
    refine List.map_congr_left fun e he => hpayload _ ?_
    rw [← hposts]
    exact List.mem_map_of_mem (List.mem_of_mem_filter he)

def longAnswer : PosterTask.Response where
  client := true
  perform := espOk
  statusCode := 200
  read size := some ((PosterTask.successText ++ List.replicate 40 46).take size)

theorem posts_exchanged_firstRound :
    ∃ (s : State MemberType Nat) (calls : List PosterTask.HttpCall),
      run (State.step members (fun _ => "21.5".toList) oneSensor) (.init members 0) firstRound =
        some s ∧
      PosterTask.exchange (s.posts.map fun p => ⟨p, Vector.replicate 32 0xA5, longAnswer⟩) =
        some (calls, [true]) ∧
      run PosterTask.Client.step .absent calls = some .absent := by
  obtain ⟨s, p, hs, hp⟩ : ∃ (s : State MemberType Nat) (p : PosterTask.Post),
      run (State.step members (fun _ => "21.5".toList) oneSensor) (.init members 0) firstRound =
        some s ∧ s.posts = [p] := ⟨_, _, rfl, rfl⟩
  have hbounded : longAnswer.Bounded := by
    intro size bytes hread
    rw [← Option.some.inj hread]
    exact List.length_take_le _ _
  have hposts : (s.posts.map fun p =>
      (⟨p, Vector.replicate 32 0xA5, longAnswer⟩ : PosterTask.Exchange)).map
        PosterTask.Exchange.post = s.posts := by
    rw [List.map_map]
    exact List.map_id' s.posts
  obtain ⟨calls, hcalls, hsession, -⟩ := posts_exchanged hs hposts (by simp [hbounded])
  have hsucceeds : longAnswer.succeeds = true := by decide
  rw [List.map_map, hp] at hcalls
  refine ⟨s, calls, hs, ?_, hsession⟩
  rw [hp, hcalls]
  simp [hsucceeds]

end Thermometer.Device
