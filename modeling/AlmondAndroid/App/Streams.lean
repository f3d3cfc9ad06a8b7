import AlmondAndroid.Library.Base64
import AlmondAndroid.Library.Mailbox
import AlmondAndroid.Bridge.Values

/-!
# Byte streams from Java to JavaScript

`ContentAPI.getStream` hands out a token and forwards the input stream from a pool
thread. The data go through the queue of calls, the token through the queue of
completions, and `streams.js` drops the calls for a token it has no readable for.
-/

namespace AlmondAndroid.App

open Library Bridge

/-- The value of the `AtomicInteger` in `StreamAPI`. -/
abbrev Token := BitVec 32

/-- `Exception.getMessage` may be null. -/
abbrev ErrorMessage := Option U16String

inductive StreamCall
  | onstreamdata (token : Token) (data : U16String)
  | onstreamend (token : Token)
  | onstreamerror (token : Token) (error : ErrorMessage)
  deriving DecidableEq

inductive ReadableCall
  | push (data : List UInt8)
  | pushNull
  | emitError (error : ErrorMessage)
  deriving DecidableEq

/-- How the loop of `forwardSync` was left. -/
inductive Outcome
  | ended
  | failed (error : ErrorMessage)
  deriving DecidableEq

/-- Where the pool thread is: in the loop, about to close the input, or done, with
the error of `close` if there was one. -/
inductive Job
  | reading
  | closing (outcome : Outcome)
  | finished (outcome : Outcome) (closeError : Option ErrorMessage)
  deriving DecidableEq

/-- `chunks` is what `read` has delivered. -/
structure Stream where
  token : Token
  job : Job
  chunks : List (List UInt8)
  returned : Bool

/-- What `is.read(buffer)` does; `read` is the length of the bytes, or -1. -/
inductive ReadResult
  | read (data : List UInt8)
  | endOfStream
  | ioException (error : ErrorMessage)

def bufferSize : Nat := 4096

def ReadResult.Fits : ReadResult → Prop
  | read data => data.length ≤ bufferSize
  | endOfStream => True
  | ioException _ => True

instance : DecidablePred ReadResult.Fits
  | .read data => inferInstanceAs (Decidable (data.length ≤ bufferSize))
  | .endOfStream => inferInstanceAs (Decidable True)
  | .ioException _ => inferInstanceAs (Decidable True)

/-- `Base64.DEFAULT`: lines of 76 characters. -/
def encodeToString (data : List UInt8) : U16String := Base64.encode 19 data

namespace StreamCall

def token : StreamCall → Token
  | onstreamdata token _ => token
  | onstreamend token => token
  | onstreamerror token _ => token

def IsTerminal : StreamCall → Prop
  | onstreamdata _ _ => False
  | onstreamend _ => True
  | onstreamerror _ _ => True

def effect : StreamCall → ReadableCall
  | onstreamdata _ data => .push (Base64.decode data)
  | onstreamend _ => .pushNull
  | onstreamerror _ error => .emitError error

end StreamCall

structure SentCall where
  stream : Nat
  call : StreamCall
  deriving DecidableEq

/-- The return value of the call of `getStream` with this number. -/
structure Completion where
  stream : Nat
  token : Token
  deriving DecidableEq

/-- Streams are numbered in the order of their creation, and so are the readables
made for them. `continued` are the completions whose continuation has run. -/
structure Streams where
  counter : Token
  created : Nat
  streams : Nat → Option Stream
  callQueue : Channel SentCall
  nativeQueue : Channel Completion
  continued : List Completion
  registered : Token → Option Nat
  readables : Nat → List ReadableCall

namespace Streams

inductive Action
  | getStream
  | readUrlThrows
  | read (i : Nat) (result : ReadResult)
  | close (i : Nat) (closeError : Option ErrorMessage)
  | returnToken (i : Nat)
  | resolve
  | continuation
  | dispatch

def initial : Streams where
  counter := 0
  created := 0
  streams _ := none
  callQueue := ⟨[], []⟩
  nativeQueue := ⟨[], []⟩
  continued := []
  registered _ := none
  readables _ := []

/-! ## `StreamAPI.Stream` and `ContentAPI.getStream` -/

def setStream (s : Streams) (i : Nat) (stream : Stream) : Streams :=
  { s with streams := Function.update s.streams i (some stream) }

def invokeAsync (s : Streams) (i : Nat) (call : StreamCall) : Streams :=
  { s with callQueue := s.callQueue.send ⟨i, call⟩ }

def push (s : Streams) (i : Nat) (stream : Stream) (data : List UInt8) : Streams :=
  s.invokeAsync i (.onstreamdata stream.token (encodeToString data))

def sendEnd (s : Streams) (i : Nat) (stream : Stream) : Streams :=
  s.invokeAsync i (.onstreamend stream.token)

def error (s : Streams) (i : Nat) (stream : Stream) (e : ErrorMessage) : Streams :=
  s.invokeAsync i (.onstreamerror stream.token e)

def forward (s : Streams) (i : Nat) (stream : Stream) : ReadResult → Streams
  | .read data =>
      if 0 < data.length then
        (s.push i stream data).setStream i { stream with chunks := stream.chunks ++ [data] }
      else (s.sendEnd i stream).setStream i { stream with job := .closing .ended }
  | .endOfStream => (s.sendEnd i stream).setStream i { stream with job := .closing .ended }
  | .ioException e => (s.error i stream e).setStream i { stream with job := .closing (.failed e) }

def close (s : Streams) (i : Nat) (stream : Stream) (outcome : Outcome) :
    Option ErrorMessage → Streams
  | none => s.setStream i { stream with job := .finished outcome none }
  | some e => (s.error i stream e).setStream i { stream with job := .finished outcome (some e) }

def getStream (s : Streams) : Streams :=
  { s with
    counter := s.counter + 1
    created := s.created + 1
    streams := Function.update s.streams s.created (some ⟨s.counter + 1, .reading, [], false⟩) }

/-! ## `streams.js` -/

def createStream (s : Streams) (i : Nat) (token : Token) : Streams :=
  { s with
    registered := Function.update s.registered token (some i)
    readables := Function.update s.readables i [] }

def emit (s : Streams) (i : Nat) (call : ReadableCall) : Streams :=
  { s with readables := Function.update s.readables i (s.readables i ++ [call]) }

def delete (s : Streams) (token : Token) : Streams :=
  { s with registered := Function.update s.registered token none }

def onStreamError (s : Streams) (token : Token) (e : ErrorMessage) : Streams :=
  match s.registered token with
  | none => s
  | some i => (s.delete token).emit i (.emitError e)

def onStreamData (s : Streams) (token : Token) (data : U16String) : Streams :=
  match s.registered token with
  | none => s
  | some i => s.emit i (.push (Base64.decode data))

def onStreamEnd (s : Streams) (token : Token) : Streams :=
  match s.registered token with
  | none => s
  | some i => (s.delete token).emit i .pushNull

def receive (s : Streams) : StreamCall → Streams
  | .onstreamdata token data => s.onStreamData token data
  | .onstreamend token => s.onStreamEnd token
  | .onstreamerror token e => s.onStreamError token e

/-! ## The machine -/

def step (s : Streams) : Action → Option Streams
  | .getStream => some s.getStream
  | .readUrlThrows => some { s with counter := s.counter + 1 }
  | .read i result =>
      match s.streams i with
      | some ⟨token, .reading, chunks, returned⟩ =>
          if result.Fits then some (s.forward i ⟨token, .reading, chunks, returned⟩ result)
          else none
      | _ => none
  | .close i closeError =>
      match s.streams i with
      | some ⟨token, .closing outcome, chunks, returned⟩ =>
          some (s.close i ⟨token, .closing outcome, chunks, returned⟩ outcome closeError)
      | _ => none
  | .returnToken i =>
      match s.streams i with
      | some ⟨token, job, chunks, false⟩ =>
          some { s.setStream i ⟨token, job, chunks, true⟩ with
            nativeQueue := s.nativeQueue.send ⟨i, token⟩ }
      | _ => none
  | .resolve =>
      s.nativeQueue.next.map fun completion =>
        { s with nativeQueue := s.nativeQueue.receive completion }
  | .continuation =>
      s.nativeQueue.received[s.continued.length]?.map fun completion =>
        { s.createStream completion.stream completion.token with
          continued := s.continued ++ [completion] }
  | .dispatch =>
      s.callQueue.next.map fun sent =>
        { s with callQueue := s.callQueue.receive sent }.receive sent.call

def machine : Machine Streams Action where
  Init s := s = initial
  step := step

end Streams

/-! ## What a readable has to be told -/

def Outcome.terminal : Outcome → ReadableCall
  | ended => .pushNull
  | failed error => .emitError error

def Job.terminal : Job → List ReadableCall
  | reading => []
  | closing outcome => [outcome.terminal]
  | finished outcome _ => [outcome.terminal]

/-- The bytes that were read, in order, and then how the reading ended. -/
def Stream.expected (stream : Stream) : List ReadableCall :=
  stream.chunks.map .push ++ stream.job.terminal

/-- The calls that a stream has sent so far: an error of `close` comes after the end. -/
def Outcome.call (token : Token) : Outcome → StreamCall
  | ended => .onstreamend token
  | failed error => .onstreamerror token error

def Job.calls (token : Token) : Job → List StreamCall
  | reading => []
  | closing outcome => [outcome.call token]
  | finished outcome none => [outcome.call token]
  | finished outcome (some error) => [outcome.call token, .onstreamerror token error]

def Stream.calls (stream : Stream) : List StreamCall :=
  stream.chunks.map (fun data => .onstreamdata stream.token (encodeToString data)) ++
    stream.job.calls stream.token

def Closed (calls : List StreamCall) : Prop := ∃ call ∈ calls, call.IsTerminal

/-- What a readable is told that is registered before the first of these calls. -/
def heard : List StreamCall → List ReadableCall
  | [] => []
  | .onstreamdata _ data :: calls => .push (Base64.decode data) :: heard calls
  | .onstreamend _ :: _ => [.pushNull]
  | .onstreamerror _ error :: _ => [.emitError error]

theorem closed_append {calls : List StreamCall} {call : StreamCall} :
    Closed (calls ++ [call]) ↔ Closed calls ∨ call.IsTerminal := by
  constructor
  · rintro ⟨c, hmem, hterminal⟩
    rcases List.mem_append.mp hmem with hmem | hmem
    · exact .inl ⟨c, hmem, hterminal⟩
    · rw [List.mem_singleton.mp hmem] at hterminal
      exact .inr hterminal
  · rintro (⟨c, hmem, hterminal⟩ | hterminal)
    · exact ⟨c, List.mem_append_left _ hmem, hterminal⟩
    · exact ⟨call, by simp, hterminal⟩

theorem not_closed_nil : ¬ Closed [] := by
  rintro ⟨call, hmem, -⟩
  cases hmem

theorem heard_append_of_closed {calls : List StreamCall} (h : Closed calls)
    (more : List StreamCall) : heard (calls ++ more) = heard calls := by
  induction calls with
  | nil => exact absurd h not_closed_nil
  | cons call calls ih =>
    cases call with
    | onstreamdata token data =>
      obtain ⟨c, hmem, hterminal⟩ := h
      have hclosed : Closed calls := by
        rcases List.mem_cons.mp hmem with rfl | hmem
        · exact absurd hterminal id
        · exact ⟨c, hmem, hterminal⟩
      rw [List.cons_append, heard, heard, ih hclosed]
    | onstreamend token => rfl
    | onstreamerror token error => rfl

theorem heard_append_of_not_closed {calls : List StreamCall} (h : ¬ Closed calls)
    (more : List StreamCall) : heard (calls ++ more) = heard calls ++ heard more := by
  induction calls with
  | nil => rfl
  | cons call calls ih =>
    have hcalls : ¬ Closed calls :=
      fun ⟨c, hmem, hterminal⟩ => h ⟨c, List.mem_cons_of_mem _ hmem, hterminal⟩
    cases call with
    | onstreamdata token data => rw [List.cons_append, heard, heard, ih hcalls, List.cons_append]
    | onstreamend token => exact absurd ⟨_, List.mem_cons_self, trivial⟩ h
    | onstreamerror token error => exact absurd ⟨_, List.mem_cons_self, trivial⟩ h

theorem heard_singleton (call : StreamCall) : heard [call] = [call.effect] := by
  cases call <;> rfl

theorem heard_prefix_mono {calls more : List StreamCall} (h : calls <+: more) :
    heard calls <+: heard more := by
  obtain ⟨rest, rfl⟩ := h
  by_cases hclosed : Closed calls
  · exact ⟨[], by rw [List.append_nil, heard_append_of_closed hclosed]⟩
  · rw [heard_append_of_not_closed hclosed]
    exact List.prefix_append _ _

namespace Stream

theorem decode_encodeToString (data : List UInt8) : Base64.decode (encodeToString data) = data :=
  Base64.decode_encode 19 data

theorem heard_chunks (token : Token) (chunks : List (List UInt8)) (more : List StreamCall) :
    heard (chunks.map (fun data => .onstreamdata token (encodeToString data)) ++ more) =
      chunks.map .push ++ heard more := by
  induction chunks with
  | nil => rfl
  | cons data chunks ih =>
    rw [List.map_cons, List.cons_append, heard, ih, decode_encodeToString]
    rfl

theorem heard_job (token : Token) (job : Job) : heard (job.calls token) = job.terminal := by
  cases job with
  | reading => rfl
  | closing outcome => cases outcome <;> rfl
  | finished outcome closeError => cases outcome <;> cases closeError <;> rfl

/-- A readable that hears all calls of a stream is told what it has to be told. -/
theorem heard_calls (stream : Stream) : heard stream.calls = stream.expected := by
  rw [calls, heard_chunks, heard_job]
  rfl

theorem token_of_mem_calls {stream : Stream} {call : StreamCall} (h : call ∈ stream.calls) :
    call.token = stream.token := by
  obtain ⟨token, job, chunks, returned⟩ := stream
  rcases List.mem_append.mp h with h | h
  · obtain ⟨data, -, rfl⟩ := List.mem_map.mp h
    rfl
  · cases job with
    | reading => cases h
    | closing outcome =>
      rw [List.mem_singleton.mp h]
      cases outcome <;> rfl
    | finished outcome closeError =>
      cases closeError with
      | none =>
        rw [List.mem_singleton.mp h]
        cases outcome <;> rfl
      | some error =>
        rcases List.mem_cons.mp h with rfl | h
        · cases outcome <;> rfl
        · rw [List.mem_singleton.mp h]
          rfl

def IsFinished (stream : Stream) : Prop :=
  ∃ outcome closeError, stream.job = .finished outcome closeError

theorem IsFinished.closed {stream : Stream} (h : stream.IsFinished) : Closed stream.calls := by
  obtain ⟨outcome, closeError, hjob⟩ := h
  refine ⟨outcome.call stream.token, List.mem_append_right _ ?_, ?_⟩
  · rw [hjob]
    cases closeError with
    | none => exact List.mem_singleton_self _
    | some error => exact List.mem_cons_self
  · cases outcome <;> exact trivial

end Stream

namespace Streams

/-! ## The calls of one stream -/

def callsOf (i : Nat) (calls : List SentCall) : List StreamCall :=
  calls.filterMap fun sent => if sent.stream = i then some sent.call else none

theorem callsOf_append (i : Nat) (calls more : List SentCall) :
    callsOf i (calls ++ more) = callsOf i calls ++ callsOf i more :=
  List.filterMap_append

theorem callsOf_self (i : Nat) (call : StreamCall) (more : List SentCall) :
    callsOf i (⟨i, call⟩ :: more) = call :: callsOf i more :=
  List.filterMap_cons_some (if_pos rfl)

theorem callsOf_ne {i j : Nat} (h : j ≠ i) (call : StreamCall) (more : List SentCall) :
    callsOf i (⟨j, call⟩ :: more) = callsOf i more :=
  List.filterMap_cons_none (if_neg h)

theorem callsOf_map_self (i : Nat) (calls : List StreamCall) :
    callsOf i (calls.map (SentCall.mk i)) = calls := by
  induction calls with
  | nil => rfl
  | cons call calls ih => rw [List.map_cons, callsOf_self, ih]

theorem callsOf_map_ne {i j : Nat} (h : j ≠ i) (calls : List StreamCall) :
    callsOf i (calls.map (SentCall.mk j)) = [] := by
  induction calls with
  | nil => rfl
  | cons call calls ih => rw [List.map_cons, callsOf_ne h, ih]

theorem callsOf_prefix_mono {i : Nat} {calls more : List SentCall} (h : calls <+: more) :
    callsOf i calls <+: callsOf i more := by
  obtain ⟨rest, rfl⟩ := h
  rw [callsOf_append]
  exact List.prefix_append _ _

/-! ## What a run has to respect -/

def sentBy (s : Streams) (i : Nat) : List StreamCall := callsOf i s.callQueue.sent

def heardBy (s : Streams) (i : Nat) : List StreamCall := callsOf i s.callQueue.received

def tokenOf (s : Streams) (i : Nat) : Option Token := (s.streams i).map Stream.token

def HasReadable (s : Streams) (i : Nat) : Prop := ∃ completion ∈ s.continued, completion.stream = i

/-- Nothing more happens to the stream or to its readable. -/
structure Done (s : Streams) (i : Nat) : Prop where
  finished : ∃ stream, s.streams i = some stream ∧ stream.IsFinished
  hasReadable : s.HasReadable i
  heard : s.heardBy i = s.sentBy i

/-- No call of a stream reaches JavaScript before its readable is made, and the
counter does not come back to a token that is in use. -/
def OnTime (s : Streams) : Action → Prop
  | .dispatch => ∀ sent, s.callQueue.next = some sent → s.HasReadable sent.stream
  | .getStream => ∀ i, s.tokenOf i = some (s.counter + 1) → s.Done i
  | _ => True

/-- What the program does by itself, once the calls have been made. -/
def Action.IsInternal : Action → Prop
  | .getStream => False
  | .readUrlThrows => False
  | _ => True

def Quiet (s : Streams) : Prop :=
  ∀ a : Action, a.IsInternal → s.OnTime a → s.step a = none

/-- Every readable is told the bytes that were read, in order, and then one
terminal; and when nothing is left to do, it has been told all of it. -/
def Lossless (s : Streams) : Prop :=
  ∀ i stream, s.streams i = some stream →
    s.readables i <+: stream.expected ∧
    (s.Quiet → s.HasReadable i ∧ ∃ outcome closeError,
      stream.job = .finished outcome closeError ∧
      s.readables i = stream.chunks.map .push ++ [outcome.terminal])

end Streams

end AlmondAndroid.App
