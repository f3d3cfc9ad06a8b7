import AlmondAndroid.App.Streams

/-!
# The pool of stream threads

`StreamAPI` has six threads that run the submitted tasks in their order. A task of
`ImageAPI.toStream` submits a second one, which forwards what it reads from a pipe, and
then compresses the image into the pipe. It blocks while the pipe is full, and the
reader blocks while it is empty: nobody closes the pipe, and the threads of the pool
live as long as the process.
-/

namespace AlmondAndroid.App

open Library Bridge

/-- A call of `getStream` whose URL can be read, or of `toStream`, with what the image is
compressed to; `none` is an exception of `compress`, as for a format that is not supported. -/
inductive StreamRequest
  | getStream
  | toStream (compressed : Option (List UInt8))
  deriving DecidableEq

structure Handle where
  stream : Nat
  token : Token
  deriving DecidableEq

/-! ## Pipes -/

def pipeSize : Nat := 1024

/-- A pipe of which neither end is ever closed. -/
structure Pipe where
  buffer : List UInt8
  fits : buffer.length ≤ pipeSize

namespace Pipe

def new : Pipe := ⟨[], Nat.zero_le _⟩

/-- What the buffer has room for; `none` is a thread that waits. -/
def receive (p : Pipe) (data : List UInt8) : Option Pipe :=
  if h : (p.buffer ++ data).length ≤ pipeSize then some ⟨p.buffer ++ data, h⟩ else none

/-- All that is in the buffer is read. An empty one is waited for: that the thread which
has written is dead, for which `read` throws, cannot be found. -/
def read (p : Pipe) : Option (List UInt8 × Pipe) :=
  match p.buffer with
  | byte :: bytes => some (byte :: bytes, new)
  | [] => none

theorem receive_of_fits {p : Pipe} {data : List UInt8}
    (h : (p.buffer ++ data).length ≤ pipeSize) :
    p.receive data = some ⟨p.buffer ++ data, h⟩ :=
  dif_pos h

theorem receive_of_full {p : Pipe} {data : List UInt8} (hfull : p.buffer.length = pipeSize)
    (hdata : 0 < data.length) : p.receive data = none := by
  have h : ¬ (p.buffer ++ data).length ≤ pipeSize := by
    rw [List.length_append, hfull]
    omega
  exact dif_neg h

theorem read_of_cons {p : Pipe} {byte : UInt8} {bytes : List UInt8}
    (h : p.buffer = byte :: bytes) : p.read = some (byte :: bytes, new) := by
  rw [read, h]

theorem read_of_nil {p : Pipe} (h : p.buffer = []) : p.read = none := by
  rw [read, h]

end Pipe

/-! ## Tasks -/

/-- What is submitted to the pool; `forward` reads from the pipe of its stream. -/
inductive Task
  | getStream (handle : Handle)
  | toStream (handle : Handle) (compressed : Option (List UInt8))
  | forward (handle : Handle)
  deriving DecidableEq

/-- Where a task that runs is. `compress` has what is left to write. -/
inductive Running
  | getStream (handle : Handle) (closing : Bool)
  | toStream (handle : Handle) (compressed : Option (List UInt8))
  | compress (handle : Handle) (rest : Option (List UInt8))
  | forward (handle : Handle)
  deriving DecidableEq

def Task.start : Task → Running
  | getStream handle => .getStream handle false
  | toStream handle compressed => .toStream handle compressed
  | forward handle => .forward handle

/-- `requests` are the calls still to come, `workers` has the task that a thread runs, and
`pipes` the pipe of each stream. -/
structure StreamPool where
  requests : List StreamRequest
  counter : Token
  created : Nat
  queue : List Task
  workers : Fin 6 → Option Running
  pipes : Nat → Pipe
  sent : List SentCall

namespace StreamPool

inductive Action
  | request
  | take (w : Fin 6)
  | read (w : Fin 6) (result : ReadResult)
  | close (w : Fin 6) (closeError : Option ErrorMessage)
  | connect (w : Fin 6)
  | write (w : Fin 6) (n : Nat)
  | returns (w : Fin 6)
  | throws (w : Fin 6)
  | readPipe (w : Fin 6)

def initial (requests : List StreamRequest) : StreamPool where
  requests := requests
  counter := 0
  created := 0
  queue := []
  workers _ := none
  pipes _ := .new
  sent := []

def running (s : StreamPool) (w : Fin 6) : Option Running := s.workers w

def setRunning (s : StreamPool) (w : Fin 6) (running : Option Running) : StreamPool :=
  { s with workers := Function.update s.workers w running }

def setPipe (s : StreamPool) (i : Nat) (pipe : Pipe) : StreamPool :=
  { s with pipes := Function.update s.pipes i pipe }

/-! ### `StreamAPI.Stream` -/

def invokeAsync (s : StreamPool) (handle : Handle) (call : StreamCall) : StreamPool :=
  { s with sent := s.sent ++ [⟨handle.stream, call⟩] }

def push (s : StreamPool) (handle : Handle) (data : List UInt8) : StreamPool :=
  s.invokeAsync handle (.onstreamdata handle.token (encodeToString data))

def sendEnd (s : StreamPool) (handle : Handle) : StreamPool :=
  s.invokeAsync handle (.onstreamend handle.token)

def error (s : StreamPool) (handle : Handle) (e : ErrorMessage) : StreamPool :=
  s.invokeAsync handle (.onstreamerror handle.token e)

/-- One round of `forwardSync`, and whether the loop goes on. -/
def forwardSync (s : StreamPool) (handle : Handle) : ReadResult → StreamPool × Bool
  | .read data =>
      if 0 < data.length then (s.push handle data, true) else (s.sendEnd handle, false)
  | .endOfStream => (s.sendEnd handle, false)
  | .ioException e => (s.error handle e, false)

/-! ### The requests -/

def execute (s : StreamPool) (task : Task) : StreamPool :=
  { s with queue := s.queue ++ [task] }

def createStream (s : StreamPool) : Handle × StreamPool :=
  (⟨s.created, s.counter + 1⟩, { s with counter := s.counter + 1, created := s.created + 1 })

def request (s : StreamPool) : StreamRequest → StreamPool
  | .getStream => s.createStream.2.execute (.getStream s.createStream.1)
  | .toStream compressed => s.createStream.2.execute (.toStream s.createStream.1 compressed)

/-! ### The tasks -/

def take (s : StreamPool) (w : Fin 6) : Option StreamPool :=
  match s.running w, s.queue with
  | none, task :: queue => some ({ s with queue := queue }.setRunning w (some task.start))
  | _, _ => none

def read (s : StreamPool) (w : Fin 6) (handle : Handle) (result : ReadResult) : StreamPool :=
  match s.forwardSync handle result with
  | (s, true) => s
  | (s, false) => s.setRunning w (some (.getStream handle true))

def close (s : StreamPool) (w : Fin 6) (handle : Handle) : Option ErrorMessage → StreamPool
  | none => s.setRunning w none
  | some e => (s.error handle e).setRunning w none

/-- The pipe is connected, and `stream.forward` submits its reader. -/
def connect (s : StreamPool) (w : Fin 6) (handle : Handle) (compressed : Option (List UInt8)) :
    StreamPool :=
  ((s.setPipe handle.stream .new).execute (.forward handle)).setRunning w
    (some (.compress handle compressed))

def write (s : StreamPool) (w : Fin 6) (handle : Handle) (rest : List UInt8) (n : Nat) :
    Option StreamPool :=
  ((s.pipes handle.stream).receive (rest.take n)).map fun pipe =>
    (s.setPipe handle.stream pipe).setRunning w (some (.compress handle (some (rest.drop n))))

/-- An exception that `toStream` does not catch ends the process, with all its tasks. -/
def throws (s : StreamPool) : StreamPool :=
  { s with requests := [], queue := [], workers := fun _ => none }

def readPipe (s : StreamPool) (w : Fin 6) (handle : Handle) : Option StreamPool :=
  (s.pipes handle.stream).read.map fun next =>
    match (s.setPipe handle.stream next.2).forwardSync handle (.read next.1) with
    | (s, true) => s
    | (s, false) => s.setRunning w none

/-! ### The machine -/

def step (s : StreamPool) : Action → Option StreamPool
  | .request =>
      match s.requests with
      | [] => none
      | r :: requests => some ({ s with requests := requests }.request r)
  | .take w => s.take w
  | .read w result =>
      match s.running w with
      | some (.getStream handle false) =>
          if result.Fits then some (s.read w handle result) else none
      | _ => none
  | .close w closeError =>
      match s.running w with
      | some (.getStream handle true) => some (s.close w handle closeError)
      | _ => none
  | .connect w =>
      match s.running w with
      | some (.toStream handle compressed) => some (s.connect w handle compressed)
      | _ => none
  | .write w n =>
      match s.running w with
      | some (.compress handle (some rest)) =>
          if 0 < n ∧ n ≤ rest.length then s.write w handle rest n else none
      | _ => none
  | .returns w =>
      match s.running w with
      | some (.compress _ (some [])) => some (s.setRunning w none)
      | _ => none
  | .throws w =>
      match s.running w with
      | some (.compress _ none) => some s.throws
      | _ => none
  | .readPipe w =>
      match s.running w with
      | some (.forward handle) => s.readPipe w handle
      | _ => none

def machine (requests : List StreamRequest) : Machine StreamPool Action where
  Init s := s = initial requests
  step := step

def Unfinished (s : StreamPool) : Prop := s.queue ≠ [] ∨ ∃ w, s.running w ≠ none

/-- Tasks are left, and none of them can take a step. -/
def Stuck (s : StreamPool) : Prop :=
  s.Unfinished ∧ ∀ a, a ≠ .request → step s a = none

/-! ## What a step does -/

/-- How a task goes on, unless it connects its pipe or ends the process. -/
inductive Proceeds : Running → Option Running → Prop
  | getStream {handle : Handle} {closing closing' : Bool} :
      Proceeds (.getStream handle closing) (some (.getStream handle closing'))
  | closed {handle : Handle} : Proceeds (.getStream handle true) none
  | compress {handle : Handle} {rest rest' : List UInt8} :
      Proceeds (.compress handle (some rest)) (some (.compress handle (some rest')))
  | returned {handle : Handle} : Proceeds (.compress handle (some [])) none
  | forward {handle : Handle} : Proceeds (.forward handle) (some (.forward handle))
  | forwarded {handle : Handle} : Proceeds (.forward handle) none

inductive Does (s : StreamPool) : StreamPool → Prop
  | request {r : StreamRequest} {requests : List StreamRequest} : s.requests = r :: requests →
      Does s ({ s with requests := requests }.request r)
  | take {w : Fin 6} {task : Task} {queue : List Task} : s.running w = none →
      s.queue = task :: queue → Does s ({ s with queue := queue }.setRunning w (some task.start))
  | connect {w : Fin 6} {handle : Handle} {compressed : Option (List UInt8)} :
      s.running w = some (.toStream handle compressed) → Does s (s.connect w handle compressed)
  | proceeds {w : Fin 6} {r : Running} {next : Option Running} {pipes : Nat → Pipe}
      {sent : List SentCall} : s.running w = some r → Proceeds r next →
      Does s ({ s with pipes := pipes, sent := sent }.setRunning w next)
  | throws {w : Fin 6} {handle : Handle} : s.running w = some (.compress handle none) →
      Does s s.throws

def taskOf (handle : Handle) : StreamRequest → Task
  | .getStream => .getStream handle
  | .toStream compressed => .toStream handle compressed

theorem request_eq (s : StreamPool) (r : StreamRequest) :
    s.request r = { s with
      counter := s.counter + 1
      created := s.created + 1
      queue := s.queue ++ [taskOf ⟨s.created, s.counter + 1⟩ r] } := by
  cases r <;> rfl

theorem running_self (s : StreamPool) (w : Fin 6) (r : Option Running) :
    (s.setRunning w r).running w = r :=
  Function.update_self ..

theorem running_of_ne {v w : Fin 6} (h : v ≠ w) (s : StreamPool) (r : Option Running) :
    (s.setRunning w r).running v = s.running v :=
  Function.update_of_ne h ..

theorem setRunning_eq_self {s : StreamPool} {w : Fin 6} {r : Option Running}
    (h : s.running w = r) : s.setRunning w r = s := by
  rw [setRunning, ← h, running, Function.update_eq_self]

theorem pipes_setPipe (s : StreamPool) (i : Nat) (pipe : Pipe) :
    (s.setPipe i pipe).pipes i = pipe :=
  Function.update_self ..

theorem running_setPipe (s : StreamPool) (i : Nat) (pipe : Pipe) (w : Fin 6) :
    (s.setPipe i pipe).running w = s.running w :=
  rfl

theorem running_push (s : StreamPool) (handle : Handle) (data : List UInt8) (w : Fin 6) :
    (s.push handle data).running w = s.running w :=
  rfl

theorem connect_running_self (s : StreamPool) (w : Fin 6) (handle : Handle)
    (compressed : Option (List UInt8)) :
    (s.connect w handle compressed).running w = some (.compress handle compressed) := by
  rw [connect, running_self]

theorem connect_running_of_ne {v w : Fin 6} (h : v ≠ w) (s : StreamPool) (handle : Handle)
    (compressed : Option (List UInt8)) :
    (s.connect w handle compressed).running v = s.running v := by
  rw [connect, running_of_ne h]
  rfl

theorem forwardSync_eq (s : StreamPool) (handle : Handle) (result : ReadResult) :
    ∃ sent more, s.forwardSync handle result = ({ s with sent := sent }, more) := by
  cases result with
  | read data =>
    rw [forwardSync]
    split
    · exact ⟨_, _, rfl⟩
    · exact ⟨_, _, rfl⟩
  | endOfStream => exact ⟨_, _, rfl⟩
  | ioException e => exact ⟨_, _, rfl⟩

theorem read_does {s : StreamPool} {w : Fin 6} {handle : Handle}
    (hw : s.running w = some (.getStream handle false)) (result : ReadResult) :
    Does s (s.read w handle result) := by
  obtain ⟨sent, more, heq⟩ := forwardSync_eq s handle result
  rw [read, heq]
  cases more with
  | true =>
    have hsame : ({ s with sent := sent }.setRunning w (some (.getStream handle false))) =
        { s with sent := sent } := setRunning_eq_self hw
    dsimp only
    rw [← hsame]
    exact .proceeds hw .getStream
  | false => exact .proceeds hw .getStream

theorem readPipe_does {s t : StreamPool} {w : Fin 6} {handle : Handle}
    (hw : s.running w = some (.forward handle)) (h : s.readPipe w handle = some t) :
    Does s t := by
  obtain ⟨next, -, rfl⟩ := Option.map_eq_some_iff.mp h
  obtain ⟨sent, more, heq⟩ := forwardSync_eq (s.setPipe handle.stream next.2) handle (.read next.1)
  rw [heq]
  cases more with
  | true =>
    have hsame : ({ s.setPipe handle.stream next.2 with sent := sent }.setRunning w
        (some (.forward handle))) = { s.setPipe handle.stream next.2 with sent := sent } :=
      setRunning_eq_self hw
    dsimp only
    rw [← hsame]
    exact .proceeds hw .forward
  | false => exact .proceeds hw .forwarded

theorem step_does {s t : StreamPool} {a : Action} (hstep : step s a = some t) : Does s t := by
  cases a with
  | request =>
    rw [step] at hstep
    split at hstep
    · cases hstep
    · rename_i hrequests
      cases hstep
      exact .request hrequests
  | take w =>
    rw [step, take] at hstep
    split at hstep
    · rename_i hw hqueue
      cases hstep
      exact .take hw hqueue
    · cases hstep
  | read w result =>
    rw [step] at hstep
    split at hstep
    · rename_i hw
      obtain ⟨-, hstep⟩ := Option.ite_none_right_eq_some.mp hstep
      cases hstep
      exact read_does hw result
    · cases hstep
  | close w closeError =>
    rw [step] at hstep
    split at hstep
    · rename_i hw
      cases hstep
      cases closeError with
      | none => exact .proceeds hw .closed
      | some e => exact .proceeds hw .closed
    · cases hstep
  | connect w =>
    rw [step] at hstep
    split at hstep
    · rename_i hw
      cases hstep
      exact .connect hw
    · cases hstep
  | write w n =>
    rw [step] at hstep
    split at hstep
    · rename_i hw
      obtain ⟨-, hstep⟩ := Option.ite_none_right_eq_some.mp hstep
      obtain ⟨pipe, -, rfl⟩ := Option.map_eq_some_iff.mp hstep
      exact .proceeds hw .compress
    · cases hstep
  | returns w =>
    rw [step] at hstep
    split at hstep
    · rename_i hw
      cases hstep
      exact .proceeds hw .returned
    · cases hstep
  | throws w =>
    rw [step] at hstep
    split at hstep
    · rename_i hw
      cases hstep
      exact .throws hw
    · cases hstep
  | readPipe w =>
    rw [step] at hstep
    split at hstep
    · rename_i hw
      exact readPipe_does hw hstep
    · cases hstep

end StreamPool

end AlmondAndroid.App
