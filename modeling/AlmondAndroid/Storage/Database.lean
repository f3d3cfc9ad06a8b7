import AlmondAndroid.Library.Machine

/-!
# The SQLite binding

`Database` and `Statement` of node-sqlite3 run on the thread of node and hand their
work to the thread pool of libuv. Every callback and every emitted event is JavaScript,
which may call back into both classes before it returns. The stack holds what the C++
functions under way do once the JavaScript above them has returned.
-/

namespace AlmondAndroid.Storage

open Library

inductive Operation
  | bind
  | get
  | run
  | all
  | each
  | reset
  deriving DecidableEq

/-! ## `Statement` -/

/-- The number tells batons apart. -/
structure Statement.Baton where
  id : Nat
  callback : Bool
  deriving DecidableEq

inductive Statement.WorkCallback
  | begin (operation : Operation)
  | finalize
  deriving DecidableEq

structure Statement.Call where
  callback : Statement.WorkCallback
  baton : Statement.Baton
  deriving DecidableEq

/-- The last three fields are the batons scheduled, those whose work callback was
called, and those that were deleted from the queue instead. -/
structure Statement where
  prepared : Bool
  locked : Bool
  finalized : Bool
  queue : List Statement.Call
  made : List Nat
  begun : List Nat
  ended : List Nat

def Statement.new : Statement where
  prepared := false
  locked := true
  finalized := false
  queue := []
  made := []
  begun := []
  ended := []

/-! ## `Database` -/

/-- The options of `Configure`. -/
inductive Configuration
  | trace
  | profile
  | busyTimeout
  deriving DecidableEq

inductive Database.WorkCallback
  | prepare (statement : Nat)
  | exec
  | loadExtension
  | close
  | wait
  | configure (option : Configuration)
  deriving DecidableEq

structure Database.Baton where
  id : Nat
  work : Database.WorkCallback
  callback : Bool
  deriving DecidableEq

structure Database.Call where
  baton : Database.Baton
  exclusive : Bool
  deriving DecidableEq

/-- The functions that run in the thread pool. -/
inductive Job
  | open
  | prepare (statement : Nat)
  | exec
  | loadExtension
  | close
  | operate (statement : Nat) (operation : Operation)
  deriving DecidableEq

structure Work where
  job : Job
  callback : Bool
  /-- Whether the job succeeded, once a thread of the pool has done it. -/
  status : Option Bool
  deriving DecidableEq

/-- What remains to be done of a function that has called JavaScript or another function. -/
inductive Frame
  | javascript
  | restoreSerialize (before : Bool)
  | process
  | processLoop
  | calledBack
  | closedLoop (called : Bool)
  | closedPop (called : Bool) (call : Database.Call)
  | afterOpen
  | afterClose
  | statementEnd (statement : Nat) (prepare : Bool)
  | statementProcess (statement : Nat)
  | statementLoop (statement : Nat)
  | cleanLoop (statement : Nat) (called : Bool)
  | afterError (statement : Nat)
  | deleteBaton (statement : Nat)
  deriving DecidableEq

/-- The assertions that can fail, and the use of a queue that another call of `Process`
has changed. -/
inductive Fault
  | beginPrepare
  | beginExclusive
  | configure
  | statementBegin
  | statementEnd
  | finalize
  | freedCall
  deriving DecidableEq

/-- `trace` and `profile` say whether there is a callback for them. -/
structure Database where
  isOpen : Bool
  closing : Bool
  locked : Bool
  pending : Nat
  serialize : Bool
  handle : Bool
  trace : Bool
  profile : Bool
  queue : List Database.Call
  batons : Nat
  created : Nat
  statements : Nat → Statement
  works : List Work
  stack : List Frame
  fault : Option Fault

namespace Database

/-- `New` has queued the work that opens the database. -/
def new (callback : Bool) : Database where
  isOpen := false
  closing := false
  locked := false
  pending := 0
  serialize := false
  handle := false
  trace := false
  profile := false
  queue := []
  batons := 0
  created := 0
  statements _ := Statement.new
  works := [⟨.open, callback, none⟩]
  stack := []
  fault := none

variable (db : Database)

def fail (fault : Fault) : Database := { db with fault := some fault }

def push (frames : List Frame) : Database := { db with stack := frames ++ db.stack }

def javascript (called : Bool) : List Frame := if called then [.javascript] else []

def queueWork (job : Job) (callback : Bool) : Database :=
  { db with works := db.works ++ [⟨job, callback, none⟩] }

def update (i : Nat) (f : Statement → Statement) : Database :=
  { db with statements := Function.update db.statements i (f (db.statements i)) }

/-- The assertions with which `Work_BeginExec` and the like start. -/
def Exclusive : Prop := db.locked ∧ db.isOpen ∧ db.handle ∧ db.pending = 0

instance : Decidable db.Exclusive := by unfold Exclusive; infer_instance

/-- `RegisterTraceCallback`, `RegisterProfileCallback` and `SetBusyTimeout`, which is seen only
by the handle. -/
def configured : Configuration → Database
  | .trace => { db with trace := !db.trace }
  | .profile => { db with profile := !db.profile }
  | .busyTimeout => db

def removeCallbacks : Database := { db with trace := false, profile := false }

/-- The call of `callback(baton)`. -/
def begin (baton : Baton) : Database :=
  match baton.work with
  | .prepare i =>
      if db.isOpen then
        { db with pending := db.pending + 1 }.queueWork (.prepare i) baton.callback
      else db.fail .beginPrepare
  | .exec =>
      if db.Exclusive then db.queueWork .exec baton.callback else db.fail .beginExclusive
  | .loadExtension =>
      if db.Exclusive then db.queueWork .loadExtension baton.callback
      else db.fail .beginExclusive
  | .close =>
      if db.Exclusive then
        { db.removeCallbacks with closing := true }.queueWork .close baton.callback
      else db.fail .beginExclusive
  | .wait =>
      if db.Exclusive then db.push (javascript baton.callback ++ [.process])
      else db.fail .beginExclusive
  | .configure option =>
      if db.isOpen ∧ db.handle then db.configured option else db.fail .configure

/-- On a closed database the callback or an event gets the error. -/
def schedule (baton : Baton) (exclusive : Bool) : Database :=
  if ¬db.isOpen ∧ db.locked then db.push [.javascript]
  else if ¬db.isOpen ∨ ((db.locked ∨ exclusive ∨ db.serialize) ∧ 0 < db.pending) then
    { db with queue := db.queue ++ [⟨baton, exclusive || db.serialize⟩] }
  else { db with locked := exclusive }.begin baton

/-! ## The queue of a statement -/

/-- A statement that was never prepared drops its calls without a word. -/
def cleanQueue (i : Nat) : Database :=
  if (db.statements i).prepared then
    if (db.statements i).queue = [] then db else db.push [.cleanLoop i false]
  else db.update i fun st =>
    { st with queue := [], ended := st.ended ++ st.queue.map fun call => call.baton.id }

def finalize (i : Nat) : Database :=
  if (db.statements i).finalized then db.fail .finalize
  else (db.update i fun st => { st with finalized := true }).cleanQueue i

/-- `STATEMENT_BEGIN`, or `Finalize` with its callback. -/
def beginStatement (i : Nat) (call : Statement.Call) : Database :=
  let db := db.update i fun st => { st with begun := st.begun ++ [call.baton.id] }
  match call.callback with
  | .begin operation =>
      if ¬(db.statements i).locked ∧ ¬(db.statements i).finalized ∧ (db.statements i).prepared
      then
        ({ db with pending := db.pending + 1 }.update i fun st =>
          { st with locked := true }).queueWork (.operate i operation) call.baton.callback
      else db.fail .statementBegin
  | .finalize => (db.push (javascript call.baton.callback)).finalize i

def scheduleStatement (i : Nat) (call : Statement.Call) : Database :=
  let db := db.update i fun st => { st with made := st.made ++ [call.baton.id] }
  let st := db.statements i
  if st.finalized then
    (db.update i fun st => { st with queue := st.queue ++ [call] }).cleanQueue i
  else if ¬st.prepared ∨ st.locked then
    db.update i fun st => { st with queue := st.queue ++ [call] }
  else db.beginStatement i call

/-! ## The calls of JavaScript -/

inductive Request
  | prepare (callback : Bool)
  | statement (i : Nat) (work : Statement.WorkCallback) (callback : Bool)
  | exec (callback : Bool)
  | loadExtension (callback : Bool)
  | close (callback : Bool)
  | wait (callback : Bool)
  | configure (option : Configuration)
  | serialize (value : Bool) (callback : Bool)
  deriving DecidableEq

/-- A new baton goes to `Schedule`. -/
def scheduleNew (work : WorkCallback) (callback exclusive : Bool) : Database :=
  { db with batons := db.batons + 1 }.schedule ⟨db.batons, work, callback⟩ exclusive

def newStatement : Database :=
  { db with
    created := db.created + 1
    statements := Function.update db.statements db.created .new }

/-- `serialize true` is `serialize` and `serialize false` is `parallelize`. -/
def request : Request → Option Database
  | .prepare callback =>
      some (db.newStatement.scheduleNew (.prepare db.created) callback false)
  | .statement i work callback =>
      if i < db.created then
        some ({ db with batons := db.batons + 1 }.scheduleStatement i ⟨work, db.batons, callback⟩)
      else none
  | .exec callback => some (db.scheduleNew .exec callback true)
  | .loadExtension callback => some (db.scheduleNew .loadExtension callback true)
  | .close callback => some (db.scheduleNew .close callback true)
  | .wait callback => some (db.scheduleNew .wait callback true)
  | .configure option => some ((db.push [.process]).scheduleNew (.configure option) false false)
  | .serialize value callback => some <|
      if callback then
        { db with serialize := value }.push [.javascript, .restoreSerialize db.serialize]
      else { db with serialize := value }.push [.process]

/-! ## The continuations -/

/-- The baton of a statement that waited for a database that is closed now. -/
def deleteBaton (i : Nat) : Database :=
  if ¬db.isOpen ∧ db.locked then db.finalize i else db

/-- The loop of `Process` takes the call out of the queue. -/
def Takes (call : Call) : Prop :=
  db.isOpen ∧ (¬db.locked ∨ db.pending = 0) ∧ ¬(call.exclusive ∧ 0 < db.pending)

instance (call : Call) : Decidable (db.Takes call) := by unfold Takes; infer_instance

def processLoop : Database :=
  match db.queue with
  | [] => db
  | call :: rest =>
      if db.Takes call then
        ({ db with queue := rest, locked := call.exclusive }.push [.calledBack]).begin call.baton
      else db

def closedLoop (called : Bool) : Database :=
  match db.queue with
  | [] => db.push (javascript (!called))
  | call :: _ =>
      if call.baton.callback then db.push [.javascript, .closedPop true call]
      else db.push [.closedPop called call]

/-- The first call of the queue is removed, and the call whose callback ran is deleted. -/
def closedPop (called : Bool) (call : Call) : Database :=
  match db.queue with
  | [] => db.fail .freedCall
  | first :: rest =>
      if first = call then
        let db := { db with queue := rest }.push [.closedLoop called]
        match call.baton.work with
        | .prepare i => db.deleteBaton i
        | _ => db
      else db.fail .freedCall

def statementEnd (i : Nat) (prepare : Bool) : Database :=
  if (db.statements i).locked ∧ 0 < db.pending then
    ({ db with pending := db.pending - 1 }.update i fun st => { st with locked := false }).push
      (.statementProcess i :: .process :: if prepare then [.deleteBaton i] else [])
  else db.fail .statementEnd

def statementLoop (i : Nat) : Database :=
  match (db.statements i).queue with
  | [] => db
  | call :: rest =>
      if (db.statements i).prepared ∧ ¬(db.statements i).locked then
        ((db.update i fun st => { st with queue := rest }).push
          [.statementLoop i]).beginStatement i call
      else db

def cleanLoop (i : Nat) (called : Bool) : Database :=
  match (db.statements i).queue with
  | [] => db.push (javascript (!called))
  | call :: rest =>
      let db := db.update i fun st =>
        { st with queue := rest, ended := st.ended ++ [call.baton.id] }
      if (db.statements i).prepared ∧ call.baton.callback then
        db.push [.javascript, .cleanLoop i true]
      else db.push [.cleanLoop i called]

/-- The frame has been taken off the stack. -/
def resume : Frame → Option Database
  | .javascript => none
  | .restoreSerialize before => some ({ db with serialize := before }.push [.process])
  | .process => some <|
      if ¬db.isOpen ∧ db.locked ∧ db.queue ≠ [] then db.push [.closedLoop false]
      else db.push [.processLoop]
  | .processLoop => some db.processLoop
  | .calledBack => some (if db.locked then db else db.push [.processLoop])
  | .closedLoop called => some (db.closedLoop called)
  | .closedPop called call => some (db.closedPop called call)
  | .afterOpen => some (if db.isOpen then db.push [.javascript, .process] else db)
  | .afterClose => some (if db.isOpen then db else db.push [.javascript, .process])
  | .statementEnd i prepare => some (db.statementEnd i prepare)
  | .statementProcess i => some <|
      if (db.statements i).finalized ∧ (db.statements i).queue ≠ [] then db.cleanQueue i
      else db.push [.statementLoop i]
  | .statementLoop i => some (db.statementLoop i)
  | .cleanLoop i called => some (db.cleanLoop i called)
  | .afterError i => some (db.finalize i)
  | .deleteBaton i => some (db.deleteBaton i)

/-! ## The thread pool -/

/-- Opening and closing set the handle from the thread of the pool. -/
def execute (k : Nat) (work : Work) (ok : Bool) : Database :=
  { db with
    works := db.works.set k { work with status := some ok }
    handle := match work.job with
      | .open => ok
      | .close => db.handle && !ok
      | _ => db.handle }

/-- Whether the callback of an operation, or an event instead of it, is called. -/
def reports (operation : Operation) (callback ok : Bool) : Bool :=
  match operation with
  | .each => !ok
  | .reset => callback
  | _ => callback || !ok

/-- The `Work_After…` functions. The work has been taken out of the pool. -/
def after (work : Work) (ok : Bool) : Database :=
  match work.job with
  | .open =>
      { db with isOpen := db.isOpen || ok }.push
        (javascript (work.callback || !(db.isOpen || ok)) ++ [Frame.afterOpen])
  | .prepare i =>
      if ok then
        (db.update i fun st => { st with prepared := true }).push
          (javascript work.callback ++ [.statementEnd i true])
      else db.push [.javascript, .afterError i, .statementEnd i true]
  | .exec | .loadExtension => db.push (javascript (work.callback || !ok) ++ [.process])
  | .close =>
      { db with closing := false, isOpen := db.isOpen && !ok }.push
        (javascript (work.callback || (db.isOpen && !ok)) ++ [Frame.afterClose])
  | .operate i operation =>
      db.push (javascript (reports operation work.callback ok) ++ [.statementEnd i false])

/-! ## The machine -/

inductive Action
  | request (r : Request)
  | resume
  | execute (k : Nat) (ok : Bool)
  | after (k : Nat)
  deriving DecidableEq

/-- A function called by an event of the loop finds the stack empty; JavaScript returns
by `resume`. -/
def step (action : Action) : Option Database :=
  if db.fault ≠ none then none
  else match action with
    | .request r =>
        match db.stack with
        | [] => db.request r
        | .javascript :: _ => db.request r
        | _ :: _ => none
    | .resume =>
        match db.stack with
        | [] => none
        | .javascript :: rest => some { db with stack := rest }
        | frame :: rest => { db with stack := rest }.resume frame
    | .execute k ok =>
        match db.works[k]? with
        | some work => if work.status = none then some (db.execute k work ok) else none
        | none => none
    | .after k =>
        if db.stack = [] then
          match db.works[k]? with
          | some ⟨job, callback, some ok⟩ =>
              some ({ db with works := db.works.eraseIdx k }.after ⟨job, callback, some ok⟩ ok)
          | _ => none
        else none

def machine : Machine Database Action where
  Init db := ∃ callback, db = new callback
  step := step

end Database

end AlmondAndroid.Storage
