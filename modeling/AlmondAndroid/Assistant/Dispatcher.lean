import AlmondAndroid.Library.Machine
import AlmondAndroid.Assistant.HistoryModel

/-!
# The assistant between Java and the user

`AssistantAPI` turns the calls of JavaScript into messages and posts them to the
handler of the main thread. There `AssistantDispatcher` keeps the history, displays a
message on the attached activity or notifies, and answers for the user. Everything but
`AssistantAPI` runs on the main thread, one message or one user action at a time.
-/

namespace AlmondAndroid.Assistant

open Library Bridge

/-- The resources, the build flag and what is called of `java.lang`. -/
structure Platform where
  yes : U16String
  no : U16String
  neverMind : U16String
  debug : Bool
  toUpperCase : U16String → U16String
  valueOf : JsonTree Double → U16String

/-- The resources as they are in English, with the case mapping of ASCII. -/
def Platform.english : Platform where
  yes := u16 "Yes"
  no := u16 "No"
  neverMind := u16 "Cancel"
  debug := false
  toUpperCase := List.map fun c => if 97 ≤ c ∧ c ≤ 122 then c - 32 else c
  valueOf _ := []

/-! ## `AssistantAPI` -/

/-- The calls of JavaScript, with arguments of the types that Java casts them to. -/
inductive ApiCall
  | send (text icon : JavaString)
  | sendPicture (url icon : JavaString)
  | sendRDL (rdl : JSONObject Double) (icon : JavaString)
  | sendChoice (idx : Int32) (what title text : JavaString)
  | sendLink (title url : JavaString)
  | sendButton (title : JavaString) (button : JSONObject Double)
  | sendAskSpecial (what : JavaString)

def askSpecialType (p : Platform) : JavaString → AskSpecialType
  | none => .null
  | some what => (AskSpecialType.valueOf (p.toUpperCase what)).getD .unknown

def ApiCall.dispatched (p : Platform) : ApiCall → List AssistantMessage
  | send text icon => [.text .fromSabrina icon text]
  | sendPicture url icon => [.picture .fromSabrina icon url]
  | sendRDL rdl icon =>
      .rdl .fromSabrina icon rdl ::
        match rdl.opt (u16 "pictureUrl") with
        | none => []
        | some url => [.picture .fromSabrina icon (some (getString p.valueOf url))]
  | sendChoice idx _ title text => [.choice .fromSabrina idx title text]
  | sendLink title url => [.link .fromSabrina title url]
  | sendButton title button => [.button ⟨.fromSabrina, title, button⟩]
  | sendAskSpecial what => [.askSpecial ⟨.fromSabrina, askSpecialType p what⟩]

/-! ## `MainActivity` -/

inductive InputType
  | text
  | number
  | emailAddress
  | phone
  | password
  deriving DecidableEq

structure MainActivity where
  threshold : Nat
  cancelVisible : Bool
  inputType : InputType
  isPassword : Bool
  deriving DecidableEq

namespace MainActivity

def new : MainActivity := ⟨1, false, .text, false⟩

def syncSuggestions (a : MainActivity) (msg : AskSpecial) : MainActivity :=
  { a with threshold := if msg.what ≠ .null then 1000 else 1 }

def syncCancelButton (a : MainActivity) (msg : AskSpecial) : MainActivity :=
  { a with cancelVisible := msg.what ≠ .null }

def syncKeyboardType (a : MainActivity) (msg : AskSpecial) : MainActivity :=
  { a with
    inputType := match msg.what with
      | .number => .number
      | .emailAddress => .emailAddress
      | .phoneNumber => .phone
      | .password => .password
      | _ => .text
    isPassword := msg.what = .password }

/-- Of what a message changes on the screen only the state of the input is kept. -/
def display (a : MainActivity) : AssistantMessage → MainActivity
  | .askSpecial msg => ((a.syncSuggestions msg).syncCancelButton msg).syncKeyboardType msg
  | _ => a

end MainActivity

def trim (s : U16String) : U16String :=
  ((s.dropWhile fun c => c.toNat ≤ 32).reverse.dropWhile fun c => c.toNat ≤ 32).reverse

/-! ## `AssistantDispatcher` -/

/-- The tasks of the executor, each a call of `AssistantCommandHandler`; what a line
after `\r` becomes is left open. -/
inductive Command
  | ready
  | handleCommand (command : U16String)
  | handleParsedCommand (json : JSONObject Double)
  | handleThingTalk (code : U16String)
  | presentExample (utterance targetCode : JavaString)
  | slashR (line : U16String)

inductive Delivery
  | added (msg : AssistantMessage)
  | displayed (activity : Nat) (msg : AssistantMessage)
  | notified (msg : AssistantMessage)

structure Place where
  name : JavaString
  longitude : Double
  latitude : Double

/-- Activities are numbered as they are created. `dispatching` is what the API call
that is under way has yet to dispatch, and `posted` the messages in the queue of the
handler. Three fields are histories: the calls made, the messages handled, each with
the output at that time, and what was done with them. -/
structure AssistantDispatcher where
  history : AssistantHistoryModel
  notificationMessages : List AssistantMessage
  asking : Option AskSpecial
  output : Option Nat
  activities : List MainActivity
  async : List Command
  pendingClears : Nat
  dispatching : List AssistantMessage
  posted : List AssistantMessage
  calls : List ApiCall
  handled : List (AssistantMessage × Option Nat)
  deliveries : List Delivery

inductive UserAction
  | neverMind
  | yes
  | no
  | choice (title : JavaString) (idx : Int32)
  | button (title : JavaString) (json : JSONObject Double)
  | location (place : Place)
  | picture (url : U16String)
  | contact (data displayName : JavaString) (type : U16String)
  | help
  | train
  | makeRule
  | configure (kind : U16String)
  | presentExample (utterance targetCode : JavaString)
  | clear

namespace AssistantDispatcher

inductive Action
  | api (call : ApiCall)
  | dispatch
  | handleMessage
  | create
  | setAssistantOutput (output : Option Nat)
  | ready
  | textActivated (activity : Nat) (text : U16String)
  | user (action : UserAction)
  | cleared

def initial : AssistantDispatcher where
  history := .empty
  notificationMessages := []
  asking := none
  output := none
  activities := []
  async := []
  pendingClears := 0
  dispatching := []
  posted := []
  calls := []
  handled := []
  deliveries := []

/-! ### From the API to the handler -/

def isSlotFilling : AssistantMessage → Bool
  | .button b => b.json.has (u16 "slots")
  | _ => false

def sendToTarget (s : AssistantDispatcher) (msg : AssistantMessage) : AssistantDispatcher :=
  { s with posted := s.posted ++ [msg] }

def dispatchSlotFilling (s : AssistantDispatcher) (b : Button) : AssistantDispatcher :=
  match SlotFilling.new b.direction b.title b.json with
  | some slotFilling => s.sendToTarget (.slotFilling slotFilling)
  | none => s.sendToTarget (.button b)

def dispatch (s : AssistantDispatcher) (msg : AssistantMessage) : AssistantDispatcher :=
  if isSlotFilling msg then
    match msg with
    | .button b => s.dispatchSlotFilling b
    | _ => s
  else s.sendToTarget msg

/-! ### On the main thread -/

def display (s : AssistantDispatcher) (activity : Nat) (msg : AssistantMessage) :
    AssistantDispatcher :=
  { s with activities := s.activities.modify activity (·.display msg) }

def deliver (s : AssistantDispatcher) (delivery : Delivery) : AssistantDispatcher :=
  { s with deliveries := s.deliveries ++ [delivery] }

def maybeInformUI (s : AssistantDispatcher) (msg : AssistantMessage) :
    AssistantDispatcher × Bool :=
  match s.output with
  | some activity => ((s.display activity msg).deliver (.displayed activity msg), true)
  | none => (s, false)

/-- What the notification shows is left out. -/
def maybeNotify (s : AssistantDispatcher) (msg : AssistantMessage) : AssistantDispatcher :=
  if msg.shouldNotify then
    { s with notificationMessages := s.notificationMessages ++ [msg] }.deliver (.notified msg)
  else s

def addToHistory (s : AssistantDispatcher) (msg : AssistantMessage) : AssistantDispatcher :=
  match s.history.add msg with
  | (history, true) => { s with history := history }.deliver (.added msg)
  | (history, false) => { s with history := history }

def ask (s : AssistantDispatcher) : AssistantMessage → AssistantDispatcher
  | .askSpecial msg => { s with asking := some msg }
  | _ => s

def handleMessage (s : AssistantDispatcher) (msg : AssistantMessage) : AssistantDispatcher :=
  let s := { s with handled := s.handled ++ [(msg, s.output)] }
  match ((s.addToHistory msg).ask msg).maybeInformUI msg with
  | (s, true) => s
  | (s, false) => s.maybeNotify msg

def setAssistantOutput (s : AssistantDispatcher) : Option Nat → AssistantDispatcher
  | none => { s with output := none }
  | some activity =>
      let s := { s with output := some activity, notificationMessages := [] }
      match s.asking with
      | some asking => s.display activity (.askSpecial asking)
      | none => s

/-! ### Answers of the user -/

def execute (s : AssistantDispatcher) (command : Command) : AssistantDispatcher :=
  { s with async := s.async ++ [command] }

def handleParsedCommand (s : AssistantDispatcher) (code : List U16String)
    (entities : JSONObject Double) : AssistantDispatcher :=
  s.execute (.handleParsedCommand [(u16 "code", .array (code.map .string)),
    (u16 "entities", .object entities)])

def specialCode (specialType : U16String) : List U16String :=
  [u16 "bookkeeping", u16 "special", u16 "special:" ++ specialType]

def removeButtons (s : AssistantDispatcher) : AssistantDispatcher :=
  { s with history := s.history.removeButtons }

def answer (s : AssistantDispatcher) (msg : AssistantMessage) : AssistantDispatcher :=
  { s with history := (s.history.removeButtons.add msg).1 }

def userText (msg : JavaString) : AssistantMessage := .text .fromUser none msg

/-- Without the debug flag every command goes to the end of this function. -/
def handleCommand (p : Platform) (s : AssistantDispatcher) (command : U16String) :
    AssistantDispatcher :=
  if p.debug ∧ u16 "\\r " <+: command then s.execute (.slashR (command.drop 3))
  else if p.debug ∧ u16 "\\t " <+: command then s.execute (.handleThingTalk (command.drop 3))
  else (s.execute (.handleCommand command)).answer (userText (some command))

def maskedText : U16String := List.replicate 8 0x2022

def handlePassword (s : AssistantDispatcher) (password : U16String) : AssistantDispatcher :=
  (s.execute (.handleCommand password)).answer (userText (some maskedText))

/-- A double that `JSONObject.put` accepts. -/
def isFinite (d : Double) : Bool := (d >>> 52) &&& 0x7ff ≠ 0x7ff

def locationJson (place : Place) : JSONObject Double :=
  ((JSONObject.put [] (u16 "relativeTag") (.string (u16 "absolute"))).put
    (u16 "longitude") (.number place.longitude)).put
    (u16 "latitude") (.number place.latitude) |>.putString (u16 "display") place.name

/-- A `JSONException` is logged. -/
def handleLocation (s : AssistantDispatcher) (place : Place) : AssistantDispatcher :=
  let s :=
    if isFinite place.longitude ∧ isFinite place.latitude then
      s.handleParsedCommand [u16 "bookkeeping", u16 "answer", u16 "LOCATION_0"]
        [(u16 "LOCATION_0", .object (locationJson place))]
    else s
  s.answer (userText place.name)

def handlePicture (s : AssistantDispatcher) (url : U16String) : AssistantDispatcher :=
  (s.handleParsedCommand [u16 "bookkeeping", u16 "answer", u16 "PICTURE_0"]
    [(u16 "PICTURE_0", .string url)]).answer (.picture .fromUser none (some url))

def handleContact (s : AssistantDispatcher) (data displayName : JavaString) (type : U16String) :
    AssistantDispatcher :=
  let entity := u16 "GENERIC_ENTITY_" ++ type ++ u16 "_0"
  let contact :=
    (JSONObject.putString [] (u16 "value") data).putString (u16 "display") displayName
  (s.handleParsedCommand [u16 "bookkeeping", u16 "answer", entity]
    [(entity, .object contact)]).answer (userText displayName)

def handleConfigure (s : AssistantDispatcher) (kind : U16String) : AssistantDispatcher :=
  (s.handleParsedCommand [u16 "now", u16 "=>",
    u16 "@org.thingpedia.builtin.thingengine.builtin.configure",
    u16 "param:device:Entity(tt:device)", u16 "=", u16 "device:" ++ kind] []).removeButtons

def userAction (p : Platform) (s : AssistantDispatcher) : UserAction → AssistantDispatcher
  | .neverMind =>
      (s.handleParsedCommand (specialCode (u16 "nevermind")) []).answer (userText p.neverMind)
  | .yes => (s.handleParsedCommand (specialCode (u16 "yes")) []).answer (userText p.yes)
  | .no => (s.handleParsedCommand (specialCode (u16 "no")) []).answer (userText p.no)
  | .choice title idx =>
      (s.handleParsedCommand [u16 "bookkeeping", u16 "choice", u16 (toString idx.toInt)]
        []).answer (userText title)
  | .button title json => (s.execute (.handleParsedCommand json)).answer (userText title)
  | .location place => s.handleLocation place
  | .picture url => s.handlePicture url
  | .contact data displayName type => s.handleContact data displayName type
  | .help => (s.handleParsedCommand (specialCode (u16 "help")) []).removeButtons
  | .train => (s.handleParsedCommand (specialCode (u16 "train")) []).removeButtons
  | .makeRule => (s.handleParsedCommand (specialCode (u16 "makerule")) []).removeButtons
  | .configure kind => s.handleConfigure kind
  | .presentExample utterance targetCode =>
      s.removeButtons.execute (.presentExample utterance targetCode)
  | .clear =>
      { s.handleParsedCommand (specialCode (u16 "nevermind")) [] with
        pendingClears := s.pendingClears + 1 }

def onTextActivated (p : Platform) (s : AssistantDispatcher) (a : MainActivity)
    (text : U16String) : AssistantDispatcher :=
  if trim text = [] then s
  else if a.isPassword then s.handlePassword (trim text)
  else s.handleCommand p (trim text)

/-! ### The machine -/

def step (p : Platform) (s : AssistantDispatcher) : Action → Option AssistantDispatcher
  | .api call =>
      match s.dispatching with
      | [] => some { s with calls := s.calls ++ [call], dispatching := call.dispatched p }
      | _ :: _ => none
  | .dispatch =>
      match s.dispatching with
      | [] => none
      | msg :: dispatching => some ({ s with dispatching := dispatching }.dispatch msg)
  | .handleMessage =>
      match s.posted with
      | [] => none
      | msg :: posted => some ({ s with posted := posted }.handleMessage msg)
  | .create => some { s with activities := s.activities ++ [.new] }
  | .setAssistantOutput output =>
      if ∀ i ∈ output, i < s.activities.length then some (s.setAssistantOutput output) else none
  | .ready => some (s.execute .ready)
  | .textActivated activity text =>
      s.activities[activity]?.map fun a => s.onTextActivated p a text
  | .user action => some (s.userAction p action)
  | .cleared =>
      match s.pendingClears with
      | 0 => none
      | n + 1 => some { s with pendingClears := n, history := s.history.clear }

def machine (p : Platform) : Machine AssistantDispatcher Action where
  Init s := s = initial
  step := step p

/-! ## What a step does -/

def converted (msg : AssistantMessage) : AssistantMessage :=
  match msg with
  | .button b =>
      match SlotFilling.new b.direction b.title b.json with
      | some slotFilling => .slotFilling slotFilling
      | none => msg
  | _ => msg

def asked (asking : Option AskSpecial) : AssistantMessage → Option AskSpecial
  | .askSpecial msg => some msg
  | _ => asking

/-- A message is added unless it is filtered, and displayed if something is attached;
if nothing is, then it is notified if it should be. -/
def deliveriesOf (msg : AssistantMessage) (output : Option Nat) : List Delivery :=
  (if msg.isFiltered then [] else [.added msg]) ++
    match output with
    | some activity => [.displayed activity msg]
    | none => if msg.shouldNotify then [.notified msg] else []

def notified (msg : AssistantMessage) : Option Nat → List AssistantMessage
  | some _ => []
  | none => if msg.shouldNotify then [msg] else []

/-- Every step, with what it has found. The last case is all that the user does. -/
inductive Does (p : Platform) (s : AssistantDispatcher) : Action → AssistantDispatcher → Prop
  | api {call : ApiCall} : s.dispatching = [] →
      Does p s (.api call) { s with calls := s.calls ++ [call], dispatching := call.dispatched p }
  | dispatch {msg : AssistantMessage} {dispatching : List AssistantMessage} :
      s.dispatching = msg :: dispatching →
      Does p s .dispatch
        { s with dispatching := dispatching, posted := s.posted ++ [converted msg] }
  | handleMessage {msg : AssistantMessage} {posted : List AssistantMessage} :
      s.posted = msg :: posted →
      Does p s .handleMessage ({ s with posted := posted }.handleMessage msg)
  | create : Does p s .create { s with activities := s.activities ++ [.new] }
  | setAssistantOutput {output : Option Nat} : (∀ i ∈ output, i < s.activities.length) →
      Does p s (.setAssistantOutput output) (s.setAssistantOutput output)
  | user {a : Action} {history : AssistantHistoryModel} {async : List Command}
      {pendingClears : Nat} :
      Does p s a { s with history := history, async := async, pendingClears := pendingClears }

theorem slotFilling_new_of_not_has {direction : Direction} {title : JavaString}
    {json : JSONObject Double} (h : json.has (u16 "slots") = false) :
    SlotFilling.new direction title json = none := by
  apply SlotFilling.new_of_slots_none
  rw [JSONObject.has, Option.isSome_eq_false_iff, Option.isNone_iff_eq_none] at h
  rw [JSONObject.getJSONArray, h]

theorem dispatch_eq (s : AssistantDispatcher) (msg : AssistantMessage) :
    s.dispatch msg = { s with posted := s.posted ++ [converted msg] } := by
  cases msg with
  | button b =>
    rw [dispatch, isSlotFilling, converted]
    cases hslots : b.json.has (u16 "slots") with
    | true =>
      rw [if_pos rfl, dispatchSlotFilling]
      cases SlotFilling.new b.direction b.title b.json with
      | some slotFilling => rfl
      | none => rfl
    | false =>
      rw [if_neg Bool.false_ne_true, slotFilling_new_of_not_has hslots]
      rfl
  | _ => rfl

theorem addToHistory_eq (s : AssistantDispatcher) (msg : AssistantMessage) :
    s.addToHistory msg =
      { s with
        history := (s.history.add msg).1
        deliveries := s.deliveries ++ if msg.isFiltered then [] else [.added msg] } := by
  rw [addToHistory]
  cases hmsg : msg.isFiltered with
  | true =>
    rw [AssistantHistoryModel.add_of_isFiltered _ hmsg, if_pos rfl, List.append_nil]
  | false =>
    rw [AssistantHistoryModel.add_of_not_isFiltered _ hmsg, if_neg Bool.false_ne_true]
    rfl

theorem ask_eq (s : AssistantDispatcher) (msg : AssistantMessage) :
    s.ask msg = { s with asking := asked s.asking msg } := by
  cases msg <;> rfl

theorem handleMessage_eq (s : AssistantDispatcher) (msg : AssistantMessage) :
    s.handleMessage msg =
      { s with
        history := (s.history.add msg).1
        asking := asked s.asking msg
        handled := s.handled ++ [(msg, s.output)]
        deliveries := s.deliveries ++ deliveriesOf msg s.output
        activities := match s.output with
          | some activity => s.activities.modify activity (·.display msg)
          | none => s.activities
        notificationMessages := s.notificationMessages ++ notified msg s.output } := by
  rw [handleMessage]
  rw [addToHistory_eq, ask_eq, maybeInformUI, deliveriesOf.eq_def, ← List.append_assoc]
  generalize (if msg.isFiltered then [] else [Delivery.added msg]) = added
  dsimp only
  cases s.output with
  | some activity =>
    dsimp only
    rw [notified, List.append_nil]
    rfl
  | none =>
    dsimp only
    rw [notified, maybeNotify]
    cases msg.shouldNotify with
    | true =>
      rw [if_pos rfl, if_pos rfl, if_pos rfl]
      rfl
    | false =>
      rw [if_neg Bool.false_ne_true, if_neg Bool.false_ne_true, if_neg Bool.false_ne_true,
        List.append_nil, List.append_nil]

theorem setAssistantOutput_eq (s : AssistantDispatcher) (output : Option Nat) :
    s.setAssistantOutput output =
      { s with
        output := output
        notificationMessages := if output = none then s.notificationMessages else []
        activities := match output, s.asking with
          | some activity, some asking =>
              s.activities.modify activity (·.display (.askSpecial asking))
          | _, _ => s.activities } := by
  cases output with
  | none => rfl
  | some activity =>
    rw [setAssistantOutput]
    dsimp only
    cases s.asking with
    | none => rfl
    | some asking => rfl

theorem userAction_eq (p : Platform) (s : AssistantDispatcher) (action : UserAction) :
    ∃ history async pendingClears, s.userAction p action =
      { s with history := history, async := async, pendingClears := pendingClears } := by
  cases action with
  | location place =>
    rw [userAction, handleLocation]
    split
    · exact ⟨_, _, _, rfl⟩
    · exact ⟨_, _, _, rfl⟩
  | _ => exact ⟨_, _, _, rfl⟩

theorem onTextActivated_eq (p : Platform) (s : AssistantDispatcher) (a : MainActivity)
    (text : U16String) :
    ∃ history async, s.onTextActivated p a text =
      { s with history := history, async := async } := by
  rw [onTextActivated]
  split
  · exact ⟨s.history, s.async, rfl⟩
  · split
    · exact ⟨_, _, rfl⟩
    · rw [handleCommand]
      split
      · exact ⟨_, _, rfl⟩
      · split
        · exact ⟨_, _, rfl⟩
        · exact ⟨_, _, rfl⟩

theorem step_does {p : Platform} {s t : AssistantDispatcher} {a : Action}
    (hstep : step p s a = some t) : Does p s a t := by
  cases a with
  | api call =>
    rw [step] at hstep
    cases hdispatching : s.dispatching with
    | nil =>
      rw [hdispatching] at hstep
      cases hstep
      exact .api hdispatching
    | cons msg rest =>
      rw [hdispatching] at hstep
      cases hstep
  | dispatch =>
    rw [step] at hstep
    cases hdispatching : s.dispatching with
    | nil =>
      rw [hdispatching] at hstep
      cases hstep
    | cons msg rest =>
      rw [hdispatching] at hstep
      cases hstep
      rw [dispatch_eq]
      exact .dispatch hdispatching
  | handleMessage =>
    rw [step] at hstep
    cases hposted : s.posted with
    | nil =>
      rw [hposted] at hstep
      cases hstep
    | cons msg rest =>
      rw [hposted] at hstep
      cases hstep
      exact .handleMessage hposted
  | create =>
    cases hstep
    exact .create
  | setAssistantOutput output =>
    rw [step] at hstep
    split at hstep
    · rename_i hvalid
      cases hstep
      exact .setAssistantOutput hvalid
    · cases hstep
  | ready =>
    cases hstep
    exact .user
  | textActivated activity text =>
    obtain ⟨a, -, rfl⟩ := Option.map_eq_some_iff.mp hstep
    obtain ⟨history, async, heq⟩ := onTextActivated_eq p s a text
    rw [heq]
    exact .user
  | user action =>
    cases hstep
    obtain ⟨history, async, pendingClears, heq⟩ := userAction_eq p s action
    rw [heq]
    exact .user
  | cleared =>
    rw [step] at hstep
    split at hstep
    · cases hstep
    · cases hstep
      exact .user

end AssistantDispatcher

end AlmondAndroid.Assistant
