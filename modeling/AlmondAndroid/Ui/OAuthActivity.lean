import AlmondAndroid.Library.Machine
import AlmondAndroid.Bridge.OrgJson

/-!
# OAuth in a web view

`OAuthActivity` keeps the sessions of all its attempts in one map from strings to strings,
and the callback of an attempt passes on what the map holds when its task runs.
-/

namespace AlmondAndroid.Ui

open Library Bridge

universe u

variable {Num : Type u} (valueOf : JsonTree Num → U16String)
  (lastPathSegment : U16String → Option U16String)

/-- The entries in the order in which they were put. -/
abbrev SessionMap := List (U16String × U16String)

/-- What `StartOAuth2Task` brings back; a `result` of null means that nothing is left to do. -/
inductive StartOAuth2Result (Num : Type u)
  | noControl
  | exception (message : Option U16String)
  | result (result : Option (JSONArray Num))

inductive Attempt (Num : Type u)
  | running
  | returned (result : StartOAuth2Result Num)
  | shown (redirect : U16String) (session : JSONObject Num)
  | over

/-- A `DeviceHandleOAuth2Callback`, with the session that the engine had returned for
its attempt. -/
structure Callback (Num : Type u) where
  session : JSONObject Num
  url : U16String
  handled : Bool

/-- A call of `ControlBinder.handleOAuth2Callback`. -/
structure HandleCall (Num : Type u) where
  kind : Option U16String
  url : U16String
  passed : JSONObject Num
  session : JSONObject Num

/-- `sessions` are those that have been put into the map. -/
structure OAuthActivity (Num : Type u) where
  started : Bool
  attempts : List (Attempt Num)
  mSession : SessionMap
  sessions : List (JSONObject Num)
  callbacks : List (Callback Num)
  calls : List (HandleCall Num)

namespace OAuthActivity

inductive Action (Num : Type u)
  | onStart
  | onServiceConnected
  | doInBackground (i : Nat) (result : StartOAuth2Result Num)
  | onPostExecute (i : Nat)
  | shouldOverrideUrlLoading (i : Nat) (url : U16String)
  | handleOAuth2Callback (j : Nat) (control : Bool)

def initial : OAuthActivity Num := ⟨false, [], [], [], [], []⟩

def jsonToMap (o : JSONObject Num) : SessionMap :=
  o.map fun member => (member.1, getString valueOf member.2)

def mapToJson (map : SessionMap) : JSONObject Num :=
  map.map fun entry => (entry.1, .string entry.2)

/-- `result.getString(0)` and `result.getJSONObject(1)`. -/
def unpack : JSONArray Num → Option (U16String × JSONObject Num)
  | redirect :: .object session :: _ => some (getString valueOf redirect, session)
  | _ => none

def setAttempt (s : OAuthActivity Num) (i : Nat) (attempt : Attempt Num) : OAuthActivity Num :=
  { s with attempts := s.attempts.set i attempt }

def startOAuth2 (s : OAuthActivity Num) : OAuthActivity Num :=
  if s.started then s else { s with started := true, attempts := s.attempts ++ [.running] }

def continueStartOAuth2 (s : OAuthActivity Num) (i : Nat) (redirect : U16String)
    (session : JSONObject Num) : OAuthActivity Num :=
  { s.setAttempt i (.shown redirect session) with
    mSession := s.mSession ++ jsonToMap valueOf session
    sessions := s.sessions ++ [session] }

/-- A result that cannot be unpacked is logged. -/
def onPostExecute (s : OAuthActivity Num) (i : Nat) : StartOAuth2Result Num → OAuthActivity Num
  | .noControl => s.setAttempt i .over
  | .exception _ => s.setAttempt i .over
  | .result none => s.setAttempt i .over
  | .result (some result) =>
      match unpack valueOf result with
      | some (redirect, session) => s.continueStartOAuth2 valueOf i redirect session
      | none => s.setAttempt i .over

def isCallback (url : U16String) : Bool :=
  (u16 "http://127.0.0.1:3000/devices/oauth2/callback/").isPrefixOf url ||
    (u16 "https://thingengine.stanford.edu/devices/oauth2/callback/").isPrefixOf url

def handleCallback (s : OAuthActivity Num) (session : JSONObject Num) (url : U16String) :
    OAuthActivity Num :=
  { s with callbacks := s.callbacks ++ [⟨session, url, false⟩] }

/-- Without a control the engine is not called. -/
def handleOAuth2Callback (s : OAuthActivity Num) (j : Nat) (callback : Callback Num)
    (control : Bool) : OAuthActivity Num :=
  { s with
    callbacks := s.callbacks.set j { callback with handled := true }
    calls :=
      if control then
        s.calls ++ [⟨lastPathSegment callback.url, callback.url, mapToJson s.mSession,
          callback.session⟩]
      else s.calls }

def step (s : OAuthActivity Num) : Action Num → Option (OAuthActivity Num)
  | .onStart => some { s with started := false }
  | .onServiceConnected => some s.startOAuth2
  | .doInBackground i result =>
      match s.attempts[i]? with
      | some .running => some (s.setAttempt i (.returned result))
      | _ => none
  | .onPostExecute i =>
      match s.attempts[i]? with
      | some (.returned result) => some (s.onPostExecute valueOf i result)
      | _ => none
  | .shouldOverrideUrlLoading i url =>
      match s.attempts[i]? with
      | some (.shown _ session) =>
          if isCallback url then some (s.handleCallback session url) else none
      | _ => none
  | .handleOAuth2Callback j control =>
      match s.callbacks[j]? with
      | some ⟨session, url, false⟩ =>
          some (s.handleOAuth2Callback lastPathSegment j ⟨session, url, false⟩ control)
      | _ => none

def machine : Machine (OAuthActivity Num) (Action Num) where
  Init s := s = initial
  step := step valueOf lastPathSegment

/-! ## What the map holds -/

def SameObject (o o' : JSONObject Num) : Prop := ∀ key, o.opt key = o'.opt key

/-- Every call of the engine has had the session of its own attempt. -/
def SessionsKept (s : OAuthActivity Num) : Prop :=
  ∀ call ∈ s.calls, SameObject call.passed call.session

def lastValue (sessions : List (JSONObject Num)) (key : U16String) : Option (JsonTree Num) :=
  Table.lastWrite sessions.flatten key

/-- The session is made of strings, has every key of the others, and what the last session
with a key has there reads the same. -/
structure Survives (sessions : List (JSONObject Num)) (session : JSONObject Num) : Prop where
  strings : ∀ key value, session.opt key = some value → ∃ text, value = .string text
  complete : ∀ other ∈ sessions, ∀ key, other.has key → session.has key
  last : ∀ key value text, lastValue sessions key = some value →
    session.opt key = some (.string text) → getString valueOf value = text

def Agrees (s : OAuthActivity Num) : Action Num → Prop
  | .handleOAuth2Callback j true => ∀ callback, s.callbacks[j]? = some callback →
      Survives valueOf s.sessions callback.session
  | _ => True

variable {valueOf lastPathSegment} {s t : OAuthActivity Num}

/-- The map is made of the sessions, and a callback belongs to one of them. -/
structure Tracks (valueOf : JsonTree Num → U16String) (s : OAuthActivity Num) : Prop where
  mSession : s.mSession = jsonToMap valueOf s.sessions.flatten
  shown : ∀ (i : Nat) redirect session, s.attempts[i]? = some (Attempt.shown redirect session) →
    session ∈ s.sessions
  callbacks : ∀ callback ∈ s.callbacks, callback.session ∈ s.sessions

theorem opt_mapToJson (o : JSONObject Num) (key : U16String) :
    JSONObject.opt (mapToJson (jsonToMap valueOf o) : JSONObject Num) key =
      (o.opt key).map fun value => .string (getString valueOf value) := by
  rw [JSONObject.opt, mapToJson, jsonToMap, Table.lastWrite_map JsonTree.string,
    Table.lastWrite_map (getString valueOf), Option.map_map]
  rfl

theorem lastValue_isSome_iff (sessions : List (JSONObject Num)) (key : U16String) :
    (lastValue sessions key).isSome ↔ ∃ session ∈ sessions, session.has key := by
  rw [lastValue, Table.lastWrite_isSome_iff]
  constructor
  · rintro ⟨member, hmember, hkey⟩
    obtain ⟨session, hsession, hmember⟩ := List.mem_flatten.mp hmember
    exact ⟨session, hsession, (Table.lastWrite_isSome_iff session key).mpr ⟨member, hmember, hkey⟩⟩
  · rintro ⟨session, hsession, hhas⟩
    obtain ⟨member, hmember, hkey⟩ := (Table.lastWrite_isSome_iff session key).mp hhas
    exact ⟨member, List.mem_flatten.mpr ⟨session, hsession, hmember⟩, hkey⟩

theorem sameObject_iff_survives {sessions : List (JSONObject Num)} {session : JSONObject Num}
    (hmem : session ∈ sessions) :
    SameObject (mapToJson (jsonToMap valueOf sessions.flatten)) session ↔
      Survives valueOf sessions session := by
  constructor
  · intro h
    have hread : ∀ key, (lastValue sessions key).map (fun value =>
        JsonTree.string (getString valueOf value)) = session.opt key := fun key =>
      (opt_mapToJson sessions.flatten key).symm.trans (h key)
    refine ⟨fun key value hvalue => ?_, fun other hother key hkey => ?_,
      fun key value text hlast htext => ?_⟩
    · obtain ⟨last, -, rfl⟩ := Option.map_eq_some_iff.mp ((hread key).trans hvalue)
      exact ⟨_, rfl⟩
    · rw [JSONObject.has, ← hread, Option.isSome_map]
      exact (lastValue_isSome_iff sessions key).mpr ⟨other, hother, hkey⟩
    · have hsame := hread key
      rw [hlast, htext] at hsame
      exact JsonTree.string.inj (Option.some.inj hsame)
  · intro h key
    rw [opt_mapToJson]
    change (lastValue sessions key).map _ = _
    cases hlast : lastValue sessions key with
    | none =>
      cases hvalue : session.opt key with
      | none => rfl
      | some value =>
        have hsome := (lastValue_isSome_iff sessions key).mpr ⟨session, hmem,
          Option.isSome_of_eq_some hvalue⟩
        rw [hlast] at hsome
        cases hsome
    | some last =>
      obtain ⟨other, hother, hkey⟩ := (lastValue_isSome_iff sessions key).mp
        (Option.isSome_of_eq_some hlast)
      obtain ⟨value, hvalue⟩ := Option.isSome_iff_exists.mp (h.complete other hother key hkey)
      obtain ⟨text, rfl⟩ := h.strings key value hvalue
      rw [hvalue, ← h.last key last text hlast hvalue]
      rfl

/-! ## What a step does -/

inductive Does (valueOf : JsonTree Num → U16String) (s : OAuthActivity Num) :
    Action Num → OAuthActivity Num → Prop
  | onStart : Does valueOf s .onStart { s with started := false }
  | start : Does valueOf s .onServiceConnected s.startOAuth2
  | ends {a : Action Num} {i : Nat} {attempt : Attempt Num} :
      (∀ redirect session, attempt ≠ .shown redirect session) →
      (∀ j, a ≠ .handleOAuth2Callback j true) → Does valueOf s a (s.setAttempt i attempt)
  | shows {i : Nat} {redirect : U16String} {session : JSONObject Num} :
      Does valueOf s (.onPostExecute i) (s.continueStartOAuth2 valueOf i redirect session)
  | called {i : Nat} {url redirect : U16String} {session : JSONObject Num} :
      s.attempts[i]? = some (.shown redirect session) →
      Does valueOf s (.shouldOverrideUrlLoading i url) (s.handleCallback session url)
  | unheard {j : Nat} {callback : Callback Num} : s.callbacks[j]? = some callback →
      Does valueOf s (.handleOAuth2Callback j false)
        { s with callbacks := s.callbacks.set j { callback with handled := true } }
  | passed {j : Nat} {callback : Callback Num} {kind : Option U16String} :
      s.callbacks[j]? = some callback →
      Does valueOf s (.handleOAuth2Callback j true)
        { s with
          callbacks := s.callbacks.set j { callback with handled := true }
          calls := s.calls ++ [⟨kind, callback.url, mapToJson s.mSession, callback.session⟩] }

theorem onPostExecute_does (i : Nat) (result : StartOAuth2Result Num) :
    Does valueOf s (.onPostExecute i) (s.onPostExecute valueOf i result) := by
  have hover : Does valueOf s (.onPostExecute i) (s.setAttempt i .over) :=
    .ends (fun _ _ => by simp) fun _ => by simp
  cases result with
  | noControl => exact hover
  | exception => exact hover
  | result result =>
    cases result with
    | none => exact hover
    | some result =>
      rw [onPostExecute]
      split
      · exact .shows
      · exact hover

theorem step_does {a : Action Num} (hstep : step valueOf lastPathSegment s a = some t) :
    Does valueOf s a t := by
  cases a with
  | onStart =>
    cases hstep
    exact .onStart
  | onServiceConnected =>
    cases hstep
    exact .start
  | doInBackground i result =>
    rw [step] at hstep
    split at hstep
    · cases hstep
      exact .ends (fun _ _ => by simp) fun _ => by simp
    · cases hstep
  | onPostExecute i =>
    rw [step] at hstep
    split at hstep
    · cases hstep
      exact onPostExecute_does i _
    · cases hstep
  | shouldOverrideUrlLoading i url =>
    rw [step] at hstep
    split at hstep
    · rename_i hattempt
      obtain ⟨-, hstep⟩ := Option.ite_none_right_eq_some.mp hstep
      cases hstep
      exact .called hattempt
    · cases hstep
  | handleOAuth2Callback j control =>
    rw [step] at hstep
    split at hstep
    · rename_i hcallback
      cases hstep
      cases control with
      | false => exact .unheard hcallback
      | true => exact .passed hcallback
    · cases hstep

theorem mem_set_callbacks {callback other : Callback Num} {j : Nat}
    (hget : s.callbacks[j]? = some callback)
    (hmem : other ∈ s.callbacks.set j { callback with handled := true }) :
    ∃ old ∈ s.callbacks, old.session = other.session := by
  rcases List.mem_or_eq_of_mem_set hmem with hmem | rfl
  · exact ⟨other, hmem, rfl⟩
  · exact ⟨callback, List.mem_of_getElem? hget, rfl⟩

theorem Tracks.setAttempt (h : Tracks valueOf s) {i : Nat} {attempt : Attempt Num}
    (hattempt : ∀ redirect session, attempt = .shown redirect session → session ∈ s.sessions) :
    Tracks valueOf (s.setAttempt i attempt) := by
  refine ⟨h.mSession, fun k redirect session hget => ?_, h.callbacks⟩
  have hmem := List.mem_of_getElem? hget
  rcases List.mem_or_eq_of_mem_set hmem with hmem | heq
  · obtain ⟨k', hk'⟩ := List.mem_iff_getElem?.mp hmem
    exact h.shown k' redirect session hk'
  · exact hattempt redirect session heq.symm

theorem Tracks.does (h : Tracks valueOf s) {a : Action Num} (hdoes : Does valueOf s a t) :
    Tracks valueOf t := by
  cases hdoes with
  | onStart => exact ⟨h.mSession, h.shown, h.callbacks⟩
  | start =>
    rw [startOAuth2]
    split
    · exact h
    · refine ⟨h.mSession, fun i redirect session hget => ?_, h.callbacks⟩
      have hmem := List.mem_of_getElem? hget
      rcases List.mem_append.mp hmem with hmem | hmem
      · obtain ⟨k, hk⟩ := List.mem_iff_getElem?.mp hmem
        exact h.shown k redirect session hk
      · cases List.mem_singleton.mp hmem
  | ends hshown _ =>
    exact h.setAttempt fun redirect session heq => absurd heq (hshown redirect session)
  | @shows i redirect session =>
    have hgrown : Tracks valueOf { s with
        mSession := s.mSession ++ jsonToMap valueOf session
        sessions := s.sessions ++ [session] } := by
      refine ⟨?_, fun i redirect session hget => ?_, fun callback hmem => ?_⟩
      · dsimp only
        rw [h.mSession, List.flatten_append, List.flatten_singleton, jsonToMap, jsonToMap,
          jsonToMap, List.map_append]
      · exact List.mem_append_left _ (h.shown i redirect session hget)
      · exact List.mem_append_left _ (h.callbacks callback hmem)
    refine hgrown.setAttempt fun redirect' session' heq => ?_
    cases heq
    exact List.mem_append_right _ (List.mem_singleton_self session)
  | @called i url redirect session hattempt =>
    refine ⟨h.mSession, h.shown, fun callback hmem => ?_⟩
    rcases List.mem_append.mp hmem with hmem | hmem
    · exact h.callbacks callback hmem
    · rw [List.mem_singleton.mp hmem]
      exact h.shown i redirect session hattempt
  | unheard hget | passed hget =>
    refine ⟨h.mSession, h.shown, fun callback hmem => ?_⟩
    obtain ⟨old, hold, heq⟩ := mem_set_callbacks hget hmem
    exact heq ▸ h.callbacks old hold

theorem startOAuth2_calls (s : OAuthActivity Num) : s.startOAuth2.calls = s.calls := by
  rw [startOAuth2]
  split
  · rfl
  · rfl

theorem SessionsKept.does_iff (h : Tracks valueOf s) (hkept : SessionsKept s) {a : Action Num}
    (hdoes : Does valueOf s a t) : SessionsKept t ↔ Agrees valueOf s a := by
  cases hdoes with
  | onStart => exact iff_of_true hkept trivial
  | start =>
    rw [SessionsKept, startOAuth2_calls]
    exact iff_of_true hkept trivial
  | ends _ hother =>
    refine iff_of_true hkept ?_
    unfold Agrees
    split
    · exact absurd rfl (hother _)
    · trivial
  | shows => exact iff_of_true hkept trivial
  | called => exact iff_of_true hkept trivial
  | unheard => exact iff_of_true hkept trivial
  | @passed j callback kind hget =>
    have hmem := h.callbacks callback (List.mem_of_getElem? hget)
    have hpassed : SameObject (mapToJson s.mSession) callback.session ↔
        Survives valueOf s.sessions callback.session := by
      rw [h.mSession]
      exact sameObject_iff_survives hmem
    constructor
    · intro hkept' other hother
      cases hget.symm.trans hother
      exact hpassed.mp (hkept' _ (List.mem_append_right _ (List.mem_singleton_self _)))
    · intro hagrees call hcall
      rcases List.mem_append.mp hcall with hcall | hcall
      · exact hkept call hcall
      · rw [List.mem_singleton.mp hcall]
        exact hpassed.mpr (hagrees callback hget)

theorem SessionsKept.of_does {a : Action Num} (hdoes : Does valueOf s a t) (h : SessionsKept t) :
    SessionsKept s := by
  cases hdoes with
  | start =>
    rw [SessionsKept, startOAuth2_calls] at h
    exact h
  | passed => exact fun call hcall => h call (List.mem_append_left _ hcall)
  | onStart | ends | shows | called | unheard => exact h

/-- In exactly the runs in which every session that is passed on survives, each attempt
gets its own session back. -/
theorem sessionsKept_iff {as : List (Action Num)}
    (h : (machine valueOf lastPathSegment).run initial as = some s) :
    SessionsKept s ↔ (machine valueOf lastPathSegment).Meets (Agrees valueOf) initial as := by
  have hinit : Tracks valueOf (initial : OAuthActivity Num) :=
    ⟨rfl, fun _ _ _ hget => (by cases hget), fun _ hmem => (by cases hmem)⟩
  have hstart : SessionsKept (initial : OAuthActivity Num) := List.forall_mem_nil _
  rw [Machine.run_iff_meets SessionsKept (Tracks valueOf)
    (fun s a t htracks hstep => htracks.does (step_does hstep))
    (fun s a t htracks hkept hstep => hkept.does_iff htracks (step_does hstep))
    (fun s a t _ hlost hstep hkept => hlost (hkept.of_does (step_does hstep))) as hinit h]
  exact and_iff_right hstart

namespace Sample

def numberOne : JsonTree Nat → U16String
  | .number _ => u16 "1"
  | _ => u16 "null"

def redirect (session : JSONObject Nat) : StartOAuth2Result Nat :=
  .result (some [.string (u16 "https://example.com"), .object session])

def callbackUrl : U16String := u16 "http://127.0.0.1:3000/devices/oauth2/callback/com.example"

def attempt (session : JSONObject Nat) : List (Action Nat) :=
  [.onServiceConnected, .doInBackground 0 (redirect session), .onPostExecute 0,
    .shouldOverrideUrlLoading 0 callbackUrl, .handleOAuth2Callback 0 true]

end Sample

theorem sessionsKept_iff_string :
    ∃ s, (machine Sample.numberOne some).run initial
      (Sample.attempt [(u16 "state", .string (u16 "x"))]) = some s ∧
      s.calls.length = 1 ∧ SessionsKept s := by
  refine ⟨_, rfl, rfl, ?_⟩
  have hmeets : (machine Sample.numberOne some).Meets (Agrees Sample.numberOne) initial
      (Sample.attempt [(u16 "state", .string (u16 "x"))]) := by
    refine ⟨trivial, fun s₁ h₁ => ?_⟩
    cases h₁
    refine ⟨trivial, fun s₂ h₂ => ?_⟩
    cases h₂
    refine ⟨trivial, fun s₃ h₃ => ?_⟩
    cases h₃
    refine ⟨trivial, fun s₄ h₄ => ?_⟩
    cases h₄
    refine ⟨fun callback hcallback => ?_, fun _ _ => trivial⟩
    cases hcallback
    exact (sameObject_iff_survives (List.mem_singleton_self _)).mp fun _ => rfl
  exact (sessionsKept_iff rfl).mpr hmeets

/-- A number comes back as a string. -/
theorem sessions_not_kept :
    ¬ ∀ (valueOf : JsonTree Nat → U16String) (lastPathSegment : U16String → Option U16String)
      (s : OAuthActivity Nat), (machine valueOf lastPathSegment).Reachable s → SessionsKept s := by
  intro h
  have hrun : ∃ s, (machine Sample.numberOne some).run initial
      (Sample.attempt [(u16 "n", .number 1)]) = some s ∧
      ∃ call ∈ s.calls, call.passed.opt (u16 "n") = some (.string (u16 "1")) ∧
        call.session.opt (u16 "n") = some (.number 1) :=
    ⟨_, rfl, _, List.mem_singleton_self _, rfl, rfl⟩
  obtain ⟨s, hrun, call, hcall, hpassed, hsession⟩ := hrun
  have hsame := h _ _ s (Machine.Reachable.run (.start rfl) hrun) call hcall (u16 "n")
  rw [hpassed, hsession] at hsame
  cases hsame

end OAuthActivity

end AlmondAndroid.Ui
