import AlmondAndroid.Library.Machine
import AlmondAndroid.Bridge.OrgJson

/-!
# Tasks that change the engine

Seven tasks of the user interface call the engine in the background and then tell the
user how it went. They take the absence of an exception for success: also when there is
no engine, when the engine answers `false`, and when the call has only been sent.
-/

namespace AlmondAndroid.Ui

open Library Bridge

universe u

variable {Num : Type u}

structure CloudAuthInfo where
  cloudId : Option U16String
  authToken : Option U16String
  deriving DecidableEq

/-- The message of an exception may be null. -/
abbrev ErrorText := Option U16String

inductive UiTask (Num : Type u)
  | deviceConfigureTask (object : JSONObject Num)
  | deleteDeviceTask (uniqueId : U16String)
  | upgradeDeviceTask (kind : U16String)
  | revokePermissionTask (uniqueId : U16String)
  | stopAppTask (uniqueId : U16String)
  | deviceHandleOAuth2Callback (kind url : U16String) (session : JSONObject Num)
  | setCloudIdTask (info : CloudAuthInfo)

inductive Answer
  | performed
  | declined
  | failed (e : ErrorText)
  deriving DecidableEq

/-- What `doInBackground` returns: an exception or null, or a boolean. -/
inductive TaskResult
  | exception (e : Option ErrorText)
  | boolean (b : Bool)

inductive Screen
  | resultOk
  | finished
  | refreshed
  | resultCanceled
  | dialog (text : U16String)

def Screen.isSuccess : Screen → Bool
  | resultOk => true
  | finished => true
  | refreshed => true
  | resultCanceled => false
  | dialog _ => false

namespace UiTask

/-- `ControlBinder` sends these with `invokeAsync`. -/
def isAsync : UiTask Num → Bool
  | revokePermissionTask _ => true
  | stopAppTask _ => true
  | _ => false

/-- `.then(() => true)`. -/
def thenTrue : Answer → Except ErrorText Bool
  | .performed => .ok true
  | .declined => .ok true
  | .failed e => .error e

def asAnswered : Answer → Except ErrorText Bool
  | .performed => .ok true
  | .declined => .ok false
  | .failed e => .error e

/-- What the control channel in `app.js` makes of the engine's answer. -/
def control : UiTask Num → Answer → Except ErrorText Bool
  | deviceConfigureTask _ => thenTrue
  | deleteDeviceTask _ => asAnswered
  | upgradeDeviceTask _ => thenTrue
  | revokePermissionTask _ => asAnswered
  | stopAppTask _ => asAnswered
  | deviceHandleOAuth2Callback _ _ _ => thenTrue
  | setCloudIdTask _ => asAnswered

/-- `control == null`. -/
def withoutControl : UiTask Num → TaskResult
  | setCloudIdTask _ => .boolean true
  | _ => .exception none

def called : UiTask Num → Except ErrorText Bool → TaskResult
  | setCloudIdTask _, .ok b => .boolean b
  | setCloudIdTask _, .error _ => .boolean false
  | _, .ok _ => .exception none
  | _, .error e => .exception (some e)

def failureText : UiTask Num → U16String
  | deviceConfigureTask _ => u16 "Failed to create device: "
  | deleteDeviceTask _ => u16 "Failed to delete device: "
  | upgradeDeviceTask _ => u16 "Failed to upgrade device: "
  | revokePermissionTask _ => u16 "Failed to revoke permission: "
  | stopAppTask _ => u16 "Failed to stop rule: "
  | deviceHandleOAuth2Callback _ _ _ => u16 "Failed to complete OAuth2 flow: "
  | setCloudIdTask _ => []

def success : UiTask Num → Screen
  | deviceConfigureTask _ => .resultOk
  | deleteDeviceTask _ => .finished
  | upgradeDeviceTask _ => .refreshed
  | revokePermissionTask _ => .refreshed
  | stopAppTask _ => .refreshed
  | deviceHandleOAuth2Callback _ _ _ => .resultOk
  | setCloudIdTask _ => .resultOk

def onPostExecute (task : UiTask Num) : TaskResult → Screen
  | .exception none => task.success
  | .exception (some e) => .dialog (task.failureText ++ e.getD (u16 "null"))
  | .boolean b => if b then task.success else .resultCanceled

end UiTask

/-- How `doInBackground` has come to its result. -/
inductive Course
  | noControl
  | sameInfo
  | threw (e : ErrorText)
  | answered (c : Nat) (fault : Option ErrorText)
  | sent (c : Nat)

inductive TaskStage
  | started
  | waiting (c : Nat)
  | finished (course : Course) (result : TaskResult)
  | posted

structure RunningTask (Num : Type u) where
  task : UiTask Num
  stage : TaskStage

structure EngineCall (Num : Type u) where
  task : UiTask Num
  answer : Option Answer

/-- What the user was told, and whether it was so. -/
structure Shown where
  screen : Screen
  performed : Bool

/-- `authInfo` are the credentials that the engine has. -/
structure UiTasks (Num : Type u) where
  binder : Bool
  mAuthInfo : Option CloudAuthInfo
  authInfo : CloudAuthInfo
  tasks : List (RunningTask Num)
  calls : List (EngineCall Num)
  shown : List Shown

namespace UiTasks

inductive Action (Num : Type u)
  | onServiceConnected
  | onServiceDisconnected
  | execute (task : UiTask Num)
  | doInBackground (i : Nat)
  | invokeThrows (i : Nat) (e : ErrorText)
  | engine (c : Nat) (answer : Answer)
  | returns (i : Nat) (fault : Option ErrorText)
  | onPostExecute (i : Nat)
  | authInfoChanges (info : CloudAuthInfo)

def initial (mAuthInfo : Option CloudAuthInfo) (authInfo : CloudAuthInfo) : UiTasks Num :=
  ⟨false, mAuthInfo, authInfo, [], [], []⟩

def setStage (s : UiTasks Num) (i : Nat) (task : UiTask Num) (stage : TaskStage) : UiTasks Num :=
  { s with tasks := s.tasks.set i ⟨task, stage⟩ }

def answerOf (s : UiTasks Num) (c : Nat) : Option Answer := (s.calls[c]?).bind EngineCall.answer

/-- `oldInfo != null && oldInfo.equals(newInfo)`, for the one task that compares. -/
def hasInfo (mAuthInfo : Option CloudAuthInfo) : UiTask Num → Bool
  | .setCloudIdTask info => mAuthInfo = some info
  | _ => false

def doInBackground (s : UiTasks Num) (i : Nat) (task : UiTask Num) : UiTasks Num :=
  if s.binder = false then s.setStage i task (.finished .noControl task.withoutControl)
  else if hasInfo s.mAuthInfo task then s.setStage i task (.finished .sameInfo (.boolean true))
  else
    { s.setStage i task (if task.isAsync then .finished (.sent s.calls.length) (.exception none)
        else .waiting s.calls.length) with
      calls := s.calls ++ [⟨task, none⟩] }

/-- An exception on the Java side comes instead of the answer. -/
def returned (task : UiTask Num) (answer : Answer) : Option ErrorText → Except ErrorText Bool
  | some e => .error e
  | none => task.control answer

def newInfo (mAuthInfo : Option CloudAuthInfo) :
    UiTask Num → Except ErrorText Bool → Option CloudAuthInfo
  | .setCloudIdTask info, .ok true => some info
  | _, _ => mAuthInfo

def returns (s : UiTasks Num) (i c : Nat) (task : UiTask Num) (answer : Answer)
    (fault : Option ErrorText) : UiTasks Num :=
  { s.setStage i task
      (.finished (.answered c fault) (task.called (returned task answer fault))) with
    mAuthInfo := newInfo s.mAuthInfo task (returned task answer fault) }

def performs (authInfo : CloudAuthInfo) : UiTask Num → Answer → CloudAuthInfo
  | .setCloudIdTask info, .performed => info
  | _, _ => authInfo

def engine (s : UiTasks Num) (c : Nat) (task : UiTask Num) (answer : Answer) : UiTasks Num :=
  { s with
    calls := s.calls.set c ⟨task, some answer⟩
    authInfo := performs s.authInfo task answer }

def performedCall (s : UiTasks Num) : Course → Bool
  | .noControl => false
  | .sameInfo => false
  | .threw _ => false
  | .answered c _ => s.answerOf c = some .performed
  | .sent c => s.answerOf c = some .performed

/-- The engine has done what the task is for, or has the credentials anyway. -/
def performed (s : UiTasks Num) (task : UiTask Num) (course : Course) : Bool :=
  s.performedCall course || hasInfo (some s.authInfo) task

def onPostExecute (s : UiTasks Num) (i : Nat) (task : UiTask Num) (course : Course)
    (result : TaskResult) : UiTasks Num :=
  { s.setStage i task .posted with
    shown := s.shown ++ [⟨task.onPostExecute result, s.performed task course⟩] }

def step (s : UiTasks Num) : Action Num → Option (UiTasks Num)
  | .onServiceConnected => some { s with binder := true }
  | .onServiceDisconnected => some { s with binder := false }
  | .execute task => some { s with tasks := s.tasks ++ [⟨task, .started⟩] }
  | .doInBackground i =>
      match s.tasks[i]? with
      | some ⟨task, .started⟩ => some (s.doInBackground i task)
      | _ => none
  | .invokeThrows i e =>
      match s.tasks[i]? with
      | some ⟨task, .started⟩ =>
          if s.binder ∧ hasInfo s.mAuthInfo task = false then
            some (s.setStage i task (.finished (.threw e) (task.called (.error e))))
          else none
      | _ => none
  | .engine c answer =>
      match s.calls[c]? with
      | some ⟨task, none⟩ => some (s.engine c task answer)
      | _ => none
  | .returns i fault =>
      match s.tasks[i]? with
      | some ⟨task, .waiting c⟩ =>
          (s.answerOf c).map fun answer => s.returns i c task answer fault
      | _ => none
  | .onPostExecute i =>
      match s.tasks[i]? with
      | some ⟨task, .finished course result⟩ => some (s.onPostExecute i task course result)
      | _ => none
  | .authInfoChanges info => some { s with authInfo := info }

def machine (mAuthInfo : Option CloudAuthInfo) (authInfo : CloudAuthInfo) :
    Machine (UiTasks Num) (Action Num) where
  Init s := s = initial mAuthInfo authInfo
  step := step

/-- Success is shown only for what the engine has done. -/
def NoFalseSuccess (s : UiTasks Num) : Prop :=
  ∀ shown ∈ s.shown, shown.screen.isSuccess = true → shown.performed = true

/-- There was a control, and the engine has not declined what the task takes for done; what
was only sent has been performed. -/
def Confirms (s : UiTasks Num) (task : UiTask Num) : Course → Prop
  | .noControl => hasInfo (some s.authInfo) task = true
  | .sameInfo => hasInfo (some s.authInfo) task = true
  | .threw _ => True
  | .answered c fault => fault ≠ none ∨ s.answerOf c ≠ some .declined ∨
      ∃ info, task = .setCloudIdTask info
  | .sent c => s.answerOf c = some .performed

def Confirmed (s : UiTasks Num) : Action Num → Prop
  | .onPostExecute i => ∀ task course result,
      s.tasks[i]? = some ⟨task, .finished course result⟩ → Confirms s task course
  | _ => True

/-! ## What a result means -/

def Explains (s : UiTasks Num) (task : UiTask Num) : Course → TaskResult → Prop
  | .noControl, result => result = task.withoutControl
  | .sameInfo, result => result = .boolean true ∧ ∃ info, task = .setCloudIdTask info
  | .threw e, result => result = task.called (.error e)
  | .answered c fault, result => task.isAsync = false ∧ ∃ answer, s.answerOf c = some answer ∧
      result = task.called (returned task answer fault)
  | .sent _, result => task.isAsync = true ∧ result = .exception none

variable {s t : UiTasks Num}

theorem success_isSuccess (task : UiTask Num) : task.success.isSuccess = true := by
  cases task with
  | _ => rfl

theorem called_error_isSuccess (task : UiTask Num) (e : ErrorText) :
    (task.onPostExecute (task.called (.error e))).isSuccess = false := by
  cases task with
  | _ => rfl

theorem withoutControl_isSuccess (task : UiTask Num) :
    (task.onPostExecute task.withoutControl).isSuccess = true := by
  cases task with
  | _ => rfl

theorem hasInfo_eq_false {task : UiTask Num} (h : ∀ info, task ≠ .setCloudIdTask info)
    (mAuthInfo : Option CloudAuthInfo) : hasInfo mAuthInfo task = false := by
  cases task with
  | setCloudIdTask info => exact absurd rfl (h info)
  | _ => rfl

theorem isAsync_ne {task : UiTask Num} (h : task.isAsync = true) (info : CloudAuthInfo) :
    task ≠ .setCloudIdTask info := by
  rintro rfl
  cases h

theorem declined_isSuccess {task : UiTask Num} (hasync : task.isAsync = false) :
    (task.onPostExecute (task.called (task.control .declined))).isSuccess = true ↔
      ∀ info, task ≠ .setCloudIdTask info := by
  cases task with
  | setCloudIdTask info => exact iff_of_false Bool.false_ne_true fun h => h info rfl
  | deviceConfigureTask | deleteDeviceTask | upgradeDeviceTask | deviceHandleOAuth2Callback =>
    exact iff_of_true rfl fun info => by simp
  | revokePermissionTask | stopAppTask => cases hasync

theorem Explains.answered_iff {task : UiTask Num} {c : Nat} {fault : Option ErrorText}
    {result : TaskResult} (h : Explains s task (.answered c fault) result) :
    ((task.onPostExecute result).isSuccess = true → s.performed task (.answered c fault) = true) ↔
      Confirms s task (.answered c fault) := by
  obtain ⟨hasync, answer, hanswer, rfl⟩ := h
  cases fault with
  | some e =>
    rw [returned, called_error_isSuccess]
    exact iff_of_true (fun h => absurd h Bool.false_ne_true) (.inl (Option.some_ne_none e))
  | none =>
    rw [returned, performed, performedCall, Confirms, hanswer]
    cases answer with
    | performed => exact iff_of_true (fun _ => rfl) (.inr (.inl (by simp)))
    | failed e =>
      have hcontrol : task.control (.failed e) = .error e := by
        cases task with
        | _ => rfl
      rw [hcontrol, called_error_isSuccess]
      exact iff_of_true (fun h => absurd h Bool.false_ne_true) (.inr (.inl (by simp)))
    | declined =>
      rw [declined_isSuccess hasync]
      constructor
      · intro h
        by_contra hno
        have hne : ∀ info, task ≠ .setCloudIdTask info := fun info heq =>
          hno (.inr (.inr ⟨info, heq⟩))
        have hdone := h hne
        rw [hasInfo_eq_false hne] at hdone
        cases hdone
      · rintro (hfault | hdeclined | ⟨info, rfl⟩) hne
        · exact absurd rfl hfault
        · exact absurd rfl hdeclined
        · exact absurd rfl (hne info)

theorem Explains.confirms_iff {task : UiTask Num} {course : Course} {result : TaskResult}
    (h : Explains s task course result) :
    ((task.onPostExecute result).isSuccess = true → s.performed task course = true) ↔
      Confirms s task course := by
  cases course with
  | noControl =>
    obtain rfl := h
    rw [withoutControl_isSuccess, performed, performedCall, Confirms,
      Bool.false_or]
    exact ⟨fun h => h rfl, fun h _ => h⟩
  | sameInfo =>
    obtain ⟨rfl, info, rfl⟩ := h
    rw [performed, performedCall, Confirms, Bool.false_or]
    exact ⟨fun h => h rfl, fun h _ => h⟩
  | threw e =>
    obtain rfl := h
    rw [called_error_isSuccess]
    exact iff_of_true (fun h => absurd h Bool.false_ne_true) trivial
  | answered c fault => exact h.answered_iff
  | sent c =>
    obtain ⟨hasync, rfl⟩ := h
    have hsuccess : (task.onPostExecute (.exception none)).isSuccess = true :=
      success_isSuccess task
    rw [hsuccess, performed, performedCall, Confirms, hasInfo_eq_false (isAsync_ne hasync),
      Bool.or_false]
    exact ⟨fun h => of_decide_eq_true (h rfl), fun h _ => decide_eq_true h⟩

/-! ## Every run -/

def SoundTask (s : UiTasks Num) (running : RunningTask Num) : Prop :=
  match running.stage with
  | .started => True
  | .waiting _ => running.task.isAsync = false
  | .finished course result => Explains s running.task course result
  | .posted => True

def Sound (s : UiTasks Num) : Prop := ∀ running ∈ s.tasks, SoundTask s running

def AnswersKept (s t : UiTasks Num) : Prop :=
  ∀ c answer, s.answerOf c = some answer → t.answerOf c = some answer

theorem SoundTask.mono {running : RunningTask Num} (h : SoundTask s running)
    (hkept : AnswersKept s t) : SoundTask t running := by
  unfold SoundTask at h ⊢
  split at h
  · trivial
  · exact h
  · rename_i course result hstage
    cases course with
    | noControl => exact h
    | sameInfo => exact h
    | threw => exact h
    | answered c fault =>
      obtain ⟨hasync, answer, hanswer, hresult⟩ := h
      exact ⟨hasync, answer, hkept c answer hanswer, hresult⟩
    | sent => exact h
  · trivial

theorem Sound.of_step (h : Sound s) (hkept : AnswersKept s t)
    (htasks : ∀ running ∈ t.tasks, running ∈ s.tasks ∨ SoundTask t running) : Sound t := by
  intro running hmem
  rcases htasks running hmem with hold | hnew
  · exact (h running hold).mono hkept
  · exact hnew

theorem mem_setStage {i : Nat} {task : UiTask Num} {stage : TaskStage} {running : RunningTask Num}
    (h : running ∈ (s.setStage i task stage).tasks) :
    running ∈ s.tasks ∨ running = ⟨task, stage⟩ :=
  List.mem_or_eq_of_mem_set h

theorem answersKept_refl (s : UiTasks Num) : AnswersKept s s := fun _ _ => id

theorem answersKept_append (s : UiTasks Num) (call : EngineCall Num) :
    AnswersKept s { s with calls := s.calls ++ [call] } := by
  intro c answer h
  obtain ⟨known, hget, hanswer⟩ := Option.bind_eq_some_iff.mp h
  rw [answerOf, List.getElem?_append_left (List.getElem?_eq_some_iff.mp hget).1]
  exact h

theorem answersKept_engine {c : Nat} {task : UiTask Num} (hget : s.calls[c]? = some ⟨task, none⟩)
    (answer : Answer) : AnswersKept s (s.engine c task answer) := by
  intro d known h
  have hne : c ≠ d := by
    rintro rfl
    rw [answerOf, hget] at h
    cases h
  rw [answerOf, engine]
  dsimp only
  rw [List.getElem?_set_ne hne]
  exact h

theorem doInBackground_sound (h : Sound s) (i : Nat) (task : UiTask Num) :
    Sound (s.doInBackground i task) := by
  rw [doInBackground]
  split
  · refine h.of_step (answersKept_refl s) fun running hmem => ?_
    rcases mem_setStage hmem with hold | rfl
    · exact .inl hold
    · exact .inr rfl
  · split
    · rename_i hinfo
      refine h.of_step (answersKept_refl s) fun running hmem => ?_
      rcases mem_setStage hmem with hold | rfl
      · exact .inl hold
      · cases task with
        | setCloudIdTask info => exact .inr ⟨rfl, info, rfl⟩
        | _ => cases hinfo
    · refine h.of_step (answersKept_append s _) fun running hmem => ?_
      rcases mem_setStage hmem with hold | rfl
      · exact .inl hold
      · refine .inr ?_
        cases hasync : task.isAsync with
        | true => exact ⟨hasync, rfl⟩
        | false => exact hasync

theorem Sound.step {a : Action Num} (h : Sound s) (hstep : step s a = some t) : Sound t := by
  cases a with
  | onServiceConnected | onServiceDisconnected | authInfoChanges =>
    cases hstep
    exact h.of_step (answersKept_refl s) fun _ => .inl
  | execute task =>
    cases hstep
    refine h.of_step (answersKept_refl s) fun running hmem => ?_
    rcases List.mem_append.mp hmem with hold | hnew
    · exact .inl hold
    · rw [List.mem_singleton.mp hnew]
      exact .inr trivial
  | doInBackground i =>
    rw [UiTasks.step] at hstep
    split at hstep
    · cases hstep
      exact doInBackground_sound h i _
    · cases hstep
  | invokeThrows i e =>
    rw [UiTasks.step] at hstep
    split at hstep
    · obtain ⟨-, hstep⟩ := Option.ite_none_right_eq_some.mp hstep
      cases hstep
      refine h.of_step (answersKept_refl s) fun running hmem => ?_
      rcases mem_setStage hmem with hold | rfl
      · exact .inl hold
      · exact .inr rfl
    · cases hstep
  | engine c answer =>
    rw [UiTasks.step] at hstep
    split at hstep
    · rename_i hget
      cases hstep
      exact h.of_step (answersKept_engine hget answer) fun _ => .inl
    · cases hstep
  | returns i fault =>
    rw [UiTasks.step] at hstep
    split at hstep
    · rename_i task c hget
      obtain ⟨answer, hanswer, rfl⟩ := Option.map_eq_some_iff.mp hstep
      refine h.of_step (answersKept_refl s) fun running hmem => ?_
      rcases mem_setStage hmem with hold | rfl
      · exact .inl hold
      · have hasync := h _ (List.mem_of_getElem? hget)
        exact .inr ⟨hasync, answer, hanswer, rfl⟩
    · cases hstep
  | onPostExecute i =>
    rw [UiTasks.step] at hstep
    split at hstep
    · cases hstep
      refine h.of_step (answersKept_refl s) fun running hmem => ?_
      rcases mem_setStage hmem with hold | rfl
      · exact .inl hold
      · exact .inr trivial
    · cases hstep

theorem step_shown {a : Action Num} (hstep : step s a = some t) :
    (t.shown = s.shown ∧ ∀ i, a ≠ .onPostExecute i) ∨
      ∃ i task course result, a = .onPostExecute i ∧
        s.tasks[i]? = some ⟨task, .finished course result⟩ ∧
        t.shown = s.shown ++ [⟨task.onPostExecute result, s.performed task course⟩] := by
  cases a with
  | onServiceConnected | onServiceDisconnected | authInfoChanges | execute task =>
    cases hstep
    exact .inl ⟨rfl, fun _ => by simp⟩
  | doInBackground i =>
    rw [UiTasks.step] at hstep
    split at hstep
    · cases hstep
      refine .inl ⟨?_, fun _ => by simp⟩
      rw [doInBackground]
      split
      · rfl
      · split
        · rfl
        · rfl
    · cases hstep
  | invokeThrows i e =>
    rw [UiTasks.step] at hstep
    split at hstep
    · obtain ⟨-, hstep⟩ := Option.ite_none_right_eq_some.mp hstep
      cases hstep
      exact .inl ⟨rfl, fun _ => by simp⟩
    · cases hstep
  | engine c answer =>
    rw [UiTasks.step] at hstep
    split at hstep
    · cases hstep
      exact .inl ⟨rfl, fun _ => by simp⟩
    · cases hstep
  | returns i fault =>
    rw [UiTasks.step] at hstep
    split at hstep
    · obtain ⟨answer, -, rfl⟩ := Option.map_eq_some_iff.mp hstep
      exact .inl ⟨rfl, fun _ => by simp⟩
    · cases hstep
  | onPostExecute i =>
    rw [UiTasks.step] at hstep
    split at hstep
    · rename_i hget
      cases hstep
      exact .inr ⟨i, _, _, _, rfl, hget, rfl⟩
    · cases hstep

theorem confirmed_of_ne {a : Action Num} (h : ∀ i, a ≠ .onPostExecute i) : Confirmed s a := by
  cases a with
  | onPostExecute i => exact absurd rfl (h i)
  | _ => trivial

theorem NoFalseSuccess.step_iff (hsound : Sound s) (h : NoFalseSuccess s) {a : Action Num}
    (hstep : step s a = some t) : NoFalseSuccess t ↔ Confirmed s a := by
  rcases step_shown hstep with ⟨hshown, hother⟩ | ⟨i, task, course, result, rfl, hget, hshown⟩
  · rw [NoFalseSuccess, hshown]
    exact iff_of_true h (confirmed_of_ne hother)
  · have hexplains : Explains s task course result := hsound _ (List.mem_of_getElem? hget)
    rw [NoFalseSuccess, hshown]
    constructor
    · intro hall task' course' result' hget'
      cases hget.symm.trans hget'
      exact hexplains.confirms_iff.mp
        (hall _ (List.mem_append_right _ (List.mem_singleton_self _)))
    · intro hconfirmed shown hmem
      rcases List.mem_append.mp hmem with hmem | hmem
      · exact h shown hmem
      · rw [List.mem_singleton.mp hmem]
        exact hexplains.confirms_iff.mpr (hconfirmed task course result hget)

theorem NoFalseSuccess.of_step {a : Action Num} (hstep : step s a = some t)
    (h : NoFalseSuccess t) : NoFalseSuccess s := by
  rcases step_shown hstep with ⟨hshown, -⟩ | ⟨i, task, course, result, -, -, hshown⟩
  · rw [NoFalseSuccess, hshown] at h
    exact h
  · rw [NoFalseSuccess, hshown] at h
    exact fun shown hmem => h shown (List.mem_append_left _ hmem)

/-- In exactly the runs in which every task that ends is confirmed, success is never shown
for something that the engine has not done. -/
theorem noFalseSuccess_iff {mAuthInfo : Option CloudAuthInfo} {authInfo : CloudAuthInfo}
    {as : List (Action Num)} (h : (machine mAuthInfo authInfo).run (initial mAuthInfo authInfo) as =
      some s) :
    NoFalseSuccess s ↔
      (machine mAuthInfo authInfo).Meets Confirmed (initial mAuthInfo authInfo) as := by
  have hsound : Sound (initial mAuthInfo authInfo : UiTasks Num) := List.forall_mem_nil _
  have hstart : NoFalseSuccess (initial mAuthInfo authInfo : UiTasks Num) := List.forall_mem_nil _
  rw [Machine.run_iff_meets NoFalseSuccess Sound (fun s a t hsound hstep => hsound.step hstep)
    (fun s a t hsound hno hstep => hno.step_iff hsound hstep)
    (fun s a t _ hlost hstep hno => hlost (hno.of_step hstep)) as hsound h]
  exact and_iff_right hstart

theorem noFalseSuccess_iff_performed :
    ∃ s : UiTasks Unit, (machine none ⟨none, none⟩).run (initial none ⟨none, none⟩)
      [.onServiceConnected, .execute (.deleteDeviceTask (u16 "id")), .doInBackground 0,
        .engine 0 .performed, .returns 0 none, .onPostExecute 0] = some s ∧
      s.shown.map Shown.performed = [true] ∧ NoFalseSuccess s := by
  refine ⟨_, rfl, rfl, ?_⟩
  have hmeets : (machine none ⟨none, none⟩).Meets Confirmed
      (initial none ⟨none, none⟩ : UiTasks Unit)
      [.onServiceConnected, .execute (.deleteDeviceTask (u16 "id")), .doInBackground 0,
        .engine 0 .performed, .returns 0 none, .onPostExecute 0] := by
    refine ⟨trivial, fun s₁ h₁ => ?_⟩
    cases h₁
    refine ⟨trivial, fun s₂ h₂ => ?_⟩
    cases h₂
    refine ⟨trivial, fun s₃ h₃ => ?_⟩
    cases h₃
    refine ⟨trivial, fun s₄ h₄ => ?_⟩
    cases h₄
    refine ⟨trivial, fun s₅ h₅ => ?_⟩
    cases h₅
    refine ⟨fun task course result hget => ?_, fun _ _ => trivial⟩
    cases hget
    exact .inr (.inl (by decide))
  exact (noFalseSuccess_iff rfl).mpr hmeets

/-- A device that cannot be deleted is taken for deleted. -/
theorem false_success :
    ¬ ∀ (mAuthInfo : Option CloudAuthInfo) (authInfo : CloudAuthInfo) (s : UiTasks Unit),
      (machine mAuthInfo authInfo).Reachable s → NoFalseSuccess s := by
  intro h
  have hrun : ∃ s : UiTasks Unit, (machine none ⟨none, none⟩).run (initial none ⟨none, none⟩)
      [.onServiceConnected, .execute (.deleteDeviceTask (u16 "id")), .doInBackground 0,
        .engine 0 .declined, .returns 0 none, .onPostExecute 0] = some s ∧
      ⟨.finished, false⟩ ∈ s.shown := ⟨_, rfl, List.mem_singleton_self _⟩
  obtain ⟨s, hrun, hmem⟩ := hrun
  have hperformed := h none ⟨none, none⟩ s (Machine.Reachable.run (.start rfl) hrun) _ hmem rfl
  cases hperformed

end UiTasks

end AlmondAndroid.Ui
