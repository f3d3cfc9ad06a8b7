import AlmondAndroid.Assistant.Dispatcher

/-!
# Showing the history

`AssistantHistoryAdapter` gives every message of the history a view type, a number that stands
for the type of the message or, for a prompt, for what is asked. From the number alone a holder
is created, which is then bound to the message and casts it to the class that it shows.
-/

namespace AlmondAndroid.Ui

open Library Bridge Assistant

namespace HistoryAdapter

/-- The constants of `AssistantMessage.Type`, in order. -/
def types : List MessageType :=
  [.text, .picture, .rdl, .choice, .link, .button, .askSpecial, .slotFilling]

/-- The constants of `AskSpecialType`, in order. -/
def askSpecialTypes : List AskSpecialType :=
  [.yesNo, .location, .picture, .phoneNumber, .emailAddress, .number, .date, .time, .generic,
    .password, .rawString, .choice, .null, .unknown]

inductive ViewHolder
  | text
  | picture
  | rdl
  | choice
  | link
  | button
  | slotFilling
  | yesNo
  | chooseLocation
  | choosePicture
  | chooseContact
  deriving DecidableEq

inductive DisplayError
  | runtimeException
  | arrayIndexOutOfBoundsException
  | classCastException
  | assertionError
  deriving DecidableEq

def getItemViewType : AssistantMessage → Nat
  | .askSpecial msg => 100 + askSpecialTypes.idxOf msg.what
  | msg => types.idxOf msg.type

def createAskSpecial : AskSpecialType → Except DisplayError ViewHolder
  | .yesNo => .ok .yesNo
  | .location => .ok .chooseLocation
  | .picture => .ok .choosePicture
  | .phoneNumber | .emailAddress => .ok .chooseContact
  | _ => .error .runtimeException

/-- `values()` are indexed by the number. One below 100 that stands for the type of a prompt
does not say what is asked, and the assertion fails. -/
def onCreateViewHolder (viewType : Nat) : Except DisplayError ViewHolder :=
  if 100 ≤ viewType then
    match askSpecialTypes[viewType - 100]? with
    | none => .error .arrayIndexOutOfBoundsException
    | some askSpecialType => createAskSpecial askSpecialType
  else
    match types[viewType]? with
    | none => .error .arrayIndexOutOfBoundsException
    | some .text => .ok .text
    | some .picture => .ok .picture
    | some .rdl => .ok .rdl
    | some .choice => .ok .choice
    | some .link => .ok .link
    | some .button => .ok .button
    | some .slotFilling => .ok .slotFilling
    | some .askSpecial => .error .assertionError

def castTo : ViewHolder → Option MessageType
  | .text => some .text
  | .picture => some .picture
  | .rdl => some .rdl
  | .choice => some .choice
  | .link => some .link
  | .button => some .button
  | .slotFilling => some .slotFilling
  | .chooseContact => some .askSpecial
  | .yesNo | .chooseLocation | .choosePicture => none

/-- There is one class for each type. -/
def cast (holder : ViewHolder) (msg : AssistantMessage) : Except DisplayError Unit :=
  match castTo holder with
  | none => .ok ()
  | some type => if msg.type = type then .ok () else .error .classCastException

def setSideAndAlignment (debug : Bool) (msg : AssistantMessage) : Except DisplayError Unit :=
  if msg.type.isInteraction ∧ debug ∧ msg.direction ≠ .fromSabrina then .error .assertionError
  else .ok ()

/-- The holders of buttons are aligned before they cast the message. -/
def isAbstractButton : ViewHolder → Bool
  | .choice | .link | .button | .chooseLocation | .choosePicture | .chooseContact => true
  | .text | .picture | .rdl | .slotFilling | .yesNo => false

def bind (debug : Bool) (holder : ViewHolder) (msg : AssistantMessage) :
    Except DisplayError Unit :=
  if isAbstractButton holder then do
    setSideAndAlignment debug msg
    cast holder msg
  else do
    cast holder msg
    setSideAndAlignment debug msg

/-- The view type is decoded to a holder that accepts the message. -/
def Shown (debug : Bool) (msg : AssistantMessage) : Prop :=
  ∃ holder, onCreateViewHolder (getItemViewType msg) = .ok holder ∧ cast holder msg = .ok () ∧
    bind debug holder msg = .ok ()

/-- The message is not filtered, and if it is an interaction, it comes from the assistant. -/
def Displayable (msg : AssistantMessage) : Prop :=
  msg.isFiltered = false ∧ (msg.isInteraction = true → msg.direction = .fromSabrina)

/-! ## The view type -/

theorem getElem?_types (type : MessageType) : types[types.idxOf type]? = some type := by
  cases type <;> rfl

theorem types_idxOf_lt (type : MessageType) : types.idxOf type < 100 := by
  cases type <;> decide

theorem getElem?_askSpecialTypes (what : AskSpecialType) :
    askSpecialTypes[askSpecialTypes.idxOf what]? = some what := by
  cases what <;> rfl

theorem onCreateViewHolder_askSpecial (what : AskSpecialType) :
    onCreateViewHolder (100 + askSpecialTypes.idxOf what) = createAskSpecial what := by
  rw [onCreateViewHolder, if_pos (Nat.le_add_right _ _), Nat.add_sub_cancel_left,
    getElem?_askSpecialTypes]

theorem onCreateViewHolder_type {type : MessageType} (h : type ≠ .askSpecial) :
    ∃ holder, onCreateViewHolder (types.idxOf type) = .ok holder ∧
      castTo holder = some type := by
  rw [onCreateViewHolder, if_neg (Nat.not_le.mpr (types_idxOf_lt type)), getElem?_types]
  cases type with
  | text => exact ⟨.text, rfl, rfl⟩
  | picture => exact ⟨.picture, rfl, rfl⟩
  | rdl => exact ⟨.rdl, rfl, rfl⟩
  | choice => exact ⟨.choice, rfl, rfl⟩
  | link => exact ⟨.link, rfl, rfl⟩
  | button => exact ⟨.button, rfl, rfl⟩
  | slotFilling => exact ⟨.slotFilling, rfl, rfl⟩
  | askSpecial => exact absurd rfl h

/-- The choosers are what the decoder has a holder for. -/
theorem exists_createAskSpecial_iff (what : AskSpecialType) :
    (∃ holder, createAskSpecial what = .ok holder ∧ (castTo holder).all (· = .askSpecial)) ↔
      what.isChooser = true := by
  cases what with
  | yesNo => exact iff_of_true ⟨.yesNo, rfl, rfl⟩ rfl
  | location => exact iff_of_true ⟨.chooseLocation, rfl, rfl⟩ rfl
  | picture => exact iff_of_true ⟨.choosePicture, rfl, rfl⟩ rfl
  | phoneNumber => exact iff_of_true ⟨.chooseContact, rfl, rfl⟩ rfl
  | emailAddress => exact iff_of_true ⟨.chooseContact, rfl, rfl⟩ rfl
  | _ =>
    refine iff_of_false ?_ Bool.false_ne_true
    rintro ⟨holder, h, -⟩
    cases h

/-! ## A message -/

theorem setSideAndAlignment_eq_ok_iff {debug : Bool} {msg : AssistantMessage} :
    setSideAndAlignment debug msg = .ok () ↔
      (msg.isInteraction = true → debug = true → msg.direction = .fromSabrina) := by
  rw [setSideAndAlignment]
  split
  · rename_i h
    exact iff_of_false (fun herror => nomatch herror) fun hok => h.2.2 (hok h.1 h.2.1)
  · rename_i h
    refine iff_of_true rfl fun hinteraction hdebug => ?_
    exact Classical.not_not.mp fun hdirection => h ⟨hinteraction, hdebug, hdirection⟩

theorem bind_eq_ok_iff {debug : Bool} {holder : ViewHolder} {msg : AssistantMessage} :
    bind debug holder msg = .ok () ↔
      cast holder msg = .ok () ∧ setSideAndAlignment debug msg = .ok () := by
  rw [bind]
  cases cast holder msg with
  | error e =>
    refine iff_of_false ?_ fun h => nomatch h.1
    cases isAbstractButton holder with
    | true => cases setSideAndAlignment debug msg <;> exact fun h => nomatch h
    | false => exact fun h => nomatch h
  | ok u =>
    cases isAbstractButton holder with
    | true =>
      cases setSideAndAlignment debug msg with
      | error e => exact iff_of_false (fun h => nomatch h) fun h => nomatch h.2
      | ok u => exact iff_of_true rfl ⟨rfl, rfl⟩
    | false =>
      cases setSideAndAlignment debug msg with
      | error e => exact iff_of_false (fun h => nomatch h) fun h => nomatch h.2
      | ok u => exact iff_of_true rfl ⟨rfl, rfl⟩

theorem exists_holder_iff (msg : AssistantMessage) :
    (∃ holder, onCreateViewHolder (getItemViewType msg) = .ok holder ∧
      cast holder msg = .ok ()) ↔ msg.isFiltered = false := by
  by_cases htype : msg.type = .askSpecial
  · obtain ⟨prompt, rfl⟩ : ∃ prompt, msg = .askSpecial prompt := by
      cases msg with
      | askSpecial prompt => exact ⟨prompt, rfl⟩
      | _ => cases htype
    rw [getItemViewType, onCreateViewHolder_askSpecial]
    change _ ↔ (!prompt.what.isChooser) = false
    rw [Bool.not_eq_false', ← exists_createAskSpecial_iff]
    refine exists_congr fun holder => and_congr_right fun _ => ?_
    rw [cast, htype]
    cases castTo holder with
    | none => exact iff_of_true rfl rfl
    | some type =>
      cases type <;> decide
  · have hviewType : getItemViewType msg = types.idxOf msg.type := by
      cases msg with
      | askSpecial prompt => exact absurd rfl htype
      | _ => rfl
    have hfiltered : msg.isFiltered = false := by
      cases msg with
      | askSpecial prompt => exact absurd rfl htype
      | _ => rfl
    obtain ⟨holder, hholder, hcast⟩ := onCreateViewHolder_type htype
    refine iff_of_true ⟨holder, ?_, ?_⟩ hfiltered
    · rw [hviewType, hholder]
    · rw [cast, hcast]
      exact if_pos rfl

theorem shown_debug_iff (msg : AssistantMessage) : Shown true msg ↔ Displayable msg := by
  rw [Displayable, ← exists_holder_iff]
  constructor
  · rintro ⟨holder, hholder, hcast, hbind⟩
    refine ⟨⟨holder, hholder, hcast⟩, fun hinteraction => ?_⟩
    exact setSideAndAlignment_eq_ok_iff.mp (bind_eq_ok_iff.mp hbind).2 hinteraction rfl
  · rintro ⟨⟨holder, hholder, hcast⟩, hdirection⟩
    refine ⟨holder, hholder, hcast, bind_eq_ok_iff.mpr ⟨hcast, ?_⟩⟩
    exact setSideAndAlignment_eq_ok_iff.mpr fun hinteraction _ => hdirection hinteraction

theorem Displayable.shown {msg : AssistantMessage} (h : Displayable msg) (debug : Bool) :
    Shown debug msg := by
  obtain ⟨holder, hholder, hcast, hbind⟩ := (shown_debug_iff msg).mpr h
  refine ⟨holder, hholder, hcast, bind_eq_ok_iff.mpr ⟨hcast, ?_⟩⟩
  exact setSideAndAlignment_eq_ok_iff.mpr fun hinteraction _ => h.2 hinteraction

/-! ## The history -/

def Comes (msg : AssistantMessage) : Prop :=
  msg.isInteraction = true → msg.direction = .fromSabrina

def AllDisplayable (history : AssistantHistoryModel) : Prop :=
  ∀ msg ∈ history.store, Displayable msg

section

variable {history : AssistantHistoryModel}

theorem AllDisplayable.add (h : AllDisplayable history) {msg : AssistantMessage}
    (hmsg : Comes msg) : AllDisplayable (history.add msg).1 := by
  cases hfiltered : msg.isFiltered with
  | true =>
    rw [AssistantHistoryModel.add_of_isFiltered _ hfiltered]
    exact h
  | false =>
    rw [AssistantHistoryModel.add_of_not_isFiltered _ hfiltered]
    intro other hother
    rcases List.mem_append.mp hother with hother | hother
    · exact h other hother
    · cases List.mem_singleton.mp hother
      exact ⟨hfiltered, hmsg⟩

theorem AllDisplayable.removeButtons (h : AllDisplayable history) :
    AllDisplayable history.removeButtons := by
  intro msg hmsg
  rw [AssistantHistoryModel.removeButtons_store] at hmsg
  exact h msg ((List.rdropWhile_prefix _ _).subset hmsg)

theorem AllDisplayable.clear (history : AssistantHistoryModel) :
    AllDisplayable history.clear := by
  intro msg hmsg
  cases hmsg

end

/-! ## The assistant -/

section

open AssistantDispatcher

variable {p : Platform} {s t : AssistantDispatcher} {a : Action}

theorem direction_of_slotFilling {direction : Direction} {title : JavaString}
    {json : JSONObject Double} {slotFilling : Assistant.SlotFilling}
    (h : Assistant.SlotFilling.new direction title json = some slotFilling) :
    slotFilling.direction = direction := by
  rw [Assistant.SlotFilling.new] at h
  split at h
  · cases h
  · split at h
    · cases h
    · cases h
      rfl

theorem converted_direction (msg : AssistantMessage) :
    (converted msg).direction = msg.direction := by
  cases msg with
  | button b =>
    rw [converted]
    split
    · rename_i slotFilling hnew
      exact direction_of_slotFilling hnew
    · rfl
  | _ => rfl

theorem dispatched_direction (p : Platform) (call : ApiCall) :
    ∀ msg ∈ call.dispatched p, msg.direction = .fromSabrina := by
  intro msg hmsg
  cases call with
  | sendRDL rdl icon =>
    rw [ApiCall.dispatched] at hmsg
    rcases List.mem_cons.mp hmsg with rfl | hmsg
    · rfl
    · split at hmsg
      · cases hmsg
      · cases List.mem_singleton.mp hmsg
        rfl
  | _ =>
    cases List.mem_singleton.mp hmsg
    rfl

theorem displayable_answer {msg : AssistantMessage} (h : AllDisplayable s.history)
    (hmsg : msg.isInteraction = false) : AllDisplayable (s.answer msg).history :=
  h.removeButtons.add fun hinteraction => absurd (hmsg.symm.trans hinteraction) Bool.false_ne_true

theorem displayable_userAction (h : AllDisplayable s.history) (action : UserAction) :
    AllDisplayable (s.userAction p action).history := by
  cases action with
  | neverMind | yes | no => exact displayable_answer (s := s.execute _) h rfl
  | choice title idx => exact displayable_answer (s := s.execute _) h rfl
  | button title json => exact displayable_answer (s := s.execute _) h rfl
  | location place =>
    rw [userAction, handleLocation]
    split
    · exact displayable_answer (s := s.execute _) h rfl
    · exact displayable_answer h rfl
  | picture url => exact displayable_answer (s := s.execute _) h rfl
  | contact data displayName type => exact displayable_answer (s := s.execute _) h rfl
  | help | train | makeRule => exact h.removeButtons
  | configure kind => exact h.removeButtons
  | presentExample utterance targetCode => exact h.removeButtons
  | clear => exact h

theorem displayable_onTextActivated (h : AllDisplayable s.history) (activity : MainActivity)
    (text : U16String) : AllDisplayable (s.onTextActivated p activity text).history := by
  rw [onTextActivated]
  split
  · exact h
  · split
    · exact displayable_answer (s := s.execute _) h rfl
    · rw [handleCommand]
      split
      · exact h
      · split
        · exact h
        · exact displayable_answer (s := s.execute _) h rfl

/-- The messages on their way come from the assistant, and those in the history can be
displayed. -/
structure Inv (s : AssistantDispatcher) : Prop where
  dispatching : ∀ msg ∈ s.dispatching, msg.direction = .fromSabrina
  posted : ∀ msg ∈ s.posted, msg.direction = .fromSabrina
  history : AllDisplayable s.history

theorem Inv.displayable_step (h : Inv s) (hstep : step p s a = some t) :
    AllDisplayable t.history := by
  cases a with
  | api call =>
    rw [step] at hstep
    split at hstep
    · cases hstep
      exact h.history
    · cases hstep
  | dispatch =>
    rw [step] at hstep
    split at hstep
    · cases hstep
    · cases hstep
      rw [dispatch_eq]
      exact h.history
  | handleMessage =>
    rw [step] at hstep
    split at hstep
    · cases hstep
    · rename_i msg posted hposted
      cases hstep
      rw [handleMessage_eq]
      exact h.history.add fun _ => h.posted msg (hposted ▸ List.mem_cons_self ..)
  | create =>
    cases hstep
    exact h.history
  | setAssistantOutput output =>
    rw [step] at hstep
    split at hstep
    · cases hstep
      rw [setAssistantOutput_eq]
      exact h.history
    · cases hstep
  | ready =>
    cases hstep
    exact h.history
  | textActivated activity text =>
    obtain ⟨owner, -, rfl⟩ := Option.map_eq_some_iff.mp hstep
    exact displayable_onTextActivated h.history owner text
  | user action =>
    cases hstep
    exact displayable_userAction h.history action
  | cleared =>
    rw [step] at hstep
    split at hstep
    · cases hstep
    · cases hstep
      exact AllDisplayable.clear _

theorem Inv.step (h : Inv s) (hstep : step p s a = some t) : Inv t := by
  have hhistory := h.displayable_step hstep
  cases step_does hstep with
  | api _ => exact ⟨dispatched_direction p _, h.posted, hhistory⟩
  | dispatch hdispatching =>
    refine ⟨fun msg hmsg => ?_, fun msg hmsg => ?_, hhistory⟩
    · exact h.dispatching msg (hdispatching ▸ List.mem_cons_of_mem _ hmsg)
    · rcases List.mem_append.mp hmsg with hmsg | hmsg
      · exact h.posted msg hmsg
      · cases List.mem_singleton.mp hmsg
        rw [converted_direction]
        exact h.dispatching _ (hdispatching ▸ List.mem_cons_self ..)
  | handleMessage hposted =>
    rw [handleMessage_eq] at hhistory ⊢
    exact ⟨h.dispatching, fun msg hmsg =>
      h.posted msg (hposted ▸ List.mem_cons_of_mem _ hmsg), hhistory⟩
  | create => exact ⟨h.dispatching, h.posted, hhistory⟩
  | setAssistantOutput _ =>
    rw [setAssistantOutput_eq] at hhistory ⊢
    exact ⟨h.dispatching, h.posted, hhistory⟩
  | user => exact ⟨h.dispatching, h.posted, hhistory⟩

theorem inv (hs : (machine p).Reachable s) : Inv s := by
  refine hs.invariant Inv ?_ fun _ _ _ h hstep => h.step hstep
  rintro _ rfl
  exact ⟨List.forall_mem_nil _, List.forall_mem_nil _, List.forall_mem_nil _⟩

/-- Every message of the history has a view type that is decoded to a holder that accepts the
message, also in a build for debugging. -/
theorem history_shown (p : Platform) (s : AssistantDispatcher) (hs : (machine p).Reachable s)
    (debug : Bool) : ∀ msg ∈ s.history.store, Shown debug msg :=
  fun msg hmsg => ((inv hs).history msg hmsg).shown debug

/-- The assistant asks for a phone number. -/
theorem history_shown_phoneNumber : ∃ s,
    s.history.store = [.askSpecial ⟨.fromSabrina, .phoneNumber⟩] ∧
      (machine .english).Reachable s ∧ ∀ msg ∈ s.history.store, Shown true msg := by
  have hrun : (machine .english).run initial
      [.api (.sendAskSpecial (some (u16 "phone_number"))), .dispatch, .handleMessage] =
      some _ := rfl
  have hs := Machine.Reachable.run (.start rfl) hrun
  exact ⟨_, rfl, hs, history_shown .english _ hs true⟩

end

end HistoryAdapter

end AlmondAndroid.Ui
