import AlmondAndroid.Assistant.Dispatcher

/-!
# Choices after an answer

An answer of the user removes the interactions at the end of the history, before it
adds the message of the user. The loop that removes them stops at the first message
that is no interaction: what such a message has come after stays clickable.
-/

namespace AlmondAndroid.Assistant

open Library Bridge

def NoInteraction (store : List AssistantMessage) : Prop :=
  ∀ msg ∈ store, msg.isInteraction = false

/-- Every interaction comes after every other message. -/
def InteractionsLast (store : List AssistantMessage) : Prop :=
  ∃ front back, store = front ++ back ∧ NoInteraction front ∧
    ∀ msg ∈ back, msg.isInteraction = true

theorem NoInteraction.append {front back : List AssistantMessage} (hfront : NoInteraction front)
    (hback : NoInteraction back) : NoInteraction (front ++ back) :=
  fun msg hmsg => (List.mem_append.mp hmsg).elim (hfront msg) (hback msg)

/-- The loop of `removeButtons` finds all interactions exactly if they come last. -/
theorem noInteraction_rdropWhile_iff (store : List AssistantMessage) :
    NoInteraction (store.rdropWhile AssistantMessage.isInteraction) ↔ InteractionsLast store := by
  constructor
  · intro h
    exact ⟨_, _, List.rdropWhile_append_rtakeWhile.symm, h,
      fun msg hmsg => List.mem_rtakeWhile_imp hmsg⟩
  · rintro ⟨front, back, rfl, hfront, hback⟩
    induction back using List.reverseRecOn with
    | nil =>
      rw [List.append_nil]
      exact fun msg hmsg => hfront msg ((List.rdropWhile_prefix _ front).subset hmsg)
    | append_singleton back msg ih =>
      rw [← List.append_assoc, List.rdropWhile_concat_pos _ _ _ (hback msg (by simp))]
      exact ih fun msg hmsg => hback msg (List.mem_append_left _ hmsg)

namespace AssistantDispatcher

def isDebugCommand (p : Platform) (command : U16String) : Prop :=
  p.debug = true ∧ (u16 "\\r " <+: command ∨ u16 "\\t " <+: command)

def IsAnswer (p : Platform) (s : AssistantDispatcher) : Action → Prop
  | .textActivated activity text => ∃ a, s.activities[activity]? = some a ∧ trim text ≠ [] ∧
      (a.isPassword = true ∨ ¬ isDebugCommand p (trim text))
  | .user .neverMind | .user .yes | .user .no | .user (.choice _ _) | .user (.button _ _)
  | .user (.location _) | .user (.picture _) | .user (.contact _ _ _) => True
  | _ => False

variable {p : Platform} {s t : AssistantDispatcher} {a : Action}

/-- The message of the user is the last one after an answer. -/
def Answered (s t : AssistantDispatcher) : Prop :=
  ∃ msg, msg.isInteraction = false ∧
    t.history.store = s.history.store.rdropWhile AssistantMessage.isInteraction ++ [msg]

theorem answered_of_history {history : AssistantHistoryModel} (h : s.history = history)
    {msg : AssistantMessage} (hmsg : msg.isInteraction = false) (hkept : msg.isFiltered = false) :
    s.Answered { t with history := (history.removeButtons.add msg).1 } := by
  refine ⟨msg, hmsg, ?_⟩
  rw [AssistantHistoryModel.add_of_not_isFiltered _ hkept, h,
    ← AssistantHistoryModel.removeButtons_store]

theorem handleCommand_answers {command : U16String} (h : ¬ isDebugCommand p command) :
    s.Answered (s.handleCommand p command) := by
  have hr : ¬ (p.debug ∧ u16 "\\r " <+: command) := fun hdebug => h ⟨hdebug.1, .inl hdebug.2⟩
  have ht : ¬ (p.debug ∧ u16 "\\t " <+: command) := fun hdebug => h ⟨hdebug.1, .inr hdebug.2⟩
  rw [handleCommand, if_neg hr, if_neg ht]
  exact answered_of_history rfl rfl rfl

theorem handleLocation_answers (place : Place) : s.Answered (s.handleLocation place) := by
  rw [handleLocation]
  split
  · exact answered_of_history rfl rfl rfl
  · exact answered_of_history rfl rfl rfl

theorem step_answers (hanswer : IsAnswer p s a) (hstep : step p s a = some t) :
    s.Answered t := by
  cases a with
  | textActivated activity text =>
    obtain ⟨a, hactivity, htext, hkind⟩ := hanswer
    rw [step, hactivity, Option.map_some] at hstep
    cases hstep
    rw [onTextActivated, if_neg htext]
    split
    · exact answered_of_history rfl rfl rfl
    · rename_i hplain
      exact handleCommand_answers (hkind.resolve_left hplain)
  | user action =>
    cases hstep
    cases action with
    | neverMind | yes | no => exact answered_of_history rfl rfl rfl
    | choice title idx => exact answered_of_history rfl rfl rfl
    | button title json => exact answered_of_history rfl rfl rfl
    | location place => exact handleLocation_answers place
    | picture url => exact answered_of_history rfl rfl rfl
    | contact data displayName type => exact answered_of_history rfl rfl rfl
    | _ => exact hanswer.elim
  | _ => exact hanswer.elim

theorem isAnswer_enabled (hanswer : IsAnswer p s a) : ∃ t, step p s a = some t := by
  cases a with
  | textActivated activity text =>
    obtain ⟨a, hactivity, -⟩ := hanswer
    rw [step, hactivity]
    exact ⟨_, rfl⟩
  | user action => exact ⟨_, rfl⟩
  | _ => exact hanswer.elim

theorem Answered.noInteraction_iff (h : s.Answered t) :
    NoInteraction t.history.store ↔ InteractionsLast s.history.store := by
  obtain ⟨msg, hmsg, hstore⟩ := h
  rw [hstore, ← noInteraction_rdropWhile_iff]
  constructor
  · exact fun h m hm => h m (List.mem_append_left _ hm)
  · refine fun h => h.append fun m hm => ?_
    rw [List.mem_singleton.mp hm]
    exact hmsg

/-- After every answer of a run there is nothing left to click, exactly if before every
answer the interactions are the last messages of the history. -/
theorem no_stale_choice_iff (p : Platform) (actions : List Action) :
    (machine p).Meets (fun s a => IsAnswer p s a →
        ∀ t, step p s a = some t → NoInteraction t.history.store) initial actions ↔
      (machine p).Meets (fun s a => IsAnswer p s a → InteractionsLast s.history.store)
        initial actions := by
  apply Machine.Meets.congr
  intro s a
  apply forall_congr'
  intro hanswer
  constructor
  · intro h
    obtain ⟨t, ht⟩ := isAnswer_enabled hanswer
    exact (step_answers hanswer ht).noInteraction_iff.mp (h t ht)
  · exact fun h t ht => (step_answers hanswer ht).noInteraction_iff.mpr h

/-- A text comes after a choice, and the user says yes: the choice stays. -/
theorem stale_choice :
    ¬ ∀ actions, (machine .english).Meets (fun s a => IsAnswer .english s a →
      ∀ t, step .english s a = some t → NoInteraction t.history.store) initial actions := by
  intro h
  have hrun : (machine .english).run initial [
      .api (.sendChoice 0 (some (u16 "generic")) (some (u16 "A")) (some (u16 "A"))), .dispatch,
      .handleMessage, .api (.send (some (u16 "It rains")) none), .dispatch, .handleMessage] =
    some _ := rfl
  have hguard := Machine.Meets.guard _ (h (_ ++ [.user .yes])) hrun
  have hyes := hguard True.intro _ rfl
  exact nomatch hyes _ (List.mem_cons_self ..)

end AssistantDispatcher

end AlmondAndroid.Assistant
