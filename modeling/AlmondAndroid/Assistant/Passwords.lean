import AlmondAndroid.Assistant.Dispatcher

/-!
# Typed passwords

What is asked is kept by the dispatcher, and the attached activity keeps whether it is
a password. Only `display` brings the two together: of the prompts that come while the
activity is attached, and of the last one whenever an activity is attached again.
-/

namespace AlmondAndroid.Assistant

open Library Bridge

namespace AssistantMessage

def prompt : AssistantMessage → Option AskSpecial
  | askSpecial msg => some msg
  | _ => none

end AssistantMessage

namespace AssistantDispatcher

def lastPrompt (handled : List (AssistantMessage × Option Nat)) : Option AskSpecial :=
  (handled.filterMap fun entry => entry.1.prompt).getLast?

/-- The attached activity is there, and it shows what is asked, which is the last prompt. -/
structure Synced (s : AssistantDispatcher) : Prop where
  asking : s.asking = lastPrompt s.handled
  output : ∀ i ∈ s.output, i < s.activities.length
  isPassword : ∀ i ∈ s.output, ∀ a ∈ s.activities[i]?, ∀ msg ∈ s.asking,
    a.isPassword = decide (msg.what = .password)

theorem lastPrompt_append (handled : List (AssistantMessage × Option Nat))
    (msg : AssistantMessage) (output : Option Nat) :
    lastPrompt (handled ++ [(msg, output)]) = asked (lastPrompt handled) msg := by
  cases msg with
  | askSpecial msg =>
    rw [lastPrompt, List.filterMap_append]
    exact List.getLast?_append_of_ne_nil _ (List.cons_ne_nil msg [])
  | _ =>
    rw [lastPrompt, List.filterMap_append]
    exact congrArg List.getLast? (List.append_nil _)

theorem display_isPassword (a : MainActivity) (msg : AskSpecial) :
    (a.display (.askSpecial msg)).isPassword = decide (msg.what = .password) := rfl

theorem display_asked {a : MainActivity} {asking : Option AskSpecial}
    (h : ∀ q ∈ asking, a.isPassword = decide (q.what = .password)) (msg : AssistantMessage) :
    ∀ q ∈ asked asking msg, (a.display msg).isPassword = decide (q.what = .password) := by
  cases msg with
  | askSpecial msg =>
    intro q hq
    cases hq
    exact display_isPassword a msg
  | _ => exact h

theorem getElem?_modify_self {activities : List MainActivity} {f : MainActivity → MainActivity}
    {i : Nat} {b : MainActivity} (h : (activities.modify i f)[i]? = some b) :
    ∃ a, activities[i]? = some a ∧ f a = b := by
  rw [List.getElem?_modify_eq] at h
  exact Option.map_eq_some_iff.mp h

theorem Synced.handleMessage {s : AssistantDispatcher} (h : Synced s) (msg : AssistantMessage) :
    Synced (s.handleMessage msg) := by
  have hlast := lastPrompt_append s.handled msg s.output
  rw [handleMessage_eq]
  constructor
  · dsimp only
    rw [hlast, h.asking]
  · intro i hi
    have hlt := h.output i hi
    have hout : s.output = some i := hi
    dsimp only
    rw [hout, List.length_modify]
    exact hlt
  · intro i hi b hb q hq
    have hout : s.output = some i := hi
    dsimp only at hb hq
    rw [hout] at hb
    obtain ⟨a, ha, rfl⟩ := getElem?_modify_self hb
    exact display_asked (h.isPassword i hi a ha) msg q hq

theorem Synced.setAssistantOutput {s : AssistantDispatcher} (h : Synced s) {output : Option Nat}
    (hvalid : ∀ i ∈ output, i < s.activities.length) : Synced (s.setAssistantOutput output) := by
  have hasked := h.asking
  rw [setAssistantOutput_eq]
  cases houtput : output with
  | none => exact ⟨hasked, fun i hi => (nomatch hi), fun i hi => (nomatch hi)⟩
  | some activity =>
    rw [houtput] at hvalid
    cases hasking : s.asking with
    | none =>
      rw [hasking] at hasked
      exact ⟨hasked, hvalid, fun i _ a _ q hq => (nomatch hq)⟩
    | some asking =>
      rw [hasking] at hasked
      refine ⟨hasked, fun i hi => ?_, fun i hi b hb q hq => ?_⟩
      · dsimp only
        rw [List.length_modify]
        exact hvalid i hi
      · cases hi
        cases hq
        obtain ⟨a, -, rfl⟩ := getElem?_modify_self hb
        exact display_isPassword a asking

theorem Synced.create {s : AssistantDispatcher} (h : Synced s) (a : MainActivity) :
    Synced { s with activities := s.activities ++ [a] } := by
  refine ⟨h.asking, fun i hi => ?_, fun i hi b hb => h.isPassword i hi b ?_⟩
  · dsimp only
    rw [List.length_append]
    exact Nat.lt_add_right _ (h.output i hi)
  · dsimp only at hb
    rw [List.getElem?_append_left (h.output i hi)] at hb
    exact hb

variable {p : Platform} {s : AssistantDispatcher}

theorem synced (hs : (machine p).Reachable s) : Synced s := by
  refine hs.invariant Synced ?_ ?_
  · rintro s rfl
    exact ⟨rfl, fun i hi => (nomatch hi), fun i hi => (nomatch hi)⟩
  · intro s a t h hstep
    cases step_does hstep with
    | handleMessage hposted =>
      apply Synced.handleMessage
      exact ⟨h.asking, h.output, h.isPassword⟩
    | create => exact h.create _
    | setAssistantOutput hvalid => exact h.setAssistantOutput hvalid
    | _ => exact ⟨h.asking, h.output, h.isPassword⟩

theorem isPassword_of_lastPrompt (hs : (machine p).Reachable s) {i : Nat}
    (houtput : s.output = some i) {msg : AskSpecial} (hlast : lastPrompt s.handled = some msg)
    (hpassword : msg.what = .password) : ∃ a, s.activities[i]? = some a ∧ a.isPassword = true := by
  have h := synced hs
  have hi := h.output i houtput
  have hget := List.getElem?_eq_getElem hi
  refine ⟨s.activities[i], hget, ?_⟩
  have hasking : s.asking = some msg := h.asking.trans hlast
  rw [h.isPassword i houtput _ hget msg hasking, hpassword]
  rfl

theorem handlePassword_store (s : AssistantDispatcher) (password : U16String) :
    (s.handlePassword password).history.store =
      s.history.store.rdropWhile AssistantMessage.isInteraction ++
        [userText (some maskedText)] := by
  rw [← AssistantHistoryModel.removeButtons_store]
  rfl

/-- A text that is typed while the last prompt is for a password goes to
`handlePassword`, and all that comes to the history is the mask. -/
theorem passwords_masked (hs : (machine p).Reachable s) {i : Nat} (houtput : s.output = some i)
    {msg : AskSpecial} (hlast : lastPrompt s.handled = some msg)
    (hpassword : msg.what = .password) {text : U16String} (htext : trim text ≠ []) :
    (machine p).step s (.textActivated i text) = some (s.handlePassword (trim text)) ∧
    (s.handlePassword (trim text)).history.store =
      s.history.store.rdropWhile AssistantMessage.isInteraction ++
        [userText (some maskedText)] := by
  refine ⟨?_, handlePassword_store s (trim text)⟩
  obtain ⟨a, ha, hisPassword⟩ := isPassword_of_lastPrompt hs houtput hlast hpassword
  have hmap : (machine p).step s (.textActivated i text) =
      s.activities[i]?.map fun a => s.onTextActivated p a text := rfl
  rw [hmap, ha, Option.map_some, onTextActivated, if_neg htext, if_pos hisPassword]

/-- An activity is attached, is asked for a password, and takes one. -/
theorem passwords_masked_attached : ∃ s,
    (machine .english).run initial [.create, .setAssistantOutput (some 0),
      .api (.sendAskSpecial (some (u16 "password"))), .dispatch, .handleMessage] = some s ∧
    (machine .english).step s (.textActivated 0 (u16 " 1234 ")) =
      some (s.handlePassword (u16 "1234")) ∧
    (s.handlePassword (u16 "1234")).history.store = [userText (some maskedText)] := by
  have hrun : (machine .english).run initial [.create, .setAssistantOutput (some 0),
      .api (.sendAskSpecial (some (u16 "password"))), .dispatch, .handleMessage] = some _ := rfl
  have hs := Machine.Reachable.run (.start rfl) hrun
  exact ⟨_, hrun, passwords_masked hs rfl rfl rfl (by decide)⟩

end AssistantDispatcher

end AlmondAndroid.Assistant
