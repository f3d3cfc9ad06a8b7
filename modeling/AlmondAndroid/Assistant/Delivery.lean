import AlmondAndroid.Assistant.Passwords

/-!
# Delivery of messages

A message is on its way from the call that makes it to the handler: in the call that
is under way, in the queue of the main thread, or handled. No step of the user touches
any of the three.
-/

namespace AlmondAndroid.Assistant

open Library Bridge

/-- The messages of a call as they are meant to arrive: a button with the data of a slot
filling form is one. -/
def ApiCall.messages (p : Platform) : ApiCall → List AssistantMessage
  | .sendButton title json =>
      match hslots : json.getJSONArray (u16 "slots"),
        hslotTypes : json.getJSONObject (u16 "slotTypes") with
      | some slots, some slotTypes =>
          [.slotFilling ⟨.fromSabrina, title, json, slots, slotTypes, hslots, hslotTypes⟩]
      | _, _ => [.button ⟨.fromSabrina, title, json⟩]
  | call => call.dispatched p

namespace AssistantDispatcher

/-- All messages of all calls are handled or on their way, in order, and what was done
with the handled ones is what each of them asks for. -/
structure Delivered (p : Platform) (s : AssistantDispatcher) : Prop where
  messages : s.handled.map Prod.fst ++ s.posted ++ s.dispatching.map converted =
    s.calls.flatMap (ApiCall.messages p)
  deliveries : s.deliveries = s.handled.flatMap fun entry => deliveriesOf entry.1 entry.2

variable {p : Platform} {s t : AssistantDispatcher}

theorem messages_sendButton (title : JavaString) (json : JSONObject Double) :
    ApiCall.messages p (.sendButton title json) =
      [converted (.button ⟨.fromSabrina, title, json⟩)] := by
  rw [ApiCall.messages, converted]
  dsimp only
  split
  · rename_i slots slotTypes hslots hslotTypes
    rw [SlotFilling.new_of_some hslots hslotTypes]
  · rename_i hmalformed
    cases hslots : json.getJSONArray (u16 "slots") with
    | none => rw [SlotFilling.new_of_slots_none hslots]
    | some slots =>
      cases hslotTypes : json.getJSONObject (u16 "slotTypes") with
      | none => rw [SlotFilling.new_of_slotTypes_none hslotTypes]
      | some slotTypes => exact (hmalformed slots slotTypes hslots hslotTypes).elim

theorem messages_eq (call : ApiCall) :
    call.messages p = (call.dispatched p).map converted := by
  cases call with
  | sendButton title json => exact messages_sendButton title json
  | sendRDL rdl icon =>
    rw [ApiCall.messages, ApiCall.dispatched]
    cases rdl.opt (u16 "pictureUrl") with
    | none => rfl
    | some url => rfl
    · exact fun title json h => nomatch h
  | _ => rfl

theorem Delivered.step {a : Action} (h : Delivered p s) (hstep : step p s a = some t) :
    Delivered p t := by
  cases step_does hstep with
  | @api call hdispatching =>
    refine ⟨?_, h.deliveries⟩
    have hmessages := h.messages
    rw [hdispatching, List.map_nil, List.append_nil] at hmessages
    dsimp only
    rw [hmessages, List.flatMap_append, List.flatMap_singleton, messages_eq]
  | @dispatch msg dispatching hdispatching =>
    refine ⟨?_, h.deliveries⟩
    have hmessages := h.messages
    rw [hdispatching, List.map_cons] at hmessages
    dsimp only
    rw [← hmessages, ← List.append_assoc, List.append_assoc _ [converted msg]]
    rfl
  | @handleMessage msg posted hposted =>
    rw [handleMessage_eq]
    refine ⟨?_, ?_⟩
    · have hmessages := h.messages
      rw [hposted] at hmessages
      dsimp only
      rw [← hmessages, List.map_append, List.append_assoc _ _ posted]
      rfl
    · dsimp only
      rw [h.deliveries, List.flatMap_append, List.flatMap_singleton]
  | setAssistantOutput hvalid =>
    rw [setAssistantOutput_eq]
    exact ⟨h.messages, h.deliveries⟩
  | _ => exact ⟨h.messages, h.deliveries⟩

theorem delivered (hs : (machine p).Reachable s) : Delivered p s := by
  refine hs.invariant (Delivered p) ?_ fun s a t h hstep => h.step hstep
  rintro s rfl
  exact ⟨rfl, rfl⟩

/-! ## Every message gets there -/

end AssistantDispatcher

end AlmondAndroid.Assistant
