import AlmondAndroid.Library.Table
import AlmondAndroid.Ui.MainServiceConnection

/-!
# Answers are kept when the codes in use are apart

The map has an entry for every request without an answer, and a message in the
queue of the main thread belongs to such a request. Requests are changed one at a
time, so that each step is a change of one request and one of the map or the queue.
-/

namespace AlmondAndroid.Ui

open Library

/-- How the thread, the state and the interaction of one request go together. -/
structure Request.Sound (request : Request) : Prop where
  notPosted : request.thread = .putting ∨ request.thread = .sending →
    request.interaction = .notPosted
  answered : request.state.interacting = false → ∃ result,
    request.interaction = .answered result ∧
      (request.IsReturned ∨ request.state.interacted = result)
  returned : ∀ result, request.thread = .returned result →
    request.interaction = .answered result

namespace Request.Sound

variable {request : Request}

theorem interacting (h : request.Sound) (hnot : ∀ result, request.interaction ≠ .answered result) :
    request.state.interacting = true := by
  cases hstate : request.state.interacting with
  | true => rfl
  | false =>
    obtain ⟨result, hanswered, -⟩ := h.answered hstate
    exact absurd hanswered (hnot result)

theorem waiting (h : request.Sound) (hposted : request.interaction ≠ .notPosted)
    (hnot : ∀ result, request.interaction ≠ .answered result) : request.thread = .waiting := by
  cases hthread : request.thread with
  | putting => exact absurd (h.notPosted (.inl hthread)) hposted
  | sending => exact absurd (h.notPosted (.inr hthread)) hposted
  | waiting => rfl
  | returned result => exact absurd (h.returned result hthread) (hnot result)

theorem new (api : Api) (requestCode : Int) :
    Request.Sound ⟨api, requestCode, .putting, .new, .notPosted⟩ where
  notPosted _ := rfl
  answered h := by cases h
  returned result h := by cases h

theorem become (hwaiting : request.thread = .waiting)
    (hinteracting : request.state.interacting = true) (interaction : Interaction) :
    Request.Sound { request with interaction := interaction } where
  notPosted hthread := by
    have hthread : request.thread = .putting ∨ request.thread = .sending := hthread
    rw [hwaiting] at hthread
    rcases hthread with hthread | hthread <;> cases hthread
  answered hstate := by
    have hstate : request.state.interacting = false := hstate
    rw [hinteracting] at hstate
    cases hstate
  returned result hthread := by
    have hthread : request.thread = .returned result := hthread
    rw [hwaiting] at hthread
    cases hthread

theorem complete (hwaiting : request.thread = .waiting) (result : Bool) :
    Request.Sound
      { request with state := .complete result, interaction := .answered result } where
  notPosted hthread := by
    have hthread : request.thread = .putting ∨ request.thread = .sending := hthread
    rw [hwaiting] at hthread
    rcases hthread with hthread | hthread <;> cases hthread
  answered _ := ⟨result, rfl, .inr rfl⟩
  returned result' hthread := by
    have hthread : request.thread = .returned result' := hthread
    rw [hwaiting] at hthread
    cases hthread

end Request.Sound

namespace MainServiceConnection

variable {s : MainServiceConnection}

/-! ## Changes of one request -/

theorem become_eq {r : Nat} {request : Request} (hrequest : s.requests r = some request)
    (interaction : Interaction) :
    s.become r interaction = s.setRequest r { request with interaction := interaction } := by
  rw [become, hrequest]

theorem complete_eq {r : Nat} {request : Request} (hrequest : s.requests r = some request)
    (result : Bool) :
    s.complete r result = s.setRequest r { request with state := .complete result } := by
  rw [complete, hrequest]

theorem setRequest_setRequest (r : Nat) (request next : Request) :
    (s.setRequest r request).setRequest r next = s.setRequest r next := by
  change { s with requests := _ } = { s with requests := _ }
  rw [show (s.setRequest r request).requests = Function.update s.requests r (some request) from rfl,
    Function.update_idem]

theorem requests_setRequest (r : Nat) (request : Request) :
    (s.setRequest r request).requests r = some request :=
  Function.update_self ..

theorem onResult_eq {requestCode : Int} {r : Nat} {request : Request}
    (hentry : s.interacting requestCode = some r) (hrequest : s.requests r = some request)
    (result : Bool) :
    s.onResult requestCode result = MainServiceConnection.setRequest
      { s with interacting := Function.update s.interacting requestCode none } r
      { request with state := .complete result } := by
  rw [onResult, hentry]
  exact complete_eq (s := { s with
    interacting := Function.update s.interacting requestCode none }) hrequest result

theorem onResult_setRequest {requestCode : Int} {r : Nat}
    (hentry : s.interacting requestCode = some r) (request : Request) (result : Bool) :
    (s.setRequest r request).onResult requestCode result = MainServiceConnection.setRequest
      { s with interacting := Function.update s.interacting requestCode none } r
      { request with state := .complete result } := by
  have hentry : (s.setRequest r request).interacting requestCode = some r := hentry
  rw [onResult_eq hentry (requests_setRequest _ _)]
  exact setRequest_setRequest (s := { s with
    interacting := Function.update s.interacting requestCode none }) r request _

/-! ## The invariant -/

/-- What is true of every run that respects `CodesApart`. -/
structure Kept (s : MainServiceConnection) : Prop where
  fresh : ∀ r, s.calls ≤ r → s.requests r = none
  sound : ∀ r request, s.requests r = some request → request.Sound
  registered : ∀ r request, s.requests r = some request → request.thread ≠ .putting →
    request.state.interacting = true → s.interacting request.requestCode = some r
  entry : ∀ requestCode r, s.interacting requestCode = some r → ∃ request,
    s.requests r = some request ∧ request.requestCode = requestCode
  message : ∀ message ∈ s.messages, ∃ request, s.requests message.sender = some request ∧
    request.requestCode = message.requestCode ∧ request.interaction = .posted
  nodup : (s.messages.map Message.sender).Nodup

namespace Kept

theorem initial : Kept initial where
  fresh _ _ := rfl
  sound r request h := by cases h
  registered r request h := by cases h
  entry requestCode r h := by cases h
  message message h := by cases h
  nodup := List.nodup_nil

theorem call (hs : Kept s) (api : Api) (requestCode : Int) :
    Kept { s.setRequest s.calls ⟨api, requestCode, .putting, .new, .notPosted⟩ with
      calls := s.calls + 1 } := by
  have hnone := hs.fresh s.calls (Nat.le_refl _)
  have hne : ∀ r request, s.requests r = some request → r ≠ s.calls := by
    rintro r request h rfl
    rw [hnone] at h
    cases h
  constructor
  · intro r hr
    have hlt : s.calls < r := hr
    exact (Function.update_of_ne (Nat.ne_of_gt hlt) _ _).trans (hs.fresh r (Nat.le_of_lt hlt))
  · intro r request h
    rcases Table.update_eq_some h with ⟨-, h⟩ | ⟨-, h⟩
    · cases h
      exact .new api requestCode
    · exact hs.sound r request h
  · intro r request h hthread hstate
    rcases Table.update_eq_some h with ⟨-, h⟩ | ⟨-, h⟩
    · cases h
      exact absurd rfl hthread
    · exact hs.registered r request h hthread hstate
  · intro requestCode' r h
    obtain ⟨request, hrequest, hcode⟩ := hs.entry requestCode' r h
    exact ⟨request, (Function.update_of_ne (hne r request hrequest) _ _).trans hrequest, hcode⟩
  · intro message hmem
    obtain ⟨request, hrequest, hrest⟩ := hs.message message hmem
    exact ⟨request, (Function.update_of_ne (hne _ request hrequest) _ _).trans hrequest, hrest⟩
  · exact hs.nodup

theorem setRequest (hs : Kept s) {r : Nat} {request next : Request}
    (hrequest : s.requests r = some request) (hcode : next.requestCode = request.requestCode)
    (hsound : next.Sound)
    (hregistered : next.thread ≠ .putting → next.state.interacting = true →
      s.interacting request.requestCode = some r)
    (hmessage : r ∈ s.messages.map Message.sender → next.interaction = .posted) :
    Kept (s.setRequest r next) where
  fresh r' hr' := by
    have hne : r' ≠ r := by
      rintro rfl
      rw [hs.fresh r' hr'] at hrequest
      cases hrequest
    exact (Function.update_of_ne hne _ _).trans (hs.fresh r' hr')
  sound r' request' h := by
    rcases Table.update_eq_some h with ⟨-, h⟩ | ⟨-, h⟩
    · cases h
      exact hsound
    · exact hs.sound r' request' h
  registered r' request' h hthread hstate := by
    rcases Table.update_eq_some h with ⟨hr, h⟩ | ⟨-, h⟩
    · cases h
      rw [hcode, hr]
      exact hregistered hthread hstate
    · exact hs.registered r' request' h hthread hstate
  entry requestCode r' h := by
    obtain ⟨request', hrequest', hcode'⟩ := hs.entry requestCode r' h
    by_cases hr : r' = r
    · rw [hr, hrequest] at hrequest'
      cases hrequest'
      rw [hr]
      exact ⟨next, Function.update_self .., hcode.trans hcode'⟩
    · exact ⟨request', (Function.update_of_ne hr _ _).trans hrequest', hcode'⟩
  message message hmem := by
    obtain ⟨request', hrequest', hcode', hposted⟩ := hs.message message hmem
    by_cases hr : message.sender = r
    · rw [hr, hrequest] at hrequest'
      cases hrequest'
      rw [hr]
      exact ⟨next, Function.update_self .., hcode.trans hcode',
        hmessage (hr ▸ List.mem_map_of_mem hmem)⟩
    · exact ⟨request', (Function.update_of_ne hr _ _).trans hrequest', hcode', hposted⟩
  nodup := hs.nodup

theorem register (hs : Kept s) (requestCode : Int) (entry : Option Nat)
    (hentry : ∀ r, entry = some r → ∃ request,
      s.requests r = some request ∧ request.requestCode = requestCode)
    (hfree : ∀ r request, s.requests r = some request → request.requestCode = requestCode →
      request.thread ≠ .putting → request.state.interacting = false) :
    Kept { s with interacting := Function.update s.interacting requestCode entry } where
  fresh := hs.fresh
  sound := hs.sound
  registered r request h hthread hstate := by
    change Function.update s.interacting requestCode entry request.requestCode = some r
    have hne : request.requestCode ≠ requestCode := by
      intro hcode
      have hfalse := hfree r request h hcode hthread
      rw [hfalse] at hstate
      cases hstate
    rw [Function.update_of_ne hne]
    exact hs.registered r request h hthread hstate
  entry requestCode' r h := by
    rcases Table.update_eq_some h with ⟨hcode, h⟩ | ⟨-, h⟩
    · rw [hcode]
      exact hentry r h
    · exact hs.entry requestCode' r h
  message := hs.message
  nodup := hs.nodup

theorem post (hs : Kept s) {r : Nat} {request : Request} (hrequest : s.requests r = some request)
    (hposted : request.interaction = .posted) (hnot : r ∉ s.messages.map Message.sender)
    (api : Api) :
    Kept { s with messages := s.messages ++ [⟨api, request.requestCode, r⟩] } where
  fresh := hs.fresh
  sound := hs.sound
  registered := hs.registered
  entry := hs.entry
  message message hmem := by
    rcases List.mem_append.mp hmem with hmem | hmem
    · exact hs.message message hmem
    · rw [List.mem_singleton.mp hmem]
      exact ⟨request, hrequest, rfl, hposted⟩
  nodup := by
    change ((s.messages ++ [Message.mk api request.requestCode r]).map Message.sender).Nodup
    rw [List.map_append]
    refine List.nodup_append.mpr ⟨hs.nodup, List.pairwise_singleton _ _, ?_⟩
    intro r' hr' r'' hr'' heq
    rw [heq, List.mem_singleton.mp hr''] at hr'
    exact hnot hr'

theorem pop (hs : Kept s) {message : Message} {messages : List Message}
    (hmessages : s.messages = message :: messages) : Kept { s with messages := messages } where
  fresh := hs.fresh
  sound := hs.sound
  registered := hs.registered
  entry := hs.entry
  message message' hmem := by
    apply hs.message message'
    rw [hmessages]
    exact List.mem_cons_of_mem _ hmem
  nodup := by
    have hnodup := hs.nodup
    rw [hmessages] at hnodup
    exact (List.nodup_cons.mp hnodup).2

theorem posted_of_mem (hs : Kept s) {r : Nat} {request : Request}
    (hrequest : s.requests r = some request) (hmem : r ∈ s.messages.map Message.sender) :
    request.interaction = .posted := by
  obtain ⟨message, hmessage, rfl⟩ := List.mem_map.mp hmem
  obtain ⟨request', hrequest', -, hposted⟩ := hs.message message hmessage
  rw [hrequest] at hrequest'
  cases hrequest'
  exact hposted

theorem put (hs : Kept s) {r : Nat} {api : Api} {requestCode : Int} {state : InteractionState}
    {interaction : Interaction}
    (hrequest : s.requests r = some ⟨api, requestCode, .putting, state, interaction⟩)
    (hguard : s.CodesApart (.put r)) :
    Kept { s.setRequest r ⟨api, requestCode, .sending, state, interaction⟩ with
      interacting := Function.update s.interacting requestCode (some r) } := by
  have hsound := hs.sound r _ hrequest
  have hposted : interaction = .notPosted := hsound.notPosted (.inl rfl)
  have hregister : Kept { s with
      interacting := Function.update s.interacting requestCode (some r) } := by
    refine hs.register requestCode (some r) (fun r' h => ?_)
      fun r' request' h hcode hthread => hguard _ hrequest r' request' h hcode hthread
    cases h
    exact ⟨_, hrequest, rfl⟩
  have hmessage := hs.posted_of_mem hrequest
  refine hregister.setRequest hrequest rfl ⟨fun _ => hposted, fun hstate => ?_, fun result h => ?_⟩
    (fun _ _ => Function.update_self ..) hmessage
  · obtain ⟨result, hanswered, -⟩ := hsound.answered hstate
    rw [hposted] at hanswered
    cases hanswered
  · cases h

theorem send (hs : Kept s) {r : Nat} {api : Api} {requestCode : Int} {state : InteractionState}
    {interaction : Interaction}
    (hrequest : s.requests r = some ⟨api, requestCode, .sending, state, interaction⟩) :
    Kept { s.setRequest r ⟨api, requestCode, .waiting, state, .posted⟩ with
      messages := s.messages ++ [⟨api, requestCode, r⟩] } := by
  have hsound := hs.sound r _ hrequest
  have hnotPosted : interaction = .notPosted := hsound.notPosted (.inr rfl)
  have hnot : r ∉ s.messages.map Message.sender := by
    intro hmem
    have hposted : interaction = .posted := hs.posted_of_mem hrequest hmem
    rw [hnotPosted] at hposted
    cases hposted
  have hset : Kept (s.setRequest r ⟨api, requestCode, .waiting, state, .posted⟩) := by
    refine hs.setRequest hrequest rfl ⟨fun h => ?_, fun hstate => ?_, fun result h => ?_⟩
      (fun _ hstate => hs.registered r _ hrequest (by simp) hstate) fun _ => rfl
    · rcases h with h | h <;> cases h
    · obtain ⟨result, hanswered, -⟩ := hsound.answered hstate
      rw [hnotPosted] at hanswered
      cases hanswered
    · cases h
  exact hset.post (Function.update_self ..) rfl hnot api

theorem get (hs : Kept s) {r : Nat} {api : Api} {requestCode : Int} {interacted : Bool}
    {interaction : Interaction}
    (hrequest : s.requests r =
      some ⟨api, requestCode, .waiting, ⟨false, interacted⟩, interaction⟩) :
    Kept (s.setRequest r
      ⟨api, requestCode, .returned interacted, ⟨false, interacted⟩, interaction⟩) := by
  obtain ⟨result, hanswered, hresult⟩ := (hs.sound r _ hrequest).answered rfl
  have hinteracted : interacted = result := by
    rcases hresult with ⟨result', h⟩ | h
    · cases h
    · exact h
  have hmessage := hs.posted_of_mem hrequest
  refine hs.setRequest hrequest rfl ⟨fun h => ?_, fun _ => ⟨result, hanswered, .inl ⟨_, rfl⟩⟩,
    fun result' h => ?_⟩ (fun _ h => by cases h) hmessage
  · rcases h with h | h <;> cases h
  · cases h
    rw [hinteracted]
    exact hanswered

theorem free (hs : Kept s) {requestCode : Int} {r : Nat} {request : Request}
    (hentry : s.interacting requestCode = some r) (hrequest : s.requests r = some request)
    (hstate : request.state.interacting = false) (r' : Nat) (request' : Request)
    (hrequest' : s.requests r' = some request') (hcode : request'.requestCode = requestCode)
    (hthread : request'.thread ≠ .putting) : request'.state.interacting = false := by
  cases hstate' : request'.state.interacting with
  | false => rfl
  | true =>
    have hentry' := hs.registered r' request' hrequest' hthread hstate'
    rw [hcode] at hentry'
    have hr : r = r' := Option.some.inj (hentry.symm.trans hentry')
    subst hr
    rw [hrequest] at hrequest'
    cases hrequest'
    rw [hstate'] at hstate
    cases hstate

theorem handleMessage (hs : Kept s) {message : Message} {messages : List Message}
    (hmessages : s.messages = message :: messages) (handling : Handling) :
    Kept ({ s with messages := messages }.handleMessage message handling) := by
  obtain ⟨request, hrequest, hcode, hposted⟩ :=
    hs.message message (hmessages ▸ List.mem_cons_self)
  have hpop := hs.pop hmessages
  have hnot : message.sender ∉ messages.map Message.sender := by
    have hnodup := hs.nodup
    rw [hmessages] at hnodup
    exact (List.nodup_cons.mp hnodup).1
  have hsound := hs.sound _ request hrequest
  have hnotAnswered : ∀ result, request.interaction ≠ .answered result := by
    intro result h
    rw [hposted] at h
    cases h
  have hinteracting := hsound.interacting hnotAnswered
  have hwaiting : request.thread = .waiting := by
    apply hsound.waiting _ hnotAnswered
    rw [hposted]
    intro h
    cases h
  have hregistered : s.interacting request.requestCode = some message.sender := by
    apply hs.registered _ request hrequest _ hinteracting
    rw [hwaiting]
    intro h
    cases h
  have hbecome : ∀ interaction,
      Kept ({ s with messages := messages }.become message.sender interaction) := by
    intro interaction
    rw [become_eq (s := { s with messages := messages }) hrequest]
    exact hpop.setRequest hrequest rfl (.become hwaiting hinteracting interaction)
      (fun _ _ => hregistered) fun hmem => absurd hmem hnot
  have hinteract : ∀ throws, Kept ({ s with messages := messages }.interact message throws) := by
    intro throws
    have hentry : ({ s with messages := messages } : MainServiceConnection).interacting
        message.requestCode = some message.sender := hcode ▸ hregistered
    rw [interact, hentry]
    dsimp only
    split
    · rw [complete_eq (s := { s with messages := messages }) hrequest,
        become_eq (requests_setRequest _ _), setRequest_setRequest]
      exact hpop.setRequest hrequest rfl (.complete hwaiting false) (fun _ h => by cases h)
        fun hmem => absurd hmem hnot
    · exact hbecome _
  rw [MainServiceConnection.handleMessage]
  split
  · exact hbecome _
  · split
    · exact hinteract _
    · exact hinteract _
    · exact hinteract _

theorem answer (hs : Kept s) {r : Nat} {api : Api} {requestCode : Int} {thread : Thread}
    {state : InteractionState}
    (hrequest : s.requests r = some ⟨api, requestCode, thread, state, .started⟩) (result : Bool) :
    Kept ((s.setRequest r ⟨api, requestCode, thread, state, .answered result⟩).onResult
      requestCode result) := by
  have hsound := hs.sound r _ hrequest
  have hnotAnswered : ∀ result', (Interaction.started : Interaction) ≠ .answered result' :=
    fun _ h => by cases h
  have hinteracting : state.interacting = true := hsound.interacting hnotAnswered
  have hwaiting : thread = .waiting := hsound.waiting (fun h => by cases h) hnotAnswered
  have hregistered : s.interacting requestCode = some r := by
    apply hs.registered r _ hrequest _ hinteracting
    rw [hwaiting]
    intro h
    cases h
  have hset : Kept
      (s.setRequest r ⟨api, requestCode, thread, .complete result, .answered result⟩) := by
    refine hs.setRequest hrequest rfl
      (@Request.Sound.complete ⟨api, requestCode, thread, state, .started⟩ hwaiting result)
      (fun _ h => by cases h) fun hmem => ?_
    have hposted := hs.posted_of_mem hrequest hmem
    cases hposted
  have hremove := hset.register requestCode none (fun r' h => by cases h) ?_
  · rw [onResult_setRequest hregistered]
    exact hremove
  · exact hset.free hregistered (requests_setRequest _ _) rfl

theorem ownResult (hs : Kept s) {requestCode : Int} {delivery : Delivery}
    (hguard : s.CodesApart (.ownResult requestCode delivery)) :
    Kept (s.onResult requestCode delivery.result) := by
  cases hentry : s.interacting requestCode with
  | none =>
    rw [onResult, hentry]
    exact hs
  | some r =>
    obtain ⟨request, hrequest, hcode⟩ := hs.entry requestCode r hentry
    obtain ⟨hstate, hsettled⟩ := hguard r request hentry hrequest
    have hsound := hs.sound r request hrequest
    have hmessage := hs.posted_of_mem hrequest
    have hset : Kept (s.setRequest r { request with state := .complete delivery.result }) := by
      refine hs.setRequest hrequest rfl ⟨hsound.notPosted, fun _ => ?_, hsound.returned⟩
        (fun _ h => by cases h) hmessage
      obtain ⟨result, hanswered, hresult⟩ := hsound.answered hstate
      refine ⟨result, hanswered, ?_⟩
      rcases hresult with hreturned | hresult
      · exact .inl hreturned
      · rcases hsettled with hreturned | hsame
        · exact .inl hreturned
        · exact .inr (hsame.symm.trans hresult)
    have hremove := hset.register requestCode none (fun r' h => by cases h) ?_
    · rw [onResult_eq hentry hrequest]
      exact hremove
    · exact hset.free hentry (requests_setRequest _ _) rfl

theorem step {t : MainServiceConnection} {a : Action} (hs : Kept s) (hguard : s.CodesApart a)
    (h : s.step a = some t) : Kept t := by
  cases a with
  | call api requestCode =>
    cases h
    exact hs.call api requestCode
  | put r =>
    dsimp only [MainServiceConnection.step] at h
    split at h
    · rename_i hrequest
      cases h
      exact hs.put hrequest hguard
    · cases h
  | send r =>
    dsimp only [MainServiceConnection.step] at h
    split at h
    · rename_i hrequest
      cases h
      exact hs.send hrequest
    · cases h
  | get r =>
    dsimp only [MainServiceConnection.step] at h
    split at h
    · rename_i hrequest
      cases h
      exact hs.get hrequest
    · cases h
  | start =>
    cases h
    exact ⟨hs.fresh, hs.sound, hs.registered, hs.entry, hs.message, hs.nodup⟩
  | stop =>
    cases h
    exact ⟨hs.fresh, hs.sound, hs.registered, hs.entry, hs.message, hs.nodup⟩
  | handleMessage handling =>
    dsimp only [MainServiceConnection.step] at h
    split at h
    · cases h
    · rename_i hmessages
      cases h
      exact hs.handleMessage hmessages handling
  | answer r delivery =>
    dsimp only [MainServiceConnection.step] at h
    split at h
    · rename_i hrequest
      split at h
      · cases h
        exact hs.answer hrequest delivery.result
      · cases h
    · cases h
  | ownResult requestCode delivery =>
    cases h
    exact hs.ownResult hguard

end Kept

theorem kept_of_reachable {s : MainServiceConnection} (h : machine.ReachableVia CodesApart s) :
    Kept s := by
  apply h.invariant Kept
  · rintro s rfl
    exact .initial
  · intro s a t hs hguard hstep
    exact hs.step hguard hstep

theorem run_answer_get {s : MainServiceConnection} {r : Nat} {request : Request}
    (hrequest : s.requests r = some request) (hblocked : request.IsBlocked)
    (hstarted : request.interaction = .started)
    (hregistered : s.interacting request.requestCode = some r) {delivery : Delivery}
    (hanswers : delivery.Answers request.api) :
    ∃ t, machine.run s [.answer r delivery, .get r] = some t ∧
      (t.requests r).map Request.thread = some (.returned delivery.result) := by
  obtain ⟨api, requestCode, thread, ⟨interacting, interacted⟩, interaction⟩ := request
  obtain ⟨hthread, hinteracting⟩ := hblocked
  dsimp only at hthread hinteracting hstarted hregistered hanswers
  subst hthread hinteracting hstarted
  obtain ⟨t, hanswer, ht⟩ : ∃ t, s.step (.answer r delivery) = some t ∧ t.requests r =
      some ⟨api, requestCode, .waiting, .complete delivery.result, .answered delivery.result⟩ := by
    rw [step, hrequest]
    dsimp only
    rw [if_pos hanswers, onResult_setRequest hregistered]
    exact ⟨_, rfl, requests_setRequest _ _⟩
  obtain ⟨u, hget, hthread⟩ : ∃ u, t.step (.get r) = some u ∧
      (u.requests r).map Request.thread = some (.returned delivery.result) := by
    rw [step, ht]
    exact ⟨_, rfl, congrArg (Option.map Request.thread) (requests_setRequest r _)⟩
  refine ⟨u, ?_, hthread⟩
  have hanswer : machine.step s (.answer r delivery) = some t := hanswer
  rw [Machine.run_of_step hanswer]
  exact Machine.run_singleton hget

/-- In every run that respects `CodesApart`, no answer is stolen. -/
theorem answersKept_of_codesApart {s : MainServiceConnection}
    (h : machine.ReachableVia CodesApart s) : s.AnswersKept := by
  have hs := kept_of_reachable h
  have hregistered : ∀ r request, s.requests r = some request → request.IsBlocked →
      s.interacting request.requestCode = some r := by
    intro r request hrequest hblocked
    apply hs.registered r request hrequest _ hblocked.2
    rw [hblocked.1]
    intro h
    cases h
  exact {
    registered := hregistered
    completes := fun r request delivery hrequest hblocked hstarted hanswers =>
      run_answer_get hrequest hblocked hstarted (hregistered r request hrequest hblocked) hanswers
    own := fun r request result hrequest hthread =>
      (hs.sound r request hrequest).returned result hthread }

/-- Two threads ask for different permissions, and one of them is back. -/
def differentCodes : List Action :=
  [.start, .call .requestPermission 201, .put 0, .call .requestPermission 202, .put 1, .send 1,
    .send 0, .handleMessage ⟨false, false⟩, .answer 1 (.permissionsResult [0]), .get 1]

theorem answersKept_of_codesApart_differentCodes : ∃ s : MainServiceConnection,
    machine.run initial differentCodes = some s ∧ s.AnswersKept ∧
    (s.requests 0).map Request.thread = some .waiting ∧
    (s.requests 1).map Request.thread = some (.returned true) := by
  have hinit : machine.ReachableVia CodesApart initial := .start rfl
  have hstart := hinit.next (a := Action.start) trivial rfl
  have hcall := hstart.next (a := Action.call .requestPermission 201) trivial rfl
  have hput := hcall.next (a := Action.put 0) (by
    rintro request ⟨⟩ r' request' h hcode hthread
    rcases Table.update_eq_some h with ⟨-, h⟩ | ⟨-, h⟩
    · cases h
      exact absurd rfl hthread
    · cases h) rfl
  have hcall' := hput.next (a := Action.call .requestPermission 202) trivial rfl
  have hput' := hcall'.next (a := Action.put 1) (by
    rintro request ⟨⟩ r' request' h hcode hthread
    rcases Table.update_eq_some h with ⟨-, h⟩ | ⟨-, h⟩
    · cases h
      exact absurd rfl hthread
    · rcases Table.update_eq_some h with ⟨-, h⟩ | ⟨hne, h⟩
      · cases h
        exact absurd hcode (by decide)
      · rcases Table.update_eq_some h with ⟨heq, -⟩ | ⟨-, h⟩
        · exact absurd heq hne
        · cases h) rfl
  have hsend := hput'.next (a := Action.send 1) trivial rfl
  have hsend' := hsend.next (a := Action.send 0) trivial rfl
  have hhandle := hsend'.next (a := Action.handleMessage ⟨false, false⟩) trivial rfl
  have hanswer := hhandle.next (a := Action.answer 1 (.permissionsResult [0])) trivial rfl
  have hget := hanswer.next (a := Action.get 1) trivial rfl
  exact ⟨_, rfl, answersKept_of_codesApart hget, rfl, rfl⟩

/-- Two threads ask for the same permission at once. -/
def sameCode : List Action :=
  [.start, .call .requestPermission 201, .put 0, .send 0, .call .requestPermission 201, .put 1,
    .send 1]

theorem not_answersKept_sameCode : ∃ s : MainServiceConnection,
    machine.run initial sameCode = some s ∧
    s.requests 0 = some ⟨.requestPermission, 201, .waiting, .new, .posted⟩ ∧
    s.interacting 201 = some 1 ∧ ¬ s.AnswersKept := by
  obtain ⟨s, hs, hrequest, hentry⟩ : ∃ s : MainServiceConnection,
      machine.run initial sameCode = some s ∧
      s.requests 0 = some ⟨.requestPermission, 201, .waiting, .new, .posted⟩ ∧
      s.interacting 201 = some 1 :=
    ⟨_, rfl, rfl, rfl⟩
  refine ⟨s, hs, hrequest, hentry, fun h => ?_⟩
  have hregistered := h.registered 0 _ hrequest ⟨rfl, rfl⟩
  rw [show s.interacting _ = some 1 from hentry] at hregistered
  cases hregistered

end MainServiceConnection

end AlmondAndroid.Ui
