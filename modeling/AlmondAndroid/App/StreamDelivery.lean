import AlmondAndroid.App.Streams
import AlmondAndroid.Library.Table

/-!
# Streams lose nothing when their readable is made in time

A readable has been told what it would be told of the calls that were dispatched
for its stream. The Java side keeps the calls of a stream in step with its job, and
the JavaScript side keeps the table of readables in step with the calls.
-/

namespace AlmondAndroid.App

open Library

namespace Streams

/-! ## The side of Java -/

def advance (s : Streams) (i : Nat) (stream : Stream) (calls : List StreamCall) : Streams :=
  { s with
    streams := Function.update s.streams i (some stream)
    callQueue := { s.callQueue with sent := s.callQueue.sent ++ calls.map (SentCall.mk i) } }

structure Extends (stream next : Stream) (calls : List StreamCall) : Prop where
  token : next.token = stream.token
  returned : next.returned = stream.returned
  calls : next.calls = stream.calls ++ calls

theorem sentBy_advance_self (s : Streams) (i : Nat) (stream : Stream) (calls : List StreamCall) :
    (s.advance i stream calls).sentBy i = s.sentBy i ++ calls := by
  change callsOf i (s.callQueue.sent ++ calls.map (SentCall.mk i)) = _
  rw [callsOf_append, callsOf_map_self]
  rfl

theorem sentBy_advance_ne (s : Streams) {i j : Nat} (h : i ≠ j) (stream : Stream)
    (calls : List StreamCall) : (s.advance i stream calls).sentBy j = s.sentBy j := by
  change callsOf j (s.callQueue.sent ++ calls.map (SentCall.mk i)) = _
  rw [callsOf_append, callsOf_map_ne h, List.append_nil]
  rfl

theorem forward_eq (s : Streams) (i : Nat) (token : Token) (chunks : List (List UInt8))
    (returned : Bool) (result : ReadResult) :
    ∃ next calls, s.forward i ⟨token, .reading, chunks, returned⟩ result =
        s.advance i next calls ∧
      Extends ⟨token, .reading, chunks, returned⟩ next calls := by
  have hcalls : (⟨token, .reading, chunks, returned⟩ : Stream).calls =
      chunks.map (fun data => .onstreamdata token (encodeToString data)) :=
    List.append_nil _
  have hended : ∃ next calls,
      (s.sendEnd i ⟨token, .reading, chunks, returned⟩).setStream i
          ⟨token, .closing .ended, chunks, returned⟩ = s.advance i next calls ∧
        Extends ⟨token, .reading, chunks, returned⟩ next calls := by
    refine ⟨_, [.onstreamend token], rfl, rfl, rfl, ?_⟩
    rw [hcalls]
    rfl
  cases result with
  | read data =>
    rw [forward]
    split
    · refine ⟨_, [.onstreamdata token (encodeToString data)], rfl, rfl, rfl, ?_⟩
      rw [hcalls]
      change (chunks ++ [data]).map _ ++ [] = _
      rw [List.append_nil, List.map_append]
      rfl
    · exact hended
  | endOfStream => exact hended
  | ioException e =>
    refine ⟨_, [.onstreamerror token e], rfl, rfl, rfl, ?_⟩
    rw [hcalls]
    rfl

theorem close_eq (s : Streams) (i : Nat) (token : Token) (outcome : Outcome)
    (chunks : List (List UInt8)) (returned : Bool) (closeError : Option ErrorMessage) :
    ∃ next calls, s.close i ⟨token, .closing outcome, chunks, returned⟩ outcome closeError =
        s.advance i next calls ∧
      Extends ⟨token, .closing outcome, chunks, returned⟩ next calls := by
  cases closeError with
  | none =>
    refine ⟨⟨token, .finished outcome none, chunks, returned⟩, [], ?_, rfl, rfl, ?_⟩
    · rw [close, setStream, advance, List.map_nil, List.append_nil]
    · rw [List.append_nil]
      rfl
  | some e =>
    refine ⟨_, [.onstreamerror token e], rfl, rfl, rfl, ?_⟩
    change _ ++ [outcome.call token, .onstreamerror token e] = _ ++ [outcome.call token] ++ _
    rw [List.append_assoc]
    rfl

def sendToken (s : Streams) (i : Nat) (stream : Stream) : Streams :=
  { s.setStream i { stream with returned := true } with
    nativeQueue := s.nativeQueue.send ⟨i, stream.token⟩ }

def resolved (s : Streams) (completion : Completion) : Streams :=
  { s with nativeQueue := s.nativeQueue.receive completion }

def runContinuation (s : Streams) (completion : Completion) : Streams :=
  { s.createStream completion.stream completion.token with
    continued := s.continued ++ [completion] }

def taken (s : Streams) (sent : SentCall) : Streams :=
  { s with callQueue := s.callQueue.receive sent }

inductive Does (s : Streams) : Action → Streams → Prop
  | getStream : Does s .getStream s.getStream
  | readUrlThrows : Does s .readUrlThrows { s with counter := s.counter + 1 }
  | advance {a : Action} {i : Nat} {stream next : Stream} {calls : List StreamCall} :
      s.streams i = some stream → ¬ stream.IsFinished → Extends stream next calls →
      Does s a (s.advance i next calls)
  | returnToken {i : Nat} {stream : Stream} : s.streams i = some stream →
      stream.returned = false → Does s (.returnToken i) (s.sendToken i stream)
  | resolve {completion : Completion} : s.nativeQueue.next = some completion →
      Does s .resolve (s.resolved completion)
  | continuation {completion : Completion} :
      s.nativeQueue.received[s.continued.length]? = some completion →
      Does s .continuation (s.runContinuation completion)
  | dispatch {sent : SentCall} : s.callQueue.next = some sent →
      Does s .dispatch ((s.taken sent).receive sent.call)

theorem does_of_step {s t : Streams} {a : Action} (h : s.step a = some t) : Does s a t := by
  cases a with
  | getStream =>
    cases h
    exact .getStream
  | readUrlThrows =>
    cases h
    exact .readUrlThrows
  | read i result =>
    dsimp only [step] at h
    split at h
    · rename_i token chunks returned hstream
      split at h
      · cases h
        obtain ⟨next, calls, heq, hextends⟩ := forward_eq s i token chunks returned result
        rw [heq]
        exact .advance hstream (by rintro ⟨outcome, closeError, hjob⟩; cases hjob) hextends
      · cases h
    · cases h
  | close i closeError =>
    dsimp only [step] at h
    split at h
    · rename_i token outcome chunks returned hstream
      cases h
      obtain ⟨next, calls, heq, hextends⟩ :=
        close_eq s i token outcome chunks returned closeError
      rw [heq]
      exact .advance hstream (by rintro ⟨outcome, closeError, hjob⟩; cases hjob) hextends
    · cases h
  | returnToken i =>
    dsimp only [step] at h
    split at h
    · rename_i token job chunks hstream
      cases h
      exact .returnToken hstream rfl
    · cases h
  | resolve =>
    obtain ⟨completion, hnext, rfl⟩ := Option.map_eq_some_iff.mp h
    exact .resolve hnext
  | continuation =>
    obtain ⟨completion, hnext, rfl⟩ := Option.map_eq_some_iff.mp h
    exact .continuation hnext
  | dispatch =>
    obtain ⟨sent, hnext, rfl⟩ := Option.map_eq_some_iff.mp h
    exact .dispatch hnext

structure Sent (s : Streams) : Prop where
  calls : s.callQueue.received <+: s.callQueue.sent
  completions : s.nativeQueue.received <+: s.nativeQueue.sent
  continued : s.continued <+: s.nativeQueue.received
  fresh : ∀ i, s.created ≤ i → s.streams i = none
  sentBy : ∀ i stream, s.streams i = some stream → s.sentBy i = stream.calls
  notSentBy : ∀ i, s.streams i = none → s.sentBy i = []
  completion : ∀ completion ∈ s.nativeQueue.sent, ∃ stream,
    s.streams completion.stream = some stream ∧ stream.token = completion.token ∧
      stream.returned = true
  nodup : (s.nativeQueue.sent.map Completion.stream).Nodup
  returned : ∀ i stream, s.streams i = some stream → stream.returned = true →
    ∃ completion ∈ s.nativeQueue.sent, completion.stream = i

namespace Sent

theorem initial : Sent initial where
  calls := List.nil_prefix
  completions := List.nil_prefix
  continued := List.nil_prefix
  fresh _ _ := rfl
  sentBy i stream h := by cases h
  notSentBy _ _ := rfl
  completion completion h := by cases h
  nodup := List.nodup_nil
  returned i stream h := by cases h

theorem getStream {s : Streams} (hs : Sent s) : Sent s.getStream where
  calls := hs.calls
  completions := hs.completions
  continued := hs.continued
  fresh i hi := by
    have hlt : s.created < i := hi
    exact (Function.update_of_ne (Nat.ne_of_gt hlt) _ _).trans (hs.fresh i (Nat.le_of_lt hlt))
  sentBy i stream h := by
    rcases Table.update_eq_some h with ⟨hi, h⟩ | ⟨-, h⟩
    · cases h
      rw [hi]
      exact hs.notSentBy _ (hs.fresh _ (Nat.le_refl _))
    · exact hs.sentBy i stream h
  notSentBy i h := by
    rcases Table.update_eq_none h with ⟨-, h⟩ | ⟨-, h⟩
    · cases h
    · exact hs.notSentBy i h
  completion completion hmem := by
    obtain ⟨stream, hstream, hrest⟩ := hs.completion completion hmem
    refine ⟨stream, ?_, hrest⟩
    have hne : completion.stream ≠ s.created := by
      intro heq
      rw [heq, hs.fresh _ (Nat.le_refl _)] at hstream
      cases hstream
    exact (Function.update_of_ne hne _ _).trans hstream
  nodup := hs.nodup
  returned i stream h hreturned := by
    rcases Table.update_eq_some h with ⟨-, h⟩ | ⟨-, h⟩
    · cases h
      cases hreturned
    · exact hs.returned i stream h hreturned

theorem advance {s : Streams} (hs : Sent s) {i : Nat} {stream next : Stream}
    {calls : List StreamCall} (hstream : s.streams i = some stream)
    (hextends : Extends stream next calls) : Sent (s.advance i next calls) where
  calls := hs.calls.trans (List.prefix_append _ _)
  completions := hs.completions
  continued := hs.continued
  fresh j hj := by
    have hne : j ≠ i := by
      rintro rfl
      rw [hs.fresh j hj] at hstream
      cases hstream
    exact (Function.update_of_ne hne _ _).trans (hs.fresh j hj)
  sentBy j stream' h := by
    rcases Table.update_eq_some h with ⟨hj, h⟩ | ⟨hj, h⟩
    · cases h
      rw [hj, sentBy_advance_self, hs.sentBy i stream hstream, hextends.calls]
    · rw [sentBy_advance_ne s (Ne.symm hj), hs.sentBy j stream' h]
  notSentBy j h := by
    rcases Table.update_eq_none h with ⟨-, h⟩ | ⟨hj, h⟩
    · cases h
    · rw [sentBy_advance_ne s (Ne.symm hj), hs.notSentBy j h]
  completion completion hmem := by
    obtain ⟨stream', hstream', htoken, hreturned⟩ := hs.completion completion hmem
    by_cases hi : completion.stream = i
    · rw [hi, hstream] at hstream'
      cases hstream'
      refine ⟨next, ?_, hextends.token.trans htoken, hextends.returned.trans hreturned⟩
      rw [hi]
      exact Function.update_self ..
    · exact ⟨stream', (Function.update_of_ne hi _ _).trans hstream', htoken, hreturned⟩
  nodup := hs.nodup
  returned j stream' h hreturned := by
    rcases Table.update_eq_some h with ⟨hj, h⟩ | ⟨-, h⟩
    · cases h
      rw [hj]
      exact hs.returned i stream hstream (hextends.returned.symm.trans hreturned)
    · exact hs.returned j stream' h hreturned

theorem sendToken {s : Streams} (hs : Sent s) {i : Nat} {stream : Stream}
    (hstream : s.streams i = some stream) (hnot : stream.returned = false) :
    Sent (s.sendToken i stream) where
  calls := hs.calls
  completions := hs.completions.trans (List.prefix_append _ _)
  continued := hs.continued
  fresh j hj := by
    have hne : j ≠ i := by
      rintro rfl
      rw [hs.fresh j hj] at hstream
      cases hstream
    exact (Function.update_of_ne hne _ _).trans (hs.fresh j hj)
  sentBy j stream' h := by
    rcases Table.update_eq_some h with ⟨hj, h⟩ | ⟨-, h⟩
    · cases h
      rw [hj]
      exact hs.sentBy i stream hstream
    · exact hs.sentBy j stream' h
  notSentBy j h := by
    rcases Table.update_eq_none h with ⟨-, h⟩ | ⟨-, h⟩
    · cases h
    · exact hs.notSentBy j h
  completion completion hmem := by
    rcases List.mem_append.mp hmem with hmem | hmem
    · obtain ⟨stream', hstream', htoken, hreturned⟩ := hs.completion completion hmem
      have hne : completion.stream ≠ i := by
        intro heq
        rw [heq, hstream] at hstream'
        cases hstream'
        rw [hnot] at hreturned
        cases hreturned
      exact ⟨stream', (Function.update_of_ne hne _ _).trans hstream', htoken, hreturned⟩
    · rw [List.mem_singleton.mp hmem]
      exact ⟨_, Function.update_self .., rfl, rfl⟩
  nodup := by
    change ((s.nativeQueue.sent ++ [Completion.mk i stream.token]).map Completion.stream).Nodup
    rw [List.map_append]
    refine List.nodup_append.mpr ⟨hs.nodup, List.pairwise_singleton _ _, ?_⟩
    intro j hj k hk heq
    obtain ⟨completion, hmem, rfl⟩ := List.mem_map.mp hj
    have hk : k = i := List.mem_singleton.mp hk
    obtain ⟨stream', hstream', -, hreturned⟩ := hs.completion completion hmem
    rw [heq, hk, hstream] at hstream'
    cases hstream'
    rw [hnot] at hreturned
    cases hreturned
  returned j stream' h hreturned := by
    rcases Table.update_eq_some h with ⟨hj, h⟩ | ⟨-, h⟩
    · exact ⟨⟨i, stream.token⟩, List.mem_append_right _ (List.mem_singleton_self _), hj.symm⟩
    · obtain ⟨completion, hmem, hstream'⟩ := hs.returned j stream' h hreturned
      exact ⟨completion, List.mem_append_left _ hmem, hstream'⟩

theorem receive {s : Streams} (hs : Sent s) (call : StreamCall) : Sent (s.receive call) := by
  obtain ⟨registered, readables, heq⟩ : ∃ registered readables,
      s.receive call = { s with registered := registered, readables := readables } := by
    cases call with
    | onstreamdata token data =>
      rw [Streams.receive, onStreamData]
      split <;> exact ⟨_, _, rfl⟩
    | onstreamend token =>
      rw [Streams.receive, onStreamEnd]
      split <;> exact ⟨_, _, rfl⟩
    | onstreamerror token error =>
      rw [Streams.receive, onStreamError]
      split <;> exact ⟨_, _, rfl⟩
  rw [heq]
  exact ⟨hs.calls, hs.completions, hs.continued, hs.fresh, hs.sentBy, hs.notSentBy,
    hs.completion, hs.nodup, hs.returned⟩

theorem does {s t : Streams} {a : Action} (hs : Sent s) (h : Does s a t) : Sent t := by
  cases h with
  | getStream => exact hs.getStream
  | readUrlThrows =>
    exact ⟨hs.calls, hs.completions, hs.continued, hs.fresh, hs.sentBy, hs.notSentBy,
      hs.completion, hs.nodup, hs.returned⟩
  | advance hstream hjob hextends => exact hs.advance hstream hextends
  | returnToken hstream hnot => exact hs.sendToken hstream hnot
  | resolve hnext =>
    exact ⟨hs.calls, Channel.prefix_receive hs.completions hnext,
      hs.continued.trans (List.prefix_append _ _), hs.fresh, hs.sentBy, hs.notSentBy,
      hs.completion, hs.nodup, hs.returned⟩
  | continuation hnext =>
    have hcontinued := @Channel.prefix_receive _ (.mk s.nativeQueue.received s.continued)
      hs.continued _ hnext
    exact ⟨hs.calls, hs.completions, hcontinued, hs.fresh, hs.sentBy, hs.notSentBy,
      hs.completion, hs.nodup, hs.returned⟩
  | @dispatch sent hnext =>
    have htaken : Sent (s.taken sent) :=
      ⟨Channel.prefix_receive hs.calls hnext, hs.completions, hs.continued, hs.fresh, hs.sentBy,
        hs.notSentBy, hs.completion, hs.nodup, hs.returned⟩
    exact htaken.receive _

end Sent

/-! ## The side of JavaScript -/

structure Heard (s : Streams) : Prop where
  onTime : ∀ i, s.heardBy i ≠ [] → s.HasReadable i
  apart : ∀ i j token, i ≠ j → s.tokenOf i = some token → s.tokenOf j = some token →
    s.Done i ∨ s.Done j
  readables : ∀ i, s.readables i = heard (s.heardBy i)
  registered : ∀ token i, s.registered token = some i →
    s.tokenOf i = some token ∧ s.HasReadable i ∧ ¬ Closed (s.heardBy i)
  live : ∀ i token, s.tokenOf i = some token → s.HasReadable i → ¬ Closed (s.heardBy i) →
    s.registered token = some i

theorem Done.closed {s : Streams} {i : Nat} (hdone : s.Done i) (hs : Sent s) :
    Closed (s.heardBy i) := by
  obtain ⟨stream, hstream, hfinished⟩ := hdone.finished
  rw [hdone.heard, hs.sentBy i stream hstream]
  exact hfinished.closed

theorem tokenOf_update {s : Streams} {i : Nat} {stream next : Stream}
    (hstream : s.streams i = some stream) (htoken : next.token = stream.token) (j : Nat) :
    (Function.update s.streams i (some next) j).map Stream.token = s.tokenOf j := by
  rw [Function.update_apply]
  split
  · rename_i hj
    rw [tokenOf, hj, hstream, Option.map_some, Option.map_some, htoken]
  · rfl

namespace Heard

theorem initial : Heard initial where
  onTime i h := absurd rfl h
  apart i j token hne h := by cases h
  readables _ := rfl
  registered token i h := by cases h
  live i token h := by cases h

theorem of_eq {s t : Streams} (hs : Heard s) (hreceived : t.callQueue.received =
    s.callQueue.received) (hcontinued : t.continued = s.continued)
    (hregistered : t.registered = s.registered) (hreadables : t.readables = s.readables)
    (htoken : ∀ i, t.tokenOf i = s.tokenOf i) (hdone : ∀ i, s.Done i → t.Done i) : Heard t := by
  have hheard : ∀ i, t.heardBy i = s.heardBy i := by
    intro i
    rw [heardBy, hreceived]
    rfl
  have hreadable : ∀ i, t.HasReadable i ↔ s.HasReadable i := by
    intro i
    rw [HasReadable, hcontinued]
    rfl
  constructor
  · intro i h
    rw [hheard] at h
    exact (hreadable i).mpr (hs.onTime i h)
  · intro i j token hne hi hj
    rw [htoken] at hi hj
    exact (hs.apart i j token hne hi hj).imp (hdone i) (hdone j)
  · intro i
    rw [hreadables, hheard]
    exact hs.readables i
  · intro token i h
    rw [hregistered] at h
    rw [htoken, hreadable, hheard]
    exact hs.registered token i h
  · intro i token h hhas hnot
    rw [htoken] at h
    rw [hreadable] at hhas
    rw [hheard] at hnot
    rw [hregistered]
    exact hs.live i token h hhas hnot

theorem advance {s : Streams} (hs : Heard s) {i : Nat} {stream next : Stream}
    {calls : List StreamCall} (hstream : s.streams i = some stream) (hjob : ¬ stream.IsFinished)
    (hextends : Extends stream next calls) : Heard (s.advance i next calls) := by
  refine hs.of_eq rfl rfl rfl rfl (tokenOf_update hstream hextends.token) fun j hdone => ?_
  obtain ⟨stream', hstream', hfinished⟩ := hdone.finished
  have hne : i ≠ j := by
    rintro rfl
    rw [hstream] at hstream'
    cases hstream'
    exact hjob hfinished
  refine ⟨⟨stream', (Function.update_of_ne (Ne.symm hne) _ _).trans hstream', hfinished⟩,
    hdone.hasReadable, ?_⟩
  rw [sentBy_advance_ne s hne]
  exact hdone.heard

theorem sendToken {s : Streams} (hs : Heard s) {i : Nat} {stream : Stream}
    (hstream : s.streams i = some stream) : Heard (s.sendToken i stream) := by
  have htoken : ({ stream with returned := true } : Stream).token = stream.token := rfl
  refine hs.of_eq rfl rfl rfl rfl (tokenOf_update hstream htoken) fun j hdone => ?_
  refine ⟨?_, hdone.hasReadable, hdone.heard⟩
  obtain ⟨stream', hstream', hfinished⟩ := hdone.finished
  by_cases hj : j = i
  · rw [hj, hstream] at hstream'
    cases hstream'
    rw [hj]
    exact ⟨_, Function.update_self .., hfinished⟩
  · exact ⟨stream', (Function.update_of_ne hj _ _).trans hstream', hfinished⟩

theorem getStream {s : Streams} (hs : Heard s) (hsent : Sent s) (hguard : s.OnTime .getStream) :
    Heard s.getStream := by
  have hnone : s.streams s.created = none := hsent.fresh _ (Nat.le_refl _)
  have htokenSelf : s.getStream.tokenOf s.created = some (s.counter + 1) := by
    have hself : s.getStream.streams s.created = some ⟨s.counter + 1, .reading, [], false⟩ :=
      Function.update_self ..
    rw [tokenOf, hself]
    rfl
  have htokenNe : ∀ i, i ≠ s.created → s.getStream.tokenOf i = s.tokenOf i := by
    intro i hi
    have hne : s.getStream.streams i = s.streams i := Function.update_of_ne hi _ _
    rw [tokenOf, hne]
    rfl
  have hreadable : ∀ i, s.HasReadable i → i ≠ s.created := by
    rintro i ⟨completion, hmem, hi⟩ rfl
    obtain ⟨stream, hstream, -⟩ :=
      hsent.completion completion (hsent.completions.subset (hsent.continued.subset hmem))
    rw [hi, hnone] at hstream
    cases hstream
  have hdone : ∀ i, s.Done i → s.getStream.Done i := by
    intro i hi
    obtain ⟨stream, hstream, hfinished⟩ := hi.finished
    have hne := hreadable i hi.hasReadable
    exact ⟨⟨stream, (Function.update_of_ne hne _ _).trans hstream, hfinished⟩, hi.hasReadable,
      hi.heard⟩
  constructor
  · exact hs.onTime
  · intro i j token hne hi hj
    by_cases hic : i = s.created
    · rw [hic, htokenSelf] at hi
      cases hi
      have hjc : j ≠ s.created := fun h => hne (hic.trans h.symm)
      rw [htokenNe j hjc] at hj
      exact .inr (hdone j (hguard j hj))
    · rw [htokenNe i hic] at hi
      by_cases hjc : j = s.created
      · rw [hjc, htokenSelf] at hj
        cases hj
        exact .inl (hdone i (hguard i hi))
      · rw [htokenNe j hjc] at hj
        exact (hs.apart i j token hne hi hj).imp (hdone i) (hdone j)
  · exact hs.readables
  · intro token i h
    obtain ⟨htoken, hhas, hnot⟩ := hs.registered token i h
    exact ⟨(htokenNe i (hreadable i hhas)).trans htoken, hhas, hnot⟩
  · intro i token h hhas hnot
    rw [htokenNe i (hreadable i hhas)] at h
    exact hs.live i token h hhas hnot

theorem not_hasReadable_of_next {s : Streams} (hsent : Sent s) {completion : Completion}
    (hnext : s.nativeQueue.received[s.continued.length]? = some completion) :
    ¬ s.HasReadable completion.stream := by
  rintro ⟨earlier, hmem, heq⟩
  obtain ⟨rest, hrest⟩ := @Channel.sent_of_next _ (.mk s.nativeQueue.received s.continued)
    hsent.continued _ hnext
  have hnodup : (s.nativeQueue.received.map Completion.stream).Nodup :=
    hsent.nodup.sublist (hsent.completions.sublist.map _)
  have hrest : s.nativeQueue.received = s.continued ++ completion :: rest := hrest
  rw [hrest, List.map_append] at hnodup
  refine (List.nodup_append.mp hnodup).2.2 _ (List.mem_map_of_mem hmem) completion.stream ?_ heq
  exact List.mem_cons_self

theorem hasReadable_runContinuation (s : Streams) (completion : Completion) (j : Nat) :
    (s.runContinuation completion).HasReadable j ↔ s.HasReadable j ∨ j = completion.stream := by
  constructor
  · rintro ⟨c, hmem, hj⟩
    rcases List.mem_append.mp hmem with hmem | hmem
    · exact .inl ⟨c, hmem, hj⟩
    · rw [List.mem_singleton.mp hmem] at hj
      exact .inr hj.symm
  · rintro (⟨c, hmem, hj⟩ | rfl)
    · exact ⟨c, List.mem_append_left _ hmem, hj⟩
    · exact ⟨_, List.mem_append_right _ (List.mem_singleton_self _), rfl⟩

theorem runContinuation {s : Streams} (hs : Heard s) (hsent : Sent s) {completion : Completion}
    (hnext : s.nativeQueue.received[s.continued.length]? = some completion) :
    Heard (s.runContinuation completion) := by
  have hnot := not_hasReadable_of_next hsent hnext
  obtain ⟨i, token⟩ := completion
  have hreceived : ⟨i, token⟩ ∈ s.nativeQueue.received := List.mem_of_getElem? hnext
  obtain ⟨stream, hstream, htoken, -⟩ := hsent.completion _ (hsent.completions.subset hreceived)
  have htoken : s.tokenOf i = some token := by
    rw [tokenOf, hstream, Option.map_some, htoken]
  have hnothing : s.heardBy i = [] := by
    by_contra h
    exact hnot (hs.onTime i h)
  have hreadable := hasReadable_runContinuation s ⟨i, token⟩
  have hdone : ∀ j, s.Done j → (s.runContinuation ⟨i, token⟩).Done j :=
    fun j hj => ⟨hj.finished, (hreadable j).mpr (.inl hj.hasReadable), hj.heard⟩
  -- another stream with the token has been told everything, so it is not registered any more
  have hother : ∀ j, s.tokenOf j = some token → s.HasReadable j → Closed (s.heardBy j) := by
    intro j hj hhas
    have hne : i ≠ j := by
      rintro rfl
      exact hnot hhas
    rcases hs.apart i j token hne htoken hj with hdone | hdone
    · exact absurd hdone.hasReadable hnot
    · exact hdone.closed hsent
  constructor
  · intro j h
    exact (hreadable j).mpr (.inl (hs.onTime j h))
  · intro j k token' hne hj hk
    exact (hs.apart j k token' hne hj hk).imp (hdone j) (hdone k)
  · intro j
    change Function.update s.readables i [] j = heard (s.heardBy j)
    rw [Function.update_apply]
    split
    · rename_i hj
      rw [hj, hnothing]
      rfl
    · exact hs.readables j
  · intro token' j h
    rcases Table.update_eq_some h with ⟨htoken', h⟩ | ⟨-, h⟩
    · cases h
      refine ⟨htoken'.symm ▸ htoken, (hreadable i).mpr (.inr rfl), ?_⟩
      change ¬ Closed (s.heardBy i)
      rw [hnothing]
      exact not_closed_nil
    · obtain ⟨hj, hhas, hopen⟩ := hs.registered token' j h
      exact ⟨hj, (hreadable j).mpr (.inl hhas), hopen⟩
  · intro j token' hj hhas hopen
    change Function.update s.registered token (some i) token' = some j
    rcases (hreadable j).mp hhas with hbefore | rfl
    · have hne : token' ≠ token := by
        rintro rfl
        exact hopen (hother j hj hbefore)
      rw [Function.update_of_ne hne]
      exact hs.live j token' hj hbefore hopen
    · have heq : token' = token := by
        rw [show s.tokenOf j = some token' from hj] at htoken
        exact Option.some.inj htoken
      rw [heq]
      exact Function.update_self ..

def hear (s : Streams) (i : Nat) (call : StreamCall) : Streams :=
  match call with
  | .onstreamdata _ _ => s.emit i call.effect
  | .onstreamend token => (s.delete token).emit i call.effect
  | .onstreamerror token _ => (s.delete token).emit i call.effect

theorem receive_of_registered {s : Streams} {i : Nat} {call : StreamCall}
    (h : s.registered call.token = some i) : s.receive call = hear s i call := by
  cases call with
  | onstreamdata token data =>
    have h : s.registered token = some i := h
    rw [Streams.receive, onStreamData, h]
    rfl
  | onstreamend token =>
    have h : s.registered token = some i := h
    rw [Streams.receive, onStreamEnd, h]
    rfl
  | onstreamerror token error =>
    have h : s.registered token = some i := h
    rw [Streams.receive, onStreamError, h]
    rfl

theorem receive_of_not_registered {s : Streams} {call : StreamCall}
    (h : s.registered call.token = none) : s.receive call = s := by
  cases call with
  | onstreamdata token data =>
    have h : s.registered token = none := h
    rw [Streams.receive, onStreamData, h]
  | onstreamend token =>
    have h : s.registered token = none := h
    rw [Streams.receive, onStreamEnd, h]
  | onstreamerror token error =>
    have h : s.registered token = none := h
    rw [Streams.receive, onStreamError, h]

theorem hear_eq (s : Streams) (i : Nat) (call : StreamCall) : ∃ registered,
    hear s i call = { s with
      registered := registered
      readables := Function.update s.readables i (s.readables i ++ [call.effect]) } ∧
    ∀ token j, registered token = some j ↔
      s.registered token = some j ∧ ¬ (call.IsTerminal ∧ token = call.token) := by
  have hdata : ∀ token j, ¬ call.IsTerminal → (s.registered token = some j ↔
      s.registered token = some j ∧ ¬ (call.IsTerminal ∧ token = call.token)) :=
    fun token j hnot => ⟨fun h => ⟨h, fun hterminal => hnot hterminal.1⟩, fun h => h.1⟩
  have hlast : ∀ token j, call.IsTerminal →
      (Function.update s.registered call.token none token = some j ↔
        s.registered token = some j ∧ ¬ (call.IsTerminal ∧ token = call.token)) := by
    intro token j hterminal
    rw [Table.erase_eq_some_iff]
    exact and_congr_right fun _ => ⟨fun hne h => hne h.2, fun h heq => h ⟨hterminal, heq⟩⟩
  cases call with
  | onstreamdata token data => exact ⟨_, rfl, fun token j => hdata token j id⟩
  | onstreamend token => exact ⟨_, rfl, fun token j => hlast token j trivial⟩
  | onstreamerror token error => exact ⟨_, rfl, fun token j => hlast token j trivial⟩

theorem heardBy_taken_self (s : Streams) (i : Nat) (call : StreamCall) :
    (s.taken ⟨i, call⟩).heardBy i = s.heardBy i ++ [call] := by
  change callsOf i (s.callQueue.received ++ [⟨i, call⟩]) = _
  rw [callsOf_append, callsOf_self]
  rfl

theorem heardBy_taken_ne (s : Streams) {i j : Nat} (h : i ≠ j) (call : StreamCall) :
    (s.taken ⟨i, call⟩).heardBy j = s.heardBy j := by
  change callsOf j (s.callQueue.received ++ [⟨i, call⟩]) = _
  rw [callsOf_append, callsOf_ne h]
  exact List.append_nil _

theorem sentBy_of_next {s : Streams} (hsent : Sent s) {i : Nat} {call : StreamCall}
    (hnext : s.callQueue.next = some ⟨i, call⟩) :
    ∃ rest, s.sentBy i = s.heardBy i ++ call :: rest := by
  obtain ⟨rest, hrest⟩ := Channel.sent_of_next hsent.calls hnext
  refine ⟨callsOf i rest, ?_⟩
  rw [sentBy, hrest, callsOf_append, callsOf_self]
  rfl

theorem not_done_of_next {s : Streams} (hsent : Sent s) {i : Nat} {call : StreamCall}
    (hnext : s.callQueue.next = some ⟨i, call⟩) : ¬ s.Done i := by
  intro hdone
  obtain ⟨rest, hrest⟩ := sentBy_of_next hsent hnext
  have hlength := congrArg List.length (hdone.heard.trans hrest)
  simp at hlength

theorem tokenOf_of_next {s : Streams} (hsent : Sent s) {i : Nat} {call : StreamCall}
    (hnext : s.callQueue.next = some ⟨i, call⟩) : s.tokenOf i = some call.token := by
  obtain ⟨rest, hrest⟩ := sentBy_of_next hsent hnext
  cases hstream : s.streams i with
  | none =>
    rw [hsent.notSentBy i hstream] at hrest
    simp at hrest
  | some stream =>
    rw [hsent.sentBy i stream hstream] at hrest
    have hmem : call ∈ stream.calls := by
      rw [hrest]
      simp
    rw [tokenOf, hstream, Option.map_some, Stream.token_of_mem_calls hmem]

theorem eq_of_open {s : Streams} (hs : Heard s) (hsent : Sent s) {i j : Nat} {token : Token}
    (hi : s.tokenOf i = some token) (hnot : ¬ s.Done i) (hj : s.tokenOf j = some token)
    (hopen : ¬ Closed (s.heardBy j)) : i = j := by
  by_contra hne
  rcases hs.apart i j token hne hi hj with hdone | hdone
  · exact hnot hdone
  · exact hopen (hdone.closed hsent)

section Dispatch

variable {s : Streams} (hs : Heard s) (hsent : Sent s) {i : Nat} {call : StreamCall}
  (hnext : s.callQueue.next = some ⟨i, call⟩) (hhas : s.HasReadable i)

include hsent hnext in
theorem done_taken {j : Nat} (hj : s.Done j) : (s.taken ⟨i, call⟩).Done j := by
  have hne : i ≠ j := by
    rintro rfl
    exact not_done_of_next hsent hnext hj
  exact ⟨hj.finished, hj.hasReadable, (heardBy_taken_ne s hne call).trans hj.heard⟩

include hs hhas in
theorem onTime_taken {j : Nat} (h : (s.taken ⟨i, call⟩).heardBy j ≠ []) : s.HasReadable j := by
  by_cases hne : i = j
  · exact hne ▸ hhas
  · rw [heardBy_taken_ne s hne] at h
    exact hs.onTime j h

include hs hsent hnext in
theorem apart_taken {j k : Nat} {token : Token} (hne : j ≠ k) (hj : s.tokenOf j = some token)
    (hk : s.tokenOf k = some token) :
    (s.taken ⟨i, call⟩).Done j ∨ (s.taken ⟨i, call⟩).Done k :=
  (hs.apart j k token hne hj hk).imp (done_taken hsent hnext) (done_taken hsent hnext)

include hs hsent hnext hhas

theorem dispatch_of_closed (hclosed : Closed (s.heardBy i)) :
    Heard ((s.taken ⟨i, call⟩).receive call) := by
  have hself := heardBy_taken_self s i call
  have hnone : s.registered call.token = none := by
    cases h : s.registered call.token with
    | none => rfl
    | some j =>
      obtain ⟨hj, -, hopen⟩ := hs.registered _ j h
      have heq : i = j := eq_of_open hs hsent (tokenOf_of_next hsent hnext)
        (not_done_of_next hsent hnext) hj hopen
      exact absurd (heq ▸ hclosed) hopen
  rw [receive_of_not_registered (s := s.taken ⟨i, call⟩) hnone]
  refine ⟨fun j => onTime_taken hs hhas, fun j k token => apart_taken hs hsent hnext,
    fun j => ?_, fun token j h => ?_, fun j token hj hhas hopen => ?_⟩
  · by_cases hne : i = j
    · subst hne
      rw [hself, heard_append_of_closed hclosed]
      exact hs.readables i
    · rw [heardBy_taken_ne s hne]
      exact hs.readables j
  · obtain ⟨hj, hhas, hopen⟩ := hs.registered token j h
    have hne : i ≠ j := by
      rintro rfl
      exact hopen hclosed
    rw [heardBy_taken_ne s hne]
    exact ⟨hj, hhas, hopen⟩
  · have hne : i ≠ j := by
      rintro rfl
      rw [hself, closed_append] at hopen
      exact hopen (.inl hclosed)
    rw [heardBy_taken_ne s hne] at hopen
    exact hs.live j token hj hhas hopen

theorem dispatch_of_open (hopen : ¬ Closed (s.heardBy i)) :
    Heard ((s.taken ⟨i, call⟩).receive call) := by
  have htoken := tokenOf_of_next hsent hnext
  have hself := heardBy_taken_self s i call
  have hregistered : s.registered call.token = some i := hs.live i _ htoken hhas hopen
  rw [receive_of_registered (s := s.taken ⟨i, call⟩) hregistered]
  obtain ⟨registered, heq, htable⟩ := hear_eq (s.taken ⟨i, call⟩) i call
  rw [heq]
  refine ⟨fun j => onTime_taken hs hhas, fun j k token hne hj hk => ?_, fun j => ?_,
    fun token j h => ?_, fun j token hj hhas hopen' => ?_⟩
  · exact (apart_taken hs hsent hnext hne hj hk).imp
      (fun h => ⟨h.finished, h.hasReadable, h.heard⟩)
      fun h => ⟨h.finished, h.hasReadable, h.heard⟩
  · change Function.update s.readables i (s.readables i ++ [call.effect]) j =
      heard ((s.taken ⟨i, call⟩).heardBy j)
    by_cases hne : i = j
    · subst hne
      rw [hself, heard_append_of_not_closed hopen, heard_singleton, ← hs.readables i]
      exact Function.update_self ..
    · rw [heardBy_taken_ne s hne, Function.update_of_ne (Ne.symm hne)]
      exact hs.readables j
  · change s.tokenOf j = some token ∧ s.HasReadable j ∧ ¬ Closed ((s.taken ⟨i, call⟩).heardBy j)
    obtain ⟨h, hlast⟩ := (htable token j).mp h
    obtain ⟨hj, hhas, hopen'⟩ := hs.registered token j h
    refine ⟨hj, hhas, ?_⟩
    by_cases hne : i = j
    · subst hne
      rw [hself, closed_append]
      rintro (hclosed | hterminal)
      · exact hopen hclosed
      · exact hlast ⟨hterminal, Option.some.inj (hj.symm.trans htoken)⟩
    · rw [heardBy_taken_ne s hne]
      exact hopen'
  · have hj : s.tokenOf j = some token := hj
    have hopen' : ¬ Closed ((s.taken ⟨i, call⟩).heardBy j) := hopen'
    apply (htable token j).mpr
    by_cases hne : i = j
    · subst hne
      rw [hself, closed_append] at hopen'
      exact ⟨hs.live i token hj hhas hopen, fun h => hopen' (.inr h.1)⟩
    · rw [heardBy_taken_ne s hne] at hopen'
      refine ⟨hs.live j token hj hhas hopen', fun h => hne ?_⟩
      rw [h.2] at hj
      exact eq_of_open hs hsent htoken (not_done_of_next hsent hnext) hj hopen'

theorem dispatch : Heard ((s.taken ⟨i, call⟩).receive call) := by
  by_cases hclosed : Closed (s.heardBy i)
  · exact hs.dispatch_of_closed hsent hnext hhas hclosed
  · exact hs.dispatch_of_open hsent hnext hhas hclosed

end Dispatch

theorem does {s t : Streams} {a : Action} (hs : Heard s) (hsent : Sent s) (hguard : s.OnTime a)
    (h : Does s a t) : Heard t := by
  cases h with
  | getStream => exact hs.getStream hsent hguard
  | readUrlThrows =>
    exact hs.of_eq rfl rfl rfl rfl (fun _ => rfl)
      fun i hi => ⟨hi.finished, hi.hasReadable, hi.heard⟩
  | advance hstream hjob hextends => exact hs.advance hstream hjob hextends
  | returnToken hstream hnot => exact hs.sendToken hstream
  | resolve hnext =>
    exact hs.of_eq rfl rfl rfl rfl (fun _ => rfl)
      fun i hi => ⟨hi.finished, hi.hasReadable, hi.heard⟩
  | continuation hnext => exact hs.runContinuation hsent hnext
  | dispatch hnext => exact hs.dispatch hsent hnext (hguard _ hnext)

end Heard

theorem sent_and_heard {s : Streams} (h : machine.ReachableVia OnTime s) : Sent s ∧ Heard s := by
  apply h.invariant fun s => Sent s ∧ Heard s
  · rintro s rfl
    exact ⟨.initial, .initial⟩
  · rintro s a t ⟨hsent, hheard⟩ hguard hstep
    have hdoes := does_of_step hstep
    exact ⟨hsent.does hdoes, hheard.does hsent hguard hdoes⟩

/-! ## When nothing is left to do -/

theorem Quiet.finished {s : Streams} (hs : s.Quiet) {i : Nat} {stream : Stream}
    (hstream : s.streams i = some stream) : stream.IsFinished := by
  obtain ⟨token, job, chunks, returned⟩ := stream
  cases job with
  | reading =>
    have hstep := hs (.read i .endOfStream) trivial trivial
    rw [step, hstream] at hstep
    cases hstep
  | closing outcome =>
    have hstep := hs (.close i none) trivial trivial
    rw [step, hstream] at hstep
    cases hstep
  | finished outcome closeError => exact ⟨outcome, closeError, rfl⟩

theorem Quiet.returned {s : Streams} (hs : s.Quiet) {i : Nat} {stream : Stream}
    (hstream : s.streams i = some stream) : stream.returned = true := by
  obtain ⟨token, job, chunks, returned⟩ := stream
  cases returned with
  | true => rfl
  | false =>
    have hstep := hs (.returnToken i) trivial trivial
    rw [step, hstream] at hstep
    cases hstep

theorem Quiet.hasReadable {s : Streams} (hs : s.Quiet) (hsent : Sent s) {i : Nat}
    {stream : Stream} (hstream : s.streams i = some stream) : s.HasReadable i := by
  obtain ⟨completion, hmem, hi⟩ := hsent.returned i stream hstream (hs.returned hstream)
  have hresolved : s.nativeQueue.next = none :=
    Option.map_eq_none_iff.mp (hs .resolve trivial trivial)
  have hcontinued : s.nativeQueue.received[s.continued.length]? = none :=
    Option.map_eq_none_iff.mp (hs .continuation trivial trivial)
  have hall : s.continued = s.nativeQueue.received :=
    @Channel.received_of_next _ (.mk s.nativeQueue.received s.continued) hsent.continued hcontinued
  refine ⟨completion, ?_, hi⟩
  rw [hall, Channel.received_of_next hsent.completions hresolved]
  exact hmem

theorem Quiet.heardBy {s : Streams} (hs : s.Quiet) (hsent : Sent s) (i : Nat) :
    s.heardBy i = s.sentBy i := by
  have hnext : s.callQueue.next = none := by
    cases hnext : s.callQueue.next with
    | none => rfl
    | some sent =>
      have honTime : s.OnTime .dispatch := by
        intro sent' hsent'
        have htoken := Heard.tokenOf_of_next hsent hsent'
        obtain ⟨stream, hstream, -⟩ := Option.map_eq_some_iff.mp htoken
        exact hs.hasReadable hsent hstream
      have hstep := Option.map_eq_none_iff.mp (hs .dispatch trivial honTime)
      rw [hnext] at hstep
      cases hstep
  rw [Streams.heardBy, Channel.received_of_next hsent.calls hnext]
  rfl

/-- In every run that respects `OnTime`, no byte is lost. -/
theorem lossless_of_onTime {s : Streams} (h : machine.ReachableVia OnTime s) : s.Lossless := by
  obtain ⟨hsent, hheard⟩ := sent_and_heard h
  intro i stream hstream
  have hcalls := hsent.sentBy i stream hstream
  constructor
  · rw [hheard.readables i, ← stream.heard_calls, ← hcalls]
    exact heard_prefix_mono (callsOf_prefix_mono hsent.calls)
  · intro hquiet
    obtain ⟨outcome, closeError, hjob⟩ := hquiet.finished hstream
    refine ⟨hquiet.hasReadable hsent hstream, outcome, closeError, hjob, ?_⟩
    rw [hheard.readables i, hquiet.heardBy hsent i, hcalls, stream.heard_calls, Stream.expected,
      hjob]
    rfl

/-- One chunk and then the end; the continuation runs before either is dispatched. -/
def afterContinuation : List Action :=
  [.getStream, .read 0 (.read [104, 105]), .returnToken 0, .resolve, .continuation, .dispatch,
    .read 0 .endOfStream, .close 0 none, .dispatch]

theorem lossless_of_onTime_oneChunk : ∃ s : Streams,
    machine.run initial afterContinuation = some s ∧ s.Lossless ∧
    s.readables 0 = [.push [104, 105], .pushNull] := by
  have hinit : machine.ReachableVia OnTime initial := .start rfl
  have hcreated := hinit.next (a := Action.getStream) (fun i h => by cases h) rfl
  have hread := hcreated.next (a := Action.read 0 (.read [104, 105])) trivial rfl
  have hreturned := hread.next (a := Action.returnToken 0) trivial rfl
  have hresolved := hreturned.next (a := Action.resolve) trivial rfl
  have hcontinued := hresolved.next (a := Action.continuation) trivial rfl
  have hdata := hcontinued.next (a := Action.dispatch)
    (fun sent h => ⟨⟨0, 1⟩, List.mem_singleton_self _, by cases h; rfl⟩) rfl
  have hread' := hdata.next (a := Action.read 0 .endOfStream) trivial rfl
  have hclosed := hread'.next (a := Action.close 0 none) trivial rfl
  have hend := hclosed.next (a := Action.dispatch)
    (fun sent h => ⟨⟨0, 1⟩, List.mem_singleton_self _, by cases h; rfl⟩) rfl
  exact ⟨_, rfl, lossless_of_onTime hend, rfl⟩

/-- The pool thread and the queue of calls are faster than the queue of completions. -/
def beforeContinuation : List Action :=
  [.getStream, .read 0 (.read [104, 105]), .dispatch, .returnToken 0, .resolve, .continuation,
    .read 0 .endOfStream, .close 0 none, .dispatch]

theorem not_lossless_beforeContinuation : ∃ s : Streams,
    machine.run initial beforeContinuation = some s ∧
    s.streams 0 = some ⟨1, .finished .ended none, [[104, 105]], true⟩ ∧
    s.readables 0 = [.pushNull] ∧ ¬ s.Lossless := by
  obtain ⟨s, hs, hstream, hreadable⟩ : ∃ s : Streams,
      machine.run initial beforeContinuation = some s ∧
      s.streams 0 = some ⟨1, .finished .ended none, [[104, 105]], true⟩ ∧
      s.readables 0 = [.pushNull] :=
    ⟨_, rfl, rfl, rfl⟩
  refine ⟨s, hs, hstream, hreadable, fun h => ?_⟩
  obtain ⟨rest, hrest⟩ := (h 0 _ hstream).1
  rw [hreadable] at hrest
  cases hrest

end Streams

end AlmondAndroid.App
