import AlmondAndroid.Library.Machine
import AlmondAndroid.Library.PromiseChain
import AlmondAndroid.App.Images
import AlmondAndroid.App.Streams

/-!
# Images of `graphics.js`

An object of the class `Image` holds the promise of a token and hands out further
promises. `resizeFit` replaces the promise that is held, so that the operations reach
Java in the order of their calls. Those that need the pixels for the last time remove
the token, and `getSize` takes every call of it for such a one.
-/

namespace AlmondAndroid.App

open Library Bridge

inductive ImageCall
  | resizeFit (width height : Int32)
  | getSize
  | toBuffer (format : Option U16String)
  | stream (format : Option U16String)
  deriving DecidableEq

namespace ImageCall

def resizes : ImageCall → Bool
  | resizeFit _ _ => true
  | _ => false

def consumes : ImageCall → Bool
  | toBuffer _ => true
  | stream _ => true
  | _ => false

end ImageCall

/-- A stream is given by what its task in the pool writes to the pipe. -/
inductive Answer
  | size (width height : Int32)
  | buffer (data : List UInt8)
  | stream (compressed : Option (List UInt8))
  deriving DecidableEq

inductive Stage
  | submitted
  | found (object : Nat)
  | finished (result : Except ImageError Unit)

/-- A call of the Java function `resizeFit`, for the call of this number. -/
structure ResizeTask where
  call : Nat
  token : Token
  width : Int32
  height : Int32
  stage : Stage

/-- `others` are the tokens of other images, `objects` the number of Java objects so far, and
`image` is the token and the object of the image in question. `performed` are the calls that
have reached the Java object, and `removed` counts how often the token left the map. -/
structure ImageHandle (G : Graphics) where
  counter : Token
  others : List Token
  images : Token → Option Nat
  bitmaps : Nat → Option G.Bitmap
  objects : Nat
  image : Option (Token × Nat)
  chain : PromiseChain ImageCall (Except ImageError Token)
  tasks : List ResizeTask
  results : Nat → Option (Except ImageError Answer)
  performed : List Nat
  removed : Nat

namespace ImageHandle

variable {G : Graphics}

inductive Action (G : Graphics)
  | create
  | created
  | call (c : ImageCall)
  | microtask
  | lookup (j : Nat)
  | perform (j : Nat)
  | resized (j : Nat)
  | createOther (bitmap : Option G.Bitmap)
  | removeOther (token : Token)
  | resizeOther (token : Token) (bitmap : G.Bitmap)

def initial (G : Graphics) : ImageHandle G where
  counter := 0
  others := []
  images _ := none
  bitmaps _ := none
  objects := 0
  image := none
  chain := .initial
  tasks := []
  results _ := none
  performed := []
  removed := 0

/-! ## `ImageAPI` -/

/-- `counter.addAndGet(1)` and `images.put`. -/
def put (s : ImageHandle G) (bitmap : Option G.Bitmap) : ImageHandle G :=
  { s with
    counter := s.counter + 1
    images := Function.update s.images (s.counter + 1) (some s.objects)
    bitmaps := Function.update s.bitmaps s.objects bitmap
    objects := s.objects + 1 }

def createImage (s : ImageHandle G) (bitmap : Option G.Bitmap) : ImageHandle G :=
  { s.put bitmap with image := some (s.counter + 1, s.objects) }

def createOther (s : ImageHandle G) (bitmap : Option G.Bitmap) : ImageHandle G :=
  { s.put bitmap with others := (s.counter + 1) :: s.others }

def find (s : ImageHandle G) (token : Token) : Except ImageError Nat :=
  match s.images token with
  | none => .error .invalidImageToken
  | some object => .ok object

def remove (s : ImageHandle G) (token : Token) : ImageHandle G :=
  { s with
    images := Function.update s.images token none
    removed :=
      if s.image.map Prod.fst = some token ∧ s.images token ≠ none then s.removed + 1
      else s.removed }

def setBitmap (s : ImageHandle G) (object : Nat) (bitmap : G.Bitmap) : ImageHandle G :=
  { s with bitmaps := Function.update s.bitmaps object (some bitmap) }

/-! ## `graphics.js` -/

def formatOf : Option U16String → U16String
  | none => u16 "png"
  | some [] => u16 "png"
  | some (unit :: units) => unit :: units

def sizeOf (bitmap : Option G.Bitmap) : Except ImageError Answer :=
  match getWidth bitmap, getHeight bitmap with
  | .ok width, .ok height => .ok (.size width height)
  | .error e, _ => .error e
  | .ok _, .error e => .error e

def setResult (s : ImageHandle G) (i : Nat) (result : Except ImageError Answer) : ImageHandle G :=
  { s with results := Function.update s.results i (some result) }

def reach (s : ImageHandle G) (i : Nat) : ImageHandle G :=
  { s with performed := s.performed ++ [i] }

def settle (s : ImageHandle G) (p : Nat) (value : Except ImageError Token) : ImageHandle G :=
  { s with chain := s.chain.settle p value }

/-- The image is disposed of unless its size could not be told. -/
def getSize (s : ImageHandle G) (i : Nat) (token : Token) : ImageHandle G :=
  match s.find token with
  | .error e => s.setResult i (.error e)
  | .ok object =>
      match sizeOf (s.bitmaps object) with
      | .error e => (s.reach i).setResult i (.error e)
      | .ok size => ((s.remove token).reach i).setResult i (.ok size)

def toBuffer (s : ImageHandle G) (i : Nat) (token : Token) (format : U16String) : ImageHandle G :=
  match s.find token with
  | .error e => s.setResult i (.error e)
  | .ok object =>
      ((s.remove token).reach i).setResult i ((compress (s.bitmaps object) format).map .buffer)

/-- The pool compresses the image later, and finds it as it is now. -/
def toStream (s : ImageHandle G) (i : Nat) (token : Token) (format : U16String) : ImageHandle G :=
  match s.find token with
  | .error e => s.setResult i (.error e)
  | .ok object =>
      ((s.remove token).reach i).setResult i
        (.ok (.stream (compress (s.bitmaps object) format).toOption))

def continuation (s : ImageHandle G) (i : Nat) (token : Token) : ImageCall → ImageHandle G
  | .resizeFit width height =>
      { s with tasks := s.tasks ++ [⟨i, token, width, height, .submitted⟩] }
  | .getSize => s.getSize i token
  | .toBuffer format => s.toBuffer i token (formatOf format)
  | .stream format => s.toStream i token (formatOf format)

/-- Without a second function the promise that `then` makes is rejected as well. -/
def reject (s : ImageHandle G) (i : Nat) (e : ImageError) : ImageCall → ImageHandle G
  | .resizeFit _ _ => s.settle (i + 1) (.error e)
  | _ => s.setResult i (.error e)

def react (s : ImageHandle G) (i : Nat) (c : ImageCall) :
    Except ImageError Token → ImageHandle G
  | .ok token => s.continuation i token c
  | .error e => s.reject i e c

/-! ## The machine -/

def setStage (s : ImageHandle G) (j : Nat) (task : ResizeTask) (stage : Stage) : ImageHandle G :=
  { s with tasks := s.tasks.set j { task with stage := stage } }

def lookup (s : ImageHandle G) (j : Nat) (task : ResizeTask) : ImageHandle G :=
  match s.find task.token with
  | .error e => s.setStage j task (.finished (.error e))
  | .ok object => s.setStage j task (.found object)

def perform (s : ImageHandle G) (j : Nat) (task : ResizeTask) (object : Nat) : ImageHandle G :=
  match resizeFit (s.bitmaps object) task.width task.height with
  | .error e => (s.reach task.call).setStage j task (.finished (.error e))
  | .ok bitmap => ((s.setBitmap object bitmap).reach task.call).setStage j task (.finished (.ok ()))

def resized (s : ImageHandle G) (j : Nat) (task : ResizeTask) (result : Except ImageError Unit) :
    ImageHandle G :=
  { s with tasks := s.tasks.eraseIdx j }.settle (task.call + 1) (result.map fun _ => task.token)

/-- `original` is what the image is decoded to. -/
def step (original : Option G.Bitmap) (s : ImageHandle G) : Action G → Option (ImageHandle G)
  | .create => if s.image = none then some (s.createImage original) else none
  | .created =>
      match s.image, s.chain.settled 0 with
      | some (token, _), none => some (s.settle 0 (.ok token))
      | _, _ => none
  | .call c =>
      if s.chain.calls.any ImageCall.consumes then none
      else some { s with chain := s.chain.call ImageCall.resizes c }
  | .microtask =>
      match s.chain.jobs with
      | [] => none
      | job :: jobs => (s.chain.calls[job.call]?).map fun c =>
          { s with chain := { s.chain with jobs := jobs } }.react job.call c job.argument
  | .lookup j =>
      match s.tasks[j]? with
      | some ⟨call, token, width, height, .submitted⟩ =>
          some (s.lookup j ⟨call, token, width, height, .submitted⟩)
      | _ => none
  | .perform j =>
      match s.tasks[j]? with
      | some ⟨call, token, width, height, .found object⟩ =>
          some (s.perform j ⟨call, token, width, height, .found object⟩ object)
      | _ => none
  | .resized j =>
      match s.tasks[j]? with
      | some ⟨call, token, width, height, .finished result⟩ =>
          some (s.resized j ⟨call, token, width, height, .finished result⟩ result)
      | _ => none
  | .createOther bitmap => some (s.createOther bitmap)
  | .removeOther token => if token ∈ s.others then some (s.remove token) else none
  | .resizeOther token bitmap =>
      match s.images token with
      | some object => if token ∈ s.others then some (s.setBitmap object bitmap) else none
      | none => none

def machine (original : Option G.Bitmap) : Machine (ImageHandle G) (Action G) where
  Init s := s = initial G
  step := step original

/-! ## What the calls have to do -/

def resizedBy (bitmap : Option G.Bitmap) : ImageCall → Option G.Bitmap
  | .resizeFit width height =>
      match resizeFit bitmap width height with
      | .error _ => bitmap
      | .ok scaled => some scaled
  | _ => bitmap

def bitmapAfter (original : Option G.Bitmap) (calls : List ImageCall) : Option G.Bitmap :=
  calls.foldl resizedBy original

def answer (bitmap : Option G.Bitmap) : ImageCall → Option (Except ImageError Answer)
  | .resizeFit _ _ => none
  | .getSize => some (sizeOf bitmap)
  | .toBuffer format => some ((compress bitmap (formatOf format)).map .buffer)
  | .stream format => some (.ok (.stream (compress bitmap (formatOf format)).toOption))

/-- The calls reach the Java image in their order, none of them finds the token gone, each is
answered as if all those before it had been waited for, and the image is consumed once. -/
structure Valid (original : Option G.Bitmap) (s : ImageHandle G) : Prop where
  order : s.performed <+: List.range s.chain.calls.length
  found : (∀ i e, s.results i = some (.error e) → e.message ≠ some (u16 "Invalid image token")) ∧
    ∀ p e, s.chain.settled p = some (.error e) → e.message ≠ some (u16 "Invalid image token")
  answers : ∀ i result, s.results i = some result → ∃ c, s.chain.calls[i]? = some c ∧
    answer (bitmapAfter original (s.chain.calls.take i)) c = some result
  at_most_once : s.removed ≤ 1
  consumed : ∀ i c, s.chain.calls[i]? = some c → c.consumes → s.results i ≠ none → s.removed = 1

/-- No call follows one of `getSize`, no resize throws in Java, and no other image gets the
same token. -/
def Undisturbed (s : ImageHandle G) : Action G → Prop
  | .create => s.counter + 1 ∉ s.others
  | .call _ => .getSize ∉ s.chain.calls
  | .perform j => ∀ task object, s.tasks[j]? = some task → task.stage = .found object →
      ∃ bitmap, resizeFit (s.bitmaps object) task.width task.height = .ok bitmap
  | .createOther _ => s.image.map Prod.fst ≠ some (s.counter + 1)
  | _ => True

/-! ## The invariant -/

variable {original : Option G.Bitmap}

/-- Only the last call may be of another kind than `resizeFit`. -/
def ResizesFirst (calls : List ImageCall) : Prop :=
  ∀ i c, calls[i]? = some c → c.resizes = false → i + 1 = calls.length

structure Uncreated (s : ImageHandle G) : Prop where
  image : s.image = none
  settled : ∀ p, s.chain.settled p = none
  tasks : s.tasks = []
  results : ∀ i, s.results i = none
  performed : s.performed = []
  removed : s.removed = 0

inductive Progress (s : ImageHandle G) (token : Token) (object ran : Nat) : Prop
  | idle : s.tasks = [] → s.performed.length = ran → Progress s token object ran
  | busy {task : ResizeTask} : s.tasks = [task] → task.token = token → task.call + 1 = ran →
      s.chain.calls[task.call]? = some (.resizeFit task.width task.height) →
      s.chain.settled ran = none →
      (s.performed.length + 1 = ran ∧ (task.stage = .submitted ∨ task.stage = .found object)) ∨
        (s.performed.length = ran ∧ task.stage = .finished (.ok ())) →
      Progress s token object ran

/-- The token is in the map as long as a call is to come that needs it. -/
inductive Held (s : ImageHandle G) (token : Token) (object : Nat) : Prop
  | kept : s.images token = some object → s.removed = 0 →
      (∀ i c, i < s.performed.length → s.chain.calls[i]? = some c → c.consumes = false) →
      Held s token object
  | consumed : s.removed = 1 → s.performed.length = s.chain.calls.length →
      (∃ (i : Nat) (c : ImageCall), s.chain.calls[i]? = some c ∧ c.resizes = false) →
      Held s token object

structure Created (original : Option G.Bitmap) (s : ImageHandle G) (token : Token)
    (object ran : Nat) : Prop where
  image : s.image = some (token, object)
  unshared : token ∉ s.others
  alone : ∀ other, s.images other = some object → other = token
  object_lt : object < s.objects
  tokens : ∀ p value, s.chain.settled p = some value → value = .ok token
  progress : Progress s token object ran
  order : s.performed = List.range s.performed.length
  bitmap : s.bitmaps object =
    bitmapAfter original (s.chain.calls.take s.performed.length)
  held : Held s token object
  results : ∀ i result, s.results i = some result → i < s.performed.length ∧
    ∃ c, s.chain.calls[i]? = some c ∧
      answer (bitmapAfter original (s.chain.calls.take i)) c = some result

structure Inv (original : Option G.Bitmap) (s : ImageHandle G) : Prop where
  resizesFirst : ResizesFirst s.chain.calls
  objects : ∀ token object, s.images token = some object → object < s.objects
  state : ∃ ran queued, PromiseChain.Ordered ImageCall.resizes s.chain ran queued ∧
    (Uncreated s ∨ ∃ token object, Created original s token object ran)

theorem Created.performed_le {s : ImageHandle G} {token : Token} {object ran : Nat}
    (h : Created original s token object ran) : s.performed.length ≤ ran := by
  cases h.progress with
  | idle _ hran => exact hran.le
  | busy _ _ _ _ _ hstage => omega

theorem Held.congr {s t : ImageHandle G} {token : Token} {object : Nat} (h : Held s token object)
    (himages : t.images token = s.images token) (hremoved : t.removed = s.removed)
    (hperformed : t.performed = s.performed) (hcalls : t.chain.calls = s.chain.calls) :
    Held t token object := by
  cases h with
  | kept himage hnone hcall =>
    refine .kept (himages.trans himage) (hremoved.trans hnone) fun i c hi hc => ?_
    rw [hperformed] at hi
    rw [hcalls] at hc
    exact hcall i c hi hc
  | consumed hone hlength hlast =>
    refine .consumed (hremoved.trans hone) ?_ (hcalls.symm ▸ hlast)
    rw [hperformed, hcalls]
    exact hlength

theorem inv_initial (original : Option G.Bitmap) : Inv original (initial G) where
  resizesFirst i c hc _ := by cases hc
  objects token object h := by cases h
  state := ⟨0, 0, PromiseChain.ordered_initial,
    .inl ⟨rfl, fun _ => rfl, rfl, fun _ => rfl, rfl, rfl⟩⟩

theorem Uncreated.ran_eq {s : ImageHandle G} {ran queued : Nat} (h : Uncreated s)
    (hordered : PromiseChain.Ordered ImageCall.resizes s.chain ran queued) :
    ran = 0 ∧ queued = 0 := by
  have hqueued : queued = 0 := by
    by_contra hne
    exact hordered.settled 0 (Nat.pos_of_ne_zero hne) (h.settled 0)
  exact ⟨Nat.le_zero.mp (hqueued ▸ hordered.ran_le), hqueued⟩

theorem Inv.of_created {s : ImageHandle G} (h : Inv original s) {token : Token} {object : Nat}
    (himage : s.image = some (token, object)) :
    ∃ ran queued, PromiseChain.Ordered ImageCall.resizes s.chain ran queued ∧
      Created original s token object ran := by
  obtain ⟨ran, queued, hordered, huncreated | ⟨token', object', hcreated⟩⟩ := h.state
  · cases huncreated.image.symm.trans himage
  · cases hcreated.image.symm.trans himage
    exact ⟨ran, queued, hordered, hcreated⟩

theorem Inv.objects_put {s : ImageHandle G} (h : Inv original s) (bitmap : Option G.Bitmap)
    {token : Token} {object : Nat} (hmem : (s.put bitmap).images token = some object) :
    object < s.objects + 1 := by
  rcases eq_or_ne token (s.counter + 1) with rfl | hne
  · cases (Function.update_self ..).symm.trans hmem
    exact Nat.lt_succ_self _
  · have hold := (Function.update_of_ne hne ..).symm.trans hmem
    exact Nat.lt_succ_of_lt (h.objects token object hold)

theorem Inv.create {s : ImageHandle G} (h : Inv original s) (himage : s.image = none)
    (hshared : s.counter + 1 ∉ s.others) : Inv original (s.createImage original) := by
  obtain ⟨ran, queued, hordered, huncreated | ⟨token, object, hcreated⟩⟩ := h.state
  · obtain ⟨rfl, rfl⟩ := huncreated.ran_eq hordered
    have hperformed : (s.createImage original).performed = [] := huncreated.performed
    refine ⟨h.resizesFirst, fun _ _ => h.objects_put original, 0, 0, hordered,
      .inr ⟨s.counter + 1, s.objects,
        ⟨rfl, hshared, ?_, Nat.lt_succ_self _, ?_, ?_, ?_, ?_, ?_, ?_⟩⟩⟩
    · intro other hother
      by_contra hne
      exact lt_irrefl _ (h.objects other _ ((Function.update_of_ne hne ..).symm.trans hother))
    · intro p value hvalue
      cases (huncreated.settled p).symm.trans hvalue
    · exact .idle huncreated.tasks (congrArg List.length hperformed)
    · rw [hperformed]
      rfl
    · rw [hperformed]
      exact Function.update_self ..
    · refine .kept (Function.update_self ..) huncreated.removed fun i c hi => ?_
      rw [hperformed] at hi
      cases hi
    · intro i result hresult
      cases (huncreated.results i).symm.trans hresult
  · cases himage.symm.trans hcreated.image

theorem Created.settle {s : ImageHandle G} {token : Token} {object ran p : Nat}
    (h : Created original s token object ran) (htasks : s.tasks = [])
    (hran : s.performed.length = ran) :
    Created original (s.settle p (.ok token)) token object ran :=
  { h with
    tokens := by
      intro q value hvalue
      rcases eq_or_ne q p with rfl | hne
      · exact (Option.some.inj ((s.chain.settled_settle_self q _).symm.trans hvalue)).symm
      · exact h.tokens q value ((s.chain.settled_settle_of_ne hne _).symm.trans hvalue)
    progress := .idle htasks hran
    held := h.held.congr rfl rfl rfl rfl }

theorem Inv.created {s : ImageHandle G} (h : Inv original s) {token : Token} {object : Nat}
    (himage : s.image = some (token, object)) (hpending : s.chain.settled 0 = none) :
    Inv original (s.settle 0 (.ok token)) := by
  obtain ⟨ran, queued, hordered, hcreated⟩ := h.of_created himage
  have hqueued : queued = 0 := by
    by_contra hne
    exact hordered.settled 0 (Nat.pos_of_ne_zero hne) hpending
  subst hqueued
  obtain ⟨queued', -, hordered'⟩ := hordered.settle (.ok token) hpending (Nat.zero_le _)
  cases hcreated.progress with
  | idle htasks hran =>
    exact ⟨h.resizesFirst, h.objects, ran, queued', hordered',
      .inr ⟨token, object, hcreated.settle htasks hran⟩⟩
  | busy _ _ hcall _ _ _ =>
    have hran := hordered.ran_le
    omega

theorem resizesFirst_append {calls : List ImageCall}
    (hconsumed : calls.any ImageCall.consumes = false) (hsize : .getSize ∉ calls) (c : ImageCall) :
    ResizesFirst (calls ++ [c]) ∧ ∀ d ∈ calls, d.resizes = true := by
  have hall : ∀ d ∈ calls, d.resizes = true := by
    intro d hd
    have hno : d.consumes ≠ true := List.any_eq_false.mp hconsumed d hd
    cases d with
    | resizeFit => rfl
    | getSize => exact absurd hd hsize
    | toBuffer => exact absurd rfl hno
    | stream => exact absurd rfl hno
  refine ⟨fun i d hd hresizes => ?_, hall⟩
  rcases Nat.lt_or_ge i calls.length with hlt | hge
  · rw [List.getElem?_append_left hlt] at hd
    rw [hall d (List.mem_of_getElem? hd)] at hresizes
    cases hresizes
  · have hlength := (List.getElem?_eq_some_iff.mp hd).1
    rw [List.length_append, List.length_singleton] at hlength ⊢
    omega

theorem getElem?_snoc {calls : List ImageCall} {i : Nat} {d : ImageCall} (h : calls[i]? = some d)
    (c : ImageCall) : (calls ++ [c])[i]? = some d := by
  rw [List.getElem?_append_left (List.getElem?_eq_some_iff.mp h).1, h]

theorem Progress.call {s : ImageHandle G} {token : Token} {object ran : Nat}
    (h : Progress s token object ran) (c : ImageCall) :
    Progress { s with chain := s.chain.call ImageCall.resizes c } token object ran := by
  cases h with
  | idle htasks hran => exact .idle htasks hran
  | busy htasks htoken hcall hget hpending hstage =>
    refine .busy htasks htoken hcall (getElem?_snoc hget c) ?_ hstage
    exact (congrFun (s.chain.settled_call ImageCall.resizes c) ran).trans hpending

/-- Where all calls so far are resizes, the token has been kept. -/
theorem Held.call {s : ImageHandle G} {token : Token} {object : Nat} (h : Held s token object)
    (hall : ∀ d ∈ s.chain.calls, d.resizes = true)
    (hle : s.performed.length ≤ s.chain.calls.length) (c : ImageCall) :
    Held { s with chain := s.chain.call ImageCall.resizes c } token object := by
  cases h with
  | kept himage hnone hcall =>
    refine .kept himage hnone fun i d hi hd => hcall i d hi ?_
    exact (List.getElem?_append_left (hi.trans_le hle)).symm.trans hd
  | consumed _ _ hlast =>
    obtain ⟨i, d, hd, hresizes⟩ := hlast
    rw [hall d (List.mem_of_getElem? hd)] at hresizes
    cases hresizes

theorem Inv.call {s : ImageHandle G} (h : Inv original s)
    (hconsumed : s.chain.calls.any ImageCall.consumes = false) (hsize : .getSize ∉ s.chain.calls)
    (c : ImageCall) : Inv original { s with chain := s.chain.call ImageCall.resizes c } := by
  obtain ⟨hfirst, hall⟩ := resizesFirst_append hconsumed hsize c
  obtain ⟨ran, queued, hordered, hstate⟩ := h.state
  obtain ⟨queued', -, hordered'⟩ := hordered.call c
  refine ⟨hfirst, h.objects, ran, queued', hordered', ?_⟩
  rcases hstate with huncreated | ⟨token, object, hcreated⟩
  · exact .inl { huncreated with
      settled := fun p =>
        congrFun (s.chain.settled_call ImageCall.resizes c) p ▸ huncreated.settled p }
  · have hle : s.performed.length ≤ s.chain.calls.length :=
      (hcreated.performed_le.trans hordered.ran_le).trans hordered.queued_le
    refine .inr ⟨token, object, { hcreated with
      tokens := fun p value hvalue => ?_
      progress := hcreated.progress.call c
      bitmap := ?_
      held := hcreated.held.call hall hle c
      results := fun i result hresult => ?_ }⟩
    · rw [s.chain.settled_call] at hvalue
      exact hcreated.tokens p value hvalue
    · refine hcreated.bitmap.trans (congrArg _ ?_)
      exact (List.take_append_of_le_length hle).symm
    · obtain ⟨hi, d, hd, hanswer⟩ := hcreated.results i result hresult
      refine ⟨hi, d, getElem?_snoc hd c, ?_⟩
      rw [← hanswer]
      exact congrArg (fun calls => answer (bitmapAfter original calls) d)
        (List.take_append_of_le_length (hi.le.trans hle))

/-! ### The resizes in Java -/

theorem bitmapAfter_take_succ {calls : List ImageCall} {k : Nat} {c : ImageCall}
    (h : calls[k]? = some c) : bitmapAfter original (calls.take (k + 1)) =
      resizedBy (bitmapAfter original (calls.take k)) c := by
  rw [List.take_add_one, h, bitmapAfter, bitmapAfter, List.foldl_append]
  rfl

theorem range_snoc {performed : List Nat} (h : performed = List.range performed.length) :
    performed ++ [performed.length] = List.range (performed ++ [performed.length]).length := by
  rw [List.length_append, List.length_singleton, List.range_succ, ← h]

/-- There is at most one task, and the call that it belongs to is the last that has run. -/
theorem Progress.of_task {s : ImageHandle G} {token : Token} {object ran j : Nat}
    {task : ResizeTask} (h : Progress s token object ran) (htask : s.tasks[j]? = some task) :
    j = 0 ∧ s.tasks = [task] ∧ task.token = token ∧ task.call + 1 = ran ∧
      s.chain.calls[task.call]? = some (.resizeFit task.width task.height) ∧
      s.chain.settled ran = none ∧
      ((s.performed.length + 1 = ran ∧ (task.stage = .submitted ∨ task.stage = .found object)) ∨
        (s.performed.length = ran ∧ task.stage = .finished (.ok ()))) := by
  cases h with
  | idle htasks _ =>
    rw [htasks] at htask
    cases htask
  | @busy only htasks htoken hcall hget hpending hstage =>
    rw [htasks] at htask
    cases j with
    | zero =>
      cases htask
      exact ⟨rfl, htasks, htoken, hcall, hget, hpending, hstage⟩
    | succ j => cases htask

theorem Held.image_of_lt {s : ImageHandle G} {token : Token} {object : Nat}
    (h : Held s token object) (hlt : s.performed.length < s.chain.calls.length) :
    s.images token = some object ∧ s.removed = 0 ∧
      ∀ i c, i < s.performed.length → s.chain.calls[i]? = some c → c.consumes = false := by
  cases h with
  | kept himage hnone hcall => exact ⟨himage, hnone, hcall⟩
  | consumed _ hlength _ => exact absurd hlength hlt.ne

theorem find_eq {s : ImageHandle G} {token : Token} {object : Nat}
    (h : s.images token = some object) : s.find token = .ok object := by
  rw [find, h]

theorem Inv.of_task {s : ImageHandle G} (h : Inv original s) {j : Nat} {task : ResizeTask}
    (htask : s.tasks[j]? = some task) :
    ∃ ran queued token object, PromiseChain.Ordered ImageCall.resizes s.chain ran queued ∧
      Created original s token object ran := by
  obtain ⟨ran, queued, hordered, huncreated | ⟨token, object, hcreated⟩⟩ := h.state
  · rw [huncreated.tasks] at htask
    cases htask
  · exact ⟨ran, queued, token, object, hordered, hcreated⟩

theorem Inv.lookup {s : ImageHandle G} (h : Inv original s) {j : Nat} {task : ResizeTask}
    (htask : s.tasks[j]? = some task) (hstage : task.stage = .submitted) :
    Inv original (s.lookup j task) := by
  obtain ⟨ran, queued, token, object, hordered, hcreated⟩ := h.of_task htask
  obtain ⟨rfl, htasks, htoken, hcall, hget, hpending, hprogress⟩ := hcreated.progress.of_task htask
  rcases hprogress with ⟨hran, -⟩ | ⟨-, hfinished⟩
  · have hlt : s.performed.length < s.chain.calls.length := by
      have := hordered.ran_le.trans hordered.queued_le
      omega
    have hfind : s.find task.token = .ok object :=
      htoken.symm ▸ find_eq (hcreated.held.image_of_lt hlt).1
    have hlookup : s.lookup 0 task =
        { s with tasks := [{ task with stage := .found object }] } := by
      rw [ImageHandle.lookup, hfind]
      dsimp only
      rw [setStage, htasks]
      rfl
    rw [hlookup]
    refine ⟨h.resizesFirst, h.objects, ran, queued, hordered, .inr ⟨token, object, { hcreated with
      progress := .busy rfl htoken hcall hget hpending (.inl ⟨hran, .inr rfl⟩)
      held := hcreated.held.congr rfl rfl rfl rfl }⟩⟩
  · cases hstage.symm.trans hfinished

theorem Inv.perform {s : ImageHandle G} (h : Inv original s) {j found : Nat} {task : ResizeTask}
    (htask : s.tasks[j]? = some task) (hstage : task.stage = .found found) {bitmap : G.Bitmap}
    (hresize : resizeFit (s.bitmaps found) task.width task.height = .ok bitmap) :
    Inv original (s.perform j task found) := by
  obtain ⟨ran, queued, token, object, hordered, hcreated⟩ := h.of_task htask
  obtain ⟨rfl, htasks, htoken, hcall, hget, hpending, hprogress⟩ := hcreated.progress.of_task htask
  rcases hprogress with ⟨hran, hfound⟩ | ⟨-, hfinished⟩
  · obtain rfl : found = object := by
      rw [hstage] at hfound
      rcases hfound with hfound | hfound
      · cases hfound
      · exact Stage.found.inj hfound
    have hlast : task.call = s.performed.length := by omega
    have hlt : s.performed.length < s.chain.calls.length :=
      hlast ▸ (List.getElem?_eq_some_iff.mp hget).1
    obtain ⟨himage, hnone, hkept⟩ := hcreated.held.image_of_lt hlt
    have hperform : s.perform 0 task found = { s with
        bitmaps := Function.update s.bitmaps found (some bitmap)
        performed := s.performed ++ [s.performed.length]
        tasks := [{ task with stage := .finished (.ok ()) }] } := by
      rw [ImageHandle.perform, hresize]
      dsimp only
      rw [setStage, reach, hlast]
      dsimp only [setBitmap]
      rw [htasks]
      rfl
    have hlength : (s.performed ++ [s.performed.length]).length = s.performed.length + 1 :=
      List.length_append
    rw [hlast] at hget
    rw [hperform]
    refine ⟨h.resizesFirst, h.objects, ran, queued, hordered, .inr ⟨token, found, { hcreated with
      progress := .busy rfl htoken hcall (hlast ▸ hget) hpending (.inr ⟨hlength.trans hran, rfl⟩)
      order := range_snoc hcreated.order
      bitmap := ?_
      held := .kept himage hnone fun i c hi hc => ?_
      results := fun i result hresult => ?_ }⟩⟩
    · dsimp only
      rw [hlength, bitmapAfter_take_succ hget, ← hcreated.bitmap, Function.update_self, resizedBy,
        hresize]
    · rcases Nat.lt_succ_iff_lt_or_eq.mp (hlength ▸ hi) with hi | rfl
      · exact hkept i c hi hc
      · cases hget.symm.trans hc
        rfl
    · obtain ⟨hi, hc⟩ := hcreated.results i result hresult
      exact ⟨hlength ▸ Nat.lt_succ_of_lt hi, hc⟩
  · cases hstage.symm.trans hfinished

theorem Inv.resized {s : ImageHandle G} (h : Inv original s) {j : Nat} {task : ResizeTask}
    {result : Except ImageError Unit} (htask : s.tasks[j]? = some task)
    (hstage : task.stage = .finished result) : Inv original (s.resized j task result) := by
  obtain ⟨ran, queued, token, object, hordered, hcreated⟩ := h.of_task htask
  obtain ⟨rfl, htasks, htoken, hcall, hget, hpending, hprogress⟩ := hcreated.progress.of_task htask
  rcases hprogress with ⟨-, hfound⟩ | ⟨hran, hfinished⟩
  · rw [hstage] at hfound
    rcases hfound with hfound | hfound
    · cases hfound
    · cases hfound
  · cases Stage.finished.inj (hstage.symm.trans hfinished)
    have hqueued := hordered.queued_eq_of_pending hget rfl hcall hpending
    have hpromise : PromiseChain.promiseAt ImageCall.resizes s.chain.calls queued =
        task.call + 1 := by
      rw [hqueued, ← hcall]
      exact PromiseChain.promiseAt_succ_of_chains _ hget rfl
    obtain ⟨queued', -, hordered'⟩ := hordered.settle (.ok token)
      (hpromise ▸ hcall ▸ hpending) (hpromise ▸ hcall.le)
    rw [hpromise] at hordered'
    have hresized : s.resized 0 task (.ok ()) =
        { s with tasks := [] }.settle (task.call + 1) (.ok token) := by
      rw [ImageHandle.resized, htasks, htoken]
      rfl
    have hidle : Created original { s with tasks := [] } token object ran :=
      { hcreated with
        progress := .idle rfl hran
        held := hcreated.held.congr rfl rfl rfl rfl }
    rw [hresized]
    exact ⟨h.resizesFirst, h.objects, ran, queued', hordered',
      .inr ⟨token, object, hidle.settle rfl hran⟩⟩

/-! ### The continuations -/

theorem resizedBy_of_not_resizes {c : ImageCall} (h : c.resizes = false)
    (bitmap : Option G.Bitmap) : resizedBy bitmap c = bitmap := by
  cases c with
  | resizeFit => cases h
  | getSize => rfl
  | toBuffer => rfl
  | stream => rfl

theorem Created.answered {s : ImageHandle G} {token : Token} {object ran : Nat}
    (h : Created original s token object ran) (htasks : s.tasks = [])
    (hran : s.performed.length = ran) {c : ImageCall} (hget : s.chain.calls[ran]? = some c)
    (hresizes : c.resizes = false) {result : Except ImageError Answer}
    (hanswer : answer (s.bitmaps object) c = some result) {images : Token → Option Nat}
    {removed : Nat} (halone : ∀ other, images other = some object → other = token)
    (hheld : Held (({ s with images := images, removed := removed }.reach ran).setResult ran result)
      token object) :
    Created original (({ s with images := images, removed := removed }.reach ran).setResult ran
      result) token object (ran + 1) := by
  have hlength : (s.performed ++ [ran]).length = ran + 1 := by
    rw [List.length_append, hran]
    rfl
  have hbitmap := h.bitmap
  rw [hran] at hbitmap
  exact { h with
    alone := halone
    progress := .idle htasks hlength
    order := by
      have horder := range_snoc h.order
      rw [hran] at horder
      exact horder
    bitmap := by
      dsimp only [setResult, reach]
      rw [hlength, bitmapAfter_take_succ hget, resizedBy_of_not_resizes hresizes]
      exact hbitmap
    held := hheld
    results := by
      intro i r hr
      dsimp only [setResult, reach] at hr ⊢
      rw [hlength]
      rcases eq_or_ne i ran with rfl | hne
      · rw [Function.update_self] at hr
        cases hr
        exact ⟨Nat.lt_succ_self i, c, hget, hbitmap ▸ hanswer⟩
      · rw [Function.update_of_ne hne] at hr
        obtain ⟨hi, hc⟩ := h.results i r hr
        exact ⟨by omega, hc⟩ }

theorem Created.kept {s : ImageHandle G} {token : Token} {object ran : Nat}
    (h : Created original s token object ran) (htasks : s.tasks = [])
    (hran : s.performed.length = ran) (hlt : ran < s.chain.calls.length)
    {c : ImageCall} (hget : s.chain.calls[ran]? = some c)
    (hresizes : c.resizes = false) (hconsumes : c.consumes = false)
    {result : Except ImageError Answer} (hanswer : answer (s.bitmaps object) c = some result) :
    Created original ((s.reach ran).setResult ran result) token object (ran + 1) := by
  obtain ⟨himage, hnone, hcall⟩ := h.held.image_of_lt (hran.symm ▸ hlt)
  refine h.answered htasks hran hget hresizes hanswer h.alone
    (.kept himage hnone fun i d hi hd => ?_)
  have hlength : (s.performed ++ [ran]).length = s.performed.length + 1 := List.length_append
  rcases Nat.lt_succ_iff_lt_or_eq.mp (hlength ▸ hi) with hi | rfl
  · exact hcall i d hi hd
  · rw [hran] at hd
    cases hget.symm.trans hd
    exact hconsumes

theorem Created.removed {s : ImageHandle G} {token : Token} {object ran : Nat}
    (h : Created original s token object ran) (htasks : s.tasks = [])
    (hran : s.performed.length = ran) (hlast : ran + 1 = s.chain.calls.length)
    {c : ImageCall} (hget : s.chain.calls[ran]? = some c) (hresizes : c.resizes = false)
    {result : Except ImageError Answer} (hanswer : answer (s.bitmaps object) c = some result) :
    Created original (((s.remove token).reach ran).setResult ran result) token object
      (ran + 1) := by
  obtain ⟨himage, hnone, -⟩ := h.held.image_of_lt (by omega)
  have hremoved : (s.remove token).removed = 1 := by
    rw [remove, h.image, himage, hnone]
    exact if_pos ⟨rfl, Option.some_ne_none object⟩
  refine h.answered htasks hran hget hresizes hanswer (fun other hother => ?_) ?_
  · by_contra hne
    exact hne (h.alone other ((Function.update_of_ne hne ..).symm.trans hother))
  · have hlength : (s.performed ++ [ran]).length = s.performed.length + 1 := List.length_append
    exact .consumed hremoved (hlength.trans (hran.symm ▸ hlast)) ⟨ran, c, hget, hresizes⟩

/-- The continuation of a call finds the image, and with it the answer. -/
theorem Created.continuation {s : ImageHandle G} {token : Token} {object ran : Nat}
    (h : Created original s token object ran) (hfirst : ResizesFirst s.chain.calls)
    (htasks : s.tasks = []) (hran : s.performed.length = ran)
    (hpending : s.chain.settled (ran + 1) = none) {c : ImageCall}
    (hget : s.chain.calls[ran]? = some c) :
    Created original (s.continuation ran token c) token object (ran + 1) := by
  have hlt := (List.getElem?_eq_some_iff.mp hget).1
  have hfind : s.find token = .ok object :=
    find_eq (h.held.image_of_lt (hran.symm ▸ hlt)).1
  cases c with
  | resizeFit width height =>
    exact { h with
      progress := .busy (congrArg (· ++ [_]) htasks) rfl rfl hget hpending
        (.inl ⟨congrArg (· + 1) hran, .inl rfl⟩)
      held := h.held.congr rfl rfl rfl rfl }
  | getSize =>
    rw [ImageHandle.continuation, getSize, hfind]
    cases hsize : sizeOf (s.bitmaps object) with
    | error e =>
      simp only [hsize]
      exact h.kept htasks hran hlt hget rfl rfl (congrArg some hsize)
    | ok size =>
      simp only [hsize]
      exact h.removed htasks hran (hfirst ran _ hget rfl) hget rfl (congrArg some hsize)
  | toBuffer format =>
    rw [ImageHandle.continuation, toBuffer, hfind]
    exact h.removed htasks hran (hfirst ran _ hget rfl) hget rfl rfl
  | stream format =>
    rw [ImageHandle.continuation, toStream, hfind]
    exact h.removed htasks hran (hfirst ran _ hget rfl) hget rfl rfl

theorem remove_images_eq_some {s : ImageHandle G} {token other : Token} {object : Nat}
    (h : (s.remove token).images other = some object) : s.images other = some object := by
  rcases eq_or_ne other token with rfl | hne
  · cases (Function.update_self ..).symm.trans h
  · exact (Function.update_of_ne hne ..).symm.trans h

theorem continuation_frame (s : ImageHandle G) (i : Nat) (token : Token) (c : ImageCall) :
    (s.continuation i token c).chain = s.chain ∧
      (s.continuation i token c).objects = s.objects ∧
      ∀ other object, (s.continuation i token c).images other = some object →
        s.images other = some object := by
  cases c with
  | resizeFit width height => exact ⟨rfl, rfl, fun _ _ => id⟩
  | getSize =>
    rw [continuation, getSize]
    split
    · exact ⟨rfl, rfl, fun _ _ => id⟩
    · split
      · exact ⟨rfl, rfl, fun _ _ => id⟩
      · exact ⟨rfl, rfl, fun _ _ => remove_images_eq_some⟩
  | toBuffer format =>
    rw [continuation, toBuffer]
    split
    · exact ⟨rfl, rfl, fun _ _ => id⟩
    · exact ⟨rfl, rfl, fun _ _ => remove_images_eq_some⟩
  | stream format =>
    rw [continuation, toStream]
    split
    · exact ⟨rfl, rfl, fun _ _ => id⟩
    · exact ⟨rfl, rfl, fun _ _ => remove_images_eq_some⟩

theorem Inv.microtask {s : ImageHandle G} (h : Inv original s)
    {job : PromiseChain.Job (Except ImageError Token)}
    {jobs : List (PromiseChain.Job (Except ImageError Token))}
    (hjobs : s.chain.jobs = job :: jobs) {c : ImageCall}
    (hget : s.chain.calls[job.call]? = some c) :
    Inv original ({ s with chain := { s.chain with jobs := jobs } }.react job.call c
      job.argument) := by
  obtain ⟨ran, queued, hordered, hstate⟩ := h.state
  obtain ⟨hcall, hlt, hordered'⟩ := hordered.next hjobs
  rcases hstate with huncreated | ⟨token, object, hcreated⟩
  · obtain ⟨rfl, rfl⟩ := huncreated.ran_eq hordered
    exact absurd hlt (lt_irrefl 0)
  · have hargument : job.argument = .ok token :=
      hcreated.tokens _ _ (hordered.arguments job (hjobs ▸ List.mem_cons_self ..))
    rw [hcall] at hget
    rw [hcall, hargument, react]
    cases hcreated.progress with
    | idle htasks hran =>
      have hpopped : Created original { s with chain := { s.chain with jobs := jobs } } token object
          ran :=
        { hcreated with
          progress := .idle htasks hran
          held := hcreated.held.congr rfl rfl rfl rfl }
      obtain ⟨hchain, hobjects, himages⟩ :=
        continuation_frame { s with chain := { s.chain with jobs := jobs } } ran token c
      refine ⟨?_, fun other found hfound => ?_, ran + 1, queued, ?_, .inr ⟨token, object, ?_⟩⟩
      · rw [hchain]
        exact h.resizesFirst
      · rw [hobjects]
        exact h.objects other found (himages other found hfound)
      · rw [hchain]
        exact hordered'
      · exact hpopped.continuation h.resizesFirst htasks hran
          (hordered.pending (ran + 1) (Nat.lt_succ_self ran)) hget
    | busy _ _ hlast hget' hpending _ =>
      exact absurd (hordered.queued_eq_of_pending hget' rfl hlast hpending) hlt.ne'

/-! ### The other images -/

theorem Progress.congr {s t : ImageHandle G} {token : Token} {object ran : Nat}
    (h : Progress s token object ran) (htasks : t.tasks = s.tasks)
    (hperformed : t.performed = s.performed) (hchain : t.chain = s.chain) :
    Progress t token object ran := by
  cases h with
  | idle hnone hran => exact .idle (htasks.trans hnone) (hperformed ▸ hran)
  | busy hone htoken hcall hget hpending hstage =>
    exact .busy (htasks.trans hone) htoken hcall (hchain ▸ hget) (hchain ▸ hpending)
      (hperformed ▸ hstage)

theorem Created.frame {s t : ImageHandle G} {token : Token} {object ran : Nat}
    (h : Created original s token object ran) (hsame : ∃ counter others images bitmaps objects,
      t = { s with
        counter := counter, others := others, images := images, bitmaps := bitmaps,
        objects := objects }) (hshared : token ∉ t.others)
    (himage : t.images token = s.images token)
    (halone : ∀ other, t.images other = some object → other = token) (hlt : object < t.objects)
    (hbitmap : t.bitmaps object = s.bitmaps object) : Created original t token object ran := by
  obtain ⟨counter, others, images, bitmaps, objects, rfl⟩ := hsame
  exact { h with
    unshared := hshared
    alone := halone
    object_lt := hlt
    progress := h.progress.congr rfl rfl rfl
    bitmap := hbitmap.trans h.bitmap
    held := h.held.congr himage rfl rfl rfl }

theorem Inv.createOther {s : ImageHandle G} (h : Inv original s) (bitmap : Option G.Bitmap)
    (hshared : s.image.map Prod.fst ≠ some (s.counter + 1)) :
    Inv original (s.createOther bitmap) := by
  obtain ⟨ran, queued, hordered, huncreated | ⟨token, object, hcreated⟩⟩ := h.state
  · exact ⟨h.resizesFirst, fun _ _ => h.objects_put bitmap, ran, queued, hordered,
      .inl { huncreated with }⟩
  · have hne : token ≠ s.counter + 1 := by
      rintro rfl
      exact hshared (congrArg (Option.map Prod.fst) hcreated.image)
    have hobject : object ≠ s.objects := hcreated.object_lt.ne
    have hframe : Created original (s.createOther bitmap) token object ran := by
      refine hcreated.frame ⟨_, _, _, _, _, rfl⟩ ?_ (Function.update_of_ne hne ..) ?_
        (Nat.lt_succ_of_lt hcreated.object_lt) (Function.update_of_ne hobject ..)
      · exact fun hmem => (List.mem_cons.mp hmem).elim hne hcreated.unshared
      · intro other hother
        rcases eq_or_ne other (s.counter + 1) with rfl | hne'
        · cases (Function.update_self ..).symm.trans hother
          exact absurd rfl hobject
        · exact hcreated.alone other ((Function.update_of_ne hne' ..).symm.trans hother)
    exact ⟨h.resizesFirst, fun _ _ => h.objects_put bitmap, ran, queued, hordered,
      .inr ⟨token, object, hframe⟩⟩

theorem remove_of_ne {s : ImageHandle G} {token other : Token} {object : Nat}
    (himage : s.image = some (token, object)) (hne : other ≠ token) :
    s.remove other = { s with images := Function.update s.images other none } := by
  have hno : ¬ (s.image.map Prod.fst = some other ∧ s.images other ≠ none) := by
    rintro ⟨hsome, -⟩
    rw [himage] at hsome
    exact hne (Option.some.inj hsome).symm
  rw [remove, if_neg hno]

theorem remove_of_none {s : ImageHandle G} (himage : s.image = none) (other : Token) :
    s.remove other = { s with images := Function.update s.images other none } := by
  have hno : ¬ (s.image.map Prod.fst = some other ∧ s.images other ≠ none) := by
    rintro ⟨hsome, -⟩
    rw [himage] at hsome
    cases hsome
  rw [remove, if_neg hno]

theorem Inv.removeOther {s : ImageHandle G} (h : Inv original s) {other : Token}
    (hother : other ∈ s.others) : Inv original (s.remove other) := by
  obtain ⟨ran, queued, hordered, huncreated | ⟨token, object, hcreated⟩⟩ := h.state
  · refine ⟨h.resizesFirst, fun token object hmem => h.objects token object
      (remove_images_eq_some hmem), ran, queued, hordered, .inl ?_⟩
    rw [remove_of_none huncreated.image]
    exact { huncreated with }
  · have hne : other ≠ token := by
      rintro rfl
      exact hcreated.unshared hother
    have hframe : Created original (s.remove other) token object ran := by
      refine hcreated.frame ⟨s.counter, s.others, _, s.bitmaps, s.objects,
        remove_of_ne hcreated.image hne⟩ hcreated.unshared (Function.update_of_ne hne.symm ..)
        (fun token' hmem => hcreated.alone token' (remove_images_eq_some hmem))
        hcreated.object_lt rfl
    exact ⟨h.resizesFirst, fun token object hmem => h.objects token object
      (remove_images_eq_some hmem), ran, queued, hordered, .inr ⟨token, object, hframe⟩⟩

theorem Inv.resizeOther {s : ImageHandle G} (h : Inv original s) {other : Token} {found : Nat}
    (hother : other ∈ s.others) (hfound : s.images other = some found) (bitmap : G.Bitmap) :
    Inv original (s.setBitmap found bitmap) := by
  obtain ⟨ran, queued, hordered, huncreated | ⟨token, object, hcreated⟩⟩ := h.state
  · exact ⟨h.resizesFirst, h.objects, ran, queued, hordered, .inl { huncreated with }⟩
  · have hne : object ≠ found := by
      rintro rfl
      exact hcreated.unshared (hcreated.alone other hfound ▸ hother)
    exact ⟨h.resizesFirst, h.objects, ran, queued, hordered, .inr ⟨token, object,
      hcreated.frame ⟨_, _, _, _, _, rfl⟩ hcreated.unshared rfl hcreated.alone hcreated.object_lt
        (Function.update_of_ne hne ..)⟩⟩

/-! ### Every step -/

theorem Inv.step {s t : ImageHandle G} {a : Action G} (h : Inv original s)
    (hguard : Undisturbed s a) (hstep : step original s a = some t) : Inv original t := by
  cases a with
  | create =>
    obtain ⟨himage, hstep⟩ := Option.ite_none_right_eq_some.mp hstep
    cases hstep
    exact h.create himage hguard
  | created =>
    rw [ImageHandle.step] at hstep
    split at hstep
    · rename_i himage hpending
      cases hstep
      exact h.created himage hpending
    · cases hstep
  | call c =>
    obtain ⟨hconsumed, hstep⟩ := Option.ite_none_left_eq_some.mp hstep
    cases hstep
    exact h.call (Bool.eq_false_iff.mpr hconsumed) hguard c
  | microtask =>
    rw [ImageHandle.step] at hstep
    split at hstep
    · cases hstep
    · rename_i hjobs
      obtain ⟨c, hget, rfl⟩ := Option.map_eq_some_iff.mp hstep
      exact h.microtask hjobs hget
  | lookup j =>
    rw [ImageHandle.step] at hstep
    split at hstep
    · rename_i htask
      cases hstep
      exact h.lookup htask rfl
    · cases hstep
  | perform j =>
    rw [ImageHandle.step] at hstep
    split at hstep
    · rename_i htask
      cases hstep
      obtain ⟨bitmap, hresize⟩ := hguard _ _ htask rfl
      exact h.perform htask rfl hresize
    · cases hstep
  | resized j =>
    rw [ImageHandle.step] at hstep
    split at hstep
    · rename_i htask
      cases hstep
      exact h.resized htask rfl
    · cases hstep
  | createOther bitmap =>
    cases hstep
    exact h.createOther bitmap hguard
  | removeOther token =>
    obtain ⟨hother, hstep⟩ := Option.ite_none_right_eq_some.mp hstep
    cases hstep
    exact h.removeOther hother
  | resizeOther token bitmap =>
    rw [ImageHandle.step] at hstep
    split at hstep
    · rename_i hfound
      obtain ⟨hother, hstep⟩ := Option.ite_none_right_eq_some.mp hstep
      cases hstep
      exact h.resizeOther hother hfound bitmap
    · cases hstep

theorem compress_error {bitmap : Option G.Bitmap} {format : U16String} {e : ImageError}
    (h : compress bitmap format = .error e) : e.message ≠ some (u16 "Invalid image token") := by
  unfold compress at h
  split at h
  · rename_i hformat
    cases h
    rw [compressFormat] at hformat
    split_ifs at hformat
    cases hformat
    intro htext
    cases congrArg List.head? (Option.some.inj htext)
  · cases h
    exact (Option.some_ne_none _).symm
  · cases h

theorem sizeOf_error {bitmap : Option G.Bitmap} {e : ImageError} (h : sizeOf bitmap = .error e) :
    e.message ≠ some (u16 "Invalid image token") := by
  cases bitmap with
  | none =>
    cases h
    exact (Option.some_ne_none _).symm
  | some b => cases h

theorem answer_error {bitmap : Option G.Bitmap} {c : ImageCall} {e : ImageError}
    (h : answer bitmap c = some (.error e)) : e.message ≠ some (u16 "Invalid image token") := by
  cases c with
  | resizeFit => cases h
  | getSize => exact sizeOf_error (Option.some.inj h)
  | toBuffer format =>
    have hanswer := Option.some.inj h
    cases hcompress : compress bitmap (formatOf format) with
    | error e' =>
      rw [hcompress] at hanswer
      cases hanswer
      exact compress_error hcompress
    | ok data =>
      rw [hcompress] at hanswer
      cases hanswer
  | stream format => cases h

theorem Uncreated.valid {s : ImageHandle G} (h : Uncreated s) : Valid original s where
  order := h.performed ▸ List.nil_prefix
  found := ⟨fun i e he => (by cases (h.results i).symm.trans he),
    fun p e he => (by cases (h.settled p).symm.trans he)⟩
  answers i result hresult := by cases (h.results i).symm.trans hresult
  at_most_once := h.removed ▸ Nat.zero_le 1
  consumed i c _ _ hresult := absurd (h.results i) hresult

theorem Created.valid {s : ImageHandle G} {token : Token} {object ran : Nat}
    (h : Created original s token object ran) (hran : ran ≤ s.chain.calls.length) :
    Valid original s where
  order := by
    have hle := h.performed_le.trans hran
    have htake : (List.range s.chain.calls.length).take s.performed.length = s.performed := by
      rw [List.take_range, Nat.min_eq_left hle, ← h.order]
    rw [← htake]
    exact List.take_prefix ..
  found := by
    refine ⟨fun i e he => ?_, fun p e he => ?_⟩
    · obtain ⟨-, c, -, hanswer⟩ := h.results i _ he
      exact answer_error hanswer
    · cases h.tokens p _ he
  answers i result hresult := (h.results i result hresult).2
  at_most_once := by
    cases h.held with
    | kept _ hnone _ => omega
    | consumed hone _ _ => exact hone.le
  consumed i c hget hconsumes hresult := by
    obtain ⟨result, hresult⟩ := Option.ne_none_iff_exists'.mp hresult
    cases h.held with
    | kept _ _ hcall =>
      rw [hcall i c (h.results i result hresult).1 hget] at hconsumes
      cases hconsumes
    | consumed hone _ _ => exact hone

theorem Inv.valid {s : ImageHandle G} (h : Inv original s) : Valid original s := by
  obtain ⟨ran, queued, hordered, huncreated | ⟨token, object, hcreated⟩⟩ := h.state
  · exact huncreated.valid
  · exact hcreated.valid (hordered.ran_le.trans hordered.queued_le)

theorem valid_of_undisturbed {s : ImageHandle G}
    (h : (machine original).ReachableVia Undisturbed s) : Valid original s := by
  refine Inv.valid (h.invariant (Inv original) ?_ fun s a t hs hguard hstep => ?_)
  · rintro s rfl
    exact inv_initial original
  · exact hs.step hguard hstep

/-- Without a disturbance an image is good for every sequence of calls. -/
theorem images_valid (G : Graphics) (original : Option G.Bitmap) {s : ImageHandle G}
    (h : (machine original).ReachableVia Undisturbed s) : Valid original s :=
  valid_of_undisturbed h

theorem images_valid_resized :
    ∃ s, (machine (G := Sample.graphics) (some Sample.landscape)).run (initial _)
      [.create, .call (.resizeFit 10 10), .call (.toBuffer none), .created, .microtask, .lookup 0,
        .perform 0, .resized 0, .microtask] = some s ∧
      s.results 1 = some (.ok (.buffer [10, 5])) ∧ Valid (some Sample.landscape) s := by
  refine ⟨_, rfl, rfl, ?_⟩
  have hstart : (machine (some Sample.landscape)).ReachableVia Undisturbed
      (initial Sample.graphics) := .start rfl
  have hcreate := hstart.after .create List.not_mem_nil rfl
  have hresize := hcreate.after (.call (.resizeFit 10 10)) List.not_mem_nil rfl
  have hsize : ImageCall.getSize ∉ [ImageCall.resizeFit 10 10] := by decide
  have hbuffer := hresize.after (.call (.toBuffer none)) hsize rfl
  have hcreated := hbuffer.after .created trivial rfl
  have hsubmitted := hcreated.after .microtask trivial rfl
  have hfound := hsubmitted.after (.lookup 0) trivial rfl
  have hperformed := hfound.after (.perform 0) (fun task object htask hstage => by
    cases htask
    cases hstage
    exact ⟨_, rfl⟩) rfl
  have hresized := hperformed.after (.resized 0) trivial rfl
  exact images_valid Sample.graphics _ (hresized.after .microtask trivial rfl)

/-- After `getSize` the token is gone. -/
theorem images_not_valid :
    ¬ ∀ (G : Graphics) (original : Option G.Bitmap) (s : ImageHandle G),
      (machine original).Reachable s → Valid original s := by
  intro h
  have hrun : ∃ s, (machine (G := Sample.graphics) (some Sample.landscape)).run (initial _)
      [.call .getSize, .call (.toBuffer none), .create, .created, .microtask, .microtask] = some s ∧
      s.results 1 = some (.error .invalidImageToken) := ⟨_, rfl, rfl⟩
  obtain ⟨s, hrun, hresult⟩ := hrun
  exact (h _ _ s (Machine.Reachable.run (.start rfl) hrun)).found.1 1 _ hresult rfl

end ImageHandle

end AlmondAndroid.App
