import AlmondAndroid.Library.UrlQuery
import AlmondAndroid.App.Preferences
import Mathlib.Data.List.Forall2

/-!
# Requests to Thingpedia

`ThingpediaClient` puts its URLs together from the text of their parts. The developer key is in
the preferences as JSON, and is added to every request. Where no example is translated, the
examples are requested a second time.
-/

namespace AlmondAndroid.App

open Library Bridge

namespace Thingpedia

structure Locale where
  language : U16String
  country : U16String
  variant : U16String
  script : U16String
  extensions : U16String

/-- With a script or extensions there is a number sign in the text. -/
def Locale.toString (locale : Locale) : U16String :=
  let given := locale.language ≠ [] ∨ locale.country ≠ []
  let more := locale.variant ≠ [] ∨ locale.script ≠ [] ∨ locale.extensions ≠ []
  locale.language ++
    (if locale.country ≠ [] ∨ (locale.language ≠ [] ∧ more) then u16 "_" ++ locale.country
      else []) ++
    (if locale.variant ≠ [] ∧ given then u16 "_" ++ locale.variant else []) ++
    (if locale.script ≠ [] ∧ given then u16 "_#" ++ locale.script else []) ++
    (if locale.extensions ≠ [] ∧ given then
      (if locale.script = [] then u16 "_#" else u16 "_") ++ locale.extensions
      else [])

inductive Preference
  | absent
  | null
  | string (s : U16String)

structure Client where
  Num : Type
  format : Json.NumberFormat Num
  valueOf : JsonTree Num → U16String
  developerKey : Preference
  locale : Locale

/-- What the requests bring, in their order; `none` is an exception. -/
abbrev Answers (Num : Type) := Nat → Option (JSONArray Num)

def THINGPEDIA_URL : U16String := u16 "https://thingpedia.stanford.edu/thingpedia"

def Preference.text (developerKey : Preference) {Num : Type} (format : Json.NumberFormat Num) :
    Option U16String :=
  match developerKey with
  | .absent => none
  | .null => some (Json.text format .null)
  | .string s => some (Json.text format (.string s))

namespace Client

variable (c : Client)

/-- `none` is a `RuntimeException`. -/
def getDeveloperKey : Option U16String :=
  (Json.read c.format ((c.developerKey.text c.format).getD (u16 "null"))).map fun value =>
    match value with
    | .null => u16 "null"
    | .string s => s
    | value => c.valueOf value

/-- The URL that is opened, and what is returned. -/
def runSimpleRequest (urlString : U16String) (answer : Option (JSONArray c.Num)) :
    List U16String × Option (JSONArray c.Num) :=
  match c.getDeveloperKey with
  | none => ([], none)
  | some developerKey =>
    let urlString :=
      if 0 < developerKey.length then urlString ++ u16 "&developer_key=" ++ developerKey
      else urlString
    ([UrlQuery.strip (THINGPEDIA_URL ++ urlString)], answer)

def getDeviceFactories (_class : U16String) (answers : Answers c.Num) :
    List U16String × Option (JSONArray c.Num) :=
  c.runSimpleRequest (u16 "/api/devices?class=" ++ _class) (answers 0)

def getExamples (urlString english : U16String) (answers : Answers c.Num) :
    List U16String × Option (JSONArray c.Num) :=
  let (urls, examples) := c.runSimpleRequest urlString (answers 0)
  match examples with
  | none => (urls, none)
  | some examples =>
    if examples.length = 0 ∧ ¬ u16 "en" <+: c.locale.toString then
      let (more, examples) := c.runSimpleRequest english (answers 1)
      (urls ++ more, examples)
    else (urls, some examples)

def getExamplesByKinds (_kind : U16String) (answers : Answers c.Num) :
    List U16String × Option (JSONArray c.Num) :=
  c.getExamples
    (u16 "/api/examples/by-kinds/" ++ _kind ++ u16 "?locale=" ++ c.locale.toString ++
      u16 "&base=1")
    (u16 "/api/examples/by-kinds/" ++ _kind ++ u16 "?locale=en-US&base=1") answers

def getExamplesByKey (key : U16String) (answers : Answers c.Num) :
    List U16String × Option (JSONArray c.Num) :=
  c.getExamples
    (u16 "/api/examples/?key=" ++ UrlQuery.encode key ++ u16 "&locale=" ++ c.locale.toString)
    (u16 "/api/examples/by-kinds/" ++ UrlQuery.encode key ++ u16 "?locale=en-US") answers

end Client

/-! ## What is asked -/

inductive Request
  | deviceFactories (_class : U16String)
  | examplesByKinds (_kind : U16String)
  | examplesByKey (key : U16String)

def Client.send (c : Client) (answers : Answers c.Num) :
    Request → List U16String × Option (JSONArray c.Num)
  | .deviceFactories _class => c.getDeviceFactories _class answers
  | .examplesByKinds _kind => c.getExamplesByKinds _kind answers
  | .examplesByKey key => c.getExamplesByKey key answers

namespace Request

def address : Request → U16String
  | .deviceFactories _ => THINGPEDIA_URL ++ u16 "/api/devices"
  | .examplesByKinds _kind => THINGPEDIA_URL ++ u16 "/api/examples/by-kinds/" ++ _kind
  | .examplesByKey _ => THINGPEDIA_URL ++ u16 "/api/examples/"

def params (locale : U16String) : Request → List (U16String × U16String)
  | .deviceFactories _class => [(u16 "class", _class)]
  | .examplesByKinds _ => [(u16 "locale", locale), (u16 "base", u16 "1")]
  | .examplesByKey key => [(u16 "key", key), (u16 "locale", locale)]

def isTranslated : Request → Bool
  | .deviceFactories _ => false
  | _ => true

end Request

def Preference.params : Preference → List (U16String × U16String)
  | .string (u :: s) => [(u16 "developer_key", u :: s)]
  | _ => []

/-- The URL goes to the address, and its query has these parameters and no others. -/
def Client.Asks (c : Client) (request : Request) (locale url : U16String) : Prop :=
  UrlQuery.readUrl url = some (request.address, request.params locale ++ c.developerKey.params)

/-- Every URL asks for what was requested, a second one in English, and there is a second one
if nothing was found and the language is not English. -/
def Client.Says (c : Client) (request : Request) (answers : Answers c.Num) : Prop :=
  ∃ url more, (c.send answers request).1 = url :: more ∧
    c.Asks request c.locale.toString url ∧
    (∀ retry ∈ more, c.Asks request (u16 "en-US") retry) ∧
    (request.isTranslated = true → answers 0 = some [] → c.locale.language ≠ u16 "en" →
      more ≠ [])

/-! ## What can be said -/

def Request.last (locale : U16String) : Request → U16String
  | .deviceFactories _class => _class
  | .examplesByKinds _ => u16 "1"
  | .examplesByKey _ => locale

def Request.Sayable (locale : U16String) : Request → Prop
  | .deviceFactories _class => UrlQuery.Plain _class
  | .examplesByKinds _kind =>
    (UrlQuery.question ∉ _kind ∧ UrlQuery.hash ∉ _kind) ∧ UrlQuery.Plain locale
  | .examplesByKey key => Utf16.WellFormed key ∧ UrlQuery.Plain locale

/-- The preference is a string that is read as it is put in, and the last value of the URL does
not end in a blank. -/
def Preference.Sayable (last : U16String) : Preference → Prop
  | .string [] => UrlQuery.Trimmed last
  | .string (u :: s) => UrlQuery.Plain (u :: s) ∧ UrlQuery.Trimmed (u :: s)
  | _ => False

/-- The second request is not necessary, or it is one by kinds that is made. -/
def Client.Repeats (c : Client) (answers : Answers c.Num) : Request → Prop
  | .deviceFactories _ => True
  | .examplesByKinds _ =>
    answers 0 = some [] → c.locale.language ≠ u16 "en" → ¬ u16 "en" <+: c.locale.toString
  | .examplesByKey _ => answers 0 = some [] → c.locale.language = u16 "en"

structure Client.Sayable (c : Client) (request : Request) (answers : Answers c.Num) : Prop where
  values : request.Sayable c.locale.toString
  developerKey : c.developerKey.Sayable (request.last c.locale.toString)
  repeats : c.Repeats answers request

/-! ## The parameters as they are written -/

theorem forall₂_concat_iff {α β : Type} {R : α → β → Prop} {l : List α} {m : List β}
    (hlength : l.length = m.length) {x : α} {y : β} :
    List.Forall₂ R (l ++ [x]) (m ++ [y]) ↔ List.Forall₂ R l m ∧ R x y := by
  induction l generalizing m with
  | nil =>
    rw [List.length_eq_zero_iff.mp hlength.symm, List.nil_append, List.nil_append,
      List.forall₂_cons, and_comm]
  | cons a l ih =>
    cases m with
    | nil => cases hlength
    | cons b m =>
      rw [List.cons_append, List.cons_append, List.forall₂_cons, List.forall₂_cons,
        ih (Nat.succ.inj hlength), and_assoc]

namespace Request

def front (locale : U16String) : Request → List (U16String × U16String)
  | .deviceFactories _ => []
  | .examplesByKinds _ => [(u16 "locale", locale)]
  | .examplesByKey key => [(u16 "key", UrlQuery.encode key)]

def lastName : Request → U16String
  | .deviceFactories _ => u16 "class"
  | .examplesByKinds _ => u16 "base"
  | .examplesByKey _ => u16 "locale"

def written (request : Request) (locale : U16String) : List (U16String × U16String) :=
  request.front locale ++ [(request.lastName, request.last locale)]

theorem length_written (request : Request) (locale : U16String) :
    (request.written locale).length = (request.params locale).length := by
  cases request with
  | deviceFactories _class => rfl
  | examplesByKinds _kind => rfl
  | examplesByKey key => rfl

theorem isName_locale : UrlQuery.IsName (u16 "locale") :=
  UrlQuery.isName_of_unreserved (by decide)

theorem isName_lastName (request : Request) : UrlQuery.IsName request.lastName := by
  have hclass : UrlQuery.IsName (u16 "class") := UrlQuery.isName_of_unreserved (by decide)
  have hbase : UrlQuery.IsName (u16 "base") := UrlQuery.isName_of_unreserved (by decide)
  cases request with
  | deviceFactories _class => exact hclass
  | examplesByKinds _kind => exact hbase
  | examplesByKey key => exact isName_locale

theorem isName_front {request : Request} {locale : U16String} {param : U16String × U16String}
    (h : param ∈ request.front locale) : UrlQuery.IsName param.1 := by
  have hkey : UrlQuery.IsName (u16 "key") := UrlQuery.isName_of_unreserved (by decide)
  cases request with
  | deviceFactories _class => cases h
  | examplesByKinds _kind =>
    rw [List.mem_singleton.mp h]
    exact isName_locale
  | examplesByKey key =>
    rw [List.mem_singleton.mp h]
    exact hkey

theorem isName_written {request : Request} {locale : U16String} {param : U16String × U16String}
    (h : param ∈ request.written locale) : UrlQuery.IsName param.1 := by
  rcases List.mem_append.mp h with hfront | hlast
  · exact isName_front hfront
  · rw [List.mem_singleton.mp hlast]
    exact request.isName_lastName

theorem fits_written (request : Request) (locale : U16String) :
    ∀ pair ∈ (request.written locale).zip (request.params locale),
      UrlQuery.Unbroken pair.1.2 ∨ pair.1.2 <+: pair.2.2 := by
  intro pair hpair
  cases request with
  | deviceFactories _class =>
    rw [List.mem_singleton.mp hpair]
    exact .inr List.prefix_rfl
  | examplesByKinds _kind =>
    rcases List.mem_cons.mp hpair with rfl | hpair
    · exact .inr List.prefix_rfl
    · rw [List.mem_singleton.mp hpair]
      exact .inr List.prefix_rfl
  | examplesByKey key =>
    rcases List.mem_cons.mp hpair with rfl | hpair
    · exact .inl (UrlQuery.unbroken_encode key)
    · rw [List.mem_singleton.mp hpair]
      exact .inr List.prefix_rfl

theorem sayable_iff (request : Request) (locale : U16String) :
    ((UrlQuery.question ∉ request.address ∧ UrlQuery.hash ∉ request.address) ∧
      List.Forall₂ UrlQuery.Reads (request.written locale) (request.params locale)) ↔
    request.Sayable locale := by
  cases request with
  | deviceFactories _class =>
    have haddress : UrlQuery.question ∉ (deviceFactories _class).address ∧
        UrlQuery.hash ∉ (deviceFactories _class).address := by
      rw [address]
      decide
    change _ ∧ List.Forall₂ _ [(u16 "class", _class)] [(u16 "class", _class)] ↔ _
    rw [and_iff_right haddress, List.forall₂_cons, UrlQuery.reads_self_iff]
    exact and_iff_left .nil
  | examplesByKinds _kind =>
    have haddress : ∀ delimiter, delimiter ∉ THINGPEDIA_URL ++ u16 "/api/examples/by-kinds/" →
        (delimiter ∉ (examplesByKinds _kind).address ↔ delimiter ∉ _kind) := by
      intro delimiter h
      rw [address, List.mem_append, not_or, and_iff_right h]
    have hbase : UrlQuery.Plain (u16 "1") := UrlQuery.plain_of_unreserved (by decide)
    change _ ∧ List.Forall₂ _ [(u16 "locale", locale), (u16 "base", u16 "1")]
      [(u16 "locale", locale), (u16 "base", u16 "1")] ↔ _
    rw [haddress _ (by decide), haddress _ (by decide), List.forall₂_cons, List.forall₂_cons,
      UrlQuery.reads_self_iff, UrlQuery.reads_self_iff]
    exact and_congr_right fun _ => and_iff_left ⟨hbase, .nil⟩
  | examplesByKey key =>
    have haddress : UrlQuery.question ∉ (examplesByKey key).address ∧
        UrlQuery.hash ∉ (examplesByKey key).address := by
      rw [address]
      decide
    change _ ∧ List.Forall₂ _ [(u16 "key", UrlQuery.encode key), (u16 "locale", locale)]
      [(u16 "key", key), (u16 "locale", locale)] ↔ _
    rw [and_iff_right haddress, List.forall₂_cons, List.forall₂_cons, UrlQuery.reads_encode_iff,
      UrlQuery.reads_self_iff]
    exact and_congr_right fun _ => and_iff_left .nil

/-- Without a key the last value must not lose a blank. -/
theorem forall_reads_trimmed_iff (request : Request) (locale : U16String) :
    List.Forall₂ UrlQuery.Reads
        (request.front locale ++
          [(request.lastName, (request.last locale).rdropWhile UrlQuery.isBlank)])
        (request.params locale) ↔
      List.Forall₂ UrlQuery.Reads (request.written locale) (request.params locale) ∧
        UrlQuery.Trimmed (request.last locale) := by
  have hlast : ∀ name value : U16String, UrlQuery.Reads
      (name, value.rdropWhile UrlQuery.isBlank) (name, value) ↔
        UrlQuery.Reads (name, value) (name, value) ∧ UrlQuery.Trimmed value := by
    intro name value
    rw [UrlQuery.reads_trimmed_iff, UrlQuery.reads_self_iff]
  cases request with
  | deviceFactories _class =>
    dsimp only [front, lastName, last, params, written, List.nil_append]
    rw [List.forall₂_cons, List.forall₂_cons, hlast, and_right_comm]
  | examplesByKinds _kind =>
    dsimp only [front, lastName, last, params, written, List.singleton_append]
    rw [List.forall₂_cons, List.forall₂_cons, List.forall₂_cons, List.forall₂_cons, hlast,
      and_right_comm, and_assoc, and_assoc, and_assoc]
  | examplesByKey key =>
    dsimp only [front, lastName, last, params, written, List.singleton_append]
    rw [List.forall₂_cons, List.forall₂_cons, List.forall₂_cons, List.forall₂_cons, hlast,
      and_right_comm, and_assoc, and_assoc, and_assoc]

end Request

/-! ## The URLs -/

def Preference.sent : Preference → U16String
  | .string s => s
  | _ => u16 "null"

def Preference.written (developerKey : Preference) : List (U16String × U16String) :=
  if developerKey.sent = [] then [] else [(u16 "developer_key", developerKey.sent)]

namespace Client

variable (c : Client)

theorem getDeveloperKey_eq : c.getDeveloperKey = some c.developerKey.sent := by
  have hnull : u16 "null" = Json.text c.format .null := rfl
  rw [getDeveloperKey]
  cases c.developerKey with
  | absent =>
    dsimp only [Preference.text, Option.getD]
    rw [hnull, Json.read_text]
    rfl
  | null =>
    dsimp only [Preference.text, Option.getD]
    rw [Json.read_text]
    rfl
  | string s =>
    dsimp only [Preference.text, Option.getD]
    rw [Json.read_text]
    rfl

def url (address : U16String) (params : List (U16String × U16String)) : U16String :=
  UrlQuery.strip (address ++ UrlQuery.question :: UrlQuery.join (params ++ c.developerKey.written))

theorem runSimpleRequest_eq {urlString address : U16String} {first : U16String × U16String}
    {params : List (U16String × U16String)} (answer : Option (JSONArray c.Num))
    (h : THINGPEDIA_URL ++ urlString =
      address ++ UrlQuery.question :: UrlQuery.join (first :: params)) :
    c.runSimpleRequest urlString answer = ([c.url address (first :: params)], answer) := by
  rw [runSimpleRequest, getDeveloperKey_eq]
  dsimp only
  rw [url, Preference.written]
  by_cases hempty : c.developerKey.sent = []
  · rw [if_neg (by rw [hempty]; exact Nat.lt_irrefl 0), if_pos hempty, List.append_nil, h]
  · have hjoin := UrlQuery.join_cons_concat first params (u16 "developer_key", c.developerKey.sent)
    rw [if_pos (List.length_pos_of_ne_nil hempty), if_neg hempty, hjoin, ← List.append_assoc,
      ← List.append_assoc, h]
    simp only [List.append_assoc, List.cons_append]
    rfl

end Client

namespace Request

theorem exists_address (request : Request) : ∃ path, request.address = 0x68 :: path := by
  cases request with
  | deviceFactories _class => exact ⟨_, rfl⟩
  | examplesByKinds _kind => exact ⟨_, rfl⟩
  | examplesByKey key => exact ⟨_, rfl⟩

theorem readUrl_with_key (request : Request) (locale sent : U16String)
    {more : List (U16String × U16String)}
    (hmore : more = [] ∨ more = [(u16 "developer_key", sent)]) :
    UrlQuery.readUrl (UrlQuery.strip (request.address ++ UrlQuery.question ::
        UrlQuery.join (request.written locale ++ [(u16 "developer_key", sent)]))) =
      some (request.address, request.params locale ++ more) ↔
    (UrlQuery.question ∉ request.address ∧ UrlQuery.hash ∉ request.address) ∧
      List.Forall₂ UrlQuery.Reads (request.written locale ++
        [(u16 "developer_key", sent.rdropWhile UrlQuery.isBlank)])
        (request.params locale ++ more) := by
  obtain ⟨path, hpath⟩ := request.exists_address
  have hname : UrlQuery.IsName (u16 "developer_key") := UrlQuery.isName_of_unreserved (by decide)
  rw [hpath]
  refine UrlQuery.readUrl_strip_iff (by decide) path sent (fun _ hparam => isName_written hparam)
    hname ?_
  intro pair hpair
  rw [List.zip_append (request.length_written locale)] at hpair
  rcases List.mem_append.mp hpair with hpair | hpair
  · exact request.fits_written locale pair hpair
  · rcases hmore with rfl | rfl
    · cases hpair
    · rw [List.mem_singleton.mp hpair]
      exact .inr (List.rdropWhile_prefix _ _)

theorem readUrl_without_key (request : Request) (locale : U16String) :
    UrlQuery.readUrl (UrlQuery.strip (request.address ++ UrlQuery.question ::
        UrlQuery.join (request.written locale))) =
      some (request.address, request.params locale) ↔
    (UrlQuery.question ∉ request.address ∧ UrlQuery.hash ∉ request.address) ∧
      List.Forall₂ UrlQuery.Reads (request.front locale ++
        [(request.lastName, (request.last locale).rdropWhile UrlQuery.isBlank)])
        (request.params locale) := by
  obtain ⟨path, hpath⟩ := request.exists_address
  rw [hpath]
  refine UrlQuery.readUrl_strip_iff (by decide) path (request.last locale)
    (fun _ hparam => isName_front hparam) request.isName_lastName ?_
  intro pair hpair
  have hprefix := List.rdropWhile_prefix UrlQuery.isBlank (request.last locale)
  cases request with
  | deviceFactories _class =>
    rw [List.mem_singleton.mp hpair]
    exact .inr hprefix
  | examplesByKinds _kind =>
    rcases List.mem_cons.mp hpair with rfl | hpair
    · exact .inr List.prefix_rfl
    · rw [List.mem_singleton.mp hpair]
      exact .inr hprefix
  | examplesByKey key =>
    rcases List.mem_cons.mp hpair with rfl | hpair
    · exact .inl (UrlQuery.unbroken_encode key)
    · rw [List.mem_singleton.mp hpair]
      exact .inr hprefix

end Request

namespace Client

variable (c : Client)

/-- A URL asks for what was requested exactly if everything in it can be said. -/
theorem asks_url_iff (request : Request) (locale : U16String) :
    c.Asks request locale (c.url request.address (request.written locale)) ↔
      request.Sayable locale ∧ c.developerKey.Sayable (request.last locale) := by
  have hlength := request.length_written locale
  have hnull : ¬ List.Forall₂ UrlQuery.Reads (request.written locale ++
      [(u16 "developer_key", (u16 "null").rdropWhile UrlQuery.isBlank)])
      (request.params locale ++ []) := by
    intro h
    have heq := h.length_eq
    rw [List.length_append, List.length_append, hlength, List.length_singleton,
      List.length_nil] at heq
    omega
  rw [Asks, url]
  cases c.developerKey with
  | absent =>
    refine iff_of_false (fun h => ?_) fun h => h.2
    exact hnull ((request.readUrl_with_key locale (u16 "null") (.inl rfl)).mp h).2
  | null =>
    refine iff_of_false (fun h => ?_) fun h => h.2
    exact hnull ((request.readUrl_with_key locale (u16 "null") (.inl rfl)).mp h).2
  | string s =>
    cases s with
    | nil =>
      have hwritten : (Preference.string []).written = [] := rfl
      have hparams : (Preference.string []).params = [] := rfl
      rw [hwritten, hparams, List.append_nil, List.append_nil, request.readUrl_without_key,
        request.forall_reads_trimmed_iff, ← request.sayable_iff]
      exact and_assoc.symm
    | cons u s =>
      have hwritten : (Preference.string (u :: s)).written = [(u16 "developer_key", u :: s)] := rfl
      have hparams : (Preference.string (u :: s)).params = [(u16 "developer_key", u :: s)] := rfl
      rw [hwritten, hparams, request.readUrl_with_key locale (u :: s) (.inr rfl),
        forall₂_concat_iff hlength, UrlQuery.reads_trimmed_iff, ← request.sayable_iff]
      exact and_assoc.symm

theorem send_deviceFactories (_class : U16String) (answers : Answers c.Num) :
    (c.send answers (.deviceFactories _class)).1 =
      [c.url (Request.deviceFactories _class).address
        ((Request.deviceFactories _class).written c.locale.toString)] := by
  have hurl : THINGPEDIA_URL ++ (u16 "/api/devices?class=" ++ _class) =
      (Request.deviceFactories _class).address ++
        UrlQuery.question :: UrlQuery.join [(u16 "class", _class)] := rfl
  rw [send, getDeviceFactories, c.runSimpleRequest_eq (answers 0) hurl]
  rfl

def isRepeated (answers : Answers c.Num) : Bool :=
  match answers 0 with
  | some [] => ¬ u16 "en" <+: c.locale.toString
  | _ => false

theorem isRepeated_iff (answers : Answers c.Num) :
    c.isRepeated answers = true ↔ answers 0 = some [] ∧ ¬ u16 "en" <+: c.locale.toString := by
  rw [isRepeated]
  split
  · rename_i hempty
    rw [hempty, decide_eq_true_eq]
    exact (and_iff_right rfl).symm
  · rename_i hnot
    exact iff_of_false Bool.false_ne_true fun h => hnot h.1

theorem getExamples_eq {urlString english address address' : U16String}
    {first first' : U16String × U16String} {params params' : List (U16String × U16String)}
    (answers : Answers c.Num)
    (h : THINGPEDIA_URL ++ urlString =
      address ++ UrlQuery.question :: UrlQuery.join (first :: params))
    (h' : THINGPEDIA_URL ++ english =
      address' ++ UrlQuery.question :: UrlQuery.join (first' :: params')) :
    (c.getExamples urlString english answers).1 =
      c.url address (first :: params) ::
        if c.isRepeated answers then
          [c.url address' (first' :: params')]
        else [] := by
  rw [getExamples, c.runSimpleRequest_eq (answers 0) h, c.runSimpleRequest_eq (answers 1) h']
  rw [isRepeated]
  dsimp only
  cases answers 0 with
  | none => rfl
  | some examples =>
    cases examples with
    | nil =>
      by_cases hen : u16 "en" <+: c.locale.toString
      · simp [hen]
      · simp [hen]
    | cons x examples => simp

theorem send_examplesByKinds (_kind : U16String) (answers : Answers c.Num) :
    (c.send answers (.examplesByKinds _kind)).1 =
      c.url (Request.examplesByKinds _kind).address
          ((Request.examplesByKinds _kind).written c.locale.toString) ::
        if c.isRepeated answers then
          [c.url (Request.examplesByKinds _kind).address
            ((Request.examplesByKinds _kind).written (u16 "en-US"))]
        else [] := by
  have hurl : ∀ locale, THINGPEDIA_URL ++ (u16 "/api/examples/by-kinds/" ++ _kind ++
      u16 "?locale=" ++ locale ++ u16 "&base=1") =
      (Request.examplesByKinds _kind).address ++ UrlQuery.question ::
        UrlQuery.join [(u16 "locale", locale), (u16 "base", u16 "1")] := by
    intro locale
    rw [Request.address]
    simp only [List.append_assoc]
    rfl
  have henglish := hurl (u16 "en-US")
  have hjoined : u16 "/api/examples/by-kinds/" ++ _kind ++ u16 "?locale=" ++ u16 "en-US" ++
      u16 "&base=1" = u16 "/api/examples/by-kinds/" ++ _kind ++ u16 "?locale=en-US&base=1" := by
    simp only [List.append_assoc]
    rfl
  rw [hjoined] at henglish
  exact c.getExamples_eq answers (hurl c.locale.toString) henglish

def byKeyInEnglish (key : U16String) : U16String :=
  THINGPEDIA_URL ++ u16 "/api/examples/by-kinds/" ++ UrlQuery.encode key

theorem send_examplesByKey (key : U16String) (answers : Answers c.Num) :
    (c.send answers (.examplesByKey key)).1 =
      c.url (Request.examplesByKey key).address
          ((Request.examplesByKey key).written c.locale.toString) ::
        if c.isRepeated answers then
          [c.url (byKeyInEnglish key) [(u16 "locale", u16 "en-US")]]
        else [] := by
  have hurl : THINGPEDIA_URL ++ (u16 "/api/examples/?key=" ++ UrlQuery.encode key ++
      u16 "&locale=" ++ c.locale.toString) =
      (Request.examplesByKey key).address ++ UrlQuery.question ::
        UrlQuery.join [(u16 "key", UrlQuery.encode key), (u16 "locale", c.locale.toString)] := by
    rw [Request.address]
    simp only [List.append_assoc]
    rfl
  have henglish : THINGPEDIA_URL ++ (u16 "/api/examples/by-kinds/" ++ UrlQuery.encode key ++
      u16 "?locale=en-US") =
      byKeyInEnglish key ++ UrlQuery.question ::
        UrlQuery.join [(u16 "locale", u16 "en-US")] := by
    rw [byKeyInEnglish]
    simp only [List.append_assoc]
    rfl
  exact c.getExamples_eq answers hurl henglish

end Client

/-! ## Every request -/

theorem Locale.language_prefix (locale : Locale) : locale.language <+: locale.toString := by
  rw [Locale.toString]
  simp only [List.append_assoc]
  exact List.prefix_append ..

namespace Client

variable (c : Client)

theorem not_asks_byKeyInEnglish (key locale : U16String) :
    ¬ c.Asks (.examplesByKey key) locale
      (c.url (byKeyInEnglish key) [(u16 "locale", u16 "en-US")]) := by
  have hdelimiter : ∀ delimiter, delimiter ∉ THINGPEDIA_URL ++ u16 "/api/examples/by-kinds/" →
      delimiter ∉ UrlQuery.encode key → delimiter ∉ byKeyInEnglish key := by
    intro delimiter hpath hkey
    rw [byKeyInEnglish, List.mem_append, not_or]
    exact ⟨hpath, hkey⟩
  obtain ⟨path, hpath⟩ : ∃ path, byKeyInEnglish key = 0x68 :: path := ⟨_, rfl⟩
  intro h
  rw [Asks, url, hpath, UrlQuery.strip_append (by decide), ← hpath] at h
  have haddress : (Request.examplesByKey key).address = byKeyInEnglish key :=
    UrlQuery.address_of_readUrl
      ⟨hdelimiter _ (by decide) (UrlQuery.not_mem_encode rfl (by decide) (by decide) key),
        hdelimiter _ (by decide) (UrlQuery.unbroken_encode key).2⟩ h
  have hlength := congrArg List.length haddress
  rw [Request.address, byKeyInEnglish, List.length_append, List.length_append, List.length_append,
    show (u16 "/api/examples/").length = 14 from rfl,
    show (u16 "/api/examples/by-kinds/").length = 23 from rfl] at hlength
  omega

theorem says_iff_of_send {request : Request} {answers : Answers c.Num} {first : U16String}
    {more : List U16String} (h : (c.send answers request).1 = first :: more) :
    c.Says request answers ↔
      c.Asks request c.locale.toString first ∧
      (∀ retry ∈ more, c.Asks request (u16 "en-US") retry) ∧
      (request.isTranslated = true → answers 0 = some [] → c.locale.language ≠ u16 "en" →
        more ≠ []) := by
  rw [Says, h]
  constructor
  · rintro ⟨url, rest, hurls, hsays⟩
    cases hurls
    exact hsays
  · intro hsays
    exact ⟨first, more, rfl, hsays⟩

theorem sayable_iff (request : Request) (answers : Answers c.Num) :
    c.Sayable request answers ↔
      c.Asks request c.locale.toString
        (c.url request.address (request.written c.locale.toString)) ∧
      c.Repeats answers request := by
  rw [asks_url_iff]
  exact ⟨fun h => ⟨⟨h.values, h.developerKey⟩, h.repeats⟩, fun h => ⟨h.1.1, h.1.2, h.2⟩⟩

theorem retry_examplesByKinds {_kind locale : U16String}
    (h : c.Asks (.examplesByKinds _kind) locale (c.url (Request.examplesByKinds _kind).address
      ((Request.examplesByKinds _kind).written locale))) :
    c.Asks (.examplesByKinds _kind) (u16 "en-US") (c.url (Request.examplesByKinds _kind).address
      ((Request.examplesByKinds _kind).written (u16 "en-US"))) := by
  have henglish : UrlQuery.Plain (u16 "en-US") := UrlQuery.plain_of_unreserved (by decide)
  rw [asks_url_iff] at h ⊢
  exact ⟨⟨h.1.1, henglish⟩, h.2⟩

theorem sayable_of_says {request : Request} {answers : Answers c.Num}
    (h : c.Says request answers) : c.Sayable request answers := by
  rw [sayable_iff]
  cases request with
  | deviceFactories _class =>
    rw [c.says_iff_of_send (c.send_deviceFactories _class answers)] at h
    exact ⟨h.1, trivial⟩
  | examplesByKinds _kind =>
    rw [c.says_iff_of_send (c.send_examplesByKinds _kind answers)] at h
    obtain ⟨hfirst, -, hmore⟩ := h
    refine ⟨hfirst, fun hempty hlanguage => ?_⟩
    by_contra hen
    have hnot : ¬ c.isRepeated answers = true := by
      rw [isRepeated_iff]
      exact fun hrepeated => hrepeated.2 hen
    exact hmore rfl hempty hlanguage (if_neg hnot)
  | examplesByKey key =>
    rw [c.says_iff_of_send (c.send_examplesByKey key answers)] at h
    obtain ⟨hfirst, hretry, hmore⟩ := h
    refine ⟨hfirst, fun hempty => ?_⟩
    by_contra hlanguage
    by_cases hrepeated : c.isRepeated answers = true
    · rw [if_pos hrepeated] at hretry
      exact c.not_asks_byKeyInEnglish key _ (hretry _ (List.mem_singleton_self _))
    · exact hmore rfl hempty hlanguage (if_neg hrepeated)

theorem says_of_sayable {request : Request} {answers : Answers c.Num}
    (h : c.Sayable request answers) : c.Says request answers := by
  rw [sayable_iff] at h
  obtain ⟨hfirst, hrepeats⟩ := h
  cases request with
  | deviceFactories _class =>
    rw [c.says_iff_of_send (c.send_deviceFactories _class answers)]
    exact ⟨hfirst, List.forall_mem_nil _, fun htranslated => nomatch htranslated⟩
  | examplesByKinds _kind =>
    rw [c.says_iff_of_send (c.send_examplesByKinds _kind answers)]
    refine ⟨hfirst, fun retry hretry => ?_, fun _ hempty hlanguage => ?_⟩
    · split at hretry
      · rw [List.mem_singleton.mp hretry]
        exact c.retry_examplesByKinds hfirst
      · cases hretry
    · rw [if_pos ((c.isRepeated_iff answers).mpr ⟨hempty, hrepeats hempty hlanguage⟩)]
      exact List.cons_ne_nil _ _
  | examplesByKey key =>
    rw [c.says_iff_of_send (c.send_examplesByKey key answers)]
    have hnot : ¬ c.isRepeated answers = true := by
      rw [isRepeated_iff]
      rintro ⟨hempty, hen⟩
      have hprefix := c.locale.language_prefix
      rw [hrepeats hempty] at hprefix
      exact hen hprefix
    rw [if_neg hnot]
    exact ⟨hfirst, List.forall_mem_nil _, fun _ hempty hlanguage =>
      absurd (hrepeats hempty) hlanguage⟩

theorem says_iff (request : Request) (answers : Answers c.Num) :
    c.Says request answers ↔ c.Sayable request answers :=
  ⟨c.sayable_of_says, c.says_of_sayable⟩

end Client

def withoutKey : Client where
  Num := Empty
  format := AndroidSharedPreferences.Sample.format
  valueOf _ := []
  developerKey := .absent
  locale := ⟨u16 "en", u16 "US", [], [], []⟩

/-- The text `null` is sent for the key. -/
theorem not_says_withoutKey : ¬ ∀ (c : Client) request answers, c.Says request answers := by
  intro h
  have hsays := h withoutKey (.deviceFactories (u16 "light")) fun _ => none
  exact (withoutKey.sayable_of_says hsays).developerKey

end Thingpedia

end AlmondAndroid.App
