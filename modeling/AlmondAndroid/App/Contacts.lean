import AlmondAndroid.Bridge.OrgJson

/-!
# Contacts

`ContactAPI.lookup` goes through a table of the contacts provider and makes an object of each
row, and `lookupPrincipal` goes from the value of such an object back to a row. The columns of
a row are read by their numbers in the projection.
-/

namespace AlmondAndroid.App

open Library Bridge

namespace Contacts

inductive Column
  | mimetype
  | data1
  | data2
  | data4
  | displayName
  | displayNameAlternative
  | isPrimary
  | starred
  | timesContacted
  deriving DecidableEq

def phoneItemType : U16String := u16 "vnd.android.cursor.item/phone_v2"

def emailItemType : U16String := u16 "vnd.android.cursor.item/email_v2"

/-- What the contacts provider and the cursors over its tables bring, each table in the order of
its cursor. The type of a phone or an e-mail row is its second column of data. -/
structure Provider where
  Cell : Type
  getInt : Cell → Int32
  getString : Cell → Option U16String
  toLowerCase : U16String → U16String
  like : Option U16String → U16String → Bool
  data : List (Column → Cell)
  phones : List (Column → Cell)
  emails : List (Column → Cell)
  phoneLookup : U16String → List (Column → Cell)
  mimetype_ne_null : ∀ row ∈ data, getString (row .mimetype) ≠ none
  finds_phone : ∀ row ∈ data, getString (row .mimetype) = some phoneItemType →
    ∀ number, getString (row .data4) = some number → row ∈ phoneLookup number
  finds_email : ∀ row ∈ data, getString (row .mimetype) = some emailItemType → row ∈ emails

inductive Returned (α : Type)
  | exception
  | null
  | object (a : α)

/-- A string in a concatenation. -/
def valueOf : Option U16String → U16String
  | some s => s
  | none => u16 "null"

namespace Provider

variable (p : Provider)

abbrev Row : Type := Column → p.Cell

def intAt {n : Nat} (projection : Vector Column n) (row : p.Row) (i : Fin n) : Int32 :=
  p.getInt (row projection[i])

def stringAt {n : Nat} (projection : Vector Column n) (row : p.Row) (i : Fin n) :
    Option U16String :=
  p.getString (row projection[i])

/-! ## `lookupPrincipal` -/

def principalProjection : Vector Column 2 := #v[.data2, .displayName]

def firstContact (scheme key : U16String) : List p.Row → Option (JSONObject Int32)
  | [] => none
  | row :: _ =>
    let obj := JSONObject.put [] (u16 "value") (.string (scheme ++ key))
    let obj := obj.put (u16 "type") (.number (p.intAt principalProjection row 0))
    some (obj.putString (u16 "displayName") (p.stringAt principalProjection row 1))

def lookupPhone (phoneNumber : U16String) : Option (JSONObject Int32) :=
  p.firstContact (u16 "phone:") phoneNumber (p.phoneLookup phoneNumber)

def emailLookup (email : U16String) : List p.Row :=
  p.emails.filter fun row => p.getString (row .data1) = some email

def lookupEmail (email : U16String) : Option (JSONObject Int32) :=
  p.firstContact (u16 "email:") email (p.emailLookup email)

def lookupPrincipal (principal : U16String) : Option (JSONObject Int32) :=
  if u16 "phone:" <+: principal then p.lookupPhone (principal.drop (u16 "phone:").length)
  else if u16 "email:" <+: principal then p.lookupEmail (principal.drop (u16 "email:").length)
  else none

/-! ## `lookup` -/

def projection : Vector Column 9 :=
  #v[.mimetype, .data1, .data2, .data4, .displayName, .displayNameAlternative, .isPrimary,
    .starred, .timesContacted]

def value (dataType : U16String) (row : p.Row) : Returned (Option U16String) :=
  if dataType = u16 "phone_number" then .object (p.stringAt projection row 3)
  else if dataType = u16 "email_address" then .object (p.stringAt projection row 1)
  else if dataType = u16 "contact" then
    match p.stringAt projection row 0 with
    | none => .exception
    | some mimeType =>
      if mimeType = phoneItemType then
        .object (some (u16 "phone:" ++ valueOf (p.stringAt projection row 3)))
      else if mimeType = emailItemType then
        .object (some (u16 "email:" ++ valueOf (p.stringAt projection row 1)))
      else .null
  else .exception

def contactWith (value : Option U16String) (row : p.Row) : JSONObject Int32 :=
  let obj := JSONObject.putString [] (u16 "value") value
  let obj := obj.put (u16 "type") (.number (p.intAt projection row 1))
  let obj := obj.putString (u16 "displayName") (p.stringAt projection row 4)
  let obj := obj.putString (u16 "alternativeDisplayName") (p.stringAt projection row 5)
  let obj := obj.put (u16 "isPrimary") (.boolean (p.intAt projection row 6 ≠ 0))
  let obj := obj.put (u16 "starred") (.boolean (p.intAt projection row 7 ≠ 0))
  obj.put (u16 "timesContacted") (.number (p.intAt projection row 8))

def contactToJson (dataType : U16String) (row : p.Row) : Returned (JSONObject Int32) :=
  match p.value dataType row with
  | .exception => .exception
  | .null => .null
  | .object value => .object (p.contactWith value row)

/-- The selection. `and` binds more tightly than `or`. -/
def selects (search : U16String) (row : p.Row) : Bool :=
  let pattern := u16 "%" ++ p.toLowerCase search ++ u16 "%"
  p.like (p.getString (row .displayName)) pattern ||
    p.like (p.getString (row .displayNameAlternative)) pattern &&
      (p.getString (row .mimetype) = some emailItemType ||
        p.getString (row .mimetype) = some phoneItemType)

def table (dataType : U16String) : Option (List p.Row) :=
  if dataType = u16 "phone_number" then some p.phones
  else if dataType = u16 "email_address" then some p.emails
  else if dataType = u16 "contact" then some p.data
  else none

/-- The loop over the cursor; `none` is an exception. -/
def marshal (dataType : U16String) : List p.Row → JSONArray Int32 → Option (JSONArray Int32)
  | [], ret => some ret
  | row :: rows, ret =>
    match p.contactToJson dataType row with
    | .exception => none
    | .null => marshal dataType rows ret
    | .object obj => marshal dataType rows (ret ++ [.object obj])

def lookup (dataType search : U16String) : Option (JSONArray Int32) :=
  match p.table dataType with
  | none => none
  | some table => p.marshal dataType (table.filter (p.selects search)) []

/-! ## Search and lookup -/

def isContact (row : p.Row) : Bool :=
  p.getString (row .mimetype) = some phoneItemType ||
    p.getString (row .mimetype) = some emailItemType

/-- What the search finds is found again under its value, with the same type and name. -/
def FoundAgain (result : JsonTree Int32) : Prop :=
  ∃ o value contact, result = .object o ∧ JSONObject.opt o (u16 "value") = some (.string value) ∧
    p.lookupPrincipal value = some contact ∧
    contact.opt (u16 "type") = JSONObject.opt o (u16 "type") ∧
    contact.opt (u16 "displayName") = JSONObject.opt o (u16 "displayName")

def ResultOf (row : p.Row) (result : JsonTree Int32) : Prop :=
  ∃ o, p.contactToJson (u16 "contact") row = .object o ∧ result = .object o

/-- The results are those of the phone and e-mail rows that the search matches, in their order,
and each is found again. -/
def Agrees (search : U16String) : Prop :=
  ∃ results, p.lookup (u16 "contact") search = some results ∧
    List.Forall₂ p.ResultOf
      (p.data.filter fun row => p.isContact row && p.selects search row) results ∧
    ∀ result ∈ results, p.FoundAgain result

/-- The number or address in the row, read as an integer, is the type of the other row, and the
name is the same. -/
def SameContact (row first : p.Row) : Prop :=
  p.getInt (first .data2) = p.getInt (row .data1) ∧
    p.getString (first .displayName) = p.getString (row .displayName)

/-- The first row under the key is such a row. Without a key there has to be one under the
text `null`. -/
def Leads (lookup : U16String → List p.Row) (key : Option U16String) (row : p.Row) : Prop :=
  (key = none → lookup (u16 "null") ≠ []) ∧
    ∀ first ∈ (lookup (valueOf key)).head?, p.SameContact row first

def Consistent (search : U16String) : Prop :=
  ∀ row ∈ p.data, p.selects search row = true →
    (p.getString (row .mimetype) = some phoneItemType →
      p.Leads p.phoneLookup (p.getString (row .data4)) row) ∧
    (p.getString (row .mimetype) = some emailItemType →
      p.Leads p.emailLookup (p.getString (row .data1)) row)

/-! ## The objects -/

section

variable {p}

theorem contactWith_value (value : Option U16String) (row : p.Row) :
    (p.contactWith value row).opt (u16 "value") = value.map .string := by
  dsimp only [contactWith]
  simp only [JSONObject.opt_put, JSONObject.opt_putString]
  rfl

theorem contactWith_type (value : Option U16String) (row : p.Row) :
    (p.contactWith value row).opt (u16 "type") = some (.number (p.getInt (row .data1))) := by
  dsimp only [contactWith]
  simp only [JSONObject.opt_put, JSONObject.opt_putString]
  rfl

theorem contactWith_displayName (value : Option U16String) (row : p.Row) :
    (p.contactWith value row).opt (u16 "displayName") =
      (p.getString (row .displayName)).map .string := by
  dsimp only [contactWith]
  simp only [JSONObject.opt_put, JSONObject.opt_putString]
  rfl

theorem firstContact_cons (scheme key : U16String) (first : p.Row) (cursor : List p.Row) :
    ∃ contact, p.firstContact scheme key (first :: cursor) = some contact ∧
      contact.opt (u16 "type") = some (.number (p.getInt (first .data2))) ∧
      contact.opt (u16 "displayName") = (p.getString (first .displayName)).map .string := by
  refine ⟨_, rfl, ?_, ?_⟩
  · simp only [JSONObject.opt_put, JSONObject.opt_putString]
    rfl
  · simp only [JSONObject.opt_put, JSONObject.opt_putString]
    rfl

theorem firstContact_iff (scheme key : U16String) (value : Option U16String)
    (cursor : List p.Row) (row : p.Row) :
    (∃ contact, p.firstContact scheme key cursor = some contact ∧
      contact.opt (u16 "type") = (p.contactWith value row).opt (u16 "type") ∧
      contact.opt (u16 "displayName") = (p.contactWith value row).opt (u16 "displayName")) ↔
    ∃ first, cursor.head? = some first ∧ p.SameContact row first := by
  rw [contactWith_type, contactWith_displayName]
  cases cursor with
  | nil =>
    constructor
    · rintro ⟨contact, hcontact, -⟩
      cases hcontact
    · rintro ⟨first, hfirst, -⟩
      cases hfirst
  | cons first cursor =>
    obtain ⟨found, hfound, htype, hname⟩ := firstContact_cons scheme key first cursor
    rw [hfound, List.head?_cons]
    constructor
    · rintro ⟨contact, hcontact, hsametype, hsamename⟩
      cases hcontact
      rw [htype] at hsametype
      rw [hname] at hsamename
      refine ⟨first, rfl, ?_, ?_⟩
      · exact JsonTree.number.inj (Option.some.inj hsametype)
      · exact Option.map_injective (fun _ _ h => JsonTree.string.inj h) hsamename
    · rintro ⟨same, hsame, hsametype, hsamename⟩
      cases hsame
      refine ⟨found, rfl, ?_, ?_⟩
      · rw [htype, hsametype]
      · rw [hname, hsamename]

theorem lookupPrincipal_phone (phoneNumber : U16String) :
    p.lookupPrincipal (u16 "phone:" ++ phoneNumber) = p.lookupPhone phoneNumber := by
  rw [lookupPrincipal, if_pos (List.prefix_append ..), List.drop_left]

theorem lookupPrincipal_email (email : U16String) :
    p.lookupPrincipal (u16 "email:" ++ email) = p.lookupEmail email := by
  have hphone : ¬ u16 "phone:" <+: u16 "email:" ++ email := by
    intro h
    exact absurd (List.cons_prefix_cons.mp h).1 (by decide)
  rw [lookupPrincipal, if_neg hphone, if_pos (List.prefix_append ..), List.drop_left]

theorem foundAgain_iff (value : U16String) (row : p.Row) :
    p.FoundAgain (.object (p.contactWith (some value) row)) ↔
      ∃ contact, p.lookupPrincipal value = some contact ∧
        contact.opt (u16 "type") = (p.contactWith (some value) row).opt (u16 "type") ∧
        contact.opt (u16 "displayName") =
          (p.contactWith (some value) row).opt (u16 "displayName") := by
  have hvalue := contactWith_value (some value) row
  constructor
  · rintro ⟨o, named, contact, ho, hnamed, hfound, htype, hname⟩
    cases ho
    rw [hvalue] at hnamed
    cases hnamed
    exact ⟨contact, hfound, htype, hname⟩
  · rintro ⟨contact, hfound, htype, hname⟩
    exact ⟨_, value, contact, rfl, hvalue, hfound, htype, hname⟩

theorem leads_iff {lookup : U16String → List p.Row} {key : Option U16String} {row : p.Row}
    (hfinds : ∀ k, key = some k → lookup k ≠ []) :
    p.Leads lookup key row ↔
      ∃ first, (lookup (valueOf key)).head? = some first ∧ p.SameContact row first := by
  constructor
  · rintro ⟨hnull, hfirst⟩
    have hne : lookup (valueOf key) ≠ [] := by
      cases key with
      | none => exact hnull rfl
      | some k => exact hfinds k rfl
    exact ⟨_, List.head?_eq_some_head hne, hfirst _ (List.head?_eq_some_head hne)⟩
  · rintro ⟨first, hhead, hsame⟩
    refine ⟨?_, fun other hother => ?_⟩
    · rintro rfl hempty
      rw [valueOf, hempty] at hhead
      cases hhead
    · rw [hhead] at hother
      cases hother
      exact hsame

/-! ## The rows -/

theorem contactToJson_phone {row : p.Row}
    (h : p.getString (row .mimetype) = some phoneItemType) :
    p.contactToJson (u16 "contact") row =
      .object (p.contactWith (some (u16 "phone:" ++ valueOf (p.getString (row .data4)))) row) := by
  have hmime : p.stringAt projection row 0 = some phoneItemType := h
  rw [contactToJson, value, if_neg (by decide), if_neg (by decide), if_pos rfl, hmime]
  dsimp only
  rw [if_pos rfl]
  rfl

theorem contactToJson_email {row : p.Row}
    (h : p.getString (row .mimetype) = some emailItemType) :
    p.contactToJson (u16 "contact") row =
      .object (p.contactWith (some (u16 "email:" ++ valueOf (p.getString (row .data1)))) row) := by
  have hmime : p.stringAt projection row 0 = some emailItemType := h
  rw [contactToJson, value, if_neg (by decide), if_neg (by decide), if_pos rfl, hmime]
  dsimp only
  rw [if_neg (by decide), if_pos rfl]
  rfl

theorem contactToJson_other {row : p.Row} (hnull : p.getString (row .mimetype) ≠ none)
    (hphone : p.getString (row .mimetype) ≠ some phoneItemType)
    (hemail : p.getString (row .mimetype) ≠ some emailItemType) :
    p.contactToJson (u16 "contact") row = .null := by
  obtain ⟨mimeType, hmimeType⟩ := Option.ne_none_iff_exists'.mp hnull
  have hmime : p.stringAt projection row 0 = some mimeType := hmimeType
  rw [hmimeType] at hphone hemail
  rw [contactToJson, value, if_neg (by decide), if_neg (by decide), if_pos rfl, hmime]
  dsimp only
  rw [if_neg fun heq => hphone (congrArg some heq), if_neg fun heq => hemail (congrArg some heq)]

theorem isContact_iff {row : p.Row} :
    p.isContact row = true ↔ p.getString (row .mimetype) = some phoneItemType ∨
      p.getString (row .mimetype) = some emailItemType := by
  rw [isContact, Bool.or_eq_true, decide_eq_true_eq, decide_eq_true_eq]

theorem contactToJson_of_isContact {row : p.Row} (h : p.isContact row = true) :
    ∃ o, p.contactToJson (u16 "contact") row = .object o := by
  rcases isContact_iff.mp h with hphone | hemail
  · exact ⟨_, contactToJson_phone hphone⟩
  · exact ⟨_, contactToJson_email hemail⟩

theorem marshal_contact (rows : List p.Row) :
    (∀ row ∈ rows, p.getString (row .mimetype) ≠ none) → ∀ ret, ∃ results,
      p.marshal (u16 "contact") rows ret = some (ret ++ results) ∧
        List.Forall₂ p.ResultOf (rows.filter p.isContact) results := by
  induction rows with
  | nil => exact fun _ ret => ⟨[], by rw [List.append_nil, marshal], .nil⟩
  | cons row rows ih =>
    intro hmime ret
    have hrest := ih fun r hr => hmime r (List.mem_cons_of_mem _ hr)
    rw [marshal]
    by_cases hcontact : p.isContact row = true
    · obtain ⟨o, ho⟩ := contactToJson_of_isContact hcontact
      obtain ⟨results, hresults, hforall⟩ := hrest (ret ++ [.object o])
      refine ⟨.object o :: results, ?_, ?_⟩
      · rw [ho]
        dsimp only
        rw [hresults, List.append_assoc, List.singleton_append]
      · rw [List.filter_cons_of_pos hcontact]
        exact .cons ⟨o, ho, rfl⟩ hforall
    · obtain ⟨hphone, hemail⟩ := not_or.mp (mt isContact_iff.mpr hcontact)
      obtain ⟨results, hresults, hforall⟩ := hrest ret
      refine ⟨results, ?_, ?_⟩
      · rw [contactToJson_other (hmime row (List.mem_cons_self ..)) hphone hemail]
        exact hresults
      · rw [List.filter_cons_of_neg hcontact]
        exact hforall

theorem foundAgain_results {rows : List p.Row} {results : List (JsonTree Int32)}
    (h : List.Forall₂ p.ResultOf rows results) :
    (∀ result ∈ results, p.FoundAgain result) ↔
      ∀ row ∈ rows, ∀ o, p.contactToJson (u16 "contact") row = .object o →
        p.FoundAgain (.object o) := by
  induction h with
  | nil => exact iff_of_true (List.forall_mem_nil _) (List.forall_mem_nil _)
  | cons hresult _ ih =>
    obtain ⟨o, ho, rfl⟩ := hresult
    rw [List.forall_mem_cons, List.forall_mem_cons, ih]
    refine and_congr_left fun _ => ⟨fun hfound other hother => ?_, fun hall => hall o ho⟩
    rw [ho] at hother
    cases hother
    exact hfound

theorem foundAgain_of_lookup {row : p.Row} {scheme : U16String} {key : Option U16String}
    {cursor : U16String → List p.Row}
    (hjson : p.contactToJson (u16 "contact") row =
      .object (p.contactWith (some (scheme ++ valueOf key)) row))
    (hlookup : ∀ k, p.lookupPrincipal (scheme ++ k) = p.firstContact scheme k (cursor k))
    (hfinds : ∀ k, key = some k → cursor k ≠ []) :
    (∀ o, p.contactToJson (u16 "contact") row = .object o → p.FoundAgain (.object o)) ↔
      p.Leads cursor key row := by
  have hfound := foundAgain_iff (scheme ++ valueOf key) row
  rw [hlookup] at hfound
  rw [leads_iff hfinds, hjson, ← firstContact_iff scheme _ _ _ row]
  constructor
  · intro hall
    exact hfound.mp (hall _ rfl)
  · intro hleads o ho
    cases ho
    exact hfound.mpr hleads

theorem foundAgain_phone {row : p.Row} (hrow : row ∈ p.data)
    (h : p.getString (row .mimetype) = some phoneItemType) :
    (∀ o, p.contactToJson (u16 "contact") row = .object o → p.FoundAgain (.object o)) ↔
      p.Leads p.phoneLookup (p.getString (row .data4)) row := by
  apply foundAgain_of_lookup (contactToJson_phone h) lookupPrincipal_phone
  intro number hnumber
  exact List.ne_nil_of_mem (p.finds_phone row hrow h number hnumber)

theorem foundAgain_email {row : p.Row} (hrow : row ∈ p.data)
    (h : p.getString (row .mimetype) = some emailItemType) :
    (∀ o, p.contactToJson (u16 "contact") row = .object o → p.FoundAgain (.object o)) ↔
      p.Leads p.emailLookup (p.getString (row .data1)) row := by
  apply foundAgain_of_lookup (contactToJson_email h) lookupPrincipal_email
  intro email hemail
  exact List.ne_nil_of_mem
    (List.mem_filter.mpr ⟨p.finds_email row hrow h, decide_eq_true hemail⟩)

end

/-! ## Every row -/

theorem consistent_iff (search : U16String) :
    p.Consistent search ↔
      ∀ row ∈ p.data.filter fun row => p.isContact row && p.selects search row,
        ∀ o, p.contactToJson (u16 "contact") row = .object o → p.FoundAgain (.object o) := by
  have hmem : ∀ row, row ∈ (p.data.filter fun row => p.isContact row && p.selects search row) ↔
      row ∈ p.data ∧ p.isContact row = true ∧ p.selects search row = true := by
    intro row
    rw [List.mem_filter, Bool.and_eq_true]
  constructor
  · intro h row hrow
    obtain ⟨hdata, hcontact, hselects⟩ := (hmem row).mp hrow
    obtain ⟨hphone, hemail⟩ := h row hdata hselects
    rcases isContact_iff.mp hcontact with hmime | hmime
    · exact (foundAgain_phone hdata hmime).mpr (hphone hmime)
    · exact (foundAgain_email hdata hmime).mpr (hemail hmime)
  · intro h row hdata hselects
    refine ⟨fun hmime => (foundAgain_phone hdata hmime).mp ?_,
      fun hmime => (foundAgain_email hdata hmime).mp ?_⟩
    · exact h row ((hmem row).mpr ⟨hdata, isContact_iff.mpr (.inl hmime), hselects⟩)
    · exact h row ((hmem row).mpr ⟨hdata, isContact_iff.mpr (.inr hmime), hselects⟩)

theorem lookup_contact (search : U16String) :
    ∃ results, p.lookup (u16 "contact") search = some results ∧
      List.Forall₂ p.ResultOf
        (p.data.filter fun row => p.isContact row && p.selects search row) results := by
  have htable : p.table (u16 "contact") = some p.data := by
    rw [table, if_neg (by decide), if_neg (by decide), if_pos rfl]
  obtain ⟨results, hresults, hforall⟩ := marshal_contact (p.data.filter (p.selects search))
    (fun row hrow => p.mimetype_ne_null row (List.mem_of_mem_filter hrow)) []
  refine ⟨results, ?_, ?_⟩
  · rw [lookup, htable]
    exact hresults
  · rw [List.filter_filter] at hforall
    exact hforall

theorem consistent_of_agrees {search : U16String} (h : p.Agrees search) : p.Consistent search := by
  obtain ⟨results, -, hforall, hfound⟩ := h
  exact (p.consistent_iff search).mpr ((foundAgain_results hforall).mp hfound)

theorem search_agrees_iff (search : U16String) : p.Agrees search ↔ p.Consistent search := by
  refine ⟨p.consistent_of_agrees, fun h => ?_⟩
  obtain ⟨results, hresults, hforall⟩ := p.lookup_contact search
  exact ⟨results, hresults, hforall,
    (foundAgain_results hforall).mpr ((p.consistent_iff search).mp h)⟩

end Provider

/-! ## One contact -/

namespace Sample

def leadingInt (text : U16String) : Int32 :=
  (text.takeWhile fun c => 0x30 ≤ c && c ≤ 0x39).foldl
    (fun n c => 10 * n + Int32.ofNat (c.toNat - 48)) 0

def row : Column → Option U16String
  | .mimetype => some emailItemType
  | .data1 => some (u16 "ann@example.com")
  | .data2 => some (u16 "1")
  | .data4 => none
  | .displayName => some (u16 "Ann")
  | .displayNameAlternative => some (u16 "Ann")
  | .isPrimary => some (u16 "0")
  | .starred => some (u16 "0")
  | .timesContacted => some (u16 "0")

/-- The pattern of the empty search matches every text. -/
def provider : Provider where
  Cell := Option U16String
  getInt cell := (cell.map leadingInt).getD 0
  getString cell := cell
  toLowerCase s := s
  like text _ := text.isSome
  data := [row]
  phones := []
  emails := [row]
  phoneLookup _ := []
  mimetype_ne_null := by
    intro r hr
    rw [List.mem_singleton.mp hr]
    exact Option.some_ne_none _
  finds_phone := by
    intro r hr h
    rw [List.mem_singleton.mp hr] at h
    exact absurd h (by decide)
  finds_email := fun _ hr _ => hr

end Sample

/-- The address is read as the type 0, and the type is 1. -/
theorem not_agrees_homeAddress : ¬ ∀ (p : Provider) search, p.Agrees search := by
  intro h
  have hrow := Sample.provider.consistent_of_agrees (h Sample.provider [])
  have hleads := (hrow Sample.row (List.mem_singleton_self _) rfl).2 rfl
  exact absurd (hleads.2 Sample.row rfl).1 (by decide)

end Contacts

end AlmondAndroid.App
