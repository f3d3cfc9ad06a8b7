import AlmondAndroid.Library.PlainObject
import AlmondAndroid.Bridge.Values

/-!
# The translations of a locale

`PlatformAPI` decides by the language whether the locale of the device is supported, and gives
its language tag to JavaScript. There `init` looks for the translations under the subtags of
the tag and drops the last subtag as long as it does not find any.
-/

namespace AlmondAndroid.App

open Library Bridge

namespace Locales

def isAlphanumeric (c : UInt16) : Bool :=
  (0x30 ≤ c && c ≤ 0x39) || (0x41 ≤ c && c ≤ 0x5a) || (0x61 ≤ c && c ≤ 0x7a)

/-- The language of a `java.util.Locale`, and the subtags for its script, region, variants and
extensions. -/
structure Locale where
  language : U16String
  subtags : List U16String
  wellFormed : ∀ subtag ∈ subtags, subtag ≠ [] ∧ ∀ c ∈ subtag, isAlphanumeric c = true

/-! ## `PlatformAPI` -/

def Locale.parts (locale : Locale) : List U16String := locale.language :: locale.subtags

def hyphen : UInt16 := 0x2d

def underscore : UInt16 := 0x5f

/-- `Locale.toLanguageTag` of `java.util`, for a language that is given. -/
def Locale.toLanguageTag (locale : Locale) : U16String := [hyphen].intercalate locale.parts

def isSupported (language : U16String) : Bool :=
  language = u16 "en" || language = u16 "it" || language = u16 "zh"

def getLocale (locale : Locale) : U16String :=
  if isSupported locale.language then locale.toLanguageTag else u16 "en-US"

/-! ## `platform.js` -/

/-- The entries, with the domains of their translations. -/
def _locales : U16String → Option (List U16String) := fun key =>
  if key = u16 "zh_CN" then some [u16 "almond", u16 "thingengine-core"]
  else if key = u16 "it" then some [u16 "almond", u16 "thingengine-core", u16 "thingtalk"]
  else none

def prototype : Prototype U16String (List U16String) := PlainObject.objectPrototype u16 fun _ => []

/-- `[-_.@]` -/
def isSeparator (c : UInt16) : Bool := c = hyphen || c = underscore || c = 0x2e || c = 0x40

def join (locale : List U16String) : U16String := [underscore].intercalate locale

def find (locale : List U16String) : Option (List U16String) :=
  PlainObject.get prototype _locales (join locale)

/-- The loop. Its array is given from the last element on, so that `pop` drops the head. -/
def fallback : List U16String → List U16String
  | [] => []
  | last :: rest => if (find (last :: rest).reverse).isSome then last :: rest else fallback rest

def init (tag : U16String) : Option (U16String × List U16String) :=
  let locale := (fallback (tag.splitOnP isSeparator).reverse).reverse
  if locale.length ≠ 0 then (find locale).map fun domains => (join locale, domains) else none

/-- The entry is selected whose key is the longest prefix of the subtags, and there is one,
with some translations in it. -/
def Translated (locale : Locale) : Prop :=
  ∃ parts domains, parts <+: locale.parts ∧ _locales (join parts) = some domains ∧
    domains ≠ [] ∧
    (∀ others, others <+: locale.parts → (_locales (join others)).isSome →
      others.length ≤ parts.length) ∧
    init (getLocale locale) = some (join parts, domains)

/-- The language is Italian, or it is Chinese and the region of China follows it. -/
def HasEntry (locale : Locale) : Prop :=
  locale.language = u16 "it" ∨
    locale.language = u16 "zh" ∧ locale.subtags.head? = some (u16 "CN")

/-! ## The loop -/

theorem fallback_prefix (parts : List U16String) :
    (fallback parts.reverse).reverse <+: parts := by
  induction parts using List.reverseRecOn with
  | nil => exact List.prefix_refl []
  | append_singleton parts last ih =>
    rw [List.reverse_append, List.reverse_singleton, List.singleton_append, fallback]
    split
    · have hwhole : (last :: parts.reverse).reverse = parts ++ [last] := by
        rw [List.reverse_cons, List.reverse_reverse]
      exact hwhole ▸ List.prefix_refl _
    · exact ih.trans (List.prefix_append _ _)

theorem find_fallback (parts : List U16String) (h : (fallback parts.reverse).reverse ≠ []) :
    (find (fallback parts.reverse).reverse).isSome := by
  induction parts using List.reverseRecOn with
  | nil => exact absurd rfl h
  | append_singleton parts last ih =>
    rw [List.reverse_append, List.reverse_singleton, List.singleton_append, fallback] at h ⊢
    split at h
    · rename_i hfound
      rw [if_pos hfound]
      exact hfound
    · rename_i hfound
      rw [if_neg hfound]
      exact ih h

theorem length_le_fallback (parts : List U16String) :
    ∀ others, others <+: parts → (find others).isSome →
      others.length ≤ (fallback parts.reverse).reverse.length := by
  induction parts using List.reverseRecOn with
  | nil =>
    intro others hprefix _
    exact hprefix.length_le
  | append_singleton parts last ih =>
    intro others hprefix hfound
    rw [List.reverse_append, List.reverse_singleton, List.singleton_append, fallback]
    split
    · rw [List.reverse_cons, List.reverse_reverse]
      exact hprefix.length_le
    · rename_i hmissing
      rcases List.prefix_concat_iff.mp hprefix with rfl | hprefix
      · rw [List.reverse_cons, List.reverse_reverse] at hmissing
        exact absurd hfound hmissing
      · exact ih others hprefix hfound

/-! ## The tag and the keys -/

theorem splitOnP_intercalate {p : UInt16 → Bool} {separator : UInt16} (hp : p separator = true) :
    ∀ l : List U16String, l ≠ [] → (∀ part ∈ l, ∀ c ∈ part, p c = false) →
      ([separator].intercalate l).splitOnP p = l := by
  intro l hne hparts
  induction l with
  | nil => exact absurd rfl hne
  | cons part rest ih =>
    have hpart := hparts part (List.mem_cons_self ..)
    cases rest with
    | nil =>
      rw [List.intercalate_singleton]
      exact List.splitOnP_eq_singleton hpart
    | cons next rest =>
      rw [List.intercalate_cons_cons, List.append_assoc, List.singleton_append,
        List.splitOnP_append_cons_of_forall_mem hpart separator hp,
        ih (List.cons_ne_nil _ _) fun other hother => hparts other (List.mem_cons_of_mem _ hother)]

theorem isSeparator_of_isAlphanumeric {c : UInt16} (h : isAlphanumeric c = true) :
    isSeparator c = false := by
  by_contra hc
  rw [Bool.not_eq_false, isSeparator, Bool.or_eq_true, Bool.or_eq_true, Bool.or_eq_true,
    decide_eq_true_eq, decide_eq_true_eq, decide_eq_true_eq, decide_eq_true_eq] at hc
  rcases hc with ((rfl | rfl) | rfl) | rfl
  · exact absurd h (by decide)
  · exact absurd h (by decide)
  · exact absurd h (by decide)
  · exact absurd h (by decide)

theorem language_cases {language : U16String} (hsupported : isSupported language = true)
    (hlanguage : language ≠ u16 "en") : language = u16 "it" ∨ language = u16 "zh" := by
  rw [isSupported, Bool.or_eq_true, Bool.or_eq_true, decide_eq_true_eq, decide_eq_true_eq,
    decide_eq_true_eq] at hsupported
  rcases hsupported with (hen | hit) | hzh
  · exact absurd hen hlanguage
  · exact .inl hit
  · exact .inr hzh

section

variable {locale : Locale} (hlanguage : locale.language = u16 "it" ∨ locale.language = u16 "zh")
include hlanguage

theorem isAlphanumeric_parts : ∀ part ∈ locale.parts, ∀ c ∈ part, isAlphanumeric c = true := by
  intro part hpart
  rcases List.mem_cons.mp hpart with rfl | hpart
  · rcases hlanguage with h | h
    · rw [h]
      exact List.all_eq_true.mp rfl
    · rw [h]
      exact List.all_eq_true.mp rfl
  · exact (locale.wellFormed part hpart).2

theorem split_getLocale : (getLocale locale).splitOnP isSeparator = locale.parts := by
  have hsupported : isSupported locale.language = true := by
    rcases hlanguage with h | h
    · rw [h]
      decide
    · rw [h]
      decide
  rw [getLocale, if_pos hsupported]
  exact splitOnP_intercalate (by decide) _ (List.cons_ne_nil _ _) fun part hpart c hc =>
    isSeparator_of_isAlphanumeric (isAlphanumeric_parts hlanguage part hpart c hc)

theorem join_eq_iff {parts key : List U16String} (hparts : parts <+: locale.parts)
    (hkey : key ≠ []) (hunderscore : ∀ part ∈ key, underscore ∉ part) (hne : parts ≠ []) :
    join parts = join key ↔ parts = key := by
  constructor
  · intro h
    have hmem : ∀ part ∈ parts, underscore ∉ part := by
      intro part hpart hc
      exact absurd (isAlphanumeric_parts hlanguage part (hparts.subset hpart) _ hc) (by decide)
    rw [← List.splitOn_intercalate underscore hmem hne,
      ← List.splitOn_intercalate underscore hunderscore hkey]
    exact congrArg (List.splitOn underscore) h
  · rintro rfl
    rfl

theorem not_inherited {parts : List U16String} (hparts : parts <+: locale.parts) :
    join parts ∉ PlainObject.inheritedNames.map u16 := by
  cases parts with
  | nil => decide
  | cons part rest =>
    have hhead : part = locale.language := (List.cons_prefix_cons.mp hparts).1
    have hprefix : locale.language <+: join (part :: rest) := by
      rw [← hhead, join]
      cases rest with
      | nil => exact ⟨[], (List.append_nil _).trans List.intercalate_singleton.symm⟩
      | cons next rest =>
        rw [List.intercalate_cons_cons, List.append_assoc]
        exact List.prefix_append _ _
    have hnames : ∀ name ∈ PlainObject.inheritedNames.map u16,
        ¬u16 "it" <+: name ∧ ¬u16 "zh" <+: name := by decide
    intro hmem
    rcases hlanguage with h | h
    · exact (hnames _ hmem).1 (h ▸ hprefix)
    · exact (hnames _ hmem).2 (h ▸ hprefix)

theorem find_eq {parts : List U16String} (hparts : parts <+: locale.parts) :
    find parts = _locales (join parts) :=
  PlainObject.get_of_not_inherited (not_inherited hlanguage hparts)

end

/-! ## The entries -/

theorem _locales_eq_some {key : U16String} {domains : List U16String}
    (h : _locales key = some domains) :
    (key = u16 "zh_CN" ∨ key = u16 "it") ∧ domains ≠ [] := by
  rw [_locales] at h
  split at h
  · rename_i hkey
    cases h
    exact ⟨.inl hkey, List.cons_ne_nil _ _⟩
  · split at h
    · rename_i hkey
      cases h
      exact ⟨.inr hkey, List.cons_ne_nil _ _⟩
    · cases h

section

variable {locale : Locale} (hlanguage : locale.language = u16 "it" ∨ locale.language = u16 "zh")
include hlanguage

theorem entry_iff {parts : List U16String} (hparts : parts <+: locale.parts) :
    (_locales (join parts)).isSome ↔ parts = [u16 "it"] ∨ parts = [u16 "zh", u16 "CN"] := by
  constructor
  · intro h
    obtain ⟨domains, hdomains⟩ := Option.isSome_iff_exists.mp h
    have hne : parts ≠ [] := by
      rintro rfl
      rcases (_locales_eq_some hdomains).1 with hkey | hkey
      · exact absurd hkey (by decide)
      · exact absurd hkey (by decide)
    rcases (_locales_eq_some hdomains).1 with hkey | hkey
    · exact .inr ((join_eq_iff hlanguage hparts (List.cons_ne_nil _ _) (by decide) hne).mp
        (hkey.trans (by decide)))
    · exact .inl ((join_eq_iff hlanguage hparts (List.cons_ne_nil _ _) (by decide) hne).mp
        (hkey.trans (by decide)))
  · rintro (rfl | rfl)
    · decide
    · decide

theorem hasEntry_iff :
    HasEntry locale ↔ ∃ parts, parts <+: locale.parts ∧ (_locales (join parts)).isSome := by
  constructor
  · rintro (hit | ⟨hzh, hregion⟩)
    · refine ⟨[u16 "it"], ?_, by decide⟩
      rw [Locale.parts, hit]
      exact ⟨locale.subtags, rfl⟩
    · obtain ⟨rest, hrest⟩ := List.head?_eq_some_iff.mp hregion
      refine ⟨[u16 "zh", u16 "CN"], ?_, by decide⟩
      rw [Locale.parts, hzh, hrest]
      exact ⟨rest, rfl⟩
  · rintro ⟨parts, hparts, hentry⟩
    rcases (entry_iff hlanguage hparts).mp hentry with rfl | rfl
    · exact .inl (List.cons_prefix_cons.mp hparts).1.symm
    · obtain ⟨hzh, hrest⟩ := List.cons_prefix_cons.mp hparts
      obtain ⟨rest, hrest⟩ := hrest
      refine .inr ⟨hzh.symm, ?_⟩
      rw [← hrest]
      rfl

theorem translated_of_entry {parts : List U16String} (hparts : parts <+: locale.parts)
    (hentry : (_locales (join parts)).isSome) : Translated locale := by
  have hleft := fallback_prefix locale.parts
  have hlonger := length_le_fallback locale.parts
  have hfound := find_fallback locale.parts
  have hinit : init (getLocale locale) =
      if (fallback locale.parts.reverse).reverse.length ≠ 0 then
        (find (fallback locale.parts.reverse).reverse).map fun domains =>
          (join (fallback locale.parts.reverse).reverse, domains)
      else none := by
    rw [init, split_getLocale hlanguage]
  have hlength : 1 ≤ (fallback locale.parts.reverse).reverse.length := by
    refine Nat.le_trans ?_ (hlonger parts hparts (by rw [find_eq hlanguage hparts]; exact hentry))
    rcases (entry_iff hlanguage hparts).mp hentry with rfl | rfl
    · decide
    · decide
  generalize (fallback locale.parts.reverse).reverse = left at hleft hlonger hfound hinit hlength
  rw [find_eq hlanguage hleft] at hfound hinit
  have hne : left ≠ [] := List.length_pos_iff.mp hlength
  obtain ⟨domains, hdomains⟩ := Option.isSome_iff_exists.mp (hfound hne)
  refine ⟨left, domains, hleft, hdomains, (_locales_eq_some hdomains).2, ?_, ?_⟩
  · intro others hothers hentry
    exact hlonger others hothers (by rw [find_eq hlanguage hothers]; exact hentry)
  · rw [hinit, if_pos (by omega), hdomains]
    rfl

end

/-- Translations are found exactly for Italian and for Chinese with the region of China right
after the language. -/
theorem translated_iff (locale : Locale) (hsupported : isSupported locale.language = true)
    (hlanguage : locale.language ≠ u16 "en") : Translated locale ↔ HasEntry locale := by
  have hcases := language_cases hsupported hlanguage
  constructor
  · rintro ⟨parts, domains, hparts, hdomains, -⟩
    exact (hasEntry_iff hcases).mpr ⟨parts, hparts, by rw [hdomains]; rfl⟩
  · intro h
    obtain ⟨parts, hparts, hentry⟩ := (hasEntry_iff hcases).mp h
    exact translated_of_entry hcases hparts hentry

theorem wellFormed_of_all {subtags : List U16String}
    (h : subtags.all (fun subtag => subtag ≠ [] && subtag.all isAlphanumeric) = true) :
    ∀ subtag ∈ subtags, subtag ≠ [] ∧ ∀ c ∈ subtag, isAlphanumeric c = true := by
  intro subtag hsubtag
  obtain ⟨hne, hall⟩ := Bool.and_eq_true_iff.mp (List.all_eq_true.mp h subtag hsubtag)
  exact ⟨of_decide_eq_true hne, List.all_eq_true.mp hall⟩

def simplifiedChinese : Locale where
  language := u16 "zh"
  subtags := [u16 "Hans", u16 "CN"]
  wellFormed := wellFormed_of_all rfl

theorem not_translated_simplifiedChinese :
    ¬∀ locale : Locale, isSupported locale.language = true → locale.language ≠ u16 "en" →
      Translated locale := by
  intro hall
  obtain ⟨parts, domains, -, -, -, -, hinit⟩ :=
    hall simplifiedChinese (by decide) (by decide)
  have hnone : init (getLocale simplifiedChinese) = none := by decide
  rw [hnone] at hinit
  cases hinit

def italian : Locale where
  language := u16 "it"
  subtags := [u16 "IT"]
  wellFormed := wellFormed_of_all rfl

theorem translated_italian : isSupported italian.language = true ∧
    italian.language ≠ u16 "en" ∧ (Translated italian ↔ HasEntry italian) :=
  ⟨by decide, by decide, translated_iff italian (by decide) (by decide)⟩

end Locales

end AlmondAndroid.App
