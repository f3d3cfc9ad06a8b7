import AlmondAndroid.App.Unzipper
import Mathlib.Data.List.DropRight
import Mathlib.Data.Set.Finite.Basic

/-!
# Saving a picture

`DownloadImageTask` names a file after the last segment of the address of the picture, decoded,
and looks for a number that makes the name a new one. What `android.net.Uri` finds in the
address and what opening it brings are given.
-/

namespace AlmondAndroid.App

open Library Bridge

namespace PictureDownload

/-- `null` is `none`. -/
structure Uri where
  getScheme : Option U16String
  getLastPathSegment : Option U16String

/-- What the calls of `read` bring; `fails` says that an `IOException` comes after it. -/
structure PictureStream where
  reads : List (List UInt8)
  fails : Bool
  reads_pos : ∀ r ∈ reads, 0 < r.length

/-- The stream, which can be `null`, and the MIME type; or an exception, where `threw` is any but
an `IOException`. -/
inductive Opening
  | opened (stream : Option PictureStream) (mimeType : Option U16String)
  | ioException
  | threw

/-- What the content resolver and the network bring for the address. -/
structure Content where
  openInputStream : Opening
  openConnection : Opening

/-- The files there are, and the zero of the locale. -/
structure Phone where
  tree : AppTree
  finite : ∃ nodes : List (List U16String), ∀ p, tree.node p ≠ none → p ∈ nodes
  zeroDigit : UInt16
  zeroDigit_ge : 0x30 ≤ zeroDigit
  zeroDigit_le : zeroDigit ≤ 0xff10

inductive Uncaught
  | nullPointerException
  | opening

inductive Outcome
  | uncaught (e : Uncaught) (disk : AppDisk)
  | returned (result : Bool) (disk : AppDisk)

/-! ## The name -/

def stem (filename : U16String) : U16String :=
  let filename :=
    if u16 ".png" <:+ filename ∨ u16 ".jpg" <:+ filename ∨ u16 ".gif" <:+ filename then
      filename.take (filename.length - 4)
    else if u16 ".jpeg" <:+ filename then filename.take (filename.length - 5)
    else filename
  if filename.length < 4 then u16 "image" else filename

def extension (mimeType : Option U16String) : U16String :=
  if mimeType = some (u16 "image/png") then u16 ".png"
  else if mimeType = some (u16 "image/jpeg") then u16 ".jpeg"
  else if mimeType = some (u16 "image/gif") then u16 ".gif"
  else []

/-- `String.format(Locale.getDefault(), "-%4d", i)` -/
def format (zeroDigit : UInt16) (i : Nat) : U16String :=
  let digits := (u16 i.repr).map fun c => c - 0x30 + zeroDigit
  0x2d :: (List.replicate (4 - digits.length) 0x20 ++ digits)

def candidate (zeroDigit : UInt16) (filename extension : U16String) : Nat → U16String
  | 0 => filename ++ extension
  | i + 1 => filename ++ format zeroDigit (i + 1) ++ extension

/-! ## `doInBackground` -/

/-- `ContentUtils.readUrl`, for an address that has a scheme. -/
def readUrl (content : Content) (scheme : U16String) : Opening :=
  if scheme = u16 "content" ∨ scheme = u16 "android.resource" ∨ scheme = u16 "file" then
    content.openInputStream
  else content.openConnection

def directory (root : U16String) : List (Segment U16String) := newFile root (u16 "Almond")

def isDirectory (t : AppTree) (file : List (Segment U16String)) : Bool :=
  t.reaches [] file && t.isDirectory (Segment.normalize file)

def makeDirectory (d : AppDisk) (directory : List (Segment U16String)) : Option AppDisk :=
  match d.mkdirAt directory with
  | some made => some made
  | none => if isDirectory d.tree directory then some d else none

/-- The loop, from the name with this number on. -/
def findDest (t : AppTree) (dest : Nat → List (Segment U16String)) :
    Nat → Nat → Option (List (Segment U16String))
  | 0, _ => none
  | fuel + 1, i => if t.has (dest i) then findDest t dest fuel (i + 1) else some (dest i)

/-- `File.createNewFile`; `none` is an `IOException`. -/
def createNewFile (d : AppDisk) (dest : List (Segment U16String)) : Option (Bool × AppDisk) :=
  if d.tree.has dest then some (false, d)
  else (d.store dest []).map fun created => (true, created)

/-- The loop that copies the stream, once the file is open: what it writes, and how it ends. -/
def copied : Option PictureStream → List UInt8
  | none => []
  | some stream => stream.reads.flatten

def copy (d : AppDisk) : Option PictureStream → Outcome
  | none => .uncaught .nullPointerException d
  | some stream => .returned (!stream.fails) d

/-- What happens in the folder. An `IOException` is caught and logged. -/
def write (d : AppDisk) (dest : List (Segment U16String)) (stream : Option PictureStream) :
    Outcome :=
  match createNewFile d dest with
  | none => .returned false d
  | some (false, d) => .returned false d
  | some (true, created) =>
    match created.store dest (copied stream) with
    | none => .returned false created
    | some written => copy written stream

/-- There is no outcome as long as the loop has not found a name. -/
def save (root filename : U16String) (phone : Phone) (stream : Option PictureStream)
    (mimeType : Option U16String) (fuel : Nat) : Option Outcome :=
  match makeDirectory ⟨phone.tree, []⟩ (directory root) with
  | none => some (.returned false ⟨phone.tree, []⟩)
  | some d =>
    let dest i :=
      directory root ++ segments (candidate phone.zeroDigit filename (extension mimeType) i)
    (findDest d.tree dest fuel 0).map fun dest => write d dest stream

def doInBackground (root : U16String) (uri : Uri) (content : Content) (phone : Phone)
    (fuel : Nat) : Option Outcome :=
  match uri.getLastPathSegment with
  | none => some (.uncaught .nullPointerException ⟨phone.tree, []⟩)
  | some filename =>
    match uri.getScheme with
    | none => some (.uncaught .nullPointerException ⟨phone.tree, []⟩)
    | some scheme =>
      match readUrl content scheme with
      | .ioException => some (.returned false ⟨phone.tree, []⟩)
      | .threw => some (.uncaught .opening ⟨phone.tree, []⟩)
      | .opened stream mimeType => save root (stem filename) phone stream mimeType fuel

/-! ## Where pictures go -/

abbrev folder (root : U16String) : List U16String := Segment.normalize (directory root)

def SavedIn (root : U16String) (uri : Uri) (content : Content) (phone : Phone)
    (disk : AppDisk) : Prop :=
  ∃ n scheme stream mimeType, uri.getScheme = some scheme ∧
    readUrl content scheme = .opened (some stream) mimeType ∧
    phone.tree.node (folder root ++ [n]) = none ∧
    disk.tree.node (folder root ++ [n]) = some (.file true stream.reads.flatten)

/-- The task ends without an exception; when it reports success the picture is in a new file
of the folder, and no file that was there is modified. -/
def Lands (root : U16String) (uri : Uri) (content : Content) (phone : Phone) : Prop :=
  ∃ fuel result disk, doInBackground root uri content phone fuel = some (.returned result disk) ∧
    (result = true → SavedIn root uri content phone disk) ∧
    ∀ p, phone.tree.node p ≠ none → disk.tree.node p = phone.tree.node p

def directoryPart (filename : U16String) : U16String := filename.rdropWhile (· ≠ slash)

def namePart (filename : U16String) : U16String := filename.rtakeWhile (· ≠ slash)

/-- What is before a slash in the last segment leads back to the folder. -/
def LeadsBack (root filename : U16String) : Prop :=
  Segment.walk (folder root) (segments (directoryPart (stem filename))) = folder root

/-- An `IOException`, or a stream that fails or that has a place in the folder. -/
def Opening.Lands (leadsBack : Prop) : Opening → Prop
  | .ioException => True
  | .threw => False
  | .opened none _ => False
  | .opened (some stream) _ => stream.fails = true ∨ leadsBack

/-! ## Numbers -/

section

variable {zeroDigit : UInt16} (hge : 0x30 ≤ zeroDigit) (hle : zeroDigit ≤ 0xff10)
include hge hle

theorem digit_ge {i : Nat} {c : UInt16}
    (hc : c ∈ (u16 i.repr).map fun c => c - 0x30 + zeroDigit) : 0x30 ≤ c := by
  obtain ⟨a, ha, rfl⟩ := List.mem_map.mp hc
  obtain ⟨x, hx, rfl⟩ := List.mem_map.mp ha
  rw [Nat.toList_repr] at hx
  obtain ⟨hlow, hhigh⟩ := Char.isDigit_iff_toNat.mp
    (Nat.isDigit_of_mem_toDigits (by decide) (by decide) hx)
  have hvalue : x.val.toUInt16.toNat = x.toNat := by
    rw [UInt32.toNat_toUInt16]
    exact Nat.mod_eq_of_lt (Nat.lt_of_le_of_lt hhigh (by decide))
  have hsub : (0x30 : UInt16) ≤ x.val.toUInt16 := by
    rw [UInt16.le_iff_toNat_le, hvalue]
    exact hlow
  rw [UInt16.le_iff_toNat_le] at hge hle ⊢
  rw [UInt16.toNat_add, UInt16.toNat_sub_of_le _ _ hsub, hvalue]
  have h30 : (0x30 : UInt16).toNat = 48 := rfl
  have hff10 : (0xff10 : UInt16).toNat = 65296 := rfl
  have hnine : x.toNat ≤ 57 := hhigh
  rw [h30] at hge ⊢
  rw [hff10] at hle
  omega

theorem slash_not_mem_format (i : Nat) : slash ∉ format zeroDigit i := by
  rw [format, List.mem_cons, not_or, List.mem_append, not_or]
  refine ⟨by decide, fun hmem => ?_, fun hmem => ?_⟩
  · exact absurd (List.eq_of_mem_replicate hmem) (by decide)
  · exact absurd (digit_ge hge hle hmem) (by decide)

omit hge hle in
theorem dropWhile_spaces {t : U16String} (ht : ∀ c ∈ t, 0x30 ≤ c) (n : Nat) :
    (List.replicate n 0x20 ++ t).dropWhile (· = 0x20) = t := by
  rw [List.dropWhile_append_of_pos fun c hc =>
    decide_eq_true (List.eq_of_mem_replicate hc)]
  cases t with
  | nil => rfl
  | cons c t =>
    refine List.dropWhile_cons_of_neg fun hspace => ?_
    have hc := ht c (List.mem_cons_self ..)
    rw [of_decide_eq_true hspace] at hc
    exact absurd hc (by decide)

/-- The digits of the locale are read back behind the spaces. -/
theorem format_injective : Function.Injective (format zeroDigit) := by
  intro i j h
  rw [format, format] at h
  have hdigits := congrArg (fun t => t.dropWhile (· = 0x20)) (List.cons.inj h).2
  rw [dropWhile_spaces fun c hc => digit_ge hge hle hc,
    dropWhile_spaces fun c hc => digit_ge hge hle hc] at hdigits
  refine u16_repr_injective (List.map_injective_iff.mpr (fun a b hab => ?_) hdigits)
  exact (UInt16.sub_left_inj 0x30).mp ((UInt16.add_left_inj zeroDigit).mp hab)

end

/-! ## Names and their directories -/

theorem segments_of_not_mem {name : U16String} (h : slash ∉ name) :
    segments name = if name = [] then [] else [toSegment name] := by
  rw [segments, List.splitOn_eq_singleton h]
  by_cases hname : name = []
  · subst hname
    rfl
  · rw [if_neg hname, List.filter_singleton, decide_eq_true hname, cond_true, List.map_singleton]

theorem segments_append_slash (front back : U16String) :
    segments (front ++ slash :: back) = segments front ++ segments back := by
  rw [segments, List.splitOn_append_cons_self, List.filter_append, List.map_append]
  rfl

theorem segments_directoryPart (filename back : U16String) :
    segments (directoryPart filename ++ back) =
      segments (directoryPart filename) ++ segments back := by
  by_cases hempty : directoryPart filename = []
  · rw [hempty]
    rfl
  · have hlast : (directoryPart filename).getLast hempty = slash := by
      have hnot := List.rdropWhile_last_not (· ≠ slash) filename hempty
      rw [decide_eq_true_eq, not_not] at hnot
      exact hnot
    obtain ⟨front, hfront⟩ : ∃ front, directoryPart filename = front ++ [slash] :=
      ⟨_, by rw [← hlast, List.dropLast_append_getLast]⟩
    have hslash := segments_append_slash front []
    rw [hfront, hslash, List.append_assoc, List.singleton_append, segments_append_slash]
    change _ = segments front ++ [] ++ segments back
    rw [List.append_nil]

def numbering (zeroDigit : UInt16) : Nat → U16String
  | 0 => []
  | i + 1 => format zeroDigit (i + 1)

def lastName (zeroDigit : UInt16) (filename extension : U16String) (i : Nat) : U16String :=
  namePart filename ++ (numbering zeroDigit i ++ extension)

theorem candidate_eq (zeroDigit : UInt16) (filename extension : U16String) (i : Nat) :
    candidate zeroDigit filename extension i =
      directoryPart filename ++ lastName zeroDigit filename extension i := by
  have hsplit : directoryPart filename ++ namePart filename = filename :=
    List.rdropWhile_append_rtakeWhile
  rw [lastName, ← List.append_assoc, hsplit]
  cases i with
  | zero => rfl
  | succ i =>
    rw [candidate, numbering, List.append_assoc]

theorem slash_not_mem_extension (mimeType : Option U16String) : slash ∉ extension mimeType := by
  rw [extension]
  split
  · decide
  · split
    · decide
    · split
      · decide
      · exact List.not_mem_nil

theorem slash_not_mem_lastName (phone : Phone) (filename : U16String) (mimeType : Option U16String)
    (i : Nat) : slash ∉ lastName phone.zeroDigit filename (extension mimeType) i := by
  rw [lastName, List.mem_append, List.mem_append, not_or, not_or]
  refine ⟨fun hmem => ?_, ?_, slash_not_mem_extension mimeType⟩
  · have hchar := List.mem_rtakeWhile_imp (p := fun c => c ≠ slash) hmem
    exact absurd rfl (of_decide_eq_true hchar)
  · cases i with
    | zero => exact List.not_mem_nil
    | succ i => exact slash_not_mem_format phone.zeroDigit_ge phone.zeroDigit_le _

theorem segments_candidate (phone : Phone) (filename : U16String) (mimeType : Option U16String)
    (i : Nat) :
    segments (candidate phone.zeroDigit filename (extension mimeType) i) =
      segments (directoryPart filename) ++
        segments (lastName phone.zeroDigit filename (extension mimeType) i) := by
  rw [candidate_eq, segments_directoryPart]

theorem segments_of_mem {name : U16String} (h : slash ∉ name) {c : UInt16} (hc : c ∈ name)
    (hdot : c ≠ 0x2e) : segments name = [.name name] := by
  have hne : name ≠ [] := List.ne_nil_of_mem hc
  have hhere : name ≠ u16 "." := by
    rintro rfl
    exact hdot (List.mem_singleton.mp hc)
  have hup : name ≠ u16 ".." := by
    rintro rfl
    rcases List.mem_cons.mp hc with heq | hc
    · exact hdot heq
    · exact hdot (List.mem_singleton.mp hc)
  rw [segments_of_not_mem h, if_neg hne, toSegment, if_neg hhere, if_neg hup]

/-! ## The loop -/

section

variable {t : AppTree} {dest : Nat → List (Segment U16String)}

theorem findDest_eq_some {found : List (Segment U16String)} (fuel : Nat) :
    ∀ i, findDest t dest fuel i = some found → ∃ j, found = dest j ∧ t.has (dest j) = false := by
  induction fuel with
  | zero =>
    intro i h
    cases h
  | succ fuel ih =>
    intro i h
    rw [findDest] at h
    split at h
    · exact ih (i + 1) h
    · rename_i hmissing
      cases h
      exact ⟨i, rfl, Bool.eq_false_iff.mpr hmissing⟩

theorem exists_findDest (n : Nat) : ∀ i, t.has (dest (i + n)) = false →
    ∃ fuel found, findDest t dest fuel i = some found := by
  induction n with
  | zero =>
    intro i h
    refine ⟨1, dest i, ?_⟩
    rw [findDest, if_neg (by rw [show t.has (dest i) = false from h]; exact Bool.false_ne_true)]
  | succ n ih =>
    intro i h
    by_cases hmissing : t.has (dest i) = true
    · rw [← Nat.add_assoc, Nat.add_right_comm] at h
      obtain ⟨fuel, found, hfound⟩ := ih (i + 1) h
      refine ⟨fuel + 1, found, ?_⟩
      rw [findDest, if_pos hmissing, hfound]
    · exact ⟨1, dest i, if_neg hmissing⟩

end

/-- The files of a folder are finitely many, and the numbers are not. -/
theorem exists_missing (phone : Phone) {t : AppTree}
    (hfinite : ∃ nodes : List (List U16String), ∀ p, t.node p ≠ none → p ∈ nodes)
    (dir : List (Segment U16String)) (filename : U16String) (mimeType : Option U16String) :
    ∃ i, t.has (dir ++ segments (candidate phone.zeroDigit filename (extension mimeType) i)) =
      false := by
  obtain ⟨nodes, hnodes⟩ := hfinite
  by_contra hall
  have hhas : ∀ i, t.has
      (dir ++ segments (candidate phone.zeroDigit filename (extension mimeType) i)) = true :=
    fun i => Bool.not_eq_false _ ▸ fun h => hall ⟨i, h⟩
  have hname : ∀ i, Segment.normalize
      (dir ++ segments (candidate phone.zeroDigit filename (extension mimeType) (i + 1))) =
      Segment.normalize (dir ++ segments (directoryPart filename)) ++
        [lastName phone.zeroDigit filename (extension mimeType) (i + 1)] := by
    intro i
    have hminus : (0x2d : UInt16) ∈
        lastName phone.zeroDigit filename (extension mimeType) (i + 1) :=
      List.mem_append_right _ (List.mem_append_left _ (List.mem_cons_self ..))
    rw [segments_candidate, segments_of_mem (slash_not_mem_lastName phone filename mimeType _)
      hminus (by decide), ← List.append_assoc, Segment.normalize_append]
    rfl
  refine Set.infinite_of_injective_forall_mem (f := fun i => Segment.normalize
    (dir ++ segments (candidate phone.zeroDigit filename (extension mimeType) (i + 1))))
    (s := {p | p ∈ nodes}) ?_ ?_ (List.finite_toSet nodes)
  · intro i j h
    dsimp only at h
    rw [hname, hname] at h
    have hlast := List.cons.inj (List.append_cancel_left h)
    have hformat := List.append_cancel_right (List.append_cancel_left hlast.1)
    exact Nat.succ.inj (format_injective phone.zeroDigit_ge phone.zeroDigit_le hformat)
  · intro i
    exact hnodes _ ((t.has_iff _).mp (hhas (i + 1))).2

/-! ## The folder and the file -/

structure Prepared (d e : AppDisk) (directory : List (Segment U16String)) : Prop where
  folder : ∃ w, e.tree.node (Segment.normalize directory) = some (.directory w)
  kept : ∀ p, d.tree.node p ≠ none → e.tree.node p = d.tree.node p
  added : ∀ p, e.tree.node p ≠ none → d.tree.node p ≠ none ∨ p <+: Segment.normalize directory

theorem makeDirectory_prepared {d e : AppDisk} {directory : List (Segment U16String)}
    (h : makeDirectory d directory = some e) : Prepared d e directory := by
  rw [makeDirectory] at h
  cases hmkdir : d.mkdirAt directory with
  | some made =>
    rw [hmkdir] at h
    cases h
    obtain ⟨hgrants, hmakes⟩ := Disk.mkdirAt_eq_some hmkdir
    refine ⟨⟨true, hmakes.made _ List.prefix_rfl hgrants.missing⟩, hmakes.kept, ?_⟩
    intro p hp
    by_contra hnot
    rw [not_or, not_ne_iff] at hnot
    exact hp (hmakes.missing p hnot.2 hnot.1)
  | none =>
    rw [hmkdir] at h
    dsimp only at h
    split at h
    · rename_i hdirectory
      cases h
      exact ⟨(d.tree.isDirectory_iff _).mp (Bool.and_eq_true_iff.mp hdirectory).2,
        fun _ _ => rfl, fun _ hp => .inl hp⟩
    · cases h

theorem Prepared.finite {d e : AppDisk} {directory : List (Segment U16String)}
    (h : Prepared d e directory)
    (hfinite : ∃ nodes : List (List U16String), ∀ p, d.tree.node p ≠ none → p ∈ nodes) :
    ∃ nodes : List (List U16String), ∀ p, e.tree.node p ≠ none → p ∈ nodes := by
  obtain ⟨nodes, hnodes⟩ := hfinite
  refine ⟨nodes ++ (Segment.normalize directory).inits, fun p hp => ?_⟩
  rcases h.added p hp with hold | hprefix
  · exact List.mem_append_left _ (hnodes p hold)
  · exact List.mem_append_right _ ((List.mem_inits p _).mpr hprefix)

theorem missing_of_canOpen {t : AppTree} {dest : List (Segment U16String)}
    (hopen : t.canOpen dest = true) (hmissing : t.has dest = false) :
    ∃ front n, dest = front ++ [.name n] ∧ t.reaches [] dest = true ∧
      t.node (Segment.normalize dest) = none := by
  rw [FileTree.canOpen] at hopen
  split at hopen
  case h_1 n hlast =>
    have hreaches := (Bool.and_eq_true_iff.mp hopen).1
    refine ⟨dest.dropLast, n, (List.dropLast_append_getLast? _ hlast).symm, hreaches, ?_⟩
    by_contra hnode
    rw [(t.has_iff dest).mpr ⟨hreaches, hnode⟩] at hmissing
    cases hmissing
  case h_2 => cases hopen

theorem write_of_not_canOpen {d : AppDisk} {dest : List (Segment U16String)}
    (stream : Option PictureStream) (hopen : d.tree.canOpen dest = false)
    (hmissing : d.tree.has dest = false) : write d dest stream = .returned false d := by
  rw [write, createNewFile, hmissing, if_neg Bool.false_ne_true, Disk.store_eq_none _ hopen]
  rfl

theorem write_of_canOpen {d : AppDisk} {dest : List (Segment U16String)}
    (stream : Option PictureStream) (hopen : d.tree.canOpen dest = true)
    (hmissing : d.tree.has dest = false) :
    ∃ written : AppDisk, write d dest stream = copy written stream ∧
      written.tree.node (Segment.normalize dest) = some (.file true (copied stream)) ∧
      ∀ p, p ≠ Segment.normalize dest → written.tree.node p = d.tree.node p := by
  obtain ⟨front, n, hdest, hreaches, hnone⟩ := missing_of_canOpen hopen hmissing
  obtain ⟨created, hcreated, hstores⟩ := Disk.store_of_canOpen [] hopen
  have hlast : dest.getLast? = some (.name n) := by
    rw [hdest]
    exact List.getLast?_concat
  have hnormal := Segment.normalize_of_getLast hlast
  have hreached : created.tree.reaches [] dest = true := by
    refine FileTree.reaches_mono (fun p w hp => ?_) dest [] hreaches
    rw [hstores.kept p, hp]
    rintro rfl
    rw [hnone] at hp
    cases hp
  have hreopen : created.tree.canOpen dest = true := by
    rw [FileTree.canOpen, hlast]
    refine Bool.and_eq_true_iff.mpr ⟨hreached, FileTree.opens_iff.mpr (.inl ⟨[], ?_⟩)⟩
    rw [← hnormal]
    exact hstores.stored
  obtain ⟨written, hwritten, hrestores⟩ := Disk.store_of_canOpen (copied stream) hreopen
  refine ⟨written, ?_, hrestores.stored, fun p hp => ?_⟩
  · rw [write, createNewFile, hmissing, if_neg Bool.false_ne_true, hcreated, Option.map_some]
    dsimp only
    rw [hwritten]
  · rw [hrestores.kept p hp, hstores.kept p hp]

/-! ## The task -/

section

variable (root : U16String) (phone : Phone) (filename : U16String) (mimeType : Option U16String)

def destination (i : Nat) : List (Segment U16String) :=
  directory root ++ segments (candidate phone.zeroDigit filename (extension mimeType) i)

theorem exists_save {d : AppDisk} (stream : Option PictureStream)
    (hd : makeDirectory ⟨phone.tree, []⟩ (directory root) = some d) :
    ∃ fuel i, d.tree.has (destination root phone filename mimeType i) = false ∧
      save root filename phone stream mimeType fuel =
        some (write d (destination root phone filename mimeType i) stream) := by
  obtain ⟨i, hi⟩ := exists_missing phone ((makeDirectory_prepared hd).finite phone.finite)
    (directory root) filename mimeType
  have hfree : d.tree.has (destination root phone filename mimeType (0 + i)) = false := by
    rw [Nat.zero_add]
    exact hi
  obtain ⟨fuel, found, hfound⟩ := exists_findDest i 0 hfree
  obtain ⟨j, rfl, hmissing⟩ := findDest_eq_some fuel 0 hfound
  refine ⟨fuel, j, hmissing, ?_⟩
  rw [save, hd]
  change (findDest d.tree (destination root phone filename mimeType) fuel 0).map _ = _
  rw [hfound, Option.map_some]

theorem normalize_destination (i : Nat) :
    Segment.normalize (destination root phone filename mimeType i) =
      Segment.walk (Segment.walk (folder root) (segments (directoryPart filename)))
        (segments (lastName phone.zeroDigit filename (extension mimeType) i)) := by
  rw [destination, segments_candidate, ← List.append_assoc, Segment.normalize_append,
    Segment.normalize_append]

omit root phone filename mimeType in
/-- Below a folder that is there, what is missing has a name of its own. -/
theorem segments_of_missing {t : AppTree} {p : List U16String} {name : U16String}
    (hslash : slash ∉ name) (hp : t.node p ≠ none)
    (hnone : t.node (Segment.walk p (segments name)) = none) :
    ∃ n, segments name = [.name n] := by
  rw [segments_of_not_mem hslash] at hnone ⊢
  split at hnone
  · exact absurd hnone hp
  · rename_i hne
    rw [if_neg hne]
    rw [Segment.walk_cons, Segment.walk_nil] at hnone
    cases hsegment : toSegment name with
    | here =>
      rw [hsegment] at hnone
      exact absurd hnone hp
    | up =>
      rw [hsegment] at hnone
      exact absurd hnone (t.exists_of_prefix (List.dropLast_prefix _) hp)
    | name n => exact ⟨n, rfl⟩

theorem save_lands (stream : PictureStream) :
    ∃ fuel result disk,
      save root filename phone (some stream) mimeType fuel = some (.returned result disk) ∧
        (result = true → stream.fails = false ∧
          (Segment.walk (folder root) (segments (directoryPart filename)) = folder root →
            ∃ n, phone.tree.node (folder root ++ [n]) = none ∧
              disk.tree.node (folder root ++ [n]) = some (.file true stream.reads.flatten))) ∧
        ∀ p, phone.tree.node p ≠ none → disk.tree.node p = phone.tree.node p := by
  cases hd : makeDirectory ⟨phone.tree, []⟩ (directory root) with
  | none =>
    refine ⟨0, false, ⟨phone.tree, []⟩, ?_, fun h => absurd h Bool.false_ne_true, fun _ _ => rfl⟩
    rw [save, hd]
  | some d =>
    have hprepared := makeDirectory_prepared hd
    obtain ⟨fuel, i, hmissing, hsave⟩ := exists_save root phone filename mimeType (some stream) hd
    cases hopen : d.tree.canOpen (destination root phone filename mimeType i) with
    | false =>
      refine ⟨fuel, false, d, ?_, fun h => absurd h Bool.false_ne_true, hprepared.kept⟩
      rw [hsave, write_of_not_canOpen _ hopen hmissing]
    | true =>
      obtain ⟨written, hwrite, hstored, hothers⟩ := write_of_canOpen (some stream) hopen hmissing
      obtain ⟨-, -, -, -, hnone⟩ := missing_of_canOpen hopen hmissing
      -- Making the folder has not taken away what was there, so nothing was.
      have hbefore : phone.tree.node
          (Segment.normalize (destination root phone filename mimeType i)) = none := by
        by_contra hnode
        rw [hprepared.kept _ hnode] at hnone
        exact hnode hnone
      refine ⟨fuel, !stream.fails, written, ?_, fun hresult => ⟨?_, fun hback => ?_⟩,
        fun p hp => ?_⟩
      · rw [hsave, hwrite]
        rfl
      · rw [Bool.not_eq_true'] at hresult
        exact hresult
      · have hfolder : d.tree.node (folder root) ≠ none := by
          obtain ⟨w, hw⟩ := hprepared.folder
          rw [hw]
          exact Option.some_ne_none _
        rw [normalize_destination, hback] at hnone hbefore hstored
        obtain ⟨n, hn⟩ := segments_of_missing (slash_not_mem_lastName phone filename mimeType i)
          hfolder hnone
        rw [hn] at hbefore hstored
        exact ⟨n, hbefore, hstored⟩
      · have hne : p ≠ Segment.normalize (destination root phone filename mimeType i) := by
          rintro rfl
          exact hp hbefore
        rw [hothers p hne]
        exact hprepared.kept p hp

end

theorem doInBackground_eq {root : U16String} {uri : Uri} {scheme filename : U16String}
    (hscheme : uri.getScheme = some scheme) (hfilename : uri.getLastPathSegment = some filename)
    (content : Content) (phone : Phone) (fuel : Nat) :
    doInBackground root uri content phone fuel =
      match readUrl content scheme with
      | .ioException => some (.returned false ⟨phone.tree, []⟩)
      | .threw => some (.uncaught .opening ⟨phone.tree, []⟩)
      | .opened stream mimeType => save root (stem filename) phone stream mimeType fuel := by
  rw [doInBackground, hfilename, hscheme]

theorem lands_of_opening {root : U16String} {uri : Uri} {content : Content}
    {scheme filename : U16String} (hscheme : uri.getScheme = some scheme)
    (hfilename : uri.getLastPathSegment = some filename)
    (h : (readUrl content scheme).Lands (LeadsBack root filename)) (phone : Phone) :
    Lands root uri content phone := by
  cases hopening : readUrl content scheme with
  | ioException =>
    refine ⟨0, false, ⟨phone.tree, []⟩, ?_, fun h => absurd h Bool.false_ne_true, fun _ _ => rfl⟩
    rw [doInBackground_eq hscheme hfilename, hopening]
  | threw =>
    rw [hopening] at h
    exact h.elim
  | opened stream mimeType =>
    rw [hopening] at h
    cases stream with
    | none => exact h.elim
    | some stream =>
      obtain ⟨fuel, result, disk, hsave, hsaved, hkept⟩ :=
        save_lands root phone (stem filename) mimeType stream
      refine ⟨fuel, result, disk, ?_, fun hresult => ?_, hkept⟩
      · rw [doInBackground_eq hscheme hfilename, hopening]
        exact hsave
      · obtain ⟨hfails, hback⟩ := hsaved hresult
        have hleads : LeadsBack root filename := h.resolve_left (by rw [hfails]; decide)
        obtain ⟨n, hbefore, hstored⟩ := hback hleads
        exact ⟨n, scheme, stream, mimeType, hscheme, hopening, hbefore, hstored⟩

/-! ## Addresses that lead elsewhere -/

theorem scheme_of_lands {root : U16String} {uri : Uri} {content : Content} {phone : Phone}
    (h : Lands root uri content phone) :
    ∃ scheme filename, uri.getScheme = some scheme ∧ uri.getLastPathSegment = some filename := by
  obtain ⟨fuel, result, disk, hreturned, -⟩ := h
  rw [doInBackground] at hreturned
  cases hfilename : uri.getLastPathSegment with
  | none =>
    rw [hfilename] at hreturned
    cases hreturned
  | some filename =>
    cases hscheme : uri.getScheme with
    | none =>
      rw [hfilename, hscheme] at hreturned
      cases hreturned
    | some scheme => exact ⟨scheme, filename, rfl, rfl⟩

section

variable (root filename : U16String)

def way : List (Segment U16String) := directory root ++ segments (directoryPart filename)

def phoneWithWay : Phone where
  tree := FileTree.ofPaths (FileTree.places (way root filename))
  finite := FileTree.finite_ofPaths _
  zeroDigit := 0x30
  zeroDigit_ge := by decide
  zeroDigit_le := by decide

theorem node_folder :
    (phoneWithWay root filename).tree.node (folder root) = some (.directory true) := by
  have hnode := FileTree.node_ofPaths_places (β := List UInt8) (way root filename)
    (r := (directory root).length) (by rw [way, List.length_append]; exact Nat.le_add_right ..)
  rw [way, List.take_left] at hnode
  exact hnode

theorem node_way :
    (phoneWithWay root filename).tree.node (Segment.normalize (way root filename)) =
      some (.directory true) := by
  have hnode := FileTree.node_ofPaths_places (β := List UInt8) (way root filename) (Nat.le_refl _)
  rw [List.take_length] at hnode
  exact hnode

theorem reaches_way :
    (phoneWithWay root filename).tree.reaches [] (way root filename) = true :=
  FileTree.reaches_ofPaths_places _

theorem makeDirectory_phoneWithWay :
    makeDirectory ⟨(phoneWithWay root filename).tree, []⟩ (directory root) =
      some ⟨(phoneWithWay root filename).tree, []⟩ := by
  have hnode := node_folder root filename
  have hreaches := reaches_way root filename
  rw [way, FileTree.reaches_append, Bool.and_eq_true] at hreaches
  rw [makeDirectory]
  cases hmkdir : Disk.mkdirAt ⟨(phoneWithWay root filename).tree, []⟩ (directory root) with
  | some made =>
    have hmissing := (Disk.mkdirAt_eq_some hmkdir).1.missing
    rw [hnode] at hmissing
    cases hmissing
  | none =>
    refine if_pos ?_
    rw [isDirectory, hreaches.1, Bool.true_and, FileTree.isDirectory_iff]
    exact ⟨true, hnode⟩

/-- A name of the loop that is missing is opened, and so the stream is copied. -/
theorem save_phoneWithWay {stream : Option PictureStream} {mimeType : Option U16String}
    {fuel : Nat} {outcome : Outcome}
    (h : save root filename (phoneWithWay root filename) stream mimeType fuel = some outcome) :
    ∃ n written, outcome = copy written stream ∧
      ∀ p, p ≠ Segment.normalize (way root filename) ++ [n] →
        written.tree.node p = (phoneWithWay root filename).tree.node p := by
  rw [save, makeDirectory_phoneWithWay] at h
  obtain ⟨found, hfound, hwrite⟩ := Option.map_eq_some_iff.mp h
  obtain ⟨i, rfl, hmissing⟩ := findDest_eq_some fuel 0 hfound
  have hslash := slash_not_mem_lastName (phoneWithWay root filename) filename mimeType i
  have hway : (phoneWithWay root filename).tree.node (Segment.normalize (way root filename)) ≠
      none := by
    rw [node_way]
    exact Option.some_ne_none _
  have hdest : directory root ++ segments (candidate (phoneWithWay root filename).zeroDigit
      filename (extension mimeType) i) = way root filename ++ segments
        (lastName (phoneWithWay root filename).zeroDigit filename (extension mimeType) i) := by
    rw [segments_candidate, way, List.append_assoc]
  rw [hdest] at hmissing hwrite
  have hreaches : (phoneWithWay root filename).tree.reaches [] (way root filename ++
      segments (lastName (phoneWithWay root filename).zeroDigit filename (extension mimeType) i)) =
        true := by
    rw [FileTree.reaches_append, reaches_way, Bool.true_and, segments_of_not_mem hslash]
    split
    · rfl
    · rw [FileTree.reaches, FileTree.reaches, Bool.and_true, FileTree.isDirectory_iff]
      exact ⟨true, node_way root filename⟩
  have hnone : (phoneWithWay root filename).tree.node (Segment.walk
      (Segment.normalize (way root filename)) (segments
        (lastName (phoneWithWay root filename).zeroDigit filename (extension mimeType) i))) =
        none := by
    rw [← Segment.normalize_append]
    by_contra hnode
    rw [(FileTree.has_iff _ _).mpr ⟨hreaches, hnode⟩] at hmissing
    cases hmissing
  obtain ⟨n, hn⟩ := segments_of_missing hslash hway hnone
  rw [hn] at hmissing hwrite hreaches hnone
  have hnormal : Segment.normalize (way root filename ++ [.name n]) =
      Segment.normalize (way root filename) ++ [n] := Segment.normalize_append ..
  have hopen : (phoneWithWay root filename).tree.canOpen (way root filename ++ [.name n]) =
      true := by
    rw [FileTree.canOpen_concat, hreaches, Bool.true_and, FileTree.opens_iff]
    exact .inr ⟨node_way root filename, hnone⟩
  obtain ⟨written, hwritten, -, hothers⟩ := write_of_canOpen stream hopen hmissing
  rw [hwritten] at hwrite
  refine ⟨n, written, hwrite.symm, fun p hp => hothers p ?_⟩
  rw [hnormal]
  exact hp

end

theorem opening_of_lands {root : U16String} {uri : Uri} {content : Content}
    {scheme filename : U16String} (hscheme : uri.getScheme = some scheme)
    (hfilename : uri.getLastPathSegment = some filename)
    (h : Lands root uri content (phoneWithWay root (stem filename))) :
    (readUrl content scheme).Lands (LeadsBack root filename) := by
  obtain ⟨fuel, result, disk, hreturned, hsaved, -⟩ := h
  rw [doInBackground_eq hscheme hfilename] at hreturned
  cases hopening : readUrl content scheme with
  | ioException => trivial
  | threw =>
    rw [hopening] at hreturned
    cases hreturned
  | opened stream mimeType =>
    rw [hopening] at hreturned
    obtain ⟨last, written, hcopy, hothers⟩ := save_phoneWithWay root (stem filename) hreturned
    cases stream with
    | none => cases hcopy
    | some stream =>
      cases hcopy
      cases hfails : stream.fails with
      | true => exact .inl hfails
      | false =>
        obtain ⟨n, _, saved, _, -, -, hbefore, hafter⟩ := hsaved (by rw [hfails]; rfl)
        right
        by_contra helse
        have hne : folder root ++ [n] ≠
            Segment.normalize (way root (stem filename)) ++ [last] := by
          intro heq
          rw [way, Segment.normalize_append] at heq
          exact helse (List.append_inj_left' heq rfl).symm
        rw [hothers _ hne, hbefore] at hafter
        cases hafter

/-- For every address and whatever opening it brings. -/
theorem lands_iff (root : U16String) (uri : Uri) (content : Content) :
    (∀ phone, Lands root uri content phone) ↔
      ∃ scheme filename, uri.getScheme = some scheme ∧ uri.getLastPathSegment = some filename ∧
        (readUrl content scheme).Lands (LeadsBack root filename) := by
  constructor
  · intro h
    obtain ⟨scheme, filename, hscheme, hfilename⟩ := scheme_of_lands (h (phoneWithWay root []))
    exact ⟨scheme, filename, hscheme, hfilename,
      opening_of_lands hscheme hfilename (h (phoneWithWay root (stem filename)))⟩
  · rintro ⟨scheme, filename, hscheme, hfilename, hopening⟩ phone
    exact lands_of_opening hscheme hfilename hopening phone

/-- `http://example.com` has no last segment. -/
theorem not_lands_noPath : ¬ ∀ root uri content phone, Lands root uri content phone := by
  intro h
  obtain ⟨_, _, -, hfilename⟩ := scheme_of_lands
    (h [] ⟨some (u16 "http"), none⟩ ⟨.ioException, .ioException⟩ (phoneWithWay [] []))
  cases hfilename

end PictureDownload

end AlmondAndroid.App
