import AlmondAndroid.Library.FileTree
import AlmondAndroid.Bridge.Values

/-!
# Unpacking archives

`Unzipper.unzip` takes up the entries in the order of the archive and joins each name to the
target folder as it stands. The parents of a directory are made with it and those of a file
are not. The input stream of an entry may end in the exception that `splice` swallows.
-/

namespace AlmondAndroid.App

open Library Bridge

def slash : UInt16 := 0x2f

def toSegment (s : U16String) : Segment U16String :=
  if s = u16 "." then .here
  else if s = u16 ".." then .up
  else .name s

/-- The working directory is the root. -/
def segments (path : U16String) : List (Segment U16String) :=
  ((path.splitOn slash).filter (· ≠ [])).map toSegment

/-- A child that starts with a slash is below its parent all the same. -/
def newFile (parent child : U16String) : List (Segment U16String) :=
  segments parent ++ segments child

inductive Ending
  | finished
  | eof
  | failed (e : JavaThrowable)
  deriving DecidableEq

/-- `reads` is what the calls of `read` bring until the stream ends. -/
structure InputStream where
  reads : List (List UInt8)
  ending : Ending
  reads_pos : ∀ r ∈ reads, 0 < r.length

/-- A stream that ends as it should has brought the content. -/
structure ZipEntry where
  name : U16String
  content : List UInt8
  inputStream : Except JavaThrowable InputStream
  complete : ∀ input, inputStream = .ok input → input.ending = .finished →
    input.reads.flatten = content

def ZipEntry.isDirectory (entry : ZipEntry) : Bool := entry.name.getLast? = some slash

inductive UnzipError
  | mkdirFailed
  | fileNotFound
  | thrown (e : JavaThrowable)
  deriving DecidableEq

/-- The only message that is written here. -/
def UnzipError.message : UnzipError → Option U16String
  | mkdirFailed => some (u16 "mkdir failed")
  | fileNotFound => none
  | thrown e => e.message

/-- What the loop writes and how it is left. A read of nothing leaves it, too. -/
def copy (ending : Ending) : List (List UInt8) → List UInt8 × Ending
  | [] => ([], ending)
  | read :: reads =>
      if 0 < read.length then
        let (written, left) := copy ending reads
        (read ++ written, left)
      else ([], .finished)

def splice (input : InputStream) : List UInt8 × Except UnzipError Unit :=
  match copy input.ending input.reads with
  | (written, .finished) => (written, .ok ())
  | (written, .eof) => (written, .ok ())
  | (written, .failed e) => (written, .error (.thrown e))

def transfer (entry : ZipEntry) : List UInt8 × Except UnzipError Unit :=
  match entry.inputStream with
  | .error e => ([], .error (.thrown e))
  | .ok input => splice input

abbrev AppTree := FileTree U16String (List UInt8)

abbrev AppDisk := Disk U16String (List UInt8)

def extractDirectory (d : AppDisk) (dir : List (Segment U16String)) :
    AppDisk × Except UnzipError Unit :=
  if d.tree.has dir then (d, .ok ())
  else
    match d.mkdirs dir with
    | (true, made) => (made, .ok ())
    | (false, left) => (left, .error .mkdirFailed)

def extractFile (d : AppDisk) (target : List (Segment U16String)) (entry : ZipEntry) :
    AppDisk × Except UnzipError Unit :=
  match d.store target (transfer entry).1 with
  | none => (d, .error .fileNotFound)
  | some stored => (stored, (transfer entry).2)

def extract (targetFolder : U16String) (d : AppDisk) (entry : ZipEntry) :
    AppDisk × Except UnzipError Unit :=
  if entry.isDirectory then extractDirectory d (newFile targetFolder entry.name)
  else extractFile d (newFile targetFolder entry.name) entry

def extractAll (targetFolder : U16String) (d : AppDisk) :
    List ZipEntry → AppDisk × Except UnzipError Unit
  | [] => (d, .ok ())
  | entry :: entries =>
      match extract targetFolder d entry with
      | (next, .ok ()) => extractAll targetFolder next entries
      | (left, .error e) => (left, .error e)

/-- `zip` is what `new ZipFile` brings, and the disk has not changed before. -/
def unzip (zip : Except JavaThrowable (List ZipEntry)) (targetFolder : U16String)
    (tree : AppTree) : AppDisk × Except UnzipError Unit :=
  match zip with
  | .error e => (⟨tree, []⟩, .error (.thrown e))
  | .ok entries => extractAll targetFolder ⟨tree, []⟩ entries

def visits (targetFolder : U16String) (d : AppDisk) : List ZipEntry → List (AppTree × ZipEntry)
  | [] => []
  | entry :: entries =>
      (d.tree, entry) ::
        match extract targetFolder d entry with
        | (next, .ok ()) => visits targetFolder next entries
        | (_, .error _) => []

/-! ## Inside the target folder -/

abbrev folderOf (targetFolder : U16String) : List U16String :=
  Segment.normalize (segments targetFolder)

def Under (targetFolder : U16String) (p : List U16String) : Prop := folderOf targetFolder <+: p

instance (targetFolder : U16String) (p : List U16String) : Decidable (Under targetFolder p) :=
  inferInstanceAs (Decidable (_ <+: _))

/-- A name that the file system lets through leads to a place in the folder, and a directory
is not made together with what is above the folder. -/
def Stays (targetFolder : U16String) (t : AppTree) (entry : ZipEntry) : Prop :=
  let file := newFile targetFolder entry.name
  if entry.isDirectory then
    t.Grants (Segment.normalize file) → Under targetFolder (Segment.normalize file) ∧
      t.node (folderOf targetFolder).dropLast ≠ none
  else t.canOpen file = true → Under targetFolder (Segment.normalize file)

inductive Extracts (targetFolder : U16String) (d : AppDisk) (entry : ZipEntry) :
    AppDisk × Except UnzipError Unit → Prop
  | present : entry.isDirectory = true → d.tree.has (newFile targetFolder entry.name) = true →
      Extracts targetFolder d entry (d, .ok ())
  | made {e : AppDisk} : entry.isDirectory = true →
      d.tree.Grants (Segment.normalize (newFile targetFolder entry.name)) →
      Disk.Makes d e (Segment.normalize (newFile targetFolder entry.name)) →
      Extracts targetFolder d entry (e, .ok ())
  | refused : entry.isDirectory = true → d.tree.has (newFile targetFolder entry.name) = false →
      ¬ d.tree.Grants (Segment.normalize (newFile targetFolder entry.name)) →
      Extracts targetFolder d entry (d, .error .mkdirFailed)
  | closed : entry.isDirectory = false →
      d.tree.canOpen (newFile targetFolder entry.name) = false →
      Extracts targetFolder d entry (d, .error .fileNotFound)
  | stored {e : AppDisk} : entry.isDirectory = false →
      d.tree.canOpen (newFile targetFolder entry.name) = true →
      Disk.Stores d e (Segment.normalize (newFile targetFolder entry.name)) (transfer entry).1 →
      Extracts targetFolder d entry (e, (transfer entry).2)

theorem extract_extracts (targetFolder : U16String) (d : AppDisk) (entry : ZipEntry) :
    Extracts targetFolder d entry (extract targetFolder d entry) := by
  cases hdir : entry.isDirectory with
  | true =>
    rw [extract, if_pos hdir, extractDirectory]
    cases hhas : d.tree.has (newFile targetFolder entry.name) with
    | true =>
      rw [if_pos rfl]
      exact .present hdir hhas
    | false =>
      rw [if_neg Bool.false_ne_true]
      by_cases hgrants : d.tree.Grants (Segment.normalize (newFile targetFolder entry.name))
      · obtain ⟨e, he, hmakes⟩ := Disk.mkdirs_of_grants hgrants
        rw [he]
        exact .made hdir hgrants hmakes
      · rw [Disk.mkdirs_of_not_grants hgrants]
        exact .refused hdir hhas hgrants
  | false =>
    rw [extract, if_neg (by rw [hdir]; exact Bool.false_ne_true), extractFile]
    cases hcan : d.tree.canOpen (newFile targetFolder entry.name) with
    | true =>
      obtain ⟨e, he, hstores⟩ := Disk.store_of_canOpen (transfer entry).1 hcan
      rw [he]
      exact .stored hdir hcan hstores
    | false =>
      rw [Disk.store_eq_none _ hcan]
      exact .closed hdir hcan

theorem missing_under_iff {targetFolder : U16String} {t : AppTree} {q : List U16String}
    (hq : t.node q = none) :
    (∀ p, p <+: q ∧ t.node p = none → Under targetFolder p) ↔
      Under targetFolder q ∧ t.node (folderOf targetFolder).dropLast ≠ none := by
  constructor
  · intro h
    have hunder := h q ⟨List.prefix_rfl, hq⟩
    refine ⟨hunder, fun hnone => ?_⟩
    have hpre := h _ ⟨(List.dropLast_prefix _).trans hunder, hnone⟩
    have hlen := hpre.length_le
    rw [List.length_dropLast] at hlen
    have hnil := List.eq_nil_of_length_eq_zero (show
      (folderOf targetFolder).length = 0 by omega)
    obtain ⟨w, hw⟩ := t.root
    rw [hnil, List.dropLast_nil, hw] at hnone
    cases hnone
  · rintro ⟨hunder, habove⟩ p ⟨hpre, hnone⟩
    rcases List.prefix_or_prefix_of_prefix hunder hpre with hin | hout
    · exact hin
    · rcases eq_or_prefix_dropLast hout with rfl | hout
      · exact List.prefix_rfl
      · exact absurd hnone (t.exists_of_prefix hout habove)

theorem extract_stays_iff (targetFolder : U16String) (d : AppDisk) (entry : ZipEntry) :
    ∃ l, (extract targetFolder d entry).1.changed = d.changed ++ l ∧
      ((∀ p ∈ l, Under targetFolder p) ↔ Stays targetFolder d.tree entry) := by
  have hextracts := extract_extracts targetFolder d entry
  generalize extract targetFolder d entry = result at hextracts
  unfold Stays
  cases hextracts with
  | present hdir hhas =>
    refine ⟨[], (List.append_nil _).symm, ?_⟩
    rw [if_pos hdir]
    refine iff_of_true (by simp) fun hgrants => ?_
    exact absurd hgrants.missing ((d.tree.has_iff _).mp hhas).2
  | made hdir hgrants hmakes =>
    obtain ⟨l, hl, hmem⟩ := hmakes.changed
    refine ⟨l, hl, ?_⟩
    rw [if_pos hdir, forall_prop_of_true hgrants, ← missing_under_iff hgrants.missing]
    exact forall_congr' fun p => by rw [hmem]
  | refused hdir _ hgrants =>
    refine ⟨[], (List.append_nil _).symm, ?_⟩
    rw [if_pos hdir]
    exact iff_of_true (by simp) fun h => absurd h hgrants
  | closed hdir hcan =>
    refine ⟨[], (List.append_nil _).symm, ?_⟩
    rw [if_neg (by rw [hdir]; exact Bool.false_ne_true), hcan]
    exact iff_of_true (by simp) (by simp)
  | stored hdir hcan hstores =>
    refine ⟨_, hstores.changed, ?_⟩
    rw [if_neg (by rw [hdir]; exact Bool.false_ne_true), forall_prop_of_true hcan,
      List.forall_mem_singleton]

theorem extractAll_stays_iff (targetFolder : U16String) (entries : List ZipEntry) :
    ∀ d : AppDisk, ∃ l, (extractAll targetFolder d entries).1.changed = d.changed ++ l ∧
      ((∀ p ∈ l, Under targetFolder p) ↔
        ∀ visit ∈ visits targetFolder d entries, Stays targetFolder visit.1 visit.2) := by
  induction entries with
  | nil => exact fun d => ⟨[], (List.append_nil _).symm, iff_of_true (by simp) (by simp [visits])⟩
  | cons entry entries ih =>
    intro d
    obtain ⟨l, hl, hstays⟩ := extract_stays_iff targetFolder d entry
    rw [extractAll, visits]
    generalize extract targetFolder d entry = result at hl ⊢
    obtain ⟨next, outcome⟩ := result
    cases outcome with
    | ok =>
      obtain ⟨m, hm, hrest⟩ := ih next
      refine ⟨l ++ m, ?_, ?_⟩
      · dsimp only at hl ⊢
        rw [hm, hl, List.append_assoc]
      · dsimp only
        rw [List.forall_mem_append, List.forall_mem_cons, hstays, hrest]
    | error e =>
      refine ⟨l, hl, ?_⟩
      dsimp only
      rw [List.forall_mem_singleton, hstays]

/-- All that is made or written lies in the folder exactly if every entry that the loop comes
to stays in it. -/
theorem unzip_inside_iff (entries : List ZipEntry) (targetFolder : U16String) (tree : AppTree) :
    (∀ p ∈ (unzip (.ok entries) targetFolder tree).1.changed, Under targetFolder p) ↔
      ∀ visit ∈ visits targetFolder ⟨tree, []⟩ entries, Stays targetFolder visit.1 visit.2 := by
  obtain ⟨l, hl, hstays⟩ := extractAll_stays_iff targetFolder entries ⟨tree, []⟩
  rw [unzip, hl, List.nil_append]
  exact hstays

namespace Sample

def tree : AppTree where
  node p := if p = [] ∨ p = [u16 "t"] then some (.directory true) else none
  root := ⟨true, rfl⟩
  parent := by
    intro p n h
    refine ⟨true, if_pos ?_⟩
    by_contra hp
    apply h
    rw [if_neg]
    rintro (hnil | hone)
    · exact List.append_ne_nil_of_right_ne_nil _ (List.cons_ne_nil _ _) hnil
    · rw [List.append_eq_singleton_iff] at hone
      simp at hone
      exact hp (.inl hone.1)

theorem node_tree (p : List U16String) :
    tree.node p = if p = [] ∨ p = [u16 "t"] then some (.directory true) else none := rfl

def file (name : String) (byte : UInt8) : ZipEntry where
  name := u16 name
  content := [byte]
  inputStream := .ok ⟨[[byte]], .finished, by simp⟩
  complete := by
    intro input h _
    cases h
    rfl

end Sample

theorem unzip_not_inside :
    ¬ ∀ p ∈ (unzip (.ok [Sample.file "../evil" 7]) (u16 "/t") Sample.tree).1.changed,
      Under (u16 "/t") p := by
  decide

end AlmondAndroid.App
