import AlmondAndroid.App.Unzipper

/-!
# What is unpacked

The files of an archive with safe names are all unpacked into an empty folder exactly if every
directory comes before what is in it. An entry whose stream ends too early is passed over,
so that a normal return says nothing about the content of its file.
-/

namespace AlmondAndroid.App

open Library Bridge

/-! ## Names -/

namespace ZipEntry

/-- The names in an entry's name, without the slash that marks a directory. -/
def parts (entry : ZipEntry) : List U16String :=
  if entry.isDirectory then (entry.name.splitOn slash).dropLast else entry.name.splitOn slash

/-- The name is relative and made of proper names, with one slash between two of them. -/
def Safe (entry : ZipEntry) : Prop :=
  ∀ s ∈ entry.parts, s ≠ [] ∧ s ≠ u16 "." ∧ s ≠ u16 ".."

theorem splitOn_of_isDirectory {entry : ZipEntry} (h : entry.isDirectory = true) :
    entry.name.splitOn slash = entry.parts ++ [[]] := by
  have hlast : entry.name.getLast? = some slash := of_decide_eq_true h
  rw [parts, if_pos h, ← List.dropLast_append_getLast? _ hlast, List.splitOn_append_cons_self,
    List.splitOn_nil, List.dropLast_concat]

theorem splitOn_of_not_isDirectory {entry : ZipEntry} (h : entry.isDirectory = false) :
    entry.name.splitOn slash = entry.parts := by
  rw [parts, if_neg (by rw [h]; exact Bool.false_ne_true)]

theorem parts_ne_nil (entry : ZipEntry) : entry.parts ≠ [] := by
  cases h : entry.isDirectory with
  | true =>
    have hlast : entry.name.getLast? = some slash := of_decide_eq_true h
    rw [parts, if_pos h, ← List.dropLast_append_getLast? _ hlast, List.splitOn_append_cons_self,
      List.splitOn_nil, List.dropLast_concat]
    exact List.splitOn_ne_nil slash _
  | false =>
    rw [← splitOn_of_not_isDirectory h]
    exact List.splitOn_ne_nil slash _

theorem name_eq_of_parts {e f : ZipEntry} (hkind : e.isDirectory = f.isDirectory)
    (hparts : e.parts = f.parts) : e.name = f.name := by
  have hsplit : e.name.splitOn slash = f.name.splitOn slash := by
    cases h : f.isDirectory with
    | true =>
      rw [splitOn_of_isDirectory (hkind.trans h), splitOn_of_isDirectory h, hparts]
    | false =>
      rw [splitOn_of_not_isDirectory (hkind.trans h), splitOn_of_not_isDirectory h, hparts]
  calc
    e.name = [slash].intercalate (e.name.splitOn slash) := (List.intercalate_splitOn slash).symm
    _ = [slash].intercalate (f.name.splitOn slash) := by rw [hsplit]
    _ = f.name := List.intercalate_splitOn slash

theorem Safe.filter_parts {entry : ZipEntry} (h : entry.Safe) :
    (entry.name.splitOn slash).filter (· ≠ []) = entry.parts := by
  have hall : entry.parts.filter (· ≠ []) = entry.parts :=
    List.filter_eq_self.mpr fun s hs => decide_eq_true (h s hs).1
  cases hdir : entry.isDirectory with
  | true =>
    rw [splitOn_of_isDirectory hdir, List.filter_append, hall]
    exact List.append_nil _
  | false => rw [splitOn_of_not_isDirectory hdir, hall]

theorem Safe.segments_name {entry : ZipEntry} (h : entry.Safe) :
    segments entry.name = entry.parts.map .name := by
  rw [segments, h.filter_parts]
  apply List.map_congr_left
  intro s hs
  rw [toSegment, if_neg (h s hs).2.1, if_neg (h s hs).2.2]

theorem Safe.normalize_newFile {entry : ZipEntry} (h : entry.Safe) (targetFolder : U16String) :
    Segment.normalize (newFile targetFolder entry.name) =
      folderOf targetFolder ++ entry.parts := by
  rw [newFile, Segment.normalize_append, h.segments_name, Segment.walk_names]

end ZipEntry

/-! ## Parents first -/

/-- The entry can be unpacked after those before it. A directory entry is a parent of all
that its name leads through. -/
structure Placed (earlier : List ZipEntry) (entry : ZipEntry) : Prop where
  noFileAbove : ∀ f ∈ earlier, f.isDirectory = false → f.parts <+: entry.parts →
    f.parts = entry.parts
  parent : entry.isDirectory = false → entry.parts.dropLast = [] ∨
    ∃ g ∈ earlier, g.isDirectory = true ∧ entry.parts.dropLast <+: g.parts
  free : entry.isDirectory = false → ∀ g ∈ earlier, g.isDirectory = true →
    ¬ entry.parts <+: g.parts

def PlacedAfter (earlier : List ZipEntry) : List ZipEntry → Prop
  | [] => True
  | entry :: entries => Placed earlier entry ∧ PlacedAfter (earlier ++ [entry]) entries

/-- The folder holds what is in these entries and nothing else. -/
structure Unpacked (targetFolder : U16String) (t : AppTree) (entries : List ZipEntry) : Prop where
  reached : t.reaches [] (segments targetFolder) = true
  folder : t.node (folderOf targetFolder) = some (.directory true)
  file : ∀ f ∈ entries, f.isDirectory = false →
    t.node (folderOf targetFolder ++ f.parts) = some (.file true f.content)
  directory : ∀ g ∈ entries, g.isDirectory = true → ∀ p, p <+: g.parts →
    (∀ f ∈ entries, f.isDirectory = false → f.parts ≠ p) →
      t.node (folderOf targetFolder ++ p) = some (.directory true)
  missing : ∀ p, p ≠ [] → (∀ f ∈ entries, f.isDirectory = false → f.parts ≠ p) →
    (∀ g ∈ entries, g.isDirectory = true → ¬ p <+: g.parts) →
      t.node (folderOf targetFolder ++ p) = none

structure EmptyFolder (targetFolder : U16String) (t : AppTree) : Prop where
  reached : t.reaches [] (segments targetFolder) = true
  folder : t.node (folderOf targetFolder) = some (.directory true)
  empty : ∀ n, t.node (folderOf targetFolder ++ [n]) = none

section

variable {targetFolder : U16String} {t : AppTree} {earlier : List ZipEntry} {entry : ZipEntry}

theorem EmptyFolder.unpacked (h : EmptyFolder targetFolder t) : Unpacked targetFolder t [] where
  reached := h.reached
  folder := h.folder
  file := by simp
  directory := by simp
  missing := by
    intro p hp _ _
    cases p with
    | nil => exact absurd rfl hp
    | cons n p =>
      refine t.missing_of_prefix ?_ (h.empty n)
      rw [List.prefix_append_right_inj]
      exact List.prefix_append [n] p

namespace Unpacked

theorem node_cases (h : Unpacked targetFolder t earlier) (p : List U16String) :
    t.node (folderOf targetFolder ++ p) = none ∨
      t.node (folderOf targetFolder ++ p) = some (.directory true) ∨
      ∃ f ∈ earlier, f.isDirectory = false ∧ f.parts = p := by
  by_cases hfile : ∃ f ∈ earlier, f.isDirectory = false ∧ f.parts = p
  · exact .inr (.inr hfile)
  · have hnone : ∀ f ∈ earlier, f.isDirectory = false → f.parts ≠ p := by
      intro f hf hdir heq
      exact hfile ⟨f, hf, hdir, heq⟩
    by_cases hnil : p = []
    · refine .inr (.inl ?_)
      rw [hnil, List.append_nil]
      exact h.folder
    · by_cases hg : ∃ g ∈ earlier, g.isDirectory = true ∧ p <+: g.parts
      · obtain ⟨g, hg, hdir, hpre⟩ := hg
        exact .inr (.inl (h.directory g hg hdir p hpre hnone))
      · refine .inl (h.missing p hnil hnone fun g hg' hdir hpre => hg ⟨g, hg', hdir, hpre⟩)

theorem no_file_above (h : Unpacked targetFolder t earlier) {f : ZipEntry} (hf : f ∈ earlier)
    (hdir : f.isDirectory = false) {q : List U16String} (hpre : f.parts <+: q)
    (hq : t.node (folderOf targetFolder ++ q) ≠ none) : f.parts = q := by
  obtain ⟨rest, rfl⟩ := hpre
  cases rest with
  | nil => exact (List.append_nil _).symm
  | cons n rest =>
    rw [← List.append_assoc] at hq
    obtain ⟨w, hw⟩ := t.parent_of_append _ rest n hq
    rw [h.file f hf hdir] at hw
    cases hw

theorem has_iff (h : Unpacked targetFolder t earlier) (hsafe : entry.Safe) :
    t.has (newFile targetFolder entry.name) = true ↔
      t.node (folderOf targetFolder ++ entry.parts) ≠ none := by
  rw [t.has_iff, hsafe.normalize_newFile]
  constructor
  · exact And.right
  · intro hnode
    refine ⟨?_, hnode⟩
    rw [newFile, hsafe.segments_name, t.reaches_append, h.reached, Bool.true_and,
      ← List.dropLast_append_getLast entry.parts_ne_nil, t.reaches_names, t.isDirectory_iff]
    rw [← List.dropLast_append_getLast entry.parts_ne_nil, ← List.append_assoc] at hnode
    exact t.parent _ _ hnode

theorem canOpen_eq (h : Unpacked targetFolder t earlier) (hsafe : entry.Safe)
    {names : List U16String} {n : U16String} (hparts : entry.parts = names ++ [n]) :
    t.canOpen (newFile targetFolder entry.name) = t.opens (folderOf targetFolder ++ names) n := by
  have hsplit : newFile targetFolder entry.name =
      segments targetFolder ++ names.map .name ++ [.name n] := by
    rw [newFile, hsafe.segments_name, hparts, List.map_append, ← List.append_assoc]
    rfl
  have hreaches : t.reaches [] (newFile targetFolder entry.name) =
      t.isDirectory (folderOf targetFolder ++ names) := by
    rw [newFile, hsafe.segments_name, hparts, t.reaches_append, h.reached, Bool.true_and,
      t.reaches_names]
    rfl
  rw [hsplit, FileTree.canOpen_concat, ← hsplit, hreaches, Segment.normalize_append,
    Segment.walk_names]
  cases hopens : t.opens (folderOf targetFolder ++ names) n with
  | false => exact Bool.and_false _
  | true =>
    rw [Bool.and_true]
    exact (t.isDirectory_iff _).mpr (FileTree.directory_of_opens hopens)

/-! ### Directories -/

theorem noFileAbove_of_exists (h : Unpacked targetFolder t earlier) {q : List U16String}
    (hq : t.node (folderOf targetFolder ++ q) ≠ none) :
    ∀ f ∈ earlier, f.isDirectory = false → f.parts <+: q → f.parts = q :=
  fun _ hf hdir hpre => h.no_file_above hf hdir hpre hq

theorem placed_of_directory (hdir : entry.isDirectory = true)
    (h : ∀ f ∈ earlier, f.isDirectory = false → f.parts <+: entry.parts →
      f.parts = entry.parts) : Placed earlier entry where
  noFileAbove := h
  parent hfile := by rw [hdir] at hfile; cases hfile
  free hfile := by rw [hdir] at hfile; cases hfile

theorem present (h : Unpacked targetFolder t earlier) (hdir : entry.isDirectory = true)
    (hq : t.node (folderOf targetFolder ++ entry.parts) ≠ none) :
    Unpacked targetFolder t (earlier ++ [entry]) where
  reached := h.reached
  folder := h.folder
  file := by
    intro f hf hfile
    rcases List.mem_append.mp hf with hf | hf
    · exact h.file f hf hfile
    · rw [List.mem_singleton.mp hf, hdir] at hfile
      cases hfile
  directory := by
    intro g hg hgdir p hpre hnone
    have hnone' := fun f hf => hnone f (List.mem_append_left _ hf)
    rcases List.mem_append.mp hg with hg | hg
    · exact h.directory g hg hgdir p hpre hnone'
    · rw [List.mem_singleton.mp hg] at hpre
      have hexists := t.exists_of_prefix
        ((List.prefix_append_right_inj (folderOf targetFolder)).mpr hpre) hq
      rcases h.node_cases p with hp | hp | ⟨f, hf, hfile, heq⟩
      · exact absurd hp hexists
      · exact hp
      · exact absurd heq (hnone' f hf hfile)
  missing := by
    intro p hp hnone hnot
    exact h.missing p hp (fun f hf => hnone f (List.mem_append_left _ hf))
      (fun g hg => hnot g (List.mem_append_left _ hg))

theorem made {d e : AppDisk} (h : Unpacked targetFolder d.tree earlier)
    (hdir : entry.isDirectory = true)
    (hmakes : Disk.Makes d e (folderOf targetFolder ++ entry.parts)) :
    Unpacked targetFolder e.tree (earlier ++ [entry]) where
  reached := by
    apply FileTree.reaches_mono _ _ _ h.reached
    intro p w hp
    rw [hmakes.kept p (by rw [hp]; exact Option.some_ne_none _), hp]
  folder := by
    rw [hmakes.kept _ (by rw [h.folder]; exact Option.some_ne_none _), h.folder]
  file := by
    intro f hf hfile
    rcases List.mem_append.mp hf with hf | hf
    · have hnode := h.file f hf hfile
      rw [hmakes.kept _ (by rw [hnode]; exact Option.some_ne_none _), hnode]
    · rw [List.mem_singleton.mp hf, hdir] at hfile
      cases hfile
  directory := by
    intro g hg hgdir p hpre hnone
    have hnone' := fun f hf => hnone f (List.mem_append_left _ hf)
    rcases h.node_cases p with hp | hp | ⟨f, hf, hfile, heq⟩
    · rcases List.mem_append.mp hg with hg | hg
      · rw [h.directory g hg hgdir p hpre hnone'] at hp
        cases hp
      · rw [List.mem_singleton.mp hg] at hpre
        exact hmakes.made _ ((List.prefix_append_right_inj _).mpr hpre) hp
    · rw [hmakes.kept _ (by rw [hp]; exact Option.some_ne_none _), hp]
    · exact absurd heq (hnone' f hf hfile)
  missing := by
    intro p hp hnone hnot
    apply hmakes.missing
    · rw [List.prefix_append_right_inj]
      exact hnot entry (List.mem_append_right _ (List.mem_singleton_self _)) hdir
    · exact h.missing p hp (fun f hf => hnone f (List.mem_append_left _ hf))
        (fun g hg => hnot g (List.mem_append_left _ hg))

/-! ### Files -/

section

variable {names : List U16String} {n : U16String}

theorem opens_of_placed (h : Unpacked targetFolder t earlier) (hfile : entry.isDirectory = false)
    (hparts : entry.parts = names ++ [n])
    (hdistinct : ∀ f ∈ earlier, f.isDirectory = false → f.parts ≠ entry.parts)
    (hplaced : Placed earlier entry) : t.opens (folderOf targetFolder ++ names) n = true := by
  have hdrop : entry.parts.dropLast = names := by rw [hparts, List.dropLast_concat]
  have hnone := h.missing entry.parts entry.parts_ne_nil hdistinct (hplaced.free hfile)
  rw [hparts, ← List.append_assoc] at hnone
  refine FileTree.opens_iff.mpr (.inr ⟨?_, hnone⟩)
  have hparent := hplaced.parent hfile
  rw [hdrop] at hparent
  rcases hparent with hnil | ⟨g, hg, hdir, hpre⟩
  · rw [hnil, List.append_nil]
    exact h.folder
  · apply h.directory g hg hdir names hpre
    rintro f hf hffile rfl
    have heq := hplaced.noFileAbove f hf hffile (by rw [hparts]; exact List.prefix_append ..)
    exact not_prefixed_concat f.parts n (by rw [← hparts, ← heq])

theorem missing_of_opens (h : Unpacked targetFolder t earlier)
    (hparts : entry.parts = names ++ [n])
    (hdistinct : ∀ f ∈ earlier, f.isDirectory = false → f.parts ≠ entry.parts)
    (hopens : t.opens (folderOf targetFolder ++ names) n = true) :
    t.node (folderOf targetFolder ++ names) = some (.directory true) ∧
      t.node (folderOf targetFolder ++ entry.parts) = none := by
  rw [hparts, ← List.append_assoc]
  rcases FileTree.opens_iff.mp hopens with ⟨content, hnode⟩ | hnew
  · rw [List.append_assoc, ← hparts] at hnode
    rcases h.node_cases entry.parts with hp | hp | ⟨f, hf, hfile, heq⟩
    · rw [hnode] at hp
      cases hp
    · rw [hnode] at hp
      cases hp
    · exact absurd heq (hdistinct f hf hfile)
  · exact hnew

theorem placed_of_opens (h : Unpacked targetFolder t earlier)
    (hparts : entry.parts = names ++ [n])
    (hdistinct : ∀ f ∈ earlier, f.isDirectory = false → f.parts ≠ entry.parts)
    (hopens : t.opens (folderOf targetFolder ++ names) n = true) : Placed earlier entry := by
  obtain ⟨habove, hnone⟩ := h.missing_of_opens hparts hdistinct hopens
  have hnofile : ∀ f ∈ earlier, f.isDirectory = false → f.parts ≠ names := by
    rintro f hf hfile rfl
    rw [h.file f hf hfile] at habove
    cases habove
  refine ⟨fun f hf hfile hpre => ?_, fun _ => ?_, fun _ g hg hdir hpre => ?_⟩
  · rw [hparts] at hpre ⊢
    rcases List.prefix_concat_iff.mp hpre with heq | hpre
    · exact heq
    · have heq := h.no_file_above hf hfile hpre (by rw [habove]; exact Option.some_ne_none _)
      exact absurd heq (hnofile f hf hfile)
  · rw [hparts, List.dropLast_concat]
    by_contra hnot
    obtain ⟨hnil, hg⟩ := not_or.mp hnot
    have hmissing := h.missing names hnil hnofile
      fun g hg' hdir hpre => hg ⟨g, hg', hdir, hpre⟩
    rw [habove] at hmissing
    cases hmissing
  · rw [h.directory g hg hdir entry.parts hpre hdistinct] at hnone
    cases hnone

end

theorem stored {d e : AppDisk} (h : Unpacked targetFolder d.tree earlier)
    (hfile : entry.isDirectory = false)
    (hnone : d.tree.node (folderOf targetFolder ++ entry.parts) = none)
    (hstores : Disk.Stores d e (folderOf targetFolder ++ entry.parts) entry.content) :
    Unpacked targetFolder e.tree (earlier ++ [entry]) := by
  have hkept : ∀ p x, d.tree.node p = some x → e.tree.node p = some x := by
    intro p x hp
    rw [hstores.kept, hp]
    rintro rfl
    rw [hnone] at hp
    cases hp
  refine ⟨?_, ?_, ?_, ?_, ?_⟩
  · exact FileTree.reaches_mono (fun p w => hkept p _) _ _ h.reached
  · exact hkept _ _ h.folder
  · intro f hf hffile
    rcases List.mem_append.mp hf with hf | hf
    · exact hkept _ _ (h.file f hf hffile)
    · rw [List.mem_singleton.mp hf]
      exact hstores.stored
  · intro g hg hdir p hpre hnofile
    rcases List.mem_append.mp hg with hg | hg
    · exact hkept _ _ (h.directory g hg hdir p hpre fun f hf =>
        hnofile f (List.mem_append_left _ hf))
    · rw [List.mem_singleton.mp hg, hfile] at hdir
      cases hdir
  · intro p hp hnofile hnot
    have hne : folderOf targetFolder ++ p ≠ folderOf targetFolder ++ entry.parts := by
      intro heq
      exact hnofile entry (List.mem_append_right _ (List.mem_singleton_self _)) hfile
        (List.append_cancel_left heq).symm
    rw [hstores.kept _ hne]
    exact h.missing p hp (fun f hf => hnofile f (List.mem_append_left _ hf))
      (fun g hg => hnot g (List.mem_append_left _ hg))

end Unpacked

/-- What an entry does to the folder: it is unpacked if it is placed, and stops the loop if
it is not. -/
def Settles (targetFolder : U16String) (earlier : List ZipEntry) (entry : ZipEntry)
    (result : AppDisk × Except UnzipError Unit) : Prop :=
  (Placed earlier entry ∧ result.2 = .ok () ∧
    Unpacked targetFolder result.1.tree (earlier ++ [entry])) ∨
  (¬ Placed earlier entry ∧ result.2 ≠ .ok ())

theorem extract_directory {d : AppDisk} (h : Unpacked targetFolder d.tree earlier)
    (hsafe : entry.Safe) (hdir : entry.isDirectory = true) :
    Settles targetFolder earlier entry (extract targetFolder d entry) := by
  have hextracts := extract_extracts targetFolder d entry
  generalize extract targetFolder d entry = result at hextracts
  cases hextracts with
  | present _ hhas =>
    have hq := (h.has_iff hsafe).mp hhas
    exact .inl ⟨Unpacked.placed_of_directory hdir (h.noFileAbove_of_exists hq), rfl,
      h.present hdir hq⟩
  | made _ hgrants hmakes =>
    rw [hsafe.normalize_newFile] at hgrants hmakes
    have hmade := h.made hdir hmakes
    have hexists := hmakes.made _ List.prefix_rfl hgrants.missing
    refine .inl ⟨Unpacked.placed_of_directory hdir fun f hf => ?_, rfl, hmade⟩
    exact hmade.noFileAbove_of_exists (by rw [hexists]; exact Option.some_ne_none _) f
      (List.mem_append_left _ hf)
  | refused _ hhas hgrants =>
    rw [hsafe.normalize_newFile] at hgrants
    refine .inr ⟨fun hplaced => hgrants ?_, by simp⟩
    have hnone : d.tree.node (folderOf targetFolder ++ entry.parts) = none := by
      by_contra hq
      rw [(h.has_iff hsafe).mpr hq] at hhas
      cases hhas
    apply FileTree.grants_of_missing h.folder entry.parts hnone
    intro p hpre hexists
    rcases h.node_cases p with hp | hp | ⟨f, hf, hfile, rfl⟩
    · exact absurd hp hexists
    · exact hp
    · rw [hplaced.noFileAbove f hf hfile hpre, hnone] at hexists
      exact absurd rfl hexists
  | closed hfile _ =>
    rw [hdir] at hfile
    cases hfile
  | stored hfile _ _ =>
    rw [hdir] at hfile
    cases hfile

theorem extract_file {d : AppDisk} (h : Unpacked targetFolder d.tree earlier)
    (hsafe : entry.Safe) (hfile : entry.isDirectory = false)
    (hdistinct : ∀ f ∈ earlier, f.isDirectory = false → f.parts ≠ entry.parts)
    (htransfer : transfer entry = (entry.content, .ok ())) :
    Settles targetFolder earlier entry (extract targetFolder d entry) := by
  have hparts := (List.dropLast_append_getLast entry.parts_ne_nil).symm
  have hcanOpen := h.canOpen_eq hsafe hparts
  have hextracts := extract_extracts targetFolder d entry
  generalize extract targetFolder d entry = result at hextracts
  cases hextracts with
  | present hdir _ =>
    rw [hfile] at hdir
    cases hdir
  | made hdir _ _ =>
    rw [hfile] at hdir
    cases hdir
  | refused hdir _ _ =>
    rw [hfile] at hdir
    cases hdir
  | closed _ hcan =>
    refine .inr ⟨fun hplaced => ?_, by simp⟩
    rw [hcanOpen, h.opens_of_placed hfile hparts hdistinct hplaced] at hcan
    cases hcan
  | stored _ hcan hstores =>
    rw [hcanOpen] at hcan
    rw [hsafe.normalize_newFile, htransfer] at hstores
    have hnone := (h.missing_of_opens hparts hdistinct hcan).2
    refine .inl ⟨h.placed_of_opens hparts hdistinct hcan, ?_, h.stored hfile hnone hstores⟩
    rw [htransfer]

end

/-! ## The streams -/

theorem copy_eq (ending : Ending) (reads : List (List UInt8)) :
    (∀ r ∈ reads, 0 < r.length) → copy ending reads = (reads.flatten, ending) := by
  induction reads with
  | nil => exact fun _ => rfl
  | cons read reads ih =>
    intro h
    rw [copy, if_pos (h read (List.mem_cons_self ..)),
      ih fun r hr => h r (List.mem_cons_of_mem _ hr)]
    rfl

theorem splice_eq (input : InputStream) :
    splice input = (input.reads.flatten,
      match input.ending with
      | .failed e => .error (.thrown e)
      | _ => .ok ()) := by
  rw [splice, copy_eq _ _ input.reads_pos]
  cases input.ending <;> rfl

namespace ZipEntry

def Truncated (entry : ZipEntry) : Prop :=
  ∃ input, entry.inputStream = .ok input ∧ input.ending = .eof

def Broken (entry : ZipEntry) : Prop :=
  ∃ e, entry.inputStream = .error e ∨
    ∃ input, entry.inputStream = .ok input ∧ input.ending = .failed e

def Intact (entry : ZipEntry) : Prop :=
  ∃ input, entry.inputStream = .ok input ∧ input.ending = .finished

theorem transfer_of_intact {entry : ZipEntry} (h : entry.Intact) :
    transfer entry = (entry.content, .ok ()) := by
  obtain ⟨input, hinput, hending⟩ := h
  rw [transfer, hinput]
  dsimp only
  rw [splice_eq, hending, entry.complete input hinput hending]

theorem transfer_ok_iff (entry : ZipEntry) : (transfer entry).2 = .ok () ↔ ¬ entry.Broken := by
  unfold transfer Broken
  cases hinput : entry.inputStream with
  | error e => simp
  | ok input =>
    dsimp only
    rw [splice_eq]
    cases hending : input.ending <;> simp [hending]

theorem intact_of_ok {entry : ZipEntry} (hok : ¬ entry.Broken) (h : ¬ entry.Truncated) :
    entry.Intact := by
  cases hinput : entry.inputStream with
  | error e => exact absurd ⟨e, .inl hinput⟩ hok
  | ok input =>
    refine ⟨input, hinput, ?_⟩
    cases hending : input.ending with
    | finished => rfl
    | eof => exact absurd ⟨input, hinput, hending⟩ h
    | failed e => exact absurd ⟨e, .inr ⟨input, hinput, hending⟩⟩ hok

end ZipEntry

/-! ## Archives with safe names -/

structure Regular (entries : List ZipEntry) : Prop where
  distinct : (entries.map ZipEntry.name).Nodup
  safe : ∀ e ∈ entries, e.Safe
  intact : ∀ e ∈ entries, e.isDirectory = false → e.Intact

/-- The loop returns normally, and the files in the folder are those of the archive. -/
def Produces (targetFolder : U16String) (entries : List ZipEntry)
    (result : AppDisk × Except UnzipError Unit) : Prop :=
  result.2 = .ok () ∧ ∀ p content,
    (∃ w, result.1.tree.node (folderOf targetFolder ++ p) = some (.file w content)) ↔
      ∃ e ∈ entries, e.isDirectory = false ∧ e.parts = p ∧ e.content = content

theorem Regular.parts_ne {earlier entries : List ZipEntry} {entry : ZipEntry}
    (h : Regular (earlier ++ entry :: entries)) (hfile : entry.isDirectory = false) :
    ∀ f ∈ earlier, f.isDirectory = false → f.parts ≠ entry.parts := by
  intro f hf hffile heq
  have hname := ZipEntry.name_eq_of_parts (hffile.trans hfile.symm) heq
  have hdistinct := h.distinct
  rw [List.map_append, List.nodup_append] at hdistinct
  exact hdistinct.2.2 _ (List.mem_map_of_mem hf) _
    (List.mem_map_of_mem (List.mem_cons_self ..)) hname

theorem extract_settles {targetFolder : U16String} {d : AppDisk} {earlier entries : List ZipEntry}
    {entry : ZipEntry} (h : Unpacked targetFolder d.tree earlier)
    (hregular : Regular (earlier ++ entry :: entries)) :
    Settles targetFolder earlier entry (extract targetFolder d entry) := by
  have hmem : entry ∈ earlier ++ entry :: entries :=
    List.mem_append_right _ (List.mem_cons_self ..)
  cases hdir : entry.isDirectory with
  | true => exact extract_directory h (hregular.safe _ hmem) hdir
  | false =>
    exact extract_file h (hregular.safe _ hmem) hdir (hregular.parts_ne hdir)
      (ZipEntry.transfer_of_intact (hregular.intact _ hmem hdir))

theorem extractAll_settles {targetFolder : U16String} (entries : List ZipEntry) :
    ∀ {d : AppDisk} {earlier : List ZipEntry}, Unpacked targetFolder d.tree earlier →
      Regular (earlier ++ entries) →
        (PlacedAfter earlier entries ∧ (extractAll targetFolder d entries).2 = .ok () ∧
          Unpacked targetFolder (extractAll targetFolder d entries).1.tree (earlier ++ entries)) ∨
        (¬ PlacedAfter earlier entries ∧ (extractAll targetFolder d entries).2 ≠ .ok ()) := by
  induction entries with
  | nil =>
    intro d earlier h _
    refine .inl ⟨trivial, rfl, ?_⟩
    rw [List.append_nil]
    exact h
  | cons entry entries ih =>
    intro d earlier h hregular
    have hsettles := extract_settles h hregular
    rw [extractAll]
    generalize extract targetFolder d entry = result at hsettles
    obtain ⟨next, outcome⟩ := result
    rcases hsettles with ⟨hplaced, hok, hnext⟩ | ⟨hplaced, herror⟩
    · dsimp only at hok hnext
      rw [List.append_cons] at hregular ⊢
      rw [hok, PlacedAfter, and_iff_right hplaced]
      exact ih hnext hregular
    · refine .inr ⟨fun hafter => hplaced hafter.1, ?_⟩
      cases outcome with
      | ok => exact absurd rfl herror
      | error e => exact herror

/-- The files of an archive with distinct and safe names are all unpacked into an empty folder
exactly if each entry comes after its parents. -/
theorem produces_iff {targetFolder : U16String} {entries : List ZipEntry} {tree : AppTree}
    (hregular : Regular entries) (hempty : EmptyFolder targetFolder tree) :
    Produces targetFolder entries (unzip (.ok entries) targetFolder tree) ↔
      PlacedAfter [] entries := by
  have hsettles := extractAll_settles (d := ⟨tree, []⟩) entries hempty.unpacked hregular
  rw [unzip]
  rcases hsettles with ⟨hplaced, hok, h⟩ | ⟨hplaced, herror⟩
  · refine iff_of_true ⟨hok, fun p content => ?_⟩ hplaced
    constructor
    · rintro ⟨w, hnode⟩
      rcases h.node_cases p with hp | hp | ⟨f, hf, hfile, rfl⟩
      · rw [hnode] at hp
        cases hp
      · rw [hnode] at hp
        cases hp
      · have hcontent := h.file f hf hfile
        rw [hnode] at hcontent
        cases hcontent
        exact ⟨f, hf, hfile, rfl, rfl⟩
    · rintro ⟨f, hf, hfile, rfl, rfl⟩
      exact ⟨true, h.file f hf hfile⟩
  · exact iff_of_false (fun hproduces => herror hproduces.1) hplaced

/-! ## Every archive -/

def Stops (targetFolder : U16String) (t : AppTree) (entry : ZipEntry) : Prop :=
  let file := newFile targetFolder entry.name
  if entry.isDirectory then t.has file = false ∧ ¬ t.Grants (Segment.normalize file)
  else t.canOpen file = false ∨ entry.Broken

/-- After a normal return no stream has ended too early, and what was last written to a file
is the content of its entry. -/
def Complete (targetFolder : U16String) (entries : List ZipEntry)
    (result : AppDisk × Except UnzipError Unit) : Prop :=
  result.2 = .ok () → ∀ before entry after, entries = before ++ entry :: after →
    entry.isDirectory = false → ¬ entry.Truncated ∧
      ((∀ f ∈ after, f.isDirectory = false →
        Segment.normalize (newFile targetFolder f.name) ≠
          Segment.normalize (newFile targetFolder entry.name)) →
        ∃ w, result.1.tree.node (Segment.normalize (newFile targetFolder entry.name)) =
          some (.file w entry.content))

theorem extract_ok_iff (targetFolder : U16String) (d : AppDisk) (entry : ZipEntry) :
    (extract targetFolder d entry).2 = .ok () ↔ ¬ Stops targetFolder d.tree entry := by
  have hextracts := extract_extracts targetFolder d entry
  generalize extract targetFolder d entry = result at hextracts
  unfold Stops
  cases hextracts with
  | present hdir hhas =>
    rw [if_pos hdir, hhas]
    exact iff_of_true rfl fun h => Bool.noConfusion h.1
  | made hdir hgrants _ =>
    rw [if_pos hdir]
    exact iff_of_true rfl fun h => h.2 hgrants
  | refused hdir hhas hgrants =>
    rw [if_pos hdir]
    exact iff_of_false (by simp) fun h => h ⟨hhas, hgrants⟩
  | closed hdir hcan =>
    rw [if_neg (by rw [hdir]; exact Bool.false_ne_true)]
    exact iff_of_false (by simp) fun h => h (.inl hcan)
  | stored hdir hcan _ =>
    rw [if_neg (by rw [hdir]; exact Bool.false_ne_true), hcan, ZipEntry.transfer_ok_iff]
    simp

theorem extractAll_ok_iff (targetFolder : U16String) (entries : List ZipEntry) :
    ∀ d : AppDisk, (extractAll targetFolder d entries).2 = .ok () ↔
      ∀ visit ∈ visits targetFolder d entries, ¬ Stops targetFolder visit.1 visit.2 := by
  induction entries with
  | nil => exact fun d => iff_of_true rfl (by simp [visits])
  | cons entry entries ih =>
    intro d
    have hok := extract_ok_iff targetFolder d entry
    rw [extractAll, visits, List.forall_mem_cons, ← hok]
    generalize extract targetFolder d entry = result
    obtain ⟨next, outcome⟩ := result
    cases outcome with
    | ok => exact (ih next).trans (and_iff_right rfl).symm
    | error e => exact iff_of_false (by simp) fun h => by cases h.1

theorem extractAll_cons_of_ok {targetFolder : U16String} {d : AppDisk} {entry : ZipEntry}
    {entries : List ZipEntry} (h : (extractAll targetFolder d (entry :: entries)).2 = .ok ()) :
    (extract targetFolder d entry).2 = .ok () ∧
      extractAll targetFolder d (entry :: entries) =
        extractAll targetFolder (extract targetFolder d entry).1 entries := by
  rw [extractAll] at h ⊢
  generalize extract targetFolder d entry = result at h ⊢
  obtain ⟨next, outcome⟩ := result
  cases outcome with
  | ok => exact ⟨rfl, rfl⟩
  | error e => cases h

theorem extract_keeps {targetFolder : U16String} {d : AppDisk} {entry : ZipEntry}
    {p : List U16String} {x : Node (List UInt8)} (hp : d.tree.node p = some x)
    (hother : entry.isDirectory = false →
      Segment.normalize (newFile targetFolder entry.name) ≠ p) :
    (extract targetFolder d entry).1.tree.node p = some x := by
  have hextracts := extract_extracts targetFolder d entry
  generalize extract targetFolder d entry = result at hextracts
  cases hextracts with
  | present _ _ => exact hp
  | made _ _ hmakes => rw [hmakes.kept p (by rw [hp]; exact Option.some_ne_none _), hp]
  | refused _ _ _ => exact hp
  | closed _ _ => exact hp
  | stored hfile _ hstores => rw [hstores.kept p (hother hfile).symm, hp]

theorem extractAll_keeps {targetFolder : U16String} {p : List U16String}
    {x : Node (List UInt8)} (entries : List ZipEntry) :
    ∀ {d : AppDisk}, d.tree.node p = some x →
      (∀ f ∈ entries, f.isDirectory = false →
        Segment.normalize (newFile targetFolder f.name) ≠ p) →
      (extractAll targetFolder d entries).1.tree.node p = some x := by
  induction entries with
  | nil => exact fun hp _ => hp
  | cons entry entries ih =>
    intro d hp hother
    have hnext := extract_keeps hp (hother entry (List.mem_cons_self ..))
    rw [extractAll]
    generalize extract targetFolder d entry = result at hnext
    obtain ⟨next, outcome⟩ := result
    cases outcome with
    | ok => exact ih hnext fun f hf => hother f (List.mem_cons_of_mem _ hf)
    | error e => exact hnext

theorem content_of_ok {targetFolder : U16String} {entry : ZipEntry} {after : List ZipEntry}
    (hfile : entry.isDirectory = false) (htruncated : ¬ entry.Truncated)
    (hlast : ∀ f ∈ after, f.isDirectory = false →
      Segment.normalize (newFile targetFolder f.name) ≠
        Segment.normalize (newFile targetFolder entry.name)) (before : List ZipEntry) :
    ∀ d : AppDisk, (extractAll targetFolder d (before ++ entry :: after)).2 = .ok () →
      (extractAll targetFolder d (before ++ entry :: after)).1.tree.node
          (Segment.normalize (newFile targetFolder entry.name)) =
        some (.file true entry.content) := by
  induction before with
  | nil =>
    intro d h
    rw [List.nil_append] at h ⊢
    obtain ⟨hok, hrest⟩ := extractAll_cons_of_ok h
    rw [hrest]
    apply extractAll_keeps after _ hlast
    have hextracts := extract_extracts targetFolder d entry
    generalize extract targetFolder d entry = result at hok hextracts
    cases hextracts with
    | present hdir _ =>
      rw [hfile] at hdir
      cases hdir
    | made hdir _ _ =>
      rw [hfile] at hdir
      cases hdir
    | refused hdir _ _ =>
      rw [hfile] at hdir
      cases hdir
    | closed _ _ => cases hok
    | stored _ _ hstores =>
      have hintact := ZipEntry.intact_of_ok ((ZipEntry.transfer_ok_iff entry).mp hok) htruncated
      rw [ZipEntry.transfer_of_intact hintact] at hstores
      exact hstores.stored
  | cons first before ih =>
    intro d h
    rw [List.cons_append] at h ⊢
    obtain ⟨-, hrest⟩ := extractAll_cons_of_ok h
    rw [hrest] at h ⊢
    exact ih _ h

/-- A normal return says that the files are complete exactly if no stream ends too early or
the loop is left for another reason. -/
theorem complete_iff (targetFolder : U16String) (entries : List ZipEntry) (tree : AppTree) :
    Complete targetFolder entries (unzip (.ok entries) targetFolder tree) ↔
      (∀ e ∈ entries, e.isDirectory = false → ¬ e.Truncated) ∨
        ∃ visit ∈ visits targetFolder ⟨tree, []⟩ entries, Stops targetFolder visit.1 visit.2 := by
  have hok := extractAll_ok_iff targetFolder entries ⟨tree, []⟩
  rw [unzip]
  constructor
  · intro h
    by_cases hstops : ∃ visit ∈ visits targetFolder ⟨tree, []⟩ entries,
        Stops targetFolder visit.1 visit.2
    · exact .inr hstops
    · refine .inl fun e he hfile => ?_
      obtain ⟨before, after, hsplit⟩ := List.append_of_mem he
      refine (h (hok.mpr fun visit hvisit hstop => ?_) before e after hsplit hfile).1
      exact hstops ⟨visit, hvisit, hstop⟩
  · rintro (hintact | ⟨visit, hvisit, hstop⟩) hreturn
    · rintro before entry after rfl hfile
      have htruncated := hintact entry (List.mem_append_right _ (List.mem_cons_self ..)) hfile
      exact ⟨htruncated, fun hlast =>
        ⟨true, content_of_ok hfile htruncated hlast before _ hreturn⟩⟩
    · exact absurd hstop (hok.mp hreturn visit hvisit)

/-- Unpacking is complete exactly if an archive with distinct and safe names that goes into an
empty folder lists parents first, and no stream ends too early unless the loop is left for
another reason. -/
theorem unzip_complete_iff (entries : List ZipEntry) (targetFolder : U16String) (tree : AppTree) :
    ((Regular entries → EmptyFolder targetFolder tree →
        Produces targetFolder entries (unzip (.ok entries) targetFolder tree)) ∧
      Complete targetFolder entries (unzip (.ok entries) targetFolder tree)) ↔
      ((Regular entries → EmptyFolder targetFolder tree → PlacedAfter [] entries) ∧
        ((∀ e ∈ entries, e.isDirectory = false → ¬ e.Truncated) ∨
          ∃ visit ∈ visits targetFolder ⟨tree, []⟩ entries,
            Stops targetFolder visit.1 visit.2)) := by
  rw [complete_iff]
  apply and_congr_left
  intro _
  exact forall₂_congr fun hregular hempty => produces_iff hregular hempty

namespace Sample

theorem regular_orphan : Regular [file "a/b" 7] where
  distinct := by decide
  safe := by
    intro e he s hs
    rw [List.mem_singleton.mp he] at hs
    exact (by decide : ∀ s ∈ (file "a/b" 7).parts, s ≠ [] ∧ s ≠ u16 "." ∧ s ≠ u16 "..") s hs
  intact := by
    intro e he _
    rw [List.mem_singleton.mp he]
    exact ⟨_, rfl, rfl⟩

theorem empty_tree : EmptyFolder (u16 "/t") tree where
  reached := rfl
  folder := rfl
  empty n := (node_tree [u16 "t", n]).trans (if_neg (by simp))

def truncated : ZipEntry where
  name := u16 "a"
  content := [7, 8]
  inputStream := .ok ⟨[[7]], .eof, by simp⟩
  complete := by
    intro input h hending
    cases h
    cases hending

end Sample

theorem unzip_not_complete :
    (Regular [Sample.file "a/b" 7] ∧ EmptyFolder (u16 "/t") Sample.tree ∧
      ¬ Produces (u16 "/t") [Sample.file "a/b" 7]
        (unzip (.ok [Sample.file "a/b" 7]) (u16 "/t") Sample.tree)) ∧
      ¬ Complete (u16 "/t") [Sample.truncated]
        (unzip (.ok [Sample.truncated]) (u16 "/t") Sample.tree) := by
  refine ⟨⟨Sample.regular_orphan, Sample.empty_tree, fun h => ?_⟩, fun h => ?_⟩
  · rw [produces_iff Sample.regular_orphan Sample.empty_tree] at h
    rcases h.1.parent rfl with hnil | ⟨g, hg, -⟩
    · exact absurd hnil (by decide)
    · cases hg
  · exact (h rfl [] Sample.truncated [] rfl rfl).1 ⟨_, rfl, rfl⟩

end AlmondAndroid.App
