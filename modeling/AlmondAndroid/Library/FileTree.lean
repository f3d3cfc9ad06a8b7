import Mathlib.Data.List.Infix
import Mathlib.Logic.Function.Basic

/-!
# A tree of files

A node is found by the list of the names on the way from the root. What a program gives is
a list of segments, two of which are no names but stay in a directory or leave it. The tree
has no links, so that a walk that succeeds ends at the normal form of its segments.
-/

namespace AlmondAndroid.Library

universe u v

inductive Segment (ν : Type u)
  | here
  | up
  | name (n : ν)
  deriving DecidableEq

namespace Segment

variable {ν : Type u}

/-- At the root, `up` stays. -/
def enter (p : List ν) : Segment ν → List ν
  | here => p
  | up => p.dropLast
  | name n => p ++ [n]

def walk (p : List ν) (segments : List (Segment ν)) : List ν := segments.foldl enter p

def normalize (segments : List (Segment ν)) : List ν := walk [] segments

@[simp] theorem walk_nil (p : List ν) : walk p [] = p := rfl

@[simp] theorem walk_cons (p : List ν) (s : Segment ν) (segments : List (Segment ν)) :
    walk p (s :: segments) = walk (s.enter p) segments := rfl

theorem walk_append (p : List ν) (segments more : List (Segment ν)) :
    walk p (segments ++ more) = walk (walk p segments) more :=
  List.foldl_append ..

theorem normalize_append (segments more : List (Segment ν)) :
    normalize (segments ++ more) = walk (normalize segments) more :=
  walk_append ..

theorem normalize_of_getLast {segments : List (Segment ν)} {n : ν}
    (h : segments.getLast? = some (name n)) :
    normalize segments = normalize segments.dropLast ++ [n] := by
  have hsplit := List.dropLast_append_getLast? _ h
  calc
    normalize segments = normalize (segments.dropLast ++ [name n]) := by rw [hsplit]
    _ = normalize segments.dropLast ++ [n] := normalize_append ..

theorem walk_names (p names : List ν) : walk p (names.map name) = p ++ names := by
  induction names generalizing p with
  | nil => rw [List.map_nil, walk_nil, List.append_nil]
  | cons n names ih =>
    rw [List.map_cons, walk_cons, ih]
    exact List.append_assoc ..

end Segment

theorem not_prefixed_concat {ν : Type u} (p : List ν) (n : ν) : ¬ p ++ [n] <+: p := by
  intro h
  have hlen := h.length_le
  rw [List.length_append, List.length_singleton] at hlen
  omega

theorem eq_or_prefix_dropLast {ν : Type u} {p q : List ν} (h : p <+: q) :
    p = q ∨ p <+: q.dropLast := by
  cases q using List.reverseRecOn with
  | nil => exact .inl (List.prefix_nil.mp h)
  | append_singleton q n =>
    rw [List.dropLast_concat]
    exact List.prefix_concat_iff.mp h

inductive Node (β : Type v)
  | directory (writable : Bool)
  | file (writable : Bool) (content : β)
  deriving DecidableEq

structure FileTree (ν : Type u) (β : Type v) where
  node : List ν → Option (Node β)
  root : ∃ w, node [] = some (.directory w)
  parent : ∀ (p : List ν) (n : ν), node (p ++ [n]) ≠ none → ∃ w, node p = some (.directory w)

namespace FileTree

variable {ν : Type u} {β : Type v}

theorem parent_of_append (t : FileTree ν β) (p rest : List ν) :
    ∀ n : ν, t.node (p ++ n :: rest) ≠ none → ∃ w, t.node p = some (.directory w) := by
  induction rest using List.reverseRecOn with
  | nil => exact fun n h => t.parent p n h
  | append_singleton rest m ih =>
    intro n h
    rw [← List.cons_append, ← List.append_assoc] at h
    obtain ⟨w, hw⟩ := t.parent _ m h
    exact ih n (by rw [hw]; exact Option.some_ne_none _)

theorem exists_of_prefix (t : FileTree ν β) {p q : List ν} (hpq : p <+: q)
    (h : t.node q ≠ none) : t.node p ≠ none := by
  obtain ⟨rest, rfl⟩ := hpq
  cases rest with
  | nil =>
    rw [List.append_nil] at h
    exact h
  | cons n rest =>
    obtain ⟨w, hw⟩ := t.parent_of_append p rest n h
    rw [hw]
    exact Option.some_ne_none _

theorem missing_of_prefix (t : FileTree ν β) {p q : List ν} (hpq : p <+: q)
    (h : t.node p = none) : t.node q = none := by
  by_contra hq
  exact t.exists_of_prefix hpq hq h

def isDirectory (t : FileTree ν β) (p : List ν) : Bool :=
  match t.node p with
  | some (.directory _) => true
  | _ => false

def canAdd (t : FileTree ν β) (p : List ν) : Bool :=
  match t.node p with
  | some (.directory true) => true
  | _ => false

theorem isDirectory_iff (t : FileTree ν β) (p : List ν) :
    t.isDirectory p = true ↔ ∃ w, t.node p = some (.directory w) := by
  unfold isDirectory
  split
  case h_1 w hw => exact ⟨fun _ => ⟨w, hw⟩, fun _ => rfl⟩
  case h_2 hnot =>
    constructor
    · intro h
      cases h
    · rintro ⟨w, hw⟩
      exact absurd hw (hnot w)

theorem canAdd_iff (t : FileTree ν β) (p : List ν) :
    t.canAdd p = true ↔ t.node p = some (.directory true) := by
  unfold canAdd
  split
  case h_1 h => exact ⟨fun _ => h, fun _ => rfl⟩
  case h_2 hnot =>
    constructor
    · intro h
      cases h
    · intro h
      exact absurd h hnot

def reaches (t : FileTree ν β) : List ν → List (Segment ν) → Bool
  | _, [] => true
  | p, s :: segments => t.isDirectory p && t.reaches (s.enter p) segments

def has (t : FileTree ν β) (segments : List (Segment ν)) : Bool :=
  t.reaches [] segments && (t.node (Segment.normalize segments)).isSome

theorem has_iff (t : FileTree ν β) (segments : List (Segment ν)) :
    t.has segments = true ↔
      t.reaches [] segments = true ∧ t.node (Segment.normalize segments) ≠ none := by
  rw [has, Bool.and_eq_true, Option.isSome_iff_ne_none]

theorem reaches_append (t : FileTree ν β) (segments more : List (Segment ν)) :
    ∀ p : List ν, t.reaches p (segments ++ more) =
      (t.reaches p segments && t.reaches (Segment.walk p segments) more) := by
  induction segments with
  | nil => exact fun p => (Bool.true_and _).symm
  | cons s segments ih =>
    intro p
    dsimp only [List.cons_append, reaches]
    rw [ih, Bool.and_assoc, Segment.walk_cons]

theorem reaches_mono {t u : FileTree ν β}
    (h : ∀ p w, t.node p = some (.directory w) → u.node p = some (.directory w))
    (segments : List (Segment ν)) :
    ∀ p, t.reaches p segments = true → u.reaches p segments = true := by
  induction segments with
  | nil => exact fun _ _ => rfl
  | cons s segments ih =>
    intro p hreaches
    obtain ⟨hdir, hrest⟩ := Bool.and_eq_true_iff.mp hreaches
    obtain ⟨w, hw⟩ := (t.isDirectory_iff p).mp hdir
    exact Bool.and_eq_true_iff.mpr ⟨(u.isDirectory_iff p).mpr ⟨w, h p w hw⟩, ih _ hrest⟩

theorem reaches_names (t : FileTree ν β) (names : List ν) (n : ν) :
    ∀ p, t.reaches p ((names ++ [n]).map .name) = t.isDirectory (p ++ names) := by
  induction names with
  | nil =>
    intro p
    rw [List.append_nil]
    exact Bool.and_true _
  | cons m names ih =>
    intro p
    rw [List.cons_append, List.map_cons, reaches, Segment.enter, ih, List.append_assoc,
      List.singleton_append]
    cases hdir : t.isDirectory (p ++ m :: names) with
    | false => exact Bool.and_false _
    | true =>
      obtain ⟨w, hw⟩ := (t.isDirectory_iff _).mp hdir
      obtain ⟨v, hv⟩ := t.parent_of_append p names m (by rw [hw]; exact Option.some_ne_none _)
      rw [(t.isDirectory_iff p).mpr ⟨v, hv⟩]
      rfl

/-- Directories can be made on the way to the path: the first that is missing belongs into
one that can be written. -/
def Grants (t : FileTree ν β) (q : List ν) : Prop :=
  ∃ p n, p ++ [n] <+: q ∧ t.node p = some (.directory true) ∧ t.node (p ++ [n]) = none

theorem Grants.missing {t : FileTree ν β} {q : List ν} (h : t.Grants q) : t.node q = none := by
  obtain ⟨p, n, hpre, -, hnone⟩ := h
  exact t.missing_of_prefix hpre hnone

theorem grants_append_iff {t : FileTree ν β} {p : List ν} {n : ν} :
    t.Grants (p ++ [n]) ↔
      t.Grants p ∨ (t.node p = some (.directory true) ∧ t.node (p ++ [n]) = none) := by
  constructor
  · rintro ⟨r, m, hpre, hdir, hnone⟩
    rcases List.prefix_concat_iff.mp hpre with heq | hpre
    · rw [List.append_inj_left' heq rfl] at hdir
      rw [heq] at hnone
      exact .inr ⟨hdir, hnone⟩
    · exact .inl ⟨r, m, hpre, hdir, hnone⟩
  · rintro (⟨r, m, hpre, hdir, hnone⟩ | ⟨hdir, hnone⟩)
    · exact ⟨r, m, hpre.trans (List.prefix_append ..), hdir, hnone⟩
    · exact ⟨p, n, List.prefix_rfl, hdir, hnone⟩

theorem grants_of_missing {t : FileTree ν β} {p : List ν}
    (hp : t.node p = some (.directory true)) (names : List ν) :
    t.node (p ++ names) = none →
      (∀ r, r <+: names → t.node (p ++ r) ≠ none → t.node (p ++ r) = some (.directory true)) →
        t.Grants (p ++ names) := by
  induction names using List.reverseRecOn with
  | nil =>
    intro h _
    rw [List.append_nil, hp] at h
    cases h
  | append_singleton names n ih =>
    intro hnone hdirs
    rw [← List.append_assoc] at hnone ⊢
    rw [grants_append_iff]
    by_cases habove : t.node (p ++ names) = none
    · exact .inl (ih habove fun r hr => hdirs r (hr.trans (List.prefix_append ..)))
    · exact .inr ⟨hdirs names (List.prefix_append ..) habove, hnone⟩

variable [DecidableEq ν]

def put (t : FileTree ν β) (p : List ν) (n : ν) (x : Node β)
    (hdirectory : ∃ w, t.node p = some (.directory w))
    (hfree : ∀ w, t.node (p ++ [n]) ≠ some (.directory w)) : FileTree ν β where
  node := Function.update t.node (p ++ [n]) (some x)
  root := by
    rw [Function.update_of_ne (by simp)]
    exact t.root
  parent := by
    intro q m h
    have hq : ∃ w, t.node q = some (.directory w) := by
      by_cases heq : q ++ [m] = p ++ [n]
      · rw [List.append_inj_left' heq rfl]
        exact hdirectory
      · rw [Function.update_of_ne heq] at h
        exact t.parent q m h
    obtain ⟨w, hw⟩ := hq
    refine ⟨w, ?_⟩
    rw [Function.update_of_ne, hw]
    rintro rfl
    exact hfree w hw

@[simp] theorem node_put (t : FileTree ν β) (p : List ν) (n : ν) (x : Node β)
    (hdirectory : ∃ w, t.node p = some (.directory w))
    (hfree : ∀ w, t.node (p ++ [n]) ≠ some (.directory w)) :
    (t.put p n x hdirectory hfree).node = Function.update t.node (p ++ [n]) (some x) := rfl

end FileTree

/-- A tree of files, with the paths of the directories that were made and the files that
were opened for writing. -/
structure Disk (ν : Type u) (β : Type v) where
  tree : FileTree ν β
  changed : List (List ν)

namespace Disk

variable {ν : Type u} {β : Type v} [DecidableEq ν]

/-! ## Making directories -/

def mkdir (d : Disk ν β) (p : List ν) (n : ν) : Option (Disk ν β) :=
  if h : d.tree.canAdd p = true ∧ d.tree.node (p ++ [n]) = none then
    some ⟨d.tree.put p n (.directory true) ⟨true, (d.tree.canAdd_iff p).mp h.1⟩ (by simp [h.2]),
      d.changed ++ [p ++ [n]]⟩
  else none

/-- `File.mkdir`: a path that ends in the directory itself or in its parent is there or is
not reached. -/
def mkdirAt (d : Disk ν β) (segments : List (Segment ν)) : Option (Disk ν β) :=
  match segments.getLast? with
  | some (.name n) =>
      if d.tree.reaches [] segments then d.mkdir (Segment.normalize segments.dropLast) n else none
  | _ => none

/-- `File.mkdirs` of a normal form, given from its end. -/
def mkdirsUp (d : Disk ν β) : List ν → Bool × Disk ν β
  | [] => (false, d)
  | n :: up =>
      if d.tree.node (n :: up).reverse ≠ none then (false, d)
      else
        match d.mkdir up.reverse n with
        | some made => (true, made)
        | none =>
            let (made, above) := d.mkdirsUp up
            if made ∨ above.tree.node up.reverse ≠ none then
              match above.mkdir up.reverse n with
              | some made => (true, made)
              | none => (false, above)
            else (false, above)

/-- `File.mkdirs`: where the directory cannot be made at once, its parents are made along
its normal form. -/
def mkdirs (d : Disk ν β) (segments : List (Segment ν)) : Bool × Disk ν β :=
  if d.tree.has segments then (false, d)
  else
    match d.mkdirAt segments with
    | some made => (true, made)
    | none => d.mkdirsUp (Segment.normalize segments).reverse

/-- Every directory that was missing on the way to the path has been made. -/
structure Makes (d e : Disk ν β) (q : List ν) : Prop where
  made : ∀ p, p <+: q → d.tree.node p = none → e.tree.node p = some (.directory true)
  kept : ∀ p, d.tree.node p ≠ none → e.tree.node p = d.tree.node p
  missing : ∀ p, ¬ p <+: q → d.tree.node p = none → e.tree.node p = none
  changed : ∃ l, e.changed = d.changed ++ l ∧ ∀ p, p ∈ l ↔ p <+: q ∧ d.tree.node p = none

theorem mkdir_eq_none {d : Disk ν β} {p : List ν} {n : ν}
    (h : ¬ (d.tree.node p = some (.directory true) ∧ d.tree.node (p ++ [n]) = none)) :
    d.mkdir p n = none := by
  rw [mkdir, dif_neg]
  rw [d.tree.canAdd_iff]
  exact h

theorem mkdir_makes {d : Disk ν β} {p : List ν} {n : ν}
    (hdir : d.tree.node p = some (.directory true)) (hnone : d.tree.node (p ++ [n]) = none) :
    ∃ e, d.mkdir p n = some e ∧ Makes d e (p ++ [n]) := by
  have hp : d.tree.node p ≠ none := by
    rw [hdir]
    exact Option.some_ne_none _
  refine ⟨_, dif_pos ⟨(d.tree.canAdd_iff p).mpr hdir, hnone⟩, ?_, ?_, ?_, [p ++ [n]], rfl, ?_⟩
  · intro r hpre hr
    rcases List.prefix_concat_iff.mp hpre with rfl | hpre
    · exact Function.update_self ..
    · exact absurd hr (d.tree.exists_of_prefix hpre hp)
  · intro r hr
    apply Function.update_of_ne
    rintro rfl
    exact hr hnone
  · intro r hpre hr
    have hne : r ≠ p ++ [n] := by
      rintro rfl
      exact hpre List.prefix_rfl
    exact (Function.update_of_ne hne ..).trans hr
  · intro r
    rw [List.mem_singleton]
    constructor
    · rintro rfl
      exact ⟨List.prefix_rfl, hnone⟩
    · rintro ⟨hpre, hr⟩
      rcases List.prefix_concat_iff.mp hpre with heq | hpre
      · exact heq
      · exact absurd hr (d.tree.exists_of_prefix hpre hp)

omit [DecidableEq ν] in
theorem Makes.trans {d e f : Disk ν β} {p : List ν} {n : ν} (h : Makes d e p)
    (hlast : Makes e f (p ++ [n])) : Makes d f (p ++ [n]) := by
  obtain ⟨l, hl, hmem⟩ := h.changed
  obtain ⟨m, hm, hmem'⟩ := hlast.changed
  have hown := not_prefixed_concat p n
  refine ⟨?_, ?_, ?_, l ++ m, ?_, ?_⟩
  · intro r hpre hr
    rcases List.prefix_concat_iff.mp hpre with rfl | hpre'
    · exact hlast.made _ hpre (h.missing _ hown hr)
    · have hdir := h.made r hpre' hr
      rw [hlast.kept r (by rw [hdir]; exact Option.some_ne_none _), hdir]
  · intro r hr
    rw [← h.kept r hr]
    apply hlast.kept
    rw [h.kept r hr]
    exact hr
  · intro r hpre hr
    apply hlast.missing r hpre
    exact h.missing r (fun hp => hpre (hp.trans (List.prefix_append ..))) hr
  · rw [hm, hl, List.append_assoc]
  · intro r
    rw [List.mem_append, hmem, hmem']
    constructor
    · rintro (⟨hpre, hr⟩ | ⟨hpre, hr⟩)
      · exact ⟨hpre.trans (List.prefix_append ..), hr⟩
      · refine ⟨hpre, ?_⟩
        by_contra hsome
        rw [h.kept r hsome] at hr
        exact hsome hr
    · rintro ⟨hpre, hr⟩
      rcases List.prefix_concat_iff.mp hpre with rfl | hpre'
      · exact .inr ⟨hpre, h.missing _ hown hr⟩
      · exact .inl ⟨hpre', hr⟩

theorem mkdirsUp_eq_of_exists {d : Disk ν β} {up : List ν} (h : d.tree.node up.reverse ≠ none) :
    d.mkdirsUp up = (false, d) := by
  cases up with
  | nil => rfl
  | cons n up => rw [mkdirsUp, if_pos h]

theorem mkdirsUp_of_not_grants {d : Disk ν β} (up : List ν) :
    ¬ d.tree.Grants up.reverse → d.mkdirsUp up = (false, d) := by
  induction up with
  | nil => exact fun _ => rfl
  | cons n up ih =>
    intro h
    by_cases hsome : d.tree.node (n :: up).reverse ≠ none
    · exact mkdirsUp_eq_of_exists hsome
    · have hnone := not_ne_iff.mp hsome
      rw [List.reverse_cons] at h hnone
      obtain ⟨habove, hlast⟩ := not_or.mp (mt FileTree.grants_append_iff.mpr h)
      have hmkdir := mkdir_eq_none hlast
      rw [mkdirsUp, if_neg hsome, hmkdir, ih habove]
      dsimp only
      rw [hmkdir]
      split <;> rfl

theorem mkdirsUp_of_grants {d : Disk ν β} (up : List ν) :
    d.tree.Grants up.reverse →
      ∃ e, d.mkdirsUp up = (true, e) ∧ Makes d e up.reverse := by
  induction up with
  | nil =>
    intro h
    obtain ⟨w, hw⟩ := d.tree.root
    exact absurd h.missing (by rw [List.reverse_nil, hw]; exact Option.some_ne_none _)
  | cons n up ih =>
    intro h
    have hnone := h.missing
    rw [mkdirsUp, if_neg (not_ne_iff.mpr hnone)]
    rw [List.reverse_cons] at h hnone ⊢
    rcases FileTree.grants_append_iff.mp h with habove | ⟨hdir, -⟩
    · obtain ⟨e, he, hmakes⟩ := ih habove
      have hfirst : d.mkdir up.reverse n = none := by
        apply mkdir_eq_none
        rw [habove.missing]
        rintro ⟨hdir, -⟩
        cases hdir
      obtain ⟨f, hf, hlast⟩ := mkdir_makes (hmakes.made _ List.prefix_rfl habove.missing)
        (hmakes.missing _ (not_prefixed_concat _ n) hnone)
      refine ⟨f, ?_, hmakes.trans hlast⟩
      rw [hfirst, he]
      dsimp only
      rw [if_pos (.inl rfl), hf]
    · obtain ⟨e, he, hmakes⟩ := mkdir_makes hdir hnone
      exact ⟨e, by rw [he], hmakes⟩

theorem mkdir_eq_some {d e : Disk ν β} {p : List ν} {n : ν} (h : d.mkdir p n = some e) :
    d.tree.Grants (p ++ [n]) ∧ Makes d e (p ++ [n]) := by
  by_cases hcan : d.tree.node p = some (.directory true) ∧ d.tree.node (p ++ [n]) = none
  · obtain ⟨f, hf, hmakes⟩ := mkdir_makes hcan.1 hcan.2
    rw [h] at hf
    cases hf
    exact ⟨FileTree.grants_append_iff.mpr (.inr hcan), hmakes⟩
  · rw [mkdir_eq_none hcan] at h
    cases h

theorem mkdirAt_eq_some {d e : Disk ν β} {segments : List (Segment ν)}
    (h : d.mkdirAt segments = some e) :
    d.tree.Grants (Segment.normalize segments) ∧ Makes d e (Segment.normalize segments) := by
  unfold mkdirAt at h
  split at h
  case h_1 n hlast =>
    rw [Segment.normalize_of_getLast hlast]
    split at h
    · exact mkdir_eq_some h
    · cases h
  case h_2 => cases h

theorem mkdirs_of_grants {d : Disk ν β} {segments : List (Segment ν)}
    (h : d.tree.Grants (Segment.normalize segments)) :
    ∃ e, d.mkdirs segments = (true, e) ∧ Makes d e (Segment.normalize segments) := by
  have hhas : ¬ d.tree.has segments = true := by
    rw [d.tree.has_iff]
    exact fun hhas => hhas.2 h.missing
  rw [mkdirs, if_neg hhas]
  cases hat : d.mkdirAt segments with
  | some e => exact ⟨e, rfl, (mkdirAt_eq_some hat).2⟩
  | none =>
    rw [← List.reverse_reverse (Segment.normalize segments)] at h ⊢
    rw [List.reverse_reverse]
    exact mkdirsUp_of_grants _ h

/-- `mkdirs` makes all the directories or none. -/
theorem mkdirs_of_not_grants {d : Disk ν β} {segments : List (Segment ν)}
    (h : ¬ d.tree.Grants (Segment.normalize segments)) : d.mkdirs segments = (false, d) := by
  rw [mkdirs]
  split
  · rfl
  · cases hat : d.mkdirAt segments with
    | some e => exact absurd (mkdirAt_eq_some hat).1 h
    | none =>
      apply mkdirsUp_of_not_grants
      rw [List.reverse_reverse]
      exact h

end Disk

/-! ## Writing files -/

namespace FileTree

variable {ν : Type u} {β : Type v}

def opens (t : FileTree ν β) (p : List ν) (n : ν) : Bool :=
  match t.node (p ++ [n]) with
  | some (.file writable _) => writable
  | some (.directory _) => false
  | none => t.canAdd p

/-- A file can be opened for writing. -/
def canOpen (t : FileTree ν β) (segments : List (Segment ν)) : Bool :=
  match segments.getLast? with
  | some (.name n) => t.reaches [] segments && t.opens (Segment.normalize segments.dropLast) n
  | _ => false

theorem canOpen_concat (t : FileTree ν β) (segments : List (Segment ν)) (n : ν) :
    t.canOpen (segments ++ [.name n]) =
      (t.reaches [] (segments ++ [.name n]) && t.opens (Segment.normalize segments) n) := by
  rw [canOpen, List.getLast?_concat, List.dropLast_concat]

theorem opens_iff {t : FileTree ν β} {p : List ν} {n : ν} :
    t.opens p n = true ↔ (∃ content, t.node (p ++ [n]) = some (.file true content)) ∨
      (t.node p = some (.directory true) ∧ t.node (p ++ [n]) = none) := by
  unfold opens
  split
  case h_1 w content h => simp [h, eq_comm]
  case h_2 w h => simp [h]
  case h_3 h => simp [h, t.canAdd_iff]

theorem directory_of_opens {t : FileTree ν β} {p : List ν} {n : ν} (h : t.opens p n = true) :
    ∃ w, t.node p = some (.directory w) := by
  rcases opens_iff.mp h with ⟨content, hfile⟩ | ⟨hdir, -⟩
  · exact t.parent p n (by rw [hfile]; exact Option.some_ne_none _)
  · exact ⟨true, hdir⟩

theorem not_directory_of_opens {t : FileTree ν β} {p : List ν} {n : ν} (h : t.opens p n = true)
    (w : Bool) : t.node (p ++ [n]) ≠ some (.directory w) := by
  rcases opens_iff.mp h with ⟨content, hfile⟩ | ⟨-, hnone⟩
  · rw [hfile]
    simp
  · rw [hnone]
    simp

end FileTree

namespace Disk

variable {ν : Type u} {β : Type v} [DecidableEq ν]

def storeAt (d : Disk ν β) (p : List ν) (n : ν) (content : β) : Option (Disk ν β) :=
  if h : d.tree.opens p n = true then
    some ⟨d.tree.put p n (.file true content) (FileTree.directory_of_opens h)
      (FileTree.not_directory_of_opens h), d.changed ++ [p ++ [n]]⟩
  else none

/-- A file is opened for writing, which leaves nothing of what was in it, and holds the
content when it is closed. -/
def store (d : Disk ν β) (segments : List (Segment ν)) (content : β) : Option (Disk ν β) :=
  match segments.getLast? with
  | some (.name n) =>
      if d.tree.reaches [] segments then d.storeAt (Segment.normalize segments.dropLast) n content
      else none
  | _ => none

structure Stores (d e : Disk ν β) (q : List ν) (content : β) : Prop where
  stored : e.tree.node q = some (.file true content)
  kept : ∀ p, p ≠ q → e.tree.node p = d.tree.node p
  changed : e.changed = d.changed ++ [q]

theorem store_of_canOpen {d : Disk ν β} {segments : List (Segment ν)} (content : β)
    (h : d.tree.canOpen segments = true) :
    ∃ e, d.store segments content = some e ∧
      Stores d e (Segment.normalize segments) content := by
  unfold FileTree.canOpen at h
  split at h
  case h_1 n hlast =>
    obtain ⟨hreaches, hopens⟩ := Bool.and_eq_true_iff.mp h
    rw [Segment.normalize_of_getLast hlast]
    rw [store, hlast]
    dsimp only
    rw [if_pos hreaches, storeAt, dif_pos hopens]
    exact ⟨_, rfl, Function.update_self .., fun p hp => Function.update_of_ne hp .., rfl⟩
  case h_2 => cases h

theorem store_eq_none {d : Disk ν β} {segments : List (Segment ν)} (content : β)
    (h : d.tree.canOpen segments = false) : d.store segments content = none := by
  unfold FileTree.canOpen at h
  unfold store
  split
  case h_1 n hlast =>
    rw [hlast] at h
    split
    · rename_i hreaches
      dsimp only at h
      rw [hreaches, Bool.true_and] at h
      rw [storeAt, dif_neg (by rw [h]; exact Bool.false_ne_true)]
    · rfl
  case h_2 => rfl

end Disk

/-! ## Trees of directories -/

namespace FileTree

variable {ν : Type u} {β : Type v}

theorem reaches_of_isDirectory (t : FileTree ν β) (segments : List (Segment ν)) :
    ∀ p, (∀ r ≤ segments.length, t.isDirectory (Segment.walk p (segments.take r)) = true) →
      t.reaches p segments = true := by
  induction segments with
  | nil => exact fun _ _ => rfl
  | cons s segments ih =>
    intro p h
    rw [reaches, Bool.and_eq_true]
    exact ⟨h 0 (Nat.zero_le _), ih (s.enter p) fun r hr => h (r + 1) (Nat.succ_le_succ hr)⟩

/-- The directories on the way to these paths, and nothing else. -/
def ofPaths [DecidableEq ν] (paths : List (List ν)) : FileTree ν β where
  node p := if p = [] ∨ ∃ q ∈ paths, p <+: q then some (.directory true) else none
  root := ⟨true, if_pos (.inl rfl)⟩
  parent := by
    intro p n h
    refine ⟨true, if_pos ?_⟩
    by_contra hp
    apply h
    rw [if_neg]
    rintro (hnil | ⟨q, hq, hprefix⟩)
    · exact List.append_ne_nil_of_right_ne_nil _ (List.cons_ne_nil _ _) hnil
    · exact hp (.inr ⟨q, hq, (List.prefix_append _ _).trans hprefix⟩)

def places (segments : List (Segment ν)) : List (List ν) :=
  (List.range (segments.length + 1)).map fun r => Segment.walk [] (segments.take r)

theorem node_ofPaths_places [DecidableEq ν] (segments : List (Segment ν)) {r : Nat}
    (hr : r ≤ segments.length) :
    (ofPaths (β := β) (places segments)).node (Segment.walk [] (segments.take r)) =
      some (.directory true) :=
  if_pos (.inr ⟨_, List.mem_map.mpr ⟨r, List.mem_range.mpr (Nat.lt_succ_of_le hr), rfl⟩,
    List.prefix_refl _⟩)

theorem reaches_ofPaths_places [DecidableEq ν] (segments : List (Segment ν)) :
    (ofPaths (β := β) (places segments)).reaches [] segments = true := by
  refine reaches_of_isDirectory _ segments [] fun r hr => ?_
  rw [isDirectory_iff]
  exact ⟨true, node_ofPaths_places segments hr⟩

theorem finite_ofPaths [DecidableEq ν] (paths : List (List ν)) :
    ∃ nodes : List (List ν), ∀ p, (ofPaths (β := β) paths).node p ≠ none → p ∈ nodes := by
  refine ⟨[] :: paths.flatMap List.inits, fun p hp => ?_⟩
  by_contra hmem
  apply hp
  refine if_neg ?_
  rintro (rfl | ⟨q, hq, hprefix⟩)
  · exact hmem (List.mem_cons_self ..)
  · refine hmem (List.mem_cons_of_mem _ (List.mem_flatMap.mpr ⟨q, hq, ?_⟩))
    exact (List.mem_inits p q).mpr hprefix

end FileTree

end AlmondAndroid.Library
