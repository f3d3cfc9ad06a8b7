import Mathlib.Data.Nat.Find

/-!
# Reading an asset

The loop of `read_asset_sync` adds to its offset whatever `AAsset_read` returns. The results
of the calls are given as a sequence, of which the loop takes the next one for each call.
-/

namespace AlmondAndroid.Bridge

/-- What a call of `AAsset_read` does: it stores bytes, none at the end of the file, or it
fails. -/
inductive AssetRead
  | stored (bytes : List UInt8)
  | failed (code : Nat)

namespace AssetRead

def value : AssetRead → Int
  | stored bytes => bytes.length
  | failed code => Int.negSucc code

def bytes : AssetRead → List UInt8
  | stored bytes => bytes
  | failed _ => []

end AssetRead

/-- A cell of the buffer is `none` until a byte is stored in it. -/
abbrev Buffer := List (Option UInt8)

/-- What the loop has come to. In `outOfBounds` it addresses the buffer outside of its
length, and `raised` is an exception in JavaScript. -/
inductive AssetState
  | reading (off : Int) (buffer : Buffer)
  | outOfBounds (off : Int)
  | returned (buffer : Buffer)
  | raised

namespace AssetReads

def store (buffer : Buffer) (off : Nat) (bytes : List UInt8) : Buffer :=
  buffer.take off ++ bytes.map some ++ buffer.drop (off + bytes.length)

def loopHead (length : Nat) (off : Int) (buffer : Buffer) : AssetState :=
  if off < length then
    if 0 ≤ off then .reading off buffer else .outOfBounds off
  else .returned buffer

def afterRead (length : Nat) : AssetState → AssetRead → AssetState
  | .reading off buffer, read =>
      loopHead length (off + read.value) (store buffer off.toNat read.bytes)
  | state, _ => state

/-- The state of the loop after this many calls of `AAsset_read`. -/
def read_asset_sync (length : Nat) (results : Nat → AssetRead) : Nat → AssetState
  | 0 => loopHead length 0 (List.replicate length none)
  | n + 1 => afterRead length (read_asset_sync length results n) (results n)

def total (results : Nat → AssetRead) : Nat → Int
  | 0 => 0
  | n + 1 => total results n + (results n).value

def bytesRead (results : Nat → AssetRead) : Nat → List UInt8
  | 0 => []
  | n + 1 => bytesRead results n ++ (results n).bytes

/-- The loop makes call `n`: up to there the results add up to an offset in the buffer. -/
def Asked (length : Nat) (results : Nat → AssetRead) (n : Nat) : Prop :=
  ∀ m ≤ n, 0 ≤ total results m ∧ total results m < length

/-- No call stores more bytes than it is asked for. -/
def Admissible (length : Nat) (results : Nat → AssetRead) : Prop :=
  ∀ n, Asked length results n → (results n).value ≤ length - total results n

/-- The loop stays within the buffer and ends, with an exception or with a buffer that holds
as many bytes as the asset has, which are the bytes read. -/
def ReadsWhole (length : Nat) (results : Nat → AssetRead) : Prop :=
  (∀ n off, read_asset_sync length results n ≠ .outOfBounds off) ∧
    ∃ n, read_asset_sync length results n = .raised ∨
      (bytesRead results n).length = length ∧
        read_asset_sync length results n = .returned ((bytesRead results n).map some)

/-- No call that the loop makes fails, and none is at the end of the file for good. -/
def NeverFails (length : Nat) (results : Nat → AssetRead) : Prop :=
  ∀ n, Asked length results n → 0 ≤ (results n).value ∧ ∃ m, n ≤ m ∧ 0 < (results m).value

section

variable {length : Nat} {results : Nat → AssetRead}

theorem value_nonneg_iff (read : AssetRead) :
    0 ≤ read.value ↔ read.value = read.bytes.length := by
  cases read with
  | stored bytes => exact ⟨fun _ => rfl, fun _ => Int.natCast_nonneg _⟩
  | failed code =>
    constructor
    · intro h
      exact absurd h (Int.not_le.mpr (Int.negSucc_lt_zero code))
    · intro h
      rw [h]
      exact Int.natCast_nonneg _

theorem value_le (read : AssetRead) : read.value ≤ read.bytes.length := by
  cases read with
  | stored bytes => exact Int.le_refl _
  | failed code =>
    have hneg := Int.negSucc_lt_zero code
    change Int.negSucc code ≤ 0
    omega

theorem Asked.mono {m n : Nat} (h : Asked length results n) (hmn : m ≤ n) :
    Asked length results m :=
  fun k hk => h k (Nat.le_trans hk hmn)

theorem length_bytesRead_mono {m n : Nat} (h : m ≤ n) :
    (bytesRead results m).length ≤ (bytesRead results n).length := by
  induction n with
  | zero =>
    cases Nat.le_zero.mp h
    exact Nat.le_refl _
  | succ n ih =>
    rcases Nat.of_le_succ h with hle | rfl
    · rw [bytesRead, List.length_append]
      exact Nat.le_trans (ih hle) (Nat.le_add_right _ _)
    · exact Nat.le_refl _

theorem total_le_length_bytesRead (results : Nat → AssetRead) (n : Nat) :
    total results n ≤ (bytesRead results n).length := by
  induction n with
  | zero => exact Int.le_refl 0
  | succ n ih =>
    have hvalue := value_le (results n)
    rw [total, bytesRead, List.length_append]
    omega

theorem total_lt_length_bytesRead {m n : Nat} (hm : (results m).value < 0) (h : m < n) :
    total results n < (bytesRead results n).length := by
  induction n with
  | zero => cases h
  | succ n ih =>
    have hle := total_le_length_bytesRead results n
    have hvalue := value_le (results n)
    rw [total, bytesRead, List.length_append]
    rcases Nat.lt_succ_iff_lt_or_eq.mp h with hlt | rfl
    · have := ih hlt
      omega
    · omega

/-! ## The loop -/

theorem loopHead_of_asked {n : Nat} (h : Asked length results n) (buffer : Buffer) :
    loopHead length (total results n) buffer = .reading (total results n) buffer := by
  obtain ⟨hnonneg, hlt⟩ := h n (Nat.le_refl n)
  rw [loopHead, if_pos hlt, if_pos hnonneg]

theorem read_eq_loopHead (n : Nat) (h : ∀ m < n, Asked length results m) :
    ∃ buffer, read_asset_sync length results n = loopHead length (total results n) buffer := by
  induction n with
  | zero => exact ⟨_, rfl⟩
  | succ n ih =>
    obtain ⟨buffer, hbuffer⟩ := ih fun m hm => h m (Nat.lt_succ_of_lt hm)
    rw [read_asset_sync, hbuffer, loopHead_of_asked (h n (Nat.lt_succ_self n))]
    exact ⟨_, rfl⟩

theorem read_of_asked {n : Nat} (h : Asked length results n) :
    ∃ buffer, read_asset_sync length results n = .reading (total results n) buffer := by
  obtain ⟨buffer, hbuffer⟩ := read_eq_loopHead n fun m hm => h.mono (Nat.le_of_lt hm)
  exact ⟨buffer, hbuffer.trans (loopHead_of_asked h buffer)⟩

theorem read_of_returned {n : Nat} {buffer : Buffer}
    (h : read_asset_sync length results n = .returned buffer) :
    ∀ m, n ≤ m → read_asset_sync length results m = .returned buffer := by
  intro m hm
  induction hm with
  | refl => exact h
  | step _ ih =>
    rw [read_asset_sync, ih]
    rfl

theorem read_ne_raised (n : Nat) : read_asset_sync length results n ≠ .raised := by
  induction n with
  | zero =>
    rw [read_asset_sync, loopHead]
    split
    · split <;> exact AssetState.noConfusion
    · exact AssetState.noConfusion
  | succ n ih =>
    rw [read_asset_sync]
    cases hstate : read_asset_sync length results n with
    | reading off buffer =>
      rw [afterRead, loopHead]
      split
      · split <;> exact AssetState.noConfusion
      · exact AssetState.noConfusion
    | outOfBounds off => exact AssetState.noConfusion
    | returned buffer => exact AssetState.noConfusion
    | raised => exact absurd hstate ih

theorem asked_or_first (length : Nat) (results : Nat → AssetRead) :
    (∀ n, Asked length results n) ∨
      ∃ n, (∀ m < n, Asked length results m) ∧ ¬Asked length results n := by
  classical
  by_cases h : ∃ n, ¬Asked length results n
  · exact .inr ⟨Nat.find h, fun m hm => Classical.not_not.mp (Nat.find_min h hm),
      Nat.find_spec h⟩
  · exact .inl fun n => Classical.not_not.mp fun hn => h ⟨n, hn⟩

theorem not_inside_of_first {n : Nat} (hbefore : ∀ m < n, Asked length results m)
    (hfirst : ¬Asked length results n) :
    ¬(0 ≤ total results n ∧ total results n < length) := by
  intro hinside
  apply hfirst
  intro m hm
  rcases Nat.lt_or_eq_of_le hm with hlt | rfl
  · exact hbefore m hlt m (Nat.le_refl m)
  · exact hinside

/-! ## Where no call fails -/

def kept (length : Nat) (bytes : List UInt8) : Buffer :=
  bytes.map some ++ List.replicate (length - bytes.length) none

theorem store_kept (bytes more : List UInt8) :
    store (kept length bytes) bytes.length more = kept length (bytes ++ more) := by
  have hmap : bytes.length = (bytes.map some).length := (List.length_map some).symm
  rw [store, kept, kept, List.take_append_of_le_length (Nat.le_of_eq hmap),
    List.take_of_length_le (Nat.le_of_eq hmap.symm), List.drop_append,
    List.drop_of_length_le (by rw [← hmap]; exact Nat.le_add_right _ _), List.nil_append,
    List.drop_replicate, List.map_append, List.length_append, ← hmap, Nat.add_sub_cancel_left,
    Nat.sub_sub]

theorem read_eq_kept (hadmissible : Admissible length results)
    (hvalues : ∀ m, Asked length results m → 0 ≤ (results m).value) (n : Nat)
    (h : ∀ m < n, Asked length results m) :
    total results n = (bytesRead results n).length ∧ (bytesRead results n).length ≤ length ∧
      read_asset_sync length results n =
        loopHead length (total results n) (kept length (bytesRead results n)) := by
  induction n with
  | zero => exact ⟨rfl, Nat.zero_le _, rfl⟩
  | succ n ih =>
    obtain ⟨htotal, -, hread⟩ := ih fun m hm => h m (Nat.lt_succ_of_lt hm)
    have hasked := h n (Nat.lt_succ_self n)
    have hvalue := (value_nonneg_iff (results n)).mp (hvalues n hasked)
    have hfits := hadmissible n hasked
    have hsum : (bytesRead results n).length + (results n).bytes.length ≤ length := by omega
    refine ⟨?_, ?_, ?_⟩
    · rw [total, bytesRead, List.length_append, htotal, hvalue, Int.natCast_add]
    · rw [bytesRead, List.length_append]
      exact hsum
    · rw [read_asset_sync, hread, loopHead_of_asked hasked, afterRead, htotal, Int.toNat_natCast,
        store_kept, total, bytesRead, htotal]

theorem total_mono (hvalues : ∀ m, 0 ≤ (results m).value) {m n : Nat} (h : m ≤ n) :
    total results m ≤ total results n := by
  induction h with
  | refl => exact Int.le_refl _
  | step _ ih =>
    rw [total]
    exact Int.le_trans ih (Int.le_add_of_nonneg_right (hvalues _))

theorem exists_le_total (hvalues : ∀ n, 0 ≤ (results n).value ∧ ∃ m, n ≤ m ∧
    0 < (results m).value) (k : Nat) : ∃ n, (k : Int) ≤ total results n := by
  induction k with
  | zero => exact ⟨0, Int.le_refl 0⟩
  | succ k ih =>
    obtain ⟨n, hn⟩ := ih
    obtain ⟨m, hm, hpositive⟩ := (hvalues n).2
    have hmono := total_mono (fun m => (hvalues m).1) hm
    refine ⟨m + 1, ?_⟩
    rw [total]
    omega

theorem not_asked_forever (h : NeverFails length results) :
    ¬∀ n, Asked length results n := by
  intro hasked
  obtain ⟨n, hn⟩ := exists_le_total (fun n => h n (hasked n)) length
  exact absurd ((hasked n n (Nat.le_refl n)).2) (Int.not_lt.mpr hn)

theorem kept_of_length_eq {bytes : List UInt8} (h : bytes.length = length) :
    kept length bytes = bytes.map some := by
  rw [kept, h, Nat.sub_self]
  exact List.append_nil _

theorem readsWhole_of_neverFails (hadmissible : Admissible length results)
    (h : NeverFails length results) : ReadsWhole length results := by
  have hvalues : ∀ m, Asked length results m → 0 ≤ (results m).value := fun m hm => (h m hm).1
  rcases asked_or_first length results with hasked | ⟨n, hbefore, hfirst⟩
  · exact absurd hasked (not_asked_forever h)
  · obtain ⟨htotal, hle, hread⟩ := read_eq_kept hadmissible hvalues n hbefore
    have hend := not_inside_of_first hbefore hfirst
    have hlength : (bytesRead results n).length = length := by omega
    have hreturned : read_asset_sync length results n =
        .returned ((bytesRead results n).map some) := by
      rw [hread, loopHead, if_neg (by omega), kept_of_length_eq hlength]
    refine ⟨?_, n, .inr ⟨hlength, hreturned⟩⟩
    intro m off hout
    rcases Nat.lt_or_ge m n with hlt | hge
    · obtain ⟨buffer, hbuffer⟩ := read_of_asked (hbefore m hlt)
      rw [hbuffer] at hout
      cases hout
    · rw [read_of_returned hreturned m hge] at hout
      cases hout

/-! ## Where the whole asset is read -/

theorem exists_end (h : ReadsWhole length results) : ∃ n,
    (∀ m, Asked length results m → m < n) ∧ (length : Int) ≤ total results n ∧
      (bytesRead results n).length ≤ length := by
  obtain ⟨hbounds, last, hraised | ⟨hlength, hreturned⟩⟩ := h
  · exact absurd hraised (read_ne_raised last)
  · rcases asked_or_first length results with hasked | ⟨n, hbefore, hfirst⟩
    · obtain ⟨buffer, hbuffer⟩ := read_of_asked (hasked last)
      rw [hbuffer] at hreturned
      cases hreturned
    · have hle : n ≤ last := by
        rcases Nat.lt_or_ge last n with hlt | hge
        · obtain ⟨buffer, hbuffer⟩ := read_of_asked (hbefore last hlt)
          rw [hbuffer] at hreturned
          cases hreturned
        · exact hge
      obtain ⟨buffer, hbuffer⟩ := read_eq_loopHead n hbefore
      have hinside := not_inside_of_first hbefore hfirst
      refine ⟨n, ?_, ?_, ?_⟩
      · intro m hm
        rcases Nat.lt_or_ge m n with hlt | hge
        · exact hlt
        · exact absurd (hm.mono hge) hfirst
      · rcases Int.lt_or_le (total results n) length with hlt | hge
        · have hnegative : ¬0 ≤ total results n := fun hnonneg => hinside ⟨hnonneg, hlt⟩
          rw [loopHead, if_pos hlt, if_neg hnegative] at hbuffer
          exact absurd hbuffer (hbounds n _)
        · exact hge
      · rw [← hlength]
        exact length_bytesRead_mono hle

theorem total_le_of_no_positive {m n : Nat} (h : m ≤ n)
    (hvalues : ∀ k, m ≤ k → ¬0 < (results k).value) :
    total results n ≤ total results m := by
  induction h with
  | refl => exact Int.le_refl _
  | step hle ih =>
    have hvalue := hvalues _ hle
    rw [total]
    omega

theorem neverFails_of_readsWhole (h : ReadsWhole length results) :
    NeverFails length results := by
  obtain ⟨n, hbefore, htotal, hbytes⟩ := exists_end h
  intro m hm
  have hlt := hbefore m hm
  constructor
  · rcases Int.lt_or_le (results m).value 0 with hnegative | hnonneg
    · have hbehind := total_lt_length_bytesRead hnegative hlt
      omega
    · exact hnonneg
  · by_cases hpositive : ∃ k, m ≤ k ∧ 0 < (results k).value
    · exact hpositive
    · have hle := total_le_of_no_positive (Nat.le_of_lt hlt)
        fun k hk hvalue => hpositive ⟨k, hk, hvalue⟩
      have hinside := (hm m (Nat.le_refl m)).2
      omega

end

/-- An asset is read as a whole exactly if no call fails or stays at the end of the file. -/
theorem readsWhole_iff (length : Nat) (results : Nat → AssetRead)
    (hadmissible : Admissible length results) :
    ReadsWhole length results ↔ NeverFails length results :=
  ⟨neverFails_of_readsWhole, readsWhole_of_neverFails hadmissible⟩

def twoReads : Nat → AssetRead
  | 0 => .stored [7]
  | _ => .stored [8]

theorem admissible_twoReads : Admissible 2 twoReads := by
  intro n hn
  have hvalue : (twoReads n).value = 1 := by
    cases n with
    | zero => rfl
    | succ n => rfl
  have hlt := (hn n (Nat.le_refl n)).2
  rw [hvalue]
  omega

theorem readsWhole_twoReads :
    Admissible 2 twoReads ∧ (ReadsWhole 2 twoReads ↔ NeverFails 2 twoReads) :=
  ⟨admissible_twoReads, readsWhole_iff 2 twoReads admissible_twoReads⟩

def endOfFile : Nat → AssetRead := fun _ => .stored []

theorem not_readsWhole_endOfFile : ¬∀ length results,
    Admissible length results → ReadsWhole length results := by
  intro hall
  have hread : ∀ n, read_asset_sync 1 endOfFile n = .reading 0 [none] := by
    intro n
    induction n with
    | zero => rfl
    | succ n ih =>
      rw [read_asset_sync, ih]
      rfl
  have hadmissible : Admissible 1 endOfFile := by
    intro n hn
    have hlt := (hn n (Nat.le_refl n)).2
    change (0 : Int) ≤ 1 - total endOfFile n
    omega
  obtain ⟨-, n, hraised | ⟨-, hreturned⟩⟩ := hall 1 endOfFile hadmissible
  · rw [hread n] at hraised
    cases hraised
  · rw [hread n] at hreturned
    cases hreturned

end AssetReads

end AlmondAndroid.Bridge
