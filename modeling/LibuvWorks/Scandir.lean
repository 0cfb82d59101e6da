import LibuvWorks.Handle
import Mathlib.Algebra.Group.Nat.Defs
import Mathlib.Data.List.Perm.Basic
import Mathlib.Data.List.Range

/-!
# The results of `uv_fs_scandir`

A directory is read at once, and its entries are asked for one by one. `nbufs` of the request counts
those that were returned; an entry is freed by the call after the one that returned it.
-/
namespace LibuvWorks.Scandir

open List Nat

/-! ## Requests -/

inductive Backend where
  | unix : Backend
  | win : Backend
  deriving DecidableEq

/-- `uv_dirent_type_t` -/
inductive DirentType where
  | unknown : DirentType
  | file : DirentType
  | dir : DirentType
  | link : DirentType
  | fifo : DirentType
  | socket : DirentType
  | char : DirentType
  | block : DirentType

/-- `uv__dirent_t` -/
structure Dirent where
  dName : List UInt8
  dType : ℤ

/-- What is allocated for a request: the entries and the array of pointers to them -/
inductive Block where
  | dirent (i : ℕ) : Block
  | dents : Block
  deriving DecidableEq

/-- A request after the directory was read. The array holds `dents` until it is freed; `ptr` says
that the pointer to it is not `NULL`, and `freePtr` and `cleanedUp` are flags on Windows. -/
structure Req where
  dents : List Dirent
  result : ℕ
  nbufs : UInt32
  ptr : Bool
  freePtr : Bool
  cleanedUp : Bool
  freed : List Block

/-- What `uv__fs_scandir` and `fs__scandir` leave for these entries. `scandir` of the system can
allocate an array for no entries. -/
def scandirDone (b : Backend) (entries : List Dirent) (allocated : Bool) : Req where
  dents := entries
  result := entries.length
  nbufs := 0
  ptr := entries ≠ []
  freePtr := b = .win ∧ entries ≠ []
  cleanedUp := false
  freed := if b = .unix ∧ entries = [] ∧ allocated = true then [.dents] else []

def blocks (b : Backend) (entries : List Dirent) (allocated : Bool) : List Block :=
  (List.range entries.length).map .dirent ++
    if entries ≠ [] ∨ b = .unix ∧ allocated = true then [.dents] else []

section Code

variable (uvDt : DirentType → ℤ)

/-- The values of `UV__DT_DIR` and its siblings are those of the system. -/
def entType (dType : ℤ) : DirentType :=
  if dType = uvDt .dir then .dir
  else if dType = uvDt .file then .file
  else if dType = uvDt .link then .link
  else if dType = uvDt .fifo then .fifo
  else if dType = uvDt .socket then .socket
  else if dType = uvDt .char then .char
  else if dType = uvDt .block then .block
  else .unknown

namespace Req

variable (r : Req)

/-- `uv__fs_scandir_free` of a pointer that is not `NULL` -/
def free (b : Block) : Except Fault Req :=
  if b ∈ r.freed then .error .crash else .ok { r with freed := r.freed ++ [b] }

/-- `uv__fs_scandir_free(dents[i])` -/
def freeDent (i : ℕ) : Except Fault Req :=
  if r.ptr = true ∧ .dents ∉ r.freed ∧ i < r.dents.length then r.free (.dirent i)
  else .error .crash

/-- `uv__fs_scandir_free(dents)` -/
def freeDents : Except Fault Req := if r.ptr = true then r.free .dents else .ok r

/-- What `dents[i]` points to -/
def dent (i : ℕ) : Except Fault Dirent :=
  if r.ptr = true ∧ .dents ∉ r.freed ∧ .dirent i ∉ r.freed then
    match r.dents[i]? with
    | some d => .ok d
    | none => .error .crash
  else .error .crash

/-- The result as it is compared with `nbufs` -/
def count : UInt32 := .ofNat r.result

def freePrevious : Except Fault Req :=
  if r.nbufs > 0 then r.freeDent (r.nbufs - 1).toNat else .ok r

/-- `uv_fs_scandir_next`; nothing is `UV_EOF`. -/
def uvFsScandirNext : Except Fault (Req × Option (List UInt8 × DirentType)) := do
  let r ← r.freePrevious
  if r.nbufs = r.count then do
    let r ← r.freeDents
    .ok ({ r with ptr := false }, none)
  else do
    let d ← r.dent r.nbufs.toNat
    .ok ({ r with nbufs := r.nbufs + 1 }, some (d.dName, entType uvDt d.dType))

/-- Some rounds of the loop in `uv__fs_scandir_cleanup` -/
def freeRest : ℕ → Req → Except Fault Req
  | 0, r => .ok r
  | n + 1, r => do
    let r ← r.freeDent r.nbufs.toNat
    freeRest n { r with nbufs := r.nbufs + 1 }

/-- `uv__fs_scandir_cleanup`; the loop ends when `nbufs` is the result. -/
def uvFsScandirCleanup : Except Fault Req := do
  let r : Req :=
    if r.nbufs > 0 ∧ r.nbufs ≠ r.count then { r with nbufs := r.nbufs - 1 } else r
  let r ← freeRest (r.count.toNat - r.nbufs.toNat) r
  let r ← r.freeDents
  .ok { r with ptr := false }

def uvFsReqCleanup : Backend → Except Fault Req
  | .unix => do
    let r ← (if r.ptr = true then r.uvFsScandirCleanup else .ok r)
    let r ← r.freeDents
    .ok { r with ptr := false }
  | .win =>
    if r.cleanedUp = true then .ok r
    else do
      let r ← (if r.freePtr = true then
          if r.ptr = true then r.uvFsScandirCleanup else r.freeDents
        else .ok r)
      .ok { r with ptr := false, cleanedUp := true }

/-- Some calls of `uv_fs_scandir_next` -/
def calls : ℕ → Req → Except Fault (Req × List (Option (List UInt8 × DirentType)))
  | 0, r => .ok (r, [])
  | k + 1, r => do
    let (r, answers) ← calls k r
    let (r, answer) ← r.uvFsScandirNext uvDt
    .ok (r, answers ++ [answer])

end Req

/-! ## What should come of them -/

/-- The answers that `k` calls should give -/
def answers (entries : List Dirent) (k : ℕ) : List (Option (List UInt8 × DirentType)) :=
  (entries.take k).map (fun d => some (d.dName, entType uvDt d.dType)) ++
    List.replicate (k - entries.length) none

/-- The calls return the entries and the end, a name is there until the next call, and in the end
everything was freed once. -/
structure Iterates (b : Backend) (entries : List Dirent) (allocated : Bool) (k : ℕ) : Prop where
  named : ∀ j r as, 0 < j → j ≤ k → j ≤ entries.length →
    (scandirDone b entries allocated).calls uvDt j = .ok (r, as) → .dirent (j - 1) ∉ r.freed
  freed : ∃ r r', (scandirDone b entries allocated).calls uvDt k =
    .ok (r, answers uvDt entries k) ∧ r.uvFsReqCleanup b = .ok r' ∧
      r'.freed.Perm (blocks b entries allocated)

/-! ## Up to the last entry -/

variable {uvDt} {b : Backend} {entries : List Dirent} {allocated : Bool} {k n : ℕ} {i : ℕ}
  {freed : List Block}

theorem toNat_ofNat (hk : k < 2 ^ 32) : (UInt32.ofNat k).toNat = k := by
  exact mod_eq_of_lt hk

theorem ofNat_inj (hk : k < 2 ^ 32) (hn : n < 2 ^ 32) : UInt32.ofNat k = .ofNat n ↔ k = n := by
  rw [← UInt32.toNat_inj, toNat_ofNat hk, toNat_ofNat hn]

theorem ofNat_pos (hk : k < 2 ^ 32) : UInt32.ofNat k > 0 ↔ 0 < k := by
  rw [gt_iff_lt, UInt32.lt_iff_toNat_lt, toNat_ofNat hk]
  rfl

theorem toNat_ofNat_sub_one (hk : k < 2 ^ 32) (hpos : 0 < k) :
    UInt32.ofNat k - 1 = .ofNat (k - 1) := by
  apply UInt32.toNat_inj.mp
  rw [UInt32.toNat_sub_of_le _ _ (UInt32.le_iff_toNat_le.mpr _), toNat_ofNat hk,
    toNat_ofNat (by omega)]
  · rfl
  · rw [toNat_ofNat hk]
    exact hpos

theorem ofNat_succ (k : ℕ) : UInt32.ofNat k + 1 = .ofNat (k + 1) := (UInt32.ofNat_add k 1).symm

def dirents (k n : ℕ) : List Block := (List.range' k n).map .dirent

theorem mem_dirents : .dirent i ∈ dirents k n ↔ k ≤ i ∧ i < k + n := by
  simp [dirents, mem_range'_1]

theorem dents_notMem : Block.dents ∉ dirents k n := by simp [dirents]

theorem dirents_append (k m n : ℕ) : dirents k m ++ dirents (k + m) n = dirents k (m + n) := by
  rw [dirents, dirents, ← map_append, range'_append_1]
  rfl

theorem dirents_succ (k n : ℕ) : dirents k n ++ [.dirent (k + n)] = dirents k (n + 1) :=
  dirents_append k n 1

/-- A request for a directory with entries, when `k` of them were returned -/
def reading (b : Backend) (entries : List Dirent) (k : ℕ) (freed : List Block) : Req :=
  ⟨entries, entries.length, .ofNat k, true, b = .win, false, freed⟩

def ended (b : Backend) (entries : List Dirent) (freed : List Block) : Req :=
  ⟨entries, entries.length, .ofNat entries.length, false, b = .win, false, freed⟩

theorem scandirDone_eq (hne : entries ≠ []) :
    scandirDone b entries allocated = reading b entries 0 (dirents 0 0) := by
  simp [scandirDone, reading, dirents, hne]

theorem blocks_eq (hne : entries ≠ []) :
    blocks b entries allocated = dirents 0 entries.length ++ [.dents] := by
  rw [blocks, if_pos (.inl hne), range_eq_range', dirents]

theorem freeDent_reading (hi : i < entries.length)
    (hdents : .dents ∉ freed) (hdirent : .dirent i ∉ freed) :
    (reading b entries k freed).freeDent i =
      .ok (reading b entries k (freed ++ [.dirent i])) := by
  exact (if_pos ⟨rfl, hdents, hi⟩).trans (if_neg hdirent)

theorem freeDents_reading (hdents : .dents ∉ freed) :
    (reading b entries k freed).freeDents = .ok (reading b entries k (freed ++ [.dents])) := by
  exact (if_pos rfl).trans (if_neg hdents)

theorem freePrevious_reading (hn : entries.length < 2 ^ 32) (hk : k ≤ entries.length) :
    (reading b entries k (dirents 0 (k - 1))).freePrevious =
      .ok (reading b entries k (dirents 0 k)) := by
  obtain rfl | hpos := Nat.eq_zero_or_pos k
  · exact if_neg ((ofNat_pos (by decide)).not.mpr (by decide))
  · refine (if_pos ((ofNat_pos (by omega)).mpr hpos)).trans ?_
    change Req.freeDent _ (UInt32.ofNat k - 1).toNat = _
    have hsucc := dirents_succ 0 (k - 1)
    rw [Nat.zero_add, Nat.sub_add_cancel hpos] at hsucc
    rw [toNat_ofNat_sub_one (by omega) hpos, toNat_ofNat (by omega),
      freeDent_reading (by omega) dents_notMem
        (fun habs => absurd (mem_dirents.mp habs).2 (by omega)), hsucc]

theorem next_reading (hn : entries.length < 2 ^ 32) (hk : k < entries.length) :
    (reading b entries k (dirents 0 (k - 1))).uvFsScandirNext uvDt =
      .ok (reading b entries (k + 1) (dirents 0 k),
        some (entries[k].dName, entType uvDt entries[k].dType)) := by
  have hcount : UInt32.ofNat k ≠ .ofNat entries.length :=
    (ofNat_inj (by omega) hn).not.mpr (by omega)
  have hdent : (reading b entries k (dirents 0 k)).dent k = .ok entries[k] := by
    refine (if_pos ⟨rfl, dents_notMem, fun habs =>
      absurd (mem_dirents.mp habs).2 (by omega)⟩).trans ?_
    change (match entries[k]? with | some d => _ | none => _) = _
    rw [List.getElem?_eq_getElem hk]
  unfold Req.uvFsScandirNext
  rw [freePrevious_reading hn (by omega)]
  refine (if_neg hcount).trans ?_
  change (Req.dent _ (UInt32.ofNat k).toNat).bind _ = _
  rw [toNat_ofNat (by omega), hdent, reading, reading, ← ofNat_succ]
  rfl

theorem next_end (hn : entries.length < 2 ^ 32) :
    (reading b entries entries.length (dirents 0 (entries.length - 1))).uvFsScandirNext uvDt =
      .ok (ended b entries (dirents 0 entries.length ++ [.dents]), none) := by
  unfold Req.uvFsScandirNext
  rw [freePrevious_reading hn (Nat.le_refl _)]
  refine (if_pos rfl).trans ?_
  rw [freeDents_reading dents_notMem]
  rfl

theorem calls_reading (hne : entries ≠ []) (hn : entries.length < 2 ^ 32)
    (hk : k ≤ entries.length) : (scandirDone b entries allocated).calls uvDt k =
      .ok (reading b entries k (dirents 0 (k - 1)), answers uvDt entries k) := by
  induction k with
  | zero =>
    rw [scandirDone_eq hne, answers, Nat.zero_sub, Nat.zero_sub]
    rfl
  | succ k ih =>
    rw [Req.calls, ih (by omega)]
    simp only [bind, Except.bind]
    rw [next_reading hn (by omega)]
    have hmore : k - entries.length = 0 ∧ k + 1 - entries.length = 0 := by omega
    have htake := take_succ_eq_append_getElem (show k < entries.length by omega)
    unfold answers
    rw [hmore.1, hmore.2, htake, map_append, replicate_zero, append_nil,
      append_nil]
    rfl

/-! ## The cleanup -/

theorem freeRest_reading (hn : entries.length < 2 ^ 32) (m : ℕ)
    (hm : k + m = entries.length) (hdents : .dents ∉ freed)
    (hfreed : ∀ i, k ≤ i → .dirent i ∉ freed) :
    Req.freeRest m (reading b entries k freed) =
      .ok (reading b entries entries.length (freed ++ dirents k m)) := by
  induction m generalizing k freed with
  | zero =>
    rw [← hm]
    simp [Req.freeRest, dirents]
  | succ m ih =>
    have hdents' : .dents ∉ freed ++ [.dirent k] := by simp [hdents]
    have hfreed' : ∀ i, k + 1 ≤ i → .dirent i ∉ freed ++ [.dirent k] := by
      intro i hi habs
      obtain habs | habs := mem_append.mp habs
      · exact hfreed i (by omega) habs
      · cases mem_singleton.mp habs
        omega
    have hone : [.dirent k] = dirents k 1 := rfl
    have hnext := ih (by omega) hdents' hfreed'
    rw [append_assoc, hone, dirents_append, Nat.add_comm 1 m] at hnext
    change (Req.freeDent _ (UInt32.ofNat k).toNat).bind _ = _
    rw [toNat_ofNat (by omega), freeDent_reading (by omega) hdents (hfreed k (Nat.le_refl k)),
      ← hnext, reading, reading, ← ofNat_succ]
    rfl

theorem cleanup_reading (hn : entries.length < 2 ^ 32) (hk : k < entries.length) :
    (reading b entries k (dirents 0 (k - 1))).uvFsScandirCleanup =
      .ok (ended b entries (dirents 0 entries.length ++ [.dents])) := by
  have hnbufs : (if (reading b entries k (dirents 0 (k - 1))).nbufs > 0 ∧
      (reading b entries k (dirents 0 (k - 1))).nbufs ≠
        (reading b entries k (dirents 0 (k - 1))).count then
        { reading b entries k (dirents 0 (k - 1)) with
          nbufs := (reading b entries k (dirents 0 (k - 1))).nbufs - 1 }
      else reading b entries k (dirents 0 (k - 1))) =
      reading b entries (k - 1) (dirents 0 (k - 1)) := by
    have hcount : UInt32.ofNat k ≠ .ofNat entries.length :=
      (ofNat_inj (by omega) hn).not.mpr (by omega)
    obtain rfl | hpos := Nat.eq_zero_or_pos k
    · exact if_neg fun habs => (ofNat_pos (by decide)).not.mpr (by decide) habs.1
    · refine (if_pos ⟨(ofNat_pos (by omega)).mpr hpos, hcount⟩).trans ?_
      rw [reading, reading, ← toNat_ofNat_sub_one (by omega) hpos]
  have hrest := freeRest_reading (b := b) hn (entries.length - (k - 1))
    (add_sub_of_le (by omega)) dents_notMem (fun i hi habs =>
      absurd (mem_dirents.mp habs).2 (show ¬i < 0 + (k - 1) by omega))
  have hall := dirents_append 0 (k - 1) (entries.length - (k - 1))
  rw [Nat.zero_add, add_sub_of_le (by omega)] at hall
  rw [hall] at hrest
  unfold Req.uvFsScandirCleanup
  rw [hnbufs]
  change (Req.freeRest ((UInt32.ofNat entries.length).toNat - (UInt32.ofNat (k - 1)).toNat)
    _).bind _ = _
  rw [toNat_ofNat hn, toNat_ofNat (by omega), hrest]
  simp only [Except.bind]
  rw [freeDents_reading dents_notMem]
  rfl

theorem cleanup_last (hn : entries.length < 2 ^ 32) :
    (reading b entries entries.length (dirents 0 (entries.length - 1))).uvFsScandirCleanup =
      .ok (ended b entries (dirents 0 (entries.length - 1) ++ [.dents])) := by
  unfold Req.uvFsScandirCleanup
  rw [if_neg fun habs => habs.2 rfl]
  change (Req.freeRest ((UInt32.ofNat entries.length).toNat -
    (UInt32.ofNat entries.length).toNat) _).bind _ = _
  rw [Nat.sub_self, Req.freeRest]
  simp only [Except.bind]
  rw [freeDents_reading dents_notMem]
  rfl

theorem reqCleanup_reading {freed' : List Block}
    (h : (reading b entries k freed).uvFsScandirCleanup = .ok (ended b entries freed')) :
    ∃ r, (reading b entries k freed).uvFsReqCleanup b = .ok r ∧ r.freed = freed' := by
  have hptr : (if (reading b entries k freed).ptr = true then
      (reading b entries k freed).uvFsScandirCleanup else .ok (reading b entries k freed)) =
      .ok (ended b entries freed') := (if_pos rfl).trans h
  cases b with
  | unix =>
    unfold Req.uvFsReqCleanup
    rw [hptr]
    exact ⟨_, rfl, rfl⟩
  | win =>
    have hcleaned : ¬(reading .win entries k freed).cleanedUp = true := Bool.false_ne_true
    unfold Req.uvFsReqCleanup
    rw [if_neg hcleaned, if_pos (show (reading .win entries k freed).freePtr = true from rfl),
      if_pos (show (reading .win entries k freed).ptr = true from rfl), h]
    exact ⟨_, rfl, rfl⟩

theorem reqCleanup_ended (b : Backend) (entries : List Dirent) (freed : List Block) :
    ∃ r, (ended b entries freed).uvFsReqCleanup b = .ok r ∧ r.freed = freed := by
  cases b <;> exact ⟨_, rfl, rfl⟩

/-! ## Too many entries for the index -/

/-- The index does not get past the result as it is compared, and no entry beyond it is freed. -/
structure Below (r : Req) : Prop where
  nbufs : r.nbufs ≤ r.count
  freed : ∀ i, .dirent i ∈ r.freed → i < r.count.toNat

variable {r r' : Req}

theorem below_free {blk : Block} (h : Below r) (hblk : ∀ i, blk = .dirent i → i < r.count.toNat)
    (hfree : r.free blk = .ok r') :
    Below r' ∧ r'.nbufs = r.nbufs ∧ r'.result = r.result := by
  unfold Req.free at hfree
  split_ifs at hfree
  cases hfree
  refine ⟨⟨h.nbufs, fun i hi => ?_⟩, rfl, rfl⟩
  obtain hi | hi := mem_append.mp hi
  · exact h.freed i hi
  · exact hblk i (mem_singleton.mp hi).symm

theorem below_freeDents (h : Below r) (hfree : r.freeDents = .ok r') :
    Below r' ∧ r'.nbufs = r.nbufs ∧ r'.result = r.result := by
  unfold Req.freeDents at hfree
  split_ifs at hfree
  · exact below_free h (fun i habs => absurd habs (by simp)) hfree
  · cases hfree
    exact ⟨h, rfl, rfl⟩

theorem below_freeDent (h : Below r) (hi : i < r.count.toNat)
    (hfree : r.freeDent i = .ok r') : Below r' ∧ r'.nbufs = r.nbufs ∧ r'.result = r.result := by
  unfold Req.freeDent at hfree
  split_ifs at hfree
  apply below_free h _ hfree
  rintro j ⟨⟩
  exact hi

theorem sub_one_lt {x : UInt32} (hpos : x > 0) : (x - 1).toNat < x.toNat := by
  have hone : (1 : UInt32).toNat ≤ x.toNat := UInt32.lt_iff_toNat_lt.mp hpos
  rw [UInt32.toNat_sub_of_le _ _ (UInt32.le_iff_toNat_le.mpr hone)]
  exact sub_lt hone (by decide)

theorem below_freePrevious (h : Below r) (hfree : r.freePrevious = .ok r') :
    Below r' ∧ r'.nbufs = r.nbufs ∧ r'.result = r.result := by
  unfold Req.freePrevious at hfree
  split_ifs at hfree with hpos
  · apply below_freeDent h _ hfree
    exact Nat.lt_of_lt_of_le (sub_one_lt hpos) (UInt32.le_iff_toNat_le.mp h.nbufs)
  · cases hfree
    exact ⟨h, rfl, rfl⟩

theorem succ_le {x y : UInt32} (hle : x ≤ y) (hne : x ≠ y) :
    x + 1 ≤ y ∧ (x + 1).toNat = x.toNat + 1 := by
  have hlt : x.toNat < y.toNat := Nat.lt_of_le_of_ne (UInt32.le_iff_toNat_le.mp hle)
    fun habs => hne (UInt32.toNat_inj.mp habs)
  have hy := y.toNat_lt
  have hsucc : (x + 1).toNat = x.toNat + 1 := by
    exact mod_eq_of_lt (show x.toNat + 1 < 2 ^ 32 by omega)
  refine ⟨UInt32.le_iff_toNat_le.mpr ?_, hsucc⟩
  rw [hsucc]
  exact hlt

theorem below_next {answer : Option (List UInt8 × DirentType)} (h : Below r)
    (hnext : r.uvFsScandirNext uvDt = .ok (r', answer)) : Below r' ∧ r'.result = r.result := by
  obtain ⟨s, hs, hnext⟩ := bind_eq_ok.mp hnext
  obtain ⟨hbelow, -, hresult⟩ := below_freePrevious h hs
  split_ifs at hnext with hend
  · obtain ⟨t, ht, hnext⟩ := bind_eq_ok.mp hnext
    obtain ⟨hbelow', -, hresult'⟩ := below_freeDents hbelow ht
    cases hnext
    exact ⟨{ hbelow' with }, hresult'.trans hresult⟩
  · obtain ⟨d, -, hnext⟩ := bind_eq_ok.mp hnext
    cases hnext
    exact ⟨⟨(succ_le hbelow.nbufs hend).1, hbelow.freed⟩, hresult⟩

theorem below_freeRest {m : ℕ} (h : Below r) (hm : m = r.count.toNat - r.nbufs.toNat)
    (hrest : Req.freeRest m r = .ok r') : Below r' ∧ r'.result = r.result := by
  induction m generalizing r with
  | zero =>
    cases hrest
    exact ⟨h, rfl⟩
  | succ m ih =>
    obtain ⟨s, hs, hrest⟩ := bind_eq_ok.mp hrest
    obtain ⟨hbelow, hnbufs, hresult⟩ := below_freeDent h (by omega) hs
    have hcount : s.count = r.count := by rw [Req.count, hresult, Req.count]
    have hne : s.nbufs ≠ s.count := by
      intro habs
      rw [hnbufs, hcount] at habs
      rw [habs] at hm
      omega
    obtain ⟨hle, hsucc⟩ := succ_le hbelow.nbufs hne
    obtain ⟨hbelow', hresult'⟩ := ih (r := { s with nbufs := s.nbufs + 1 }) ⟨hle, hbelow.freed⟩ (by
      change m = s.count.toNat - (s.nbufs + 1).toNat
      rw [hsucc, hcount, hnbufs]
      omega) hrest
    exact ⟨hbelow', hresult'.trans hresult⟩

theorem below_cleanup (h : Below r) (hclean : r.uvFsScandirCleanup = .ok r') :
    Below r' ∧ r'.result = r.result := by
  unfold Req.uvFsScandirCleanup at hclean
  obtain ⟨q, hq⟩ : ∃ q : Req, q = if r.nbufs > 0 ∧ r.nbufs ≠ r.count then
      { r with nbufs := r.nbufs - 1 } else r := ⟨_, rfl⟩
  have hbelow : Below q ∧ q.result = r.result := by
    rw [hq]
    split_ifs with hpos
    · have hle : r.nbufs - 1 ≤ r.count := by
        rw [UInt32.le_iff_toNat_le]
        have hlt := sub_one_lt hpos.1
        have hcount := UInt32.le_iff_toNat_le.mp h.nbufs
        omega
      exact ⟨⟨hle, h.freed⟩, rfl⟩
    · exact ⟨h, rfl⟩
  rw [← hq] at hclean
  obtain ⟨s, hs, hclean⟩ := bind_eq_ok.mp hclean
  obtain ⟨hbelow', hresult⟩ := below_freeRest hbelow.1 rfl hs
  obtain ⟨t, ht, hclean⟩ := bind_eq_ok.mp hclean
  obtain ⟨hbelow'', -, hresult'⟩ := below_freeDents hbelow' ht
  cases hclean
  exact ⟨⟨hbelow''.nbufs, hbelow''.freed⟩, hresult'.trans (hresult.trans hbelow.2)⟩

theorem below_reqCleanup (h : Below r) (hclean : r.uvFsReqCleanup b = .ok r') :
    Below r' ∧ r'.result = r.result := by
  cases b with
  | unix =>
    obtain ⟨s, hs, hclean⟩ := bind_eq_ok.mp hclean
    have hbelow : Below s ∧ s.result = r.result := by
      split_ifs at hs
      · exact below_cleanup h hs
      · cases hs
        exact ⟨h, rfl⟩
    obtain ⟨t, ht, hclean⟩ := bind_eq_ok.mp hclean
    obtain ⟨hbelow', -, hresult⟩ := below_freeDents hbelow.1 ht
    cases hclean
    exact ⟨{ hbelow' with }, hresult.trans hbelow.2⟩
  | win =>
    unfold Req.uvFsReqCleanup at hclean
    dsimp only at hclean
    split_ifs at hclean
    · cases hclean
      exact ⟨h, rfl⟩
    all_goals
      obtain ⟨s, hs, hclean⟩ := bind_eq_ok.mp hclean
      cases hclean
    · obtain ⟨hbelow, hresult⟩ := below_cleanup h hs
      exact ⟨{ hbelow with }, hresult⟩
    · obtain ⟨hbelow, -, hresult⟩ := below_freeDents h hs
      exact ⟨{ hbelow with }, hresult⟩
    · cases hs
      exact ⟨{ h with }, rfl⟩

theorem below_calls {as : List (Option (List UInt8 × DirentType))} (h : Below r)
    (hcalls : r.calls uvDt k = .ok (r', as)) : Below r' ∧ r'.result = r.result := by
  induction k generalizing r' as with
  | zero =>
    cases hcalls
    exact ⟨h, rfl⟩
  | succ k ih =>
    obtain ⟨⟨s, bs⟩, hs, hcalls⟩ := bind_eq_ok.mp hcalls
    obtain ⟨⟨t, answer⟩, ht, hcalls⟩ := bind_eq_ok.mp hcalls
    cases hcalls
    obtain ⟨hbelow, hresult⟩ := ih hs
    obtain ⟨hbelow', hresult'⟩ := below_next hbelow ht
    exact ⟨hbelow', hresult'.trans hresult⟩

theorem below_scandirDone : Below (scandirDone b entries allocated) := by
  refine ⟨UInt32.le_iff_toNat_le.mpr (Nat.zero_le _), fun i hi => ?_⟩
  unfold scandirDone at hi
  split_ifs at hi
  · exact absurd (mem_singleton.mp hi) (by simp)
  · cases hi

/-! ## Which numbers of calls free everything -/

theorem last_mem_blocks (hne : entries ≠ []) :
    .dirent (entries.length - 1) ∈ blocks b entries allocated := by
  have hpos := length_pos_iff.mpr hne
  rw [blocks_eq hne]
  exact mem_append_left _ (mem_dirents.mpr ⟨Nat.zero_le _, by omega⟩)

theorem iterates_iff_of_ne (hne : entries ≠ []) (hk : k ≤ entries.length + 1) :
    Iterates uvDt b entries allocated k ↔ entries.length < 2 ^ 32 ∧ k ≠ entries.length := by
  have hpos := length_pos_iff.mpr hne
  constructor
  · rintro ⟨-, r, r', hcalls, hclean, hperm⟩
    have hlast : .dirent (entries.length - 1) ∈ r'.freed := hperm.mem_iff.mpr (last_mem_blocks hne)
    have hn : entries.length < 2 ^ 32 := by
      obtain ⟨hbelow, hresult⟩ := below_calls below_scandirDone hcalls
      obtain ⟨hbelow', hresult'⟩ := below_reqCleanup hbelow hclean
      have hlt := hbelow'.freed _ hlast
      have hcount : r'.count = .ofNat entries.length := by
        rw [Req.count, hresult', hresult]
        rfl
      rw [hcount] at hlt
      have htop := (UInt32.ofNat entries.length).toNat_lt
      omega
    refine ⟨hn, ?_⟩
    rintro rfl
    rw [calls_reading hne hn (Nat.le_refl _)] at hcalls
    cases hcalls
    obtain ⟨s, hs, hfreed⟩ := reqCleanup_reading (cleanup_last (b := b) hn)
    cases hclean.symm.trans hs
    rw [hfreed] at hlast
    obtain habs | habs := mem_append.mp hlast
    · exact absurd (mem_dirents.mp habs).2 (by omega)
    · exact absurd (mem_singleton.mp habs) (by simp)
  · rintro ⟨hn, hkn⟩
    refine ⟨fun j r as hj hjk hjn hcalls => ?_, ?_⟩
    · rw [calls_reading hne hn hjn] at hcalls
      cases hcalls
      exact fun habs => absurd (mem_dirents.mp habs).2 (by omega)
    · obtain hlt | hgt := Nat.lt_or_gt_of_ne hkn
      · obtain ⟨s, hs, hfreed⟩ := reqCleanup_reading (cleanup_reading (b := b) hn hlt)
        refine ⟨_, s, calls_reading hne hn (by omega), hs, ?_⟩
        rw [hfreed, blocks_eq hne]
      · obtain rfl : k = entries.length + 1 := by omega
        obtain ⟨s, hs, hfreed⟩ :=
          reqCleanup_ended b entries (dirents 0 entries.length ++ [.dents])
        refine ⟨_, s, ?_, hs, ?_⟩
        · rw [Req.calls, calls_reading hne hn (Nat.le_refl _)]
          simp only [bind, Except.bind]
          rw [next_end hn]
          have hanswers : answers uvDt entries (entries.length + 1) =
              answers uvDt entries entries.length ++ [none] := by
            simp [answers, take_of_length_le]
          rw [hanswers]
        · rw [hfreed, blocks_eq hne]

/-- Everything is freed once, if the calls do not stop just before the end. -/
theorem iterates_iff (uvDt : DirentType → ℤ) (b : Backend) (entries : List Dirent)
    (allocated : Bool) (k : ℕ) (hk : k ≤ entries.length + 1) :
    Iterates uvDt b entries allocated k ↔
      entries.length < 2 ^ 32 ∧ (k ≠ entries.length ∨ entries = []) := by
  by_cases hne : entries = []
  · subst hne
    refine iff_of_true ⟨fun j r as hj _ hj' => absurd hj' (Nat.not_le_of_lt hj), ?_⟩
      ⟨by decide, .inr rfl⟩
    obtain rfl | rfl : k = 0 ∨ k = 1 := by
      rw [List.length_nil] at hk
      omega
    all_goals cases b <;> cases allocated <;> exact ⟨_, _, rfl, rfl, .refl _⟩
  · rw [iterates_iff_of_ne hne hk, or_iff_left hne]

/-- The values of Linux -/
def linuxDt : DirentType → ℤ
  | .unknown => 0
  | .file => 8
  | .dir => 4
  | .link => 10
  | .fifo => 1
  | .socket => 12
  | .char => 2
  | .block => 6

/-- One of two entries is asked for. -/
theorem iterates_one : Iterates linuxDt .unix [⟨[97], 8⟩, ⟨[98], 4⟩] true 1 :=
  (iterates_iff linuxDt .unix [⟨[97], 8⟩, ⟨[98], 4⟩] true 1 (by decide)).mpr
    ⟨by decide, .inl (by decide)⟩

/-- Both are asked for, and the end is not. -/
theorem not_iterates_two : ¬Iterates linuxDt .unix [⟨[97], 8⟩, ⟨[98], 4⟩] true 2 := by
  intro h
  have hiff := (iterates_iff_of_ne (by decide) (by decide)).mp h
  exact hiff.2 rfl

end Code

end LibuvWorks.Scandir
