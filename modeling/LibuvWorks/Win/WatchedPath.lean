import LibuvWorks.Win.FsEvent
import Mathlib.Algebra.Group.Nat.Defs
import Mathlib.Data.List.Basic

/-!
# The paths of a watch on Windows

The path of a file is split in the directory, which is watched, and the name of the file. For a
directory that is watched, the name of an entry is joined to it, expanded to its long form, and cut
to the part below the directory. The length that is cut off is that of the directory as it was
given. A string is the list of the characters before its terminator.
-/

namespace LibuvWorks.Win.WatchedPath

open List BitVec

/-- `\` or `/` -/
abbrev IsSep (c : ℕ) : Prop := c = 92 ∨ c = 47

def HasSep (path : List ℕ) : Prop := ∃ c ∈ path, IsSep c

instance (path : List ℕ) : Decidable (HasSep path) :=
  inferInstanceAs (Decidable (∃ c ∈ path, IsSep c))

/-! ## `uv_split_path` -/

/-- What the calls in `uv_split_path` return: `GetCurrentDirectoryW` may fail, and `wcsdup` may have
no memory. -/
structure SplitCalls where
  currentDirectory : Option (List ℕ)
  duplicated : Bool

/-- The index that the loop ends with when it comes to `i` -/
def lastSep (filename : List ℕ) : ℕ → ℕ
  | 0 => 0
  | i + 1 => if ∃ c ∈ filename[i]?, IsSep c then i else lastSep filename i

/-- What `uv_split_path` returns, and the strings that `dir` and `file` are set to, or `NULL` -/
structure SplitResult where
  result : ℤ
  dir : Option (List ℕ)
  file : Option (List ℕ)

/-- `uv_split_path`; `wantsDir` says that `dir` is not `NULL`. -/
def uvSplitPath (calls : SplitCalls) (wantsDir : Bool) (filename : List ℕ) : SplitResult :=
  let len := filename.length
  let i := lastSep filename len
  if i = 0 then
    let duplicate := if calls.duplicated then some filename else none
    if wantsDir then
      match calls.currentDirectory with
      | none => ⟨-1, none, none⟩
      | some dir => ⟨0, some dir, duplicate⟩
    else ⟨0, none, duplicate⟩
  else
    ⟨0, if wantsDir then some (filename.take (i + 1)) else none,
      some ((filename.drop (i + 1)).take (len - i - 1))⟩

structure SplitsRight (path : List ℕ) (r : SplitResult) : Prop where
  result : r.result = 0
  parts : ∃ dir file, r.dir = some dir ∧ r.file = some file ∧ dir ++ file = path ∧
    (∃ c ∈ dir.getLast?, IsSep c) ∧ ¬HasSep file

variable {calls : SplitCalls} {path filename : List ℕ} {n i j : ℕ}

theorem lastSep_isSep (h : lastSep filename n ≠ 0) :
    ∃ c ∈ filename[lastSep filename n]?, IsSep c := by
  induction n with
  | zero => exact absurd rfl h
  | succ n ih =>
    rw [lastSep] at h ⊢
    split_ifs at h ⊢ with hsep
    · exact hsep
    · exact ih h

theorem not_isSep_of_lastSep_lt (hj : lastSep filename n < j) (hn : j < n) :
    ¬∃ c ∈ filename[j]?, IsSep c := by
  induction n with
  | zero => exact absurd hn (Nat.not_lt_zero j)
  | succ n ih =>
    rw [lastSep] at hj
    split_ifs at hj with hsep
    · omega
    · rcases Nat.lt_or_ge j n with hlt | hge
      · exact ih hj hlt
      · obtain rfl : j = n := by omega
        exact hsep

theorem hasSep_drop_iff :
    HasSep (path.drop n) ↔ ∃ j, n ≤ j ∧ j < path.length ∧ ∃ c ∈ path[j]?, IsSep c := by
  constructor
  · rintro ⟨c, hc, hsep⟩
    obtain ⟨k, hk, rfl⟩ := getElem_of_mem hc
    rw [length_drop] at hk
    refine ⟨n + k, by omega, by omega, _, ?_, hsep⟩
    rw [getElem_drop]
    exact List.getElem?_eq_getElem (by omega)
  · rintro ⟨j, hle, hlt, c, hc, hsep⟩
    refine ⟨c, ?_, hsep⟩
    rw [mem_iff_getElem?]
    refine ⟨j - n, ?_⟩
    rw [List.getElem?_drop, Nat.add_sub_cancel' hle]
    exact hc

theorem lastSep_eq_zero_iff : lastSep path path.length = 0 ↔ ¬HasSep path.tail := by
  rw [← drop_one, hasSep_drop_iff]
  constructor
  · rintro hzero ⟨j, hpos, hlt, hsep⟩
    exact not_isSep_of_lastSep_lt (by omega) hlt hsep
  · intro hnone
    by_contra hne
    have hsep := lastSep_isSep hne
    obtain ⟨c, hc, -⟩ := hsep
    have hlt := (List.getElem?_eq_some_iff.mp hc).1
    exact hnone ⟨_, by omega, hlt, lastSep_isSep hne⟩

theorem uvSplitPath_result_eq_zero_iff {wantsDir : Bool} :
    (uvSplitPath calls wantsDir path).result = 0 ↔
      wantsDir = false ∨ HasSep path.tail ∨ calls.currentDirectory ≠ none := by
  unfold uvSplitPath
  dsimp only
  by_cases hzero : lastSep path path.length = 0
  · have htail := lastSep_eq_zero_iff.mp hzero
    rw [if_pos hzero]
    cases wantsDir <;> cases calls.currentDirectory <;> simp [htail]
  · have htail := not_not.mp (mt lastSep_eq_zero_iff.mpr hzero)
    rw [if_neg hzero]
    exact iff_of_true rfl (.inr (.inl htail))

/-- A path with a separator is split as it should be unless its first character is the only one. -/
theorem splitsRight_iff (calls : SplitCalls) (path : List ℕ) :
    (HasSep path → SplitsRight path (uvSplitPath calls true path)) ↔
      (HasSep path → HasSep path.tail) := by
  refine forall_congr' fun hpath => ?_
  by_cases hzero : lastSep path path.length = 0
  · refine iff_of_false ?_ (lastSep_eq_zero_iff.mp hzero)
    rintro ⟨hresult, dir, file, hdir, hfile, happend, -, hnone⟩
    simp only [uvSplitPath, hzero, if_true] at hresult hfile
    cases hcwd : calls.currentDirectory with
    | none => simp [hcwd] at hresult
    | some cwd =>
      simp only [hcwd] at hfile
      split_ifs at hfile
      exact hnone (Option.some.inj hfile ▸ hpath)
  · refine iff_of_true ?_ (not_not.mp (mt lastSep_eq_zero_iff.mpr hzero))
    obtain ⟨c, hc, hsep⟩ := lastSep_isSep hzero
    obtain ⟨hlt, hget⟩ := List.getElem?_eq_some_iff.mp hc
    have hfile : (path.drop (lastSep path path.length + 1)).take
        (path.length - lastSep path path.length - 1) =
          path.drop (lastSep path path.length + 1) :=
      take_of_length_le (by rw [length_drop]; omega)
    unfold uvSplitPath
    dsimp only
    rw [if_neg hzero, if_pos rfl, hfile]
    refine ⟨rfl, _, _, rfl, rfl, take_append_drop .., ⟨c, ?_, hsep⟩, ?_⟩
    · rw [take_succ_eq_append_getElem hlt, List.getLast?_concat, hget]
      rfl
    · rw [hasSep_drop_iff]
      rintro ⟨j, hle, hj, hsep⟩
      exact not_isSep_of_lastSep_lt (by omega) hj hsep

/-! ## `uv_relative_path` -/

/-- A string in memory, where a `size_t` has `w` bits -/
structure MemString (w : ℕ) where
  chars : List ℕ
  fits : (chars.length + 1) * 2 < 2 ^ w

/-- `dirlen` -/
def dirLength (dir : List ℕ) : ℕ :=
  if dir.length > 0 ∧ dir.getLast? = some 92 then dir.length - 1 else dir.length

/-- `relpathlen` -/
def relpathLength (w : ℕ) (filename dir : List ℕ) : BitVec w :=
  BitVec.ofNat w filename.length - BitVec.ofNat w (dirLength dir) - BitVec.ofNat w 1

/-- `uv_relative_path`. There is no result if it would read behind the end of `filename`, or write
behind the end of what it allocates. -/
def uvRelativePath {w : ℕ} (filename dir : MemString w) : Option (List ℕ) :=
  let dirlen := dirLength dir.chars
  let relpathlen := relpathLength w filename.chars dir.chars
  let allocated := ((relpathlen + BitVec.ofNat w 1) * BitVec.ofNat w 2).toNat
  if dirlen + 1 ≤ filename.chars.length ∧ (relpathlen.toNat + 1) * 2 ≤ allocated then
    some ((filename.chars.drop (dirlen + 1)).take relpathlen.toNat)
  else none

/-- What `GetLongPathNameW` makes of a directory joined with the name of an entry: the long forms of
both, which may be longer or shorter than what they were made from, and a separator -/
structure LongName (w : ℕ) where
  dir : List ℕ
  sep : ℕ
  entry : List ℕ
  isSep : IsSep sep
  fits : ((dir ++ sep :: entry).length + 1) * 2 < 2 ^ w

def LongName.string {w : ℕ} (l : LongName w) : MemString w := ⟨l.dir ++ l.sep :: l.entry, l.fits⟩

/-- The part below the directory is returned, and the length of it does not underflow. -/
structure RelativeRight {w : ℕ} (dir : MemString w) (l : LongName w) : Prop where
  noUnderflow : dirLength dir.chars + 1 ≤ l.string.chars.length
  entry : uvRelativePath l.string dir = some l.entry

variable {w : ℕ} {long dir : MemString w} {l : LongName w}

theorem relpathLength_eq (h : dirLength dir.chars + 1 ≤ long.chars.length) :
    relpathLength w long.chars dir.chars =
      BitVec.ofNat w (long.chars.length - (dirLength dir.chars + 1)) := by
  have hlong := long.fits
  unfold relpathLength
  rw [ofNat_sub_ofNat_of_le _ _ (by omega) (by omega),
    ofNat_sub_ofNat_of_le _ _ (by omega) (by omega), Nat.sub_sub]

theorem dirLength_eq (dir : List ℕ) :
    dirLength dir = if dir.getLast? = some 92 then dir.length - 1 else dir.length := by
  cases dir with
  | nil => rfl
  | cons c cs => simp [dirLength]

/-- Without an underflow, the result is the one that a watch is modelled with. -/
theorem uvRelativePath_eq (h : dirLength dir.chars + 1 ≤ long.chars.length) :
    uvRelativePath long dir = some (Win.uvRelativePath long.chars dir.chars) := by
  have hlong := long.fits
  have hlen : (relpathLength w long.chars dir.chars).toNat =
      long.chars.length - (dirLength dir.chars + 1) := by
    rw [relpathLength_eq h, BitVec.toNat_ofNat]
    exact Nat.mod_eq_of_lt (by omega)
  have hallocated : ((relpathLength w long.chars dir.chars + BitVec.ofNat w 1) *
      BitVec.ofNat w 2).toNat = (long.chars.length - (dirLength dir.chars + 1) + 1) * 2 := by
    rw [relpathLength_eq h, ← ofNat_add, ← ofNat_mul, BitVec.toNat_ofNat]
    exact Nat.mod_eq_of_lt (by omega)
  have hall : (long.chars.drop (dirLength dir.chars + 1)).length ≤
      long.chars.length - (dirLength dir.chars + 1) := Nat.le_of_eq length_drop
  unfold uvRelativePath Win.uvRelativePath
  dsimp only
  rw [hallocated, hlen, if_pos ⟨h, Nat.le_refl _⟩, take_of_length_le hall, ← dirLength_eq]

/-- The right part is returned for a directory that is as long as its long form. -/
theorem relativeRight_iff (dir : MemString w) (l : LongName w) :
    RelativeRight dir l ↔ dirLength dir.chars = l.dir.length := by
  have hlen : l.string.chars.length = l.dir.length + (l.entry.length + 1) := by
    rw [LongName.string, length_append, length_cons]
  constructor
  · rintro ⟨hle, hentry⟩
    rw [uvRelativePath_eq hle] at hentry
    have hsame := congrArg List.length (Option.some.inj hentry)
    rw [Win.uvRelativePath, ← dirLength_eq, length_drop] at hsame
    omega
  · intro heq
    have hle : dirLength dir.chars + 1 ≤ l.string.chars.length := by omega
    refine ⟨hle, ?_⟩
    rw [uvRelativePath_eq hle, Win.uvRelativePath, ← dirLength_eq, heq, LongName.string,
      ← drop_drop, drop_left]
    rfl

theorem watchedPaths_iff (calls : SplitCalls) (path : List ℕ) (dir : MemString w)
    (l : LongName w) :
    ((HasSep path → SplitsRight path (uvSplitPath calls true path)) ↔
      (HasSep path → HasSep path.tail)) ∧
    (RelativeRight dir l ↔ dirLength dir.chars = l.dir.length) :=
  ⟨splitsRight_iff calls path, relativeRight_iff dir l⟩

def charsOf (s : String) : List ℕ := s.toList.map Char.toNat

def shortDir : MemString 64 := ⟨charsOf "C:\\A~1\\B~1", by decide⟩

/-- The directories `.a` and `.b` have longer names in the 8.3 form. -/
def longEntry : LongName 64 := ⟨charsOf "C:\\.a\\.b", 92, charsOf "x", .inl rfl, by decide⟩

/-- A file in the root directory is looked for in the current directory, and what is below a
directory is read behind the end of its path. -/
theorem watchedPaths_not :
    (HasSep (charsOf "\\a") ∧ ¬SplitsRight (charsOf "\\a")
      (uvSplitPath ⟨some (charsOf "C:\\b"), true⟩ true (charsOf "\\a"))) ∧
    ¬RelativeRight shortDir longEntry ∧ uvRelativePath longEntry.string shortDir = none := by
  refine ⟨⟨by decide, ?_⟩, ?_, by decide⟩
  · rintro ⟨-, dir, file, hdir, hfile, happend, -⟩
    have hcwd : dir = charsOf "C:\\b" := Option.some.inj hdir.symm
    have hdup : file = charsOf "\\a" := Option.some.inj hfile.symm
    rw [hcwd, hdup] at happend
    exact absurd happend (by decide)
  · intro h
    exact absurd h.noUnderflow (by decide)

end LibuvWorks.Win.WatchedPath
