import LibuvWorks.Win.ProgramArgs
import Mathlib.Data.List.TakeWhile

/-!
# The search for a program

`search_path` of `win/process.c` and its helpers. A string is without its NUL, and a directory is
the part of a string that is handed over with its length.
-/
namespace LibuvWorks.Win

open List

def dot : UInt16 := 46

def slash : UInt16 := 47

def colon : UInt16 := 58

def semicolon : UInt16 := 59

def apostrophe : UInt16 := 39

/-- What `GetFileAttributesW` finds with a name and is no directory, and how `_wcsnicmp` folds a
character. -/
structure SearchSystem where
  isFile : WString → Bool
  fold : UInt16 → UInt16

/-- `wcsncpy(dst, s, n)`: what it writes. -/
def wcsncpy (s : WString) (n : ℕ) : WString := (s ++ List.replicate n 0).take n

/-- Adds a separator if the last character is none; `wcsrchr` finds the NUL of its string too. -/
def addSeparator (s : WString) : WString :=
  if s.getLastD 0 ∈ [backslash, slash, colon, 0] then s else s ++ [backslash]

variable (sys : SearchSystem)

/-- How much of `cwd` is copied, and what of `dir`. -/
def joinParts (dir cwd : WString) : ℕ × WString :=
  if 2 < dir.length ∧ dir[0]? = some backslash ∧ dir[1]? = some backslash then (0, dir)
  else if 1 ≤ dir.length ∧ (dir[0]? = some slash ∨ dir[0]? = some backslash) then (2, dir)
  else if 2 ≤ dir.length ∧ dir[1]? = some colon ∧
      (dir.length < 3 ∨ dir[2]? ≠ some slash ∧ dir[2]? ≠ some backslash) then
    if cwd.length < 2 ∨ (cwd.take 2).map sys.fold ≠ (dir.take 2).map sys.fold then (0, dir)
    else (cwd.length, dir.drop 2)
  else if 2 < dir.length ∧ dir[1]? = some colon then (0, dir)
  else (cwd.length, dir)

/-- How many characters `search_path_join_test` allocates. -/
def joinRoom (dir name ext cwd : WString) : ℕ :=
  let (cwdLen, dir) := joinParts sys dir cwd
  cwdLen + 1 + dir.length + 1 + name.length + 1 + ext.length + 1

/-- What it writes before the NUL. -/
def joinResult (dir name ext cwd : WString) : WString :=
  let (cwdLen, dir) := joinParts sys dir cwd
  let result := wcsncpy cwd cwdLen
  let result := (if cwdLen = 0 then result else addSeparator result) ++ dir
  let result := (if dir.length = 0 then result else addSeparator result) ++ name
  if ext.length = 0 then result
  else if name.length ≠ 0 ∧ result.getLastD 0 ≠ dot then result ++ dot :: ext
  else result ++ ext

/-- The name that is tried, up to its first NUL. -/
def candidate (dir name ext cwd : WString) : WString :=
  (joinResult sys dir name ext cwd).takeWhile (· ≠ 0)

def searchPathJoinTest (dir name ext cwd : WString) : Option WString :=
  if sys.isFile (candidate sys dir name ext cwd) then some (candidate sys dir name ext cwd) else none

def com : WString := [99, 111, 109]

def exe : WString := [101, 120, 101]

def pathSearchWalkExt (dir name cwd : WString) (nameHasExt : Bool) : Option WString :=
  let result := if nameHasExt then searchPathJoinTest sys dir name [] cwd else none
  let result := result.or (searchPathJoinTest sys dir name com cwd)
  result.or (searchPathJoinTest sys dir name exe cwd)

/-- The index of `file_name_start`, from the end. -/
def fileNameStart (file : WString) : ℕ → ℕ
  | 0 => 0
  | i + 1 => if ∃ c ∈ file[i]?, c ∈ [backslash, slash, colon] then i + 1 else fileNameStart file i

/-- The first dot is not the last character. -/
def hasExt (name : WString) : Bool := (name.dropWhile (· ≠ dot)).length > 1

def isQuote (c : UInt16) : Bool := c = quote || c = apostrophe

/-- The directory of a segment without its quotes; none if `dir_len` wraps around. The last character
is that of the segment, also where this is the quote at its start. -/
def unquote (slice : WString) : Option WString :=
  let dirPath := if isQuote (slice.headD 0) then slice.tail else slice
  if isQuote (slice.getLastD 0) then
    if dirPath.length = 0 then none else some dirPath.dropLast
  else some dirPath

inductive SearchError where
  | dirLenWraps : SearchError

/-- Skips the separator that `dir_end` points to. -/
def skipSeparator (first : Bool) (dirEnd : WString) : WString :=
  if first = false ∨ dirEnd.head? = some semicolon then dirEnd.tail else dirEnd

theorem length_skipSeparator {first : Bool} {dirEnd : WString} (h : dirEnd ≠ []) :
    ((skipSeparator first dirEnd).dropWhile (· != semicolon)).length < dirEnd.length := by
  have hle := fun s : WString => (dropWhile_sublist (· != semicolon) (l := s)).length_le
  cases dirEnd with
  | nil => exact absurd rfl h
  | cons c s =>
    unfold skipSeparator
    split
    · exact Nat.lt_succ_of_le (hle s)
    · next hnot =>
      rw [not_or] at hnot
      rw [dropWhile_cons_of_pos]
      · exact Nat.lt_succ_of_le (hle s)
      · simpa using hnot.2

/-- The scan of `path`, from `dir_end`; `first` says that this is its start. -/
def searchDirs (test : WString → Option WString) (first : Bool) (dirEnd : WString) :
    Except SearchError (Option WString) :=
  if hend : dirEnd = [] then .ok none
  else
    let dirStart := skipSeparator first dirEnd
    let slice := dirStart.takeWhile (· != semicolon)
    let dirEnd' := dirStart.dropWhile (· != semicolon)
    if slice = [] then searchDirs test false dirEnd'
    else
      match unquote slice with
      | none => .error .dirLenWraps
      | some dir =>
        match test dir with
        | some result => .ok (some result)
        | none => searchDirs test false dirEnd'
  termination_by dirEnd.length
  decreasing_by all_goals exact length_skipSeparator hend

def searchPath (file cwd path : WString) : Except SearchError (Option WString) :=
  if file.length = 0 ∨ file = [dot] then .ok none
  else
    let start := fileNameStart file file.length
    let nameHasExt := hasExt (file.drop start)
    if start ≠ 0 then
      .ok (pathSearchWalkExt sys (file.take start) (file.drop start) cwd nameHasExt)
    else
      match pathSearchWalkExt sys [] file cwd nameHasExt with
      | some result => .ok (some result)
      | none => searchDirs (pathSearchWalkExt sys · file cwd nameHasExt) true path

/-! ## The order of the search -/

/-- The segments of `PATH` that are not empty. -/
def segments (path : WString) : List WString := (path.splitOn semicolon).filter (· ≠ [])

/-- At most one quote at each end is left out. -/
def stripped (segment : WString) : WString :=
  let dir := if isQuote (segment.headD 0) then segment.tail else segment
  if isQuote (dir.getLastD 0) then dir.dropLast else dir

def LoneQuote (segment : WString) : Prop := segment = [quote] ∨ segment = [apostrophe]

instance : DecidablePred LoneQuote := fun _ => inferInstanceAs (Decidable (_ ∨ _))

/-- The directories that are searched, with the segments of `PATH` if the name has none. -/
def searchedDirs (file : WString) (segs : List WString) : List WString :=
  let start := fileNameStart file file.length
  if start = 0 then [] :: segs.map stripped else [file.take start]

/-- The names that are tried, in their order. -/
def candidates (file cwd : WString) (segs : List WString) : List WString :=
  let name := file.drop (fileNameStart file file.length)
  if file.length = 0 ∨ file = [dot] then []
  else
    (searchedDirs file segs).flatMap fun dir =>
      (if hasExt name then [[], com, exe] else [com, exe]).map fun ext => candidate sys dir name ext cwd

/-- The segments before the first that is a quote alone. -/
def unquoted (path : WString) : List WString := (segments path).takeWhile (¬LoneQuote ·)

variable {sys} {dir name ext cwd file path segment dirEnd : WString} {segs : List WString}
  {test : WString → Option WString} {first : Bool}

theorem unquote_eq_some (h : ¬LoneQuote segment) (hne : segment ≠ []) :
    unquote segment = some (stripped segment) := by
  cases segment with
  | nil => exact absurd rfl hne
  | cons c s =>
    unfold unquote stripped
    cases s with
    | nil =>
      have hc : isQuote c = false := by simpa [LoneQuote, isQuote] using h
      simp [hc]
    | cons b s =>
      cases hq : isQuote c <;> simp [hq] <;> split_ifs <;> rfl

theorem unquote_cases (hne : segment ≠ []) (h : unquote segment = some dir) :
    ¬LoneQuote segment ∧ stripped segment = dir := by
  have hlone : ¬LoneQuote segment := by
    rintro (rfl | rfl) <;> cases h
  exact ⟨hlone, Option.some.inj ((unquote_eq_some hlone hne).symm.trans h)⟩

theorem segments_eq (path : WString) :
    segments path = (if path.takeWhile (· != semicolon) = [] then []
      else [path.takeWhile (· != semicolon)]) ++
        segments (path.dropWhile (· != semicolon)).tail := by
  have hslice (c : UInt16) (hc : c ∈ path.takeWhile (· != semicolon)) :
      (c == semicolon) = false := by
    simpa using all_eq_true.mp all_takeWhile c hc
  have hsplit : path.splitOn semicolon = path.takeWhile (· != semicolon) ::
      if path.dropWhile (· != semicolon) = [] then []
      else (path.dropWhile (· != semicolon)).tail.splitOn semicolon := by
    have hnext := head?_dropWhile_not (· != semicolon) path
    have hpath := takeWhile_append_dropWhile (p := (· != semicolon)) (l := path)
    cases hrest : path.dropWhile (· != semicolon) with
    | nil =>
      rw [hrest, append_nil] at hpath
      rw [if_pos rfl, ← splitOnP_eq_singleton hslice, hpath, splitOn]
    | cons c s =>
      rw [hrest] at hpath hnext
      rw [if_neg (cons_ne_nil _ _), tail_cons, splitOn, splitOn,
        ← splitOnP_append_cons_of_forall_mem hslice c (by simpa using hnext), hpath]
  have hrest : (if path.dropWhile (· != semicolon) = [] then []
      else (path.dropWhile (· != semicolon)).tail.splitOn semicolon).filter (· ≠ []) =
        segments (path.dropWhile (· != semicolon)).tail := by
    split_ifs with hend
    · rw [hend]
      rfl
    · rfl
  rw [segments, hsplit, filter_cons, hrest]
  by_cases hempty : path.takeWhile (· != semicolon) = []
  · rw [if_neg fun habs => absurd hempty (of_decide_eq_true habs), if_pos hempty, nil_append]
  · rw [if_pos (decide_eq_true hempty), if_neg hempty, singleton_append]

/-- A segment that is a quote alone stops the scan. -/
def scanned (test : WString → Option WString) : List WString → Except SearchError (Option WString)
  | [] => .ok none
  | segment :: segs =>
    if LoneQuote segment then .error .dirLenWraps
    else
      match test (stripped segment) with
      | some result => .ok (some result)
      | none => scanned test segs

theorem searchDirs_eq (test : WString → Option WString) (first : Bool) (dirEnd : WString) :
    searchDirs test first dirEnd = scanned test (segments (skipSeparator first dirEnd)) := by
  have hskip : ∀ s, skipSeparator false s = s.tail := fun _ => rfl
  fun_induction searchDirs test first dirEnd with
  | case1 first =>
    cases first <;> rfl
  | case2 first dirEnd hend dirStart slice dirEnd' hempty ih =>
    rw [segments_eq (skipSeparator first dirEnd), if_pos hempty, ih, hskip]
    rfl
  | case3 first dirEnd hend dirStart slice hslice hnone =>
    have hlone : LoneQuote slice := by
      by_contra hlone
      cases (unquote_eq_some hlone hslice).symm.trans hnone
    rw [segments_eq, if_neg hslice, singleton_append, scanned, if_pos hlone]
  | case4 first dirEnd hend dirStart slice hslice dir hdir result hresult =>
    obtain ⟨hlone, rfl⟩ := unquote_cases hslice hdir
    rw [segments_eq, if_neg hslice, singleton_append, scanned, if_neg hlone, hresult]
  | case5 first dirEnd hend dirStart slice dirEnd' hslice dir hdir hresult ih =>
    obtain ⟨hlone, rfl⟩ := unquote_cases hslice hdir
    rw [segments_eq (skipSeparator first dirEnd), if_neg hslice, singleton_append, scanned,
      if_neg hlone, hresult, ih, hskip]

theorem scanned_eq (test : WString → Option WString) (segs : List WString) : scanned test segs =
    match (segs.takeWhile (¬LoneQuote ·)).findSome? fun segment => test (stripped segment) with
    | some result => .ok (some result)
    | none => if ∃ segment ∈ segs, LoneQuote segment then .error .dirLenWraps else .ok none := by
  induction segs with
  | nil => rfl
  | cons segment segs ih =>
    rw [scanned]
    by_cases hlone : LoneQuote segment
    · simp [hlone]
    · rw [if_neg hlone, ih]
      cases hresult : test (stripped segment) <;> simp [hlone, hresult]

theorem pathSearchWalkExt_eq (nameHasExt : Bool) : pathSearchWalkExt sys dir name cwd nameHasExt =
    ((if nameHasExt then [[], com, exe] else [com, exe]).map fun ext =>
      candidate sys dir name ext cwd).find? sys.isFile := by
  have hjoin (ext : WString) : searchPathJoinTest sys dir name ext cwd =
      [candidate sys dir name ext cwd].find? sys.isFile := by
    rw [searchPathJoinTest, find?_singleton]
  rw [pathSearchWalkExt, hjoin, hjoin, hjoin]
  cases nameHasExt
  · exact find?_append.symm
  · rw [if_pos rfl, ← find?_append, ← find?_append]
    rfl

/-- The search through the candidates is one through the directories. -/
theorem find?_candidates (hempty : ¬(file.length = 0 ∨ file = [dot])) :
    (candidates sys file cwd segs).find? sys.isFile = (searchedDirs file segs).findSome? fun dir =>
      pathSearchWalkExt sys dir (file.drop (fileNameStart file file.length)) cwd
        (hasExt (file.drop (fileNameStart file file.length))) := by
  rw [candidates, if_neg hempty, find?_flatMap]
  simp only [pathSearchWalkExt_eq]

/-- What is written for a candidate has room with its NUL. -/
theorem joinResult_lt (dir name ext : WString) :
    (joinResult sys dir name ext cwd).length < joinRoom sys dir name ext cwd := by
  have hsep (s : WString) : (addSeparator s).length ≤ s.length + 1 := by
    unfold addSeparator
    split_ifs <;> simp
  unfold joinResult joinRoom
  obtain ⟨cwdLen, dir⟩ := joinParts sys dir cwd
  have hcopy : (wcsncpy cwd cwdLen).length = cwdLen := by simp [wcsncpy]
  dsimp only
  set result := (if cwdLen = 0 then wcsncpy cwd cwdLen else addSeparator (wcsncpy cwd cwdLen)) ++ dir
    with hresult
  have hcwd : result.length ≤ cwdLen + 1 + dir.length := by
    have hle := hsep (wcsncpy cwd cwdLen)
    rw [hresult, length_append]
    split_ifs <;> omega
  set full := if dir.length = 0 then result else addSeparator result with hfull
  have hdir : full.length ≤ result.length + 1 := by
    have hle := hsep result
    rw [hfull]
    split_ifs <;> omega
  clear_value result full
  split_ifs <;> simp only [length_append, length_cons] <;> omega

/-- The scan of `PATH` comes to a segment that is a quote alone. -/
def QuoteAhead (file path : WString) : Prop :=
  file ≠ [] ∧ file ≠ [dot] ∧ fileNameStart file file.length = 0 ∧
    ∃ segment ∈ segments path, LoneQuote segment

instance : Decidable (QuoteAhead file path) :=
  inferInstanceAs (Decidable (_ ∧ _ ∧ _ ∧ ∃ segment ∈ segments path, LoneQuote segment))

/-- The first file of the candidates is found. Without one before it, a segment of `PATH` that is
a quote alone makes the length of its directory wrap around. -/
theorem searchPath_eq (sys : SearchSystem) (file cwd path : WString) :
    searchPath sys file cwd path =
      match (candidates sys file cwd (unquoted path)).find? sys.isFile with
      | some result => .ok (some result)
      | none => if QuoteAhead file path then .error .dirLenWraps else .ok none := by
  have hskip : segments (skipSeparator true path) = segments path := by
    cases path with
    | nil => rfl
    | cons c s =>
      by_cases hc : c = semicolon
      · subst hc
        rw [segments_eq (semicolon :: s), takeWhile_cons_of_neg (by simp),
          dropWhile_cons_of_neg (by simp)]
        rfl
      · simp [skipSeparator, hc]
  rw [searchPath]
  by_cases hempty : file.length = 0 ∨ file = [dot]
  · rw [if_pos hempty, candidates, if_pos hempty]
    rcases hempty with hempty | rfl
    · rw [length_eq_zero_iff] at hempty
      simp [hempty, QuoteAhead]
    · simp [QuoteAhead]
  · rw [if_neg hempty, find?_candidates hempty, searchedDirs]
    rw [not_or, length_eq_zero_iff] at hempty
    dsimp only
    by_cases hstart : fileNameStart file file.length = 0
    · rw [if_neg (not_not.mpr hstart), if_pos hstart, hstart, drop_zero, findSome?_cons, findSome?_map,
        searchDirs_eq, hskip, scanned_eq]
      cases pathSearchWalkExt sys [] file cwd (hasExt file) with
      | none => simp [hempty, hstart, unquoted, QuoteAhead, Function.comp_def]
      | some result => rfl
    · rw [if_pos hstart, if_neg hstart, findSome?_singleton]
      cases pathSearchWalkExt sys (file.take (fileNameStart file file.length)) _ cwd _ <;>
        simp [hstart, QuoteAhead]

/-- The candidates of the first segments come first. -/
theorem candidates_unquoted (sys : SearchSystem) (file cwd path : WString) :
    candidates sys file cwd (unquoted path) <+: candidates sys file cwd (segments path) := by
  obtain ⟨rest, hrest⟩ : unquoted path <+: segments path := takeWhile_prefix _
  rw [← hrest]
  unfold candidates searchedDirs
  split_ifs with hempty
  · exact prefix_rfl
  · by_cases hstart : fileNameStart file file.length = 0
    · simp only [hstart, if_true, map_append, flatMap_cons, flatMap_append]
      exact ⟨_, append_assoc ..⟩
    · simp only [hstart, if_false]
      exact prefix_rfl

theorem candidates_of_not_quoteAhead (h : ¬QuoteAhead file path) :
    candidates sys file cwd (unquoted path) = candidates sys file cwd (segments path) := by
  by_cases hempty : file.length = 0 ∨ file = [dot]
  · rw [candidates, candidates, if_pos hempty, if_pos hempty]
  by_cases hstart : fileNameStart file file.length = 0
  · rw [not_or, length_eq_zero_iff] at hempty
    have hnone : ∀ segment ∈ segments path, ¬LoneQuote segment := fun segment hmem hlone =>
      h ⟨hempty.1, hempty.2, hstart, segment, hmem, hlone⟩
    rw [unquoted, takeWhile_eq_self_iff.mpr fun segment hmem => decide_eq_true (hnone segment hmem)]
  · unfold candidates searchedDirs
    simp only [hstart, if_false]

/-- The search ends with the first file of the candidates, no length of a directory wraps around, and
what is written for a candidate fits. The empty name and `.` are no names of a file. -/
structure Searches (sys : SearchSystem) (file cwd path : WString) : Prop where
  finds : searchPath sys file cwd path =
    .ok ((candidates sys file cwd (segments path)).find? sys.isFile)
  fits : ∀ dir name ext, (joinResult sys dir name ext cwd).length < joinRoom sys dir name ext cwd

/-- The search fails just when it comes to a segment that is a quote alone. -/
theorem searchPath_searches_iff (sys : SearchSystem) (file cwd path : WString) :
    Searches sys file cwd path ↔ ¬(QuoteAhead file path ∧
      ∀ result ∈ candidates sys file cwd (unquoted path), sys.isFile result = false) := by
  have heq := searchPath_eq sys file cwd path
  cases hfind : (candidates sys file cwd (unquoted path)).find? sys.isFile with
  | some result =>
    have hall : (candidates sys file cwd (segments path)).find? sys.isFile = some result := by
      obtain ⟨rest, hrest⟩ := candidates_unquoted sys file cwd path
      rw [← hrest, find?_append, hfind, Option.some_or]
    rw [hfind] at heq
    refine ⟨fun _ hreached => ?_, fun _ => ⟨heq.trans (congrArg Except.ok hall.symm), joinResult_lt⟩⟩
    have hfile := hreached.2 result (mem_of_find?_eq_some hfind)
    cases hfile.symm.trans (find?_some hfind)
  | none =>
    rw [hfind] at heq
    have hnone := find?_eq_none.mp hfind
    by_cases hquote : QuoteAhead file path
    · rw [if_pos hquote] at heq
      constructor
      · intro h
        cases heq.symm.trans h.finds
      · exact fun h => absurd ⟨hquote, fun result hmem => eq_false_of_ne_true (hnone result hmem)⟩ h
    · rw [if_neg hquote] at heq
      rw [candidates_of_not_quoteAhead hquote] at hfind
      exact ⟨fun _ h => hquote h.1, fun _ => ⟨heq.trans (congrArg Except.ok hfind.symm), joinResult_lt⟩⟩

/-- `a`, searched in `C:\` and with a quote as `PATH`, when there are no files -/
theorem not_searches :
    ¬Searches ⟨fun _ => false, id⟩ [97] [67, colon, backslash] [quote] := by
  intro h
  have heq := h.finds
  rw [searchPath_eq] at heq
  have hquote : QuoteAhead [97] [quote] := by decide
  have hnone (names : List WString) : names.find? (fun _ => false) = none :=
    find?_eq_none.mpr fun _ _ => Bool.false_ne_true
  simp only [hnone, if_pos hquote] at heq
  cases heq

end LibuvWorks.Win
