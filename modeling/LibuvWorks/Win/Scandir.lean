import LibuvWorks.Scandir
import Mathlib.Data.List.DropRight

/-!
# Reading a directory: `fs__scandir`

The system answers with chunks of entries, each of which says how far away the next one is. The
blocks of memory are numbered as they are allocated. `WideCharToMultiByte` is a parameter.
-/
namespace LibuvWorks.Win

open List
open Scandir (DirentType)

/-! ### What the system answers -/

def bufferSize : ℕ := 8192

/-- `FILE_DIRECTORY_INFORMATION`, with the first `FileNameLength` bytes of the name -/
structure DirInfo where
  nextEntryOffset : ℕ
  fileName : List UInt16
  fileAttributes : BitVec 32

inductive Listed (buffer : ℕ → DirInfo) : ℕ → List DirInfo → Prop
  | last {position : ℕ} : position < bufferSize → (buffer position).nextEntryOffset = 0 →
      Listed buffer position [buffer position]
  | next {position : ℕ} {infos : List DirInfo} : position < bufferSize →
      (buffer position).nextEntryOffset ≠ 0 →
      Listed buffer (position + (buffer position).nextEntryOffset) infos →
      Listed buffer position (buffer position :: infos)

/-- What the buffer holds after `NtQueryDirectoryFile` -/
structure DirChunk where
  buffer : ℕ → DirInfo
  infos : List DirInfo
  listed : Listed buffer 0 infos

def statusNoMoreFiles : BitVec 32 := 0x80000006

def statusInvalidParameter : BitVec 32 := 0xC000000D

def statusBufferOverflow : BitVec 32 := 0x80000005

/-- A status that is not `NT_SUCCESS` -/
structure FailStatus where
  status : BitVec 32
  fails : status.msb = true

/-- The answers to `NtQueryDirectoryFile`: the first one is a failure or a chunk, and the last one
is a failure or `STATUS_SUCCESS` with nothing. -/
inductive DirQueries where
  | fails (status : FailStatus)
  | chunks (chunk : DirChunk) (chunks : List DirChunk) (last : Option FailStatus)

/-- What succeeds for an entry, and `GetLastError` for what does not -/
structure EntryAnswers where
  measured : Bool
  realloc : Bool
  malloc : Bool
  converted : Bool
  error : ℕ

/-! ### The function -/

inductive ScandirError where
  | win32 (error : ℕ)
  | nt (status : BitVec 32)
  | notADirectory
  | outOfMemory

/-- `uv__dirent_t`, with its block -/
structure WinDirent where
  block : ℕ
  dName : List UInt8
  dType : DirentType

/-- The local variables of `fs__scandir`, with how many entries were looked at, how many blocks were
allocated, and those that were freed -/
structure DirScan where
  seen : ℕ
  dirents : Option ℕ
  direntsSize : ℕ
  used : List WinDirent
  allocated : ℕ
  freed : List ℕ

def direntsInitialSize : ℕ := 32

def stripNuls (name : List UInt16) : List UInt16 := name.rdropWhile (· = 0)

def isSkipped (name : List UInt16) : Prop := name = [] ∨ name = [46] ∨ name = [46, 46]

instance (name : List UInt16) : Decidable (isSkipped name) :=
  inferInstanceAs (Decidable (name = [] ∨ name = [46] ∨ name = [46, 46]))

def fileAttributeDevice : BitVec 32 := 0x40

def fileAttributeReparsePoint : BitVec 32 := 0x400

def fileAttributeDirectory : BitVec 32 := 0x10

def typeOf (fileAttributes : BitVec 32) : DirentType :=
  if fileAttributes &&& fileAttributeDevice ≠ 0 then .char
  else if fileAttributes &&& fileAttributeReparsePoint ≠ 0 then .link
  else if fileAttributes &&& fileAttributeDirectory ≠ 0 then .dir
  else .file

section Code

variable (utf8 : List UInt16 → List UInt8) (answers : ℕ → EntryAnswers)

namespace DirScan

variable (s : DirScan)

/-- The array is resized if needed, where `uv__realloc` frees the one before. -/
def reserve (realloc : Bool) : Option DirScan :=
  if s.used.length ≥ s.direntsSize then
    if realloc = false then none
    else some { s with
      direntsSize := if s.direntsSize = 0 then direntsInitialSize else s.direntsSize <<< 1
      dirents := some s.allocated
      allocated := s.allocated + 1
      freed := s.freed ++ s.dirents.toList }
  else some s

/-- The loop over the entries of a chunk, for one entry -/
def addEntry (info : DirInfo) : DirScan × Option ScandirError :=
  let a := answers s.seen
  let s := { s with seen := s.seen + 1 }
  let name := stripNuls info.fileName
  if isSkipped name then (s, none)
  else
    let utf8Len := if a.measured then (utf8 name).length else 0
    if utf8Len = 0 then (s, some (.win32 a.error))
    else
      match s.reserve a.realloc with
      | none => (s, some .outOfMemory)
      | some s =>
        if a.malloc = false then (s, some .outOfMemory)
        else
          let dirent : WinDirent := ⟨s.allocated, [], .unknown⟩
          let t : DirScan := { s with allocated := s.allocated + 1 }
          if a.converted = false then
            ({ t with used := s.used ++ [dirent] }, some (.win32 a.error))
          else
            ({ t with used := s.used ++
              [{ dirent with dName := utf8 name, dType := typeOf info.fileAttributes }] }, none)

/-- The loop over the entries of a chunk from a position on; there are at most `fuel` of them. -/
def chunkLoop (buffer : ℕ → DirInfo) :
    (fuel position : ℕ) → DirScan → DirScan × Option ScandirError
  | 0, _, s => (s, none)
  | fuel + 1, position, s =>
    match s.addEntry utf8 answers (buffer position) with
    | (s, some error) => (s, some error)
    | (s, none) =>
      if (buffer position).nextEntryOffset ≠ 0 then
        chunkLoop buffer fuel (position + (buffer position).nextEntryOffset) s
      else (s, none)

/-- The loop over the chunks -/
def chunksLoop : List DirChunk → DirScan → DirScan × Option ScandirError
  | [], s => (s, none)
  | chunk :: chunks, s =>
    match s.chunkLoop utf8 answers chunk.buffer bufferSize 0 with
    | (s, some error) => (s, some error)
    | (s, none) => chunksLoop chunks s

end DirScan

/-- What `fs__scandir` leaves: the result, `ptr` and the flag of the request, the entries and the
size of their array, what was allocated and freed, and how often the handle was closed -/
structure ScandirRun where
  result : Except ScandirError ℕ
  ptr : Option ℕ
  freePtr : Bool
  direntsSize : ℕ
  used : List WinDirent
  allocated : ℕ
  freed : List ℕ
  closes : ℕ

namespace DirScan

variable (s : DirScan)

/-- The label `cleanup`; the entries are freed from the last one on. -/
def cleanup (error : ScandirError) : ScandirRun where
  result := .error error
  ptr := none
  freePtr := false
  direntsSize := s.direntsSize
  used := []
  allocated := s.allocated
  freed := s.freed ++ (s.used.map WinDirent.block).reverse ++ s.dirents.toList
  closes := 1

def done : ScandirRun where
  result := .ok s.used.length
  ptr := s.dirents
  freePtr := s.dirents ≠ none
  direntsSize := s.direntsSize
  used := s.used
  allocated := s.allocated
  freed := s.freed
  closes := 1

def finish (status : BitVec 32) : ScandirRun :=
  if status ≠ statusNoMoreFiles then s.cleanup (.nt status) else s.done

end DirScan

def DirScan.start : DirScan := ⟨0, none, 0, [], 0, []⟩

/-- `fs__scandir`, where `opened` is the error of `CreateFileW`, if it fails -/
def fsScandir (opened : Option ℕ) (queries : DirQueries) : ScandirRun :=
  match opened with
  | some error => { DirScan.start.cleanup (.win32 error) with closes := 0 }
  | none =>
    match queries with
    | .fails status =>
      if status.status = statusInvalidParameter then DirScan.start.cleanup .notADirectory
      else DirScan.start.finish status.status
    | .chunks chunk chunks last =>
      match DirScan.start.chunksLoop utf8 answers (chunk :: chunks) with
      | (s, some error) => s.cleanup error
      | (s, none) =>
        s.finish (match last with
          | some status => status.status
          | none => statusBufferOverflow)

end Code

/-! ### What is right -/

def entryOf (utf8 : List UInt16 → List UInt8) (info : DirInfo) : Option (List UInt8 × DirentType) :=
  if isSkipped (stripNuls info.fileName) then none
  else some (utf8 (stripNuls info.fileName), typeOf info.fileAttributes)

def WinDirent.entry (d : WinDirent) : List UInt8 × DirentType := (d.dName, d.dType)

def EntryAnswers.Fails (a : EntryAnswers) (name : List UInt8) (error : ScandirError) : Prop :=
  (error = .win32 a.error ∧ (a.measured = false ∨ name = [] ∨ a.converted = false)) ∨
    (error = .outOfMemory ∧ (a.realloc = false ∨ a.malloc = false))

/-- The error is that of the entry at which the loop ended, of those that are given. -/
def FailsAt (utf8 : List UInt16 → List UInt8) (answers : ℕ → EntryAnswers) (seen : ℕ)
    (infos : List DirInfo) (error : ScandirError) : Prop :=
  ∃ i info entry, infos[i]? = some info ∧ entryOf utf8 info = some entry ∧
    (answers (seen + i)).Fails entry.1 error

def DirQueries.infos : DirQueries → List DirInfo
  | .fails _ => []
  | .chunks c cs _ => (c :: cs).flatMap DirChunk.infos

/-- The last status -/
def DirQueries.last : DirQueries → BitVec 32
  | .fails status => status.status
  | .chunks _ _ (some status) => status.status
  | .chunks _ _ none => statusBufferOverflow

/-- A success is all the entries, and everything allocated for it is either freed or in use; after a
failure, of which the error is reported, everything was freed once; and the handle is closed once.
-/
structure ScandirRight (utf8 : List UInt16 → List UInt8) (answers : ℕ → EntryAnswers)
    (opened : Option ℕ) (queries : DirQueries) (r : ScandirRun) : Prop where
  closes : r.closes = if opened = none then 1 else 0
  success : ∀ n, r.result = .ok n →
    r.used.map WinDirent.entry = queries.infos.filterMap (entryOf utf8) ∧ n = r.used.length ∧
      n ≤ r.direntsSize ∧ (n ≠ 0 → r.ptr ≠ none) ∧ r.freePtr = decide (r.ptr ≠ none) ∧
      (r.freed ++ (r.ptr.toList ++ r.used.map WinDirent.block)).Perm (List.range r.allocated) ∧
      opened = none ∧ queries.last = statusNoMoreFiles
  failure : ∀ error, r.result = .error error →
    r.ptr = none ∧ r.freed.Perm (List.range r.allocated) ∧
      ((∃ code, opened = some code ∧ error = .win32 code) ∨ opened = none ∧
        (FailsAt utf8 answers 0 queries.infos error ∨
          error = .nt queries.last ∧ queries.last ≠ statusNoMoreFiles ∨
          error = .notADirectory ∧ queries.infos = [] ∧ queries.last = statusInvalidParameter))

variable {utf8 : List UInt16 → List UInt8} {answers : ℕ → EntryAnswers} {info : DirInfo}
  {infos : List DirInfo} {buffer : ℕ → DirInfo} {position fuel : ℕ}

namespace DirScan

variable {s t : DirScan} {error : ScandirError}

/-- Each block is freed or in use, once, and the entries are in the array. -/
structure Owned (s : DirScan) : Prop where
  blocks : (s.freed ++ (s.dirents.toList ++ s.used.map WinDirent.block)).Perm
    (List.range s.allocated)
  fits : s.used.length ≤ s.direntsSize
  size : s.direntsSize ≠ 0 → s.dirents ≠ none

theorem owned_start : Owned start := ⟨.nil, Nat.le_refl 0, fun h => absurd rfl h⟩

theorem Owned.seen (h : Owned s) : Owned { s with seen := s.seen + 1 } := { h with }

theorem Owned.reserve (h : Owned s) {realloc : Bool} (ht : s.reserve realloc = some t) :
    Owned t ∧ t.used = s.used ∧ t.seen = s.seen ∧ t.used.length < t.direntsSize := by
  rw [DirScan.reserve] at ht
  by_cases hfull : s.used.length ≥ s.direntsSize
  · rw [if_pos hfull] at ht
    by_cases hrealloc : realloc = false
    · rw [if_pos hrealloc] at ht
      exact nomatch ht
    · rw [if_neg hrealloc] at ht
      obtain rfl := Option.some.inj ht
      have hsize : s.used.length <
          if s.direntsSize = 0 then direntsInitialSize else s.direntsSize <<< 1 := by
        have hfits := h.fits
        by_cases hzero : s.direntsSize = 0
        · rw [if_pos hzero, direntsInitialSize]
          omega
        · rw [if_neg hzero, Nat.shiftLeft_eq]
          omega
      refine ⟨⟨?_, Nat.le_of_lt hsize, fun _ => Option.some_ne_none _⟩, rfl, rfl, hsize⟩
      change ((s.freed ++ s.dirents.toList) ++ ([s.allocated] ++ s.used.map WinDirent.block)).Perm
        (range (s.allocated + 1))
      rw [range_succ]
      have hswap := perm_append_comm_assoc (s.freed ++ s.dirents.toList) [s.allocated]
        (s.used.map WinDirent.block)
      have hblocks := h.blocks
      rw [← append_assoc] at hblocks
      exact hswap.trans ((hblocks.cons s.allocated).trans (perm_append_singleton _ _).symm)
  · rw [if_neg hfull] at ht
    obtain rfl := Option.some.inj ht
    exact ⟨h, rfl, rfl, Nat.lt_of_not_le hfull⟩

theorem realloc_of_reserve {realloc : Bool} (h : s.reserve realloc = none) : realloc = false := by
  rw [DirScan.reserve] at h
  by_cases hfull : s.used.length ≥ s.direntsSize
  · rw [if_pos hfull] at h
    by_contra hrealloc
    rw [if_neg hrealloc] at h
    exact nomatch h
  · rw [if_neg hfull] at h
    exact nomatch h

theorem Owned.push (h : Owned s) (hroom : s.used.length < s.direntsSize) (name : List UInt8)
    (dType : DirentType) :
    Owned { s with
      allocated := s.allocated + 1, used := s.used ++ [⟨s.allocated, name, dType⟩] } := by
  refine ⟨?_, ?_, h.size⟩
  · change (s.freed ++ (s.dirents.toList ++ map WinDirent.block
      (s.used ++ [⟨s.allocated, name, dType⟩]))).Perm (range (s.allocated + 1))
    rw [map_append, ← append_assoc, ← append_assoc, range_succ,
      append_assoc s.freed]
    exact h.blocks.append_right [s.allocated]
  · change (s.used ++ [_]).length ≤ s.direntsSize
    rw [length_append]
    exact hroom

theorem Owned.addEntry (h : Owned s) (utf8 : List UInt16 → List UInt8)
    (answers : ℕ → EntryAnswers) (info : DirInfo) :
    Owned (s.addEntry utf8 answers info).1 ∧
      (s.addEntry utf8 answers info).1.seen = s.seen + 1 ∧
      ((s.addEntry utf8 answers info).2 = none →
        (s.addEntry utf8 answers info).1.used.map WinDirent.entry =
          s.used.map WinDirent.entry ++ (entryOf utf8 info).toList) ∧
      (∀ error, (s.addEntry utf8 answers info).2 = some error →
        ∃ entry, entryOf utf8 info = some entry ∧ (answers s.seen).Fails entry.1 error) := by
  rw [DirScan.addEntry, entryOf]
  dsimp only
  by_cases hskip : isSkipped (stripNuls info.fileName)
  · rw [if_pos hskip, if_pos hskip]
    exact ⟨h.seen, rfl, fun _ => (append_nil _).symm, nofun⟩
  rw [if_neg hskip, if_neg hskip]
  generalize answers s.seen = a
  generalize stripNuls info.fileName = name
  by_cases hlen : (if a.measured = true then (utf8 name).length else 0) = 0
  · rw [if_pos hlen]
    have hfails : a.measured = false ∨ utf8 name = [] ∨ a.converted = false := by
      by_cases hmeasured : a.measured = true
      · rw [if_pos hmeasured] at hlen
        exact .inr (.inl (length_eq_zero_iff.mp hlen))
      · exact .inl (eq_false_of_ne_true hmeasured)
    refine ⟨h.seen, rfl, nofun, fun error herror => ⟨_, rfl, .inl ⟨?_, hfails⟩⟩⟩
    exact (Option.some.inj herror).symm
  rw [if_neg hlen]
  cases hreserve : ({ s with seen := s.seen + 1 } : DirScan).reserve a.realloc with
  | none =>
    have hfails := realloc_of_reserve hreserve
    refine ⟨h.seen, rfl, nofun, fun error herror => ⟨_, rfl, .inr ⟨?_, .inl hfails⟩⟩⟩
    exact (Option.some.inj herror).symm
  | some t =>
    obtain ⟨ht, hused, hseen, hroom⟩ := h.seen.reserve hreserve
    dsimp only
    by_cases hmalloc : a.malloc = false
    · rw [if_pos hmalloc]
      refine ⟨ht, hseen, nofun, fun error herror => ⟨_, rfl, .inr ⟨?_, .inr hmalloc⟩⟩⟩
      exact (Option.some.inj herror).symm
    rw [if_neg hmalloc]
    by_cases hconverted : a.converted = false
    · rw [if_pos hconverted]
      refine ⟨ht.push hroom _ _, hseen, nofun, fun error herror => ?_⟩
      exact ⟨_, rfl, .inl ⟨(Option.some.inj herror).symm, .inr (.inr hconverted)⟩⟩
    · rw [if_neg hconverted]
      refine ⟨ht.push hroom _ _, hseen, fun _ => ?_, nofun⟩
      change map WinDirent.entry (t.used ++ [_]) = _
      rw [hused, map_append]
      rfl

/-! ### The loops -/

/-- The loops as one loop over all the entries -/
def addEntries (utf8 : List UInt16 → List UInt8) (answers : ℕ → EntryAnswers) :
    List DirInfo → DirScan → DirScan × Option ScandirError
  | [], s => (s, none)
  | info :: infos, s =>
    match s.addEntry utf8 answers info with
    | (s, some error) => (s, some error)
    | (s, none) => addEntries utf8 answers infos s

theorem addEntries_append (xs ys : List DirInfo) (s : DirScan) :
    addEntries utf8 answers (xs ++ ys) s =
      match addEntries utf8 answers xs s with
      | (s, some error) => (s, some error)
      | (s, none) => addEntries utf8 answers ys s := by
  induction xs generalizing s with
  | nil => rfl
  | cons info xs ih =>
    rw [cons_append, addEntries, addEntries]
    cases s.addEntry utf8 answers info with
    | mk t error =>
      cases error with
      | none => exact ih t
      | some error => rfl

theorem length_le_of_listed (h : Listed buffer position infos) :
    infos.length + position ≤ bufferSize := by
  induction h with
  | last hlt _ =>
    rw [length_singleton]
    omega
  | next _ hnext _ ih =>
    rw [length_cons]
    omega

theorem chunkLoop_eq (h : Listed buffer position infos) (hfuel : infos.length ≤ fuel)
    (s : DirScan) :
    s.chunkLoop utf8 answers buffer fuel position = addEntries utf8 answers infos s := by
  induction h generalizing fuel s with
  | @last position _ hzero =>
    obtain ⟨n, rfl⟩ : ∃ n, fuel = n + 1 := ⟨fuel - 1, by rw [length_singleton] at hfuel; omega⟩
    rw [chunkLoop, addEntries]
    cases s.addEntry utf8 answers (buffer position) with
    | mk t error =>
      cases error with
      | none => exact if_neg (not_not.mpr hzero)
      | some error => rfl
  | @next position infos _ hnext _ ih =>
    obtain ⟨n, rfl⟩ : ∃ n, fuel = n + 1 := ⟨fuel - 1, by rw [length_cons] at hfuel; omega⟩
    rw [chunkLoop, addEntries]
    cases s.addEntry utf8 answers (buffer position) with
    | mk t error =>
      cases error with
      | none => exact (if_pos hnext).trans (ih (Nat.le_of_succ_le_succ hfuel) t)
      | some error => rfl

theorem chunksLoop_eq (chunks : List DirChunk) (s : DirScan) :
    s.chunksLoop utf8 answers chunks = addEntries utf8 answers (chunks.flatMap DirChunk.infos) s := by
  induction chunks generalizing s with
  | nil => rfl
  | cons chunk chunks ih =>
    have hlength := length_le_of_listed chunk.listed
    rw [chunksLoop, chunkLoop_eq chunk.listed hlength, flatMap_cons, addEntries_append]
    cases addEntries utf8 answers chunk.infos s with
    | mk t error =>
      cases error with
      | none => exact ih t
      | some error => rfl

theorem Owned.addEntries (h : Owned s) (utf8 : List UInt16 → List UInt8)
    (answers : ℕ → EntryAnswers) (infos : List DirInfo) :
    Owned (addEntries utf8 answers infos s).1 ∧
      ((addEntries utf8 answers infos s).2 = none →
        (addEntries utf8 answers infos s).1.used.map WinDirent.entry =
          s.used.map WinDirent.entry ++ infos.filterMap (entryOf utf8)) ∧
      (∀ error, (addEntries utf8 answers infos s).2 = some error →
        FailsAt utf8 answers s.seen infos error) := by
  induction infos generalizing s with
  | nil => exact ⟨h, fun _ => (append_nil _).symm, nofun⟩
  | cons info infos ih =>
    obtain ⟨howned, hseen, hdone, hfails⟩ := h.addEntry utf8 answers info
    rw [DirScan.addEntries]
    generalize s.addEntry utf8 answers info = r at howned hseen hdone hfails ⊢
    obtain ⟨t, error⟩ := r
    cases error with
    | some error =>
      refine ⟨howned, nofun, fun error' herror => ?_⟩
      obtain rfl := Option.some.inj herror
      obtain ⟨entry, hentry, hfail⟩ := hfails error rfl
      exact ⟨0, info, entry, rfl, hentry, hfail⟩
    | none =>
      obtain ⟨hrest, hused, hlater⟩ := ih howned
      refine ⟨hrest, fun hnone => ?_, fun error herror => ?_⟩
      · rw [hused hnone, hdone rfl, filterMap_cons, append_assoc]
        cases entryOf utf8 info <;> rfl
      · obtain ⟨i, info', entry, hget, hentry, hfail⟩ := hlater error herror
        rw [hseen, Nat.add_assoc, Nat.add_comm 1 i] at hfail
        exact ⟨i + 1, info', entry, hget, hentry, hfail⟩

end DirScan

section Results

variable {s : DirScan} {queries : DirQueries} {error : ScandirError}

theorem DirScan.Owned.cleanup (h : s.Owned) (error : ScandirError) :
    (s.cleanup error).freed.Perm (List.range s.allocated) := by
  change (s.freed ++ (s.used.map WinDirent.block).reverse ++ s.dirents.toList).Perm _
  have hswap : ((s.used.map WinDirent.block).reverse ++ s.dirents.toList).Perm
      (s.dirents.toList ++ s.used.map WinDirent.block) :=
    ((reverse_perm _).append_right _).trans perm_append_comm
  rw [append_assoc]
  exact (hswap.append_left s.freed).trans h.blocks

theorem right_cleanup (h : s.Owned)
    (herror : FailsAt utf8 answers 0 queries.infos error ∨
      error = .nt queries.last ∧ queries.last ≠ statusNoMoreFiles ∨
      error = .notADirectory ∧ queries.infos = [] ∧ queries.last = statusInvalidParameter) :
    ScandirRight utf8 answers none queries (s.cleanup error) := by
  refine ⟨rfl, nofun, fun error' herror' => ?_⟩
  obtain rfl := Except.error.inj herror'
  exact ⟨rfl, h.cleanup error, .inr ⟨rfl, herror⟩⟩

theorem right_finish (answers : ℕ → EntryAnswers) (queries : DirQueries) (h : s.Owned)
    (hused : s.used.map WinDirent.entry = queries.infos.filterMap (entryOf utf8)) :
    ScandirRight utf8 answers none queries (s.finish queries.last) := by
  unfold DirScan.finish
  by_cases hlast : queries.last ≠ statusNoMoreFiles
  · rw [if_pos hlast]
    exact right_cleanup h (.inr (.inl ⟨rfl, hlast⟩))
  · rw [if_neg hlast]
    refine ⟨rfl, fun n hn => ?_, nofun⟩
    obtain rfl := Except.ok.inj hn
    refine ⟨hused, rfl, h.fits, fun hsome => ?_, rfl, h.blocks, rfl, not_not.mp hlast⟩
    have hfits := h.fits
    exact h.size (by omega)

end Results

/-- Any number of chunks, with any failure -/
theorem fsScandir_right (utf8 : List UInt16 → List UInt8) (answers : ℕ → EntryAnswers)
    (opened : Option ℕ) (queries : DirQueries) :
    ScandirRight utf8 answers opened queries (fsScandir utf8 answers opened queries) := by
  cases opened with
  | some code =>
    refine ⟨rfl, nofun, fun error herror => ⟨rfl, .nil, .inl ⟨code, rfl, ?_⟩⟩⟩
    exact (Except.error.inj herror).symm
  | none =>
    cases queries with
    | fails status =>
      rw [fsScandir]
      by_cases hinvalid : status.status = statusInvalidParameter
      · rw [if_pos hinvalid]
        exact right_cleanup DirScan.owned_start (.inr (.inr ⟨rfl, rfl, hinvalid⟩))
      · rw [if_neg hinvalid]
        exact right_finish answers (.fails status) DirScan.owned_start rfl
    | chunks chunk chunks last =>
      obtain ⟨howned, hused, hfails⟩ := DirScan.owned_start.addEntries utf8 answers
        ((chunk :: chunks).flatMap DirChunk.infos)
      unfold fsScandir
      dsimp only
      rw [DirScan.chunksLoop_eq]
      generalize DirScan.addEntries utf8 answers _ DirScan.start = r at howned hused hfails ⊢
      obtain ⟨s, error⟩ := r
      cases error with
      | some error => exact right_cleanup howned (.inl (hfails error rfl))
      | none =>
        have hright := right_finish answers (.chunks chunk chunks last) howned (hused rfl)
        cases last with
        | none | some status => exact hright

end LibuvWorks.Win
