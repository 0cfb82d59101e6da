import LibuvWorks.Lib.Ranking
import LibuvWorks.Unix.Stream

/-!
# Copies without `sendfile`: `uv__fs_sendfile_emul`

The function as a machine whose inputs are the answers to its system calls. The bytes are named by
where they come from.
-/
namespace LibuvWorks.Unix

open List

def eio : ℕ := 5

def ewouldblock : ℕ := eagain

def espipe : ℕ := 29

def pollout : BitVec 16 := 4

/-- What the system answers: a count, a failure, or the events that `poll` reports. -/
inductive EmulAnswer where
  | count (n : ℕ)
  | failed (errno : ℕ)
  | polled (revents : BitVec 16)

/-- A byte of the source, by its offset or, where that has no offsets, by its place in the stream -/
inductive SourceByte where
  | file (offset : ℤ)
  | stream (pos : ℕ)
  deriving DecidableEq

/-- The call that is next; `buf` holds what was read, of which `nwritten` bytes are written. -/
inductive EmulPhase where
  | read
  | write (buf : List SourceByte) (nwritten : ℕ)
  | poll (buf : List SourceByte) (nwritten : ℕ)
  | ended (result : ℤ)

/-- The variables of `uv__fs_sendfile_emul`, with `off` of the request, the place in the stream, and
what was written to `out_fd`. -/
structure SendfileEmul where
  usePread : Bool
  offset : ℤ
  reqOff : ℤ
  pos : ℕ
  nsent : ℕ
  errno : ℕ
  written : List SourceByte
  phase : EmulPhase

/-- The first `n` bytes of the source -/
def sourceBytes (usePread : Bool) (offset : ℤ) (pos n : ℕ) : List SourceByte :=
  (List.range n).map fun i : ℕ => if usePread then .file (offset + i) else .stream (pos + i)

namespace SendfileEmul

variable (len : ℕ) (s : SendfileEmul)

/-- The label `out` -/
def out (result : ℤ) : SendfileEmul :=
  { s with phase := .ended result, reqOff := if result ≠ -1 then s.offset else s.reqOff }

def next : SendfileEmul := if s.nsent < len then { s with phase := .read } else s.out s.nsent

/-- `pread` or `read` -/
def readCall : EmulAnswer → Option SendfileEmul
  | .count n =>
    if n > min (len - s.nsent) 8192 then none
    else if n = 0 then some (s.out s.nsent)
    else some { s with
      phase := .write (sourceBytes s.usePread s.offset s.pos n) 0
      pos := if s.usePread then s.pos else s.pos + n }
  | .failed errno =>
    let t := { s with errno := errno }
    if errno = eintr then some t
    else if s.usePread = true ∧ s.nsent = 0 ∧ (errno = eio ∨ errno = espipe) then
      some ({ t with usePread := false }.next len)
    else some (t.out (if s.nsent = 0 then -1 else s.nsent))
  | .polled _ => none

/-- `write`, which takes at least a byte -/
def writeCall (buf : List SourceByte) (nwritten : ℕ) : EmulAnswer → Option SendfileEmul
  | .count n =>
    if n = 0 ∨ n > buf.length - nwritten then none
    else
      let t := { s with written := s.written ++ (buf.drop nwritten).take n }
      if nwritten + n < buf.length then some { t with phase := .write buf (nwritten + n) }
      else some ({ t with
        offset := s.offset + buf.length
        nsent := s.nsent + buf.length }.next len)
  | .failed errno =>
    let t := { s with errno := errno }
    if errno = eintr then some t
    else if errno ≠ eagain ∧ errno ≠ ewouldblock then some (t.out (-1))
    else some { t with phase := .poll buf nwritten }
  | .polled _ => none

/-- `poll` -/
def pollCall (buf : List SourceByte) (nwritten : ℕ) : EmulAnswer → Option SendfileEmul
  | .count _ => none
  | .failed errno =>
    if errno = eintr then some { s with errno := errno }
    else some ({ s with errno := eio }.out (-1))
  | .polled revents =>
    if revents &&& ~~~pollout ≠ 0 then some ({ s with errno := eio }.out (-1))
    else some { s with phase := .write buf nwritten }

/-- The answer to the call that is next -/
def step (a : EmulAnswer) : Option SendfileEmul :=
  match s.phase with
  | .read => s.readCall len a
  | .write buf nwritten => s.writeCall len buf nwritten a
  | .poll buf nwritten => s.pollCall buf nwritten a
  | .ended _ => none

def start (len : ℕ) (off : ℤ) (pos : ℕ) : SendfileEmul :=
  { usePread := true, offset := off, reqOff := off, pos := pos, nsent := 0, errno := 0,
    written := [], phase := .read : SendfileEmul }.next len

end SendfileEmul

variable {len pos m n : ℕ} {off : ℤ} {s t : SendfileEmul} {usePread : Bool}

@[simp] theorem length_sourceBytes (usePread : Bool) (offset : ℤ) (pos n : ℕ) :
    (sourceBytes usePread offset pos n).length = n := by simp [sourceBytes]

theorem sourceBytes_add (usePread : Bool) (offset : ℤ) (pos m n : ℕ) :
    sourceBytes usePread offset pos (m + n) =
      sourceBytes usePread offset pos m ++ sourceBytes usePread (offset + m) (pos + m) n := by
  unfold sourceBytes
  rw [range_add, map_append, map_map]
  congr 1
  apply map_congr_left
  intro i _
  simp only [Function.comp]
  congr 2 <;> omega

theorem sourceBytes_pread (offset : ℤ) (pos pos' n : ℕ) :
    sourceBytes true offset pos n = sourceBytes true offset pos' n := rfl

/-- The answers after which the same bytes are read or written again: an interruption, `out_fd`
being full, and that it is ready -/
def EmulAnswer.retries : EmulAnswer → Bool
  | .count _ => false
  | .failed errno => errno = eintr ∨ errno = eagain ∨ errno = ewouldblock
  | .polled _ => true

namespace SendfileEmul

variable {buf : List SourceByte} {nwritten : ℕ}

inductive Moves (len : ℕ) (s : SendfileEmul) : EmulAnswer → SendfileEmul → Prop
  | again {a : EmulAnswer} : (∀ result, s.phase ≠ .ended result) → a.retries = true →
      Moves len s a { s with errno := eintr }
  | fails {a : EmulAnswer} (errno : ℕ) : (∀ result, s.phase ≠ .ended result) →
      Moves len s a ({ s with errno := errno }.out (-1))
  | stops {a : EmulAnswer} (errno : ℕ) : s.phase = .read →
      (a = .count 0 ∨ ∃ errno, a = .failed errno) →
      Moves len s a ({ s with errno := errno }.out s.nsent)
  | fallsBack {errno : ℕ} : s.phase = .read → s.usePread = true → s.nsent = 0 →
      Moves len s (.failed errno) ({ s with errno := errno, usePread := false }.next len)
  | reads {n : ℕ} : s.phase = .read → 0 < n → n ≤ min (len - s.nsent) 8192 →
      Moves len s (.count n) { s with
        phase := .write (sourceBytes s.usePread s.offset s.pos n) 0
        pos := if s.usePread then s.pos else s.pos + n }
  | writes {buf : List SourceByte} {nwritten n : ℕ} : s.phase = .write buf nwritten → 0 < n →
      nwritten + n < buf.length → Moves len s (.count n) { s with
        written := s.written ++ (buf.drop nwritten).take n
        phase := .write buf (nwritten + n) }
  | drains {buf : List SourceByte} {nwritten n : ℕ} : s.phase = .write buf nwritten → 0 < n →
      nwritten + n = buf.length → Moves len s (.count n) ({ s with
        written := s.written ++ (buf.drop nwritten).take n
        offset := s.offset + buf.length
        nsent := s.nsent + buf.length }.next len)
  | waits {buf : List SourceByte} {nwritten errno : ℕ} : s.phase = .write buf nwritten →
      EmulAnswer.retries (.failed errno) = true →
      Moves len s (.failed errno) { s with errno := errno, phase := .poll buf nwritten }
  | ready {buf : List SourceByte} {nwritten : ℕ} {revents : BitVec 16} :
      s.phase = .poll buf nwritten →
      Moves len s (.polled revents) { s with phase := .write buf nwritten }

theorem retries_eintr : EmulAnswer.retries (.failed eintr) = true := by decide

variable {a : EmulAnswer}

theorem moves_of_readCall (hphase : s.phase = .read)
    (hstep : s.readCall len a = some t) : Moves len s a t := by
  have hopen : ∀ result, s.phase ≠ .ended result := by
    rw [hphase]
    exact nofun
  cases a with
  | count n =>
    rw [SendfileEmul.readCall] at hstep
    by_cases hfits : n > min (len - s.nsent) 8192
    · rw [if_pos hfits] at hstep
      cases hstep
    rw [if_neg hfits] at hstep
    by_cases hzero : n = 0
    · rw [if_pos hzero] at hstep
      cases hstep
      exact .stops s.errno hphase (.inl (congrArg _ hzero))
    · rw [if_neg hzero] at hstep
      cases hstep
      exact .reads hphase (Nat.pos_of_ne_zero hzero) (Nat.le_of_not_gt hfits)
  | failed errno =>
    rw [SendfileEmul.readCall] at hstep
    by_cases heintr : errno = eintr
    · rw [if_pos heintr] at hstep
      cases hstep
      subst heintr
      exact .again hopen retries_eintr
    rw [if_neg heintr] at hstep
    by_cases hfallback : s.usePread = true ∧ s.nsent = 0 ∧ (errno = eio ∨ errno = espipe)
    · rw [if_pos hfallback] at hstep
      cases hstep
      exact .fallsBack hphase hfallback.1 hfallback.2.1
    · rw [if_neg hfallback] at hstep
      cases hstep
      split_ifs with hnsent
      · exact .fails errno hopen
      · exact .stops errno hphase (.inr ⟨errno, rfl⟩)
  | polled revents => exact nomatch hstep

theorem moves_of_writeCall (hphase : s.phase = .write buf nwritten)
    (hstep : s.writeCall len buf nwritten a = some t) : Moves len s a t := by
  have hopen : ∀ result, s.phase ≠ .ended result := by
    rw [hphase]
    exact nofun
  cases a with
  | count n =>
    rw [SendfileEmul.writeCall] at hstep
    by_cases hfits : n = 0 ∨ n > buf.length - nwritten
    · rw [if_pos hfits] at hstep
      cases hstep
    rw [if_neg hfits] at hstep
    split_ifs at hstep with hmore
    · obtain rfl := Option.some.inj hstep
      exact .writes hphase (by omega) hmore
    · obtain rfl := Option.some.inj hstep
      exact .drains hphase (by omega) (by omega)
  | failed errno =>
    rw [SendfileEmul.writeCall] at hstep
    by_cases heintr : errno = eintr
    · rw [if_pos heintr] at hstep
      cases hstep
      subst heintr
      exact .again hopen retries_eintr
    rw [if_neg heintr] at hstep
    split_ifs at hstep with hfatal
    · obtain rfl := Option.some.inj hstep
      exact .fails errno hopen
    · obtain rfl := Option.some.inj hstep
      exact .waits hphase (decide_eq_true (.inr (by tauto)))
  | polled revents => exact nomatch hstep

theorem moves_of_pollCall (hphase : s.phase = .poll buf nwritten)
    (hstep : s.pollCall buf nwritten a = some t) : Moves len s a t := by
  have hopen : ∀ result, s.phase ≠ .ended result := by
    rw [hphase]
    exact nofun
  cases a with
  | count n => exact nomatch hstep
  | failed errno =>
    rw [SendfileEmul.pollCall] at hstep
    split_ifs at hstep with heintr
    · obtain rfl := Option.some.inj hstep
      subst heintr
      exact .again hopen retries_eintr
    · obtain rfl := Option.some.inj hstep
      exact .fails eio hopen
  | polled revents =>
    rw [SendfileEmul.pollCall] at hstep
    split_ifs at hstep with hevents
    · obtain rfl := Option.some.inj hstep
      exact .fails eio hopen
    · obtain rfl := Option.some.inj hstep
      exact .ready hphase

theorem moves_of_step (hstep : s.step len a = some t) : Moves len s a t := by
  rw [SendfileEmul.step] at hstep
  cases hphase : s.phase with
  | read =>
    rw [hphase] at hstep
    exact moves_of_readCall hphase hstep
  | write buf nwritten =>
    rw [hphase] at hstep
    exact moves_of_writeCall hphase hstep
  | poll buf nwritten =>
    rw [hphase] at hstep
    exact moves_of_pollCall hphase hstep
  | ended result =>
    rw [hphase] at hstep
    cases hstep

/-! ### What is copied -/

/-- What holds in a run from the offset `off` and the place `pos`: all that was read has been
written up to the buffer, and the request is changed at the end only. -/
structure Copied (len : ℕ) (off : ℤ) (pos : ℕ) (s : SendfileEmul) : Prop where
  offset : s.offset = off + s.nsent
  nsent_le : s.nsent ≤ len
  read : s.phase = .read → s.reqOff = off ∧ s.pos = (if s.usePread then pos else pos + s.nsent) ∧
    s.nsent < len ∧ s.written = sourceBytes s.usePread off pos s.nsent
  writing : ∀ buf nwritten, s.phase = .write buf nwritten ∨ s.phase = .poll buf nwritten →
    s.reqOff = off ∧ s.pos = (if s.usePread then pos else pos + s.nsent + buf.length) ∧
      nwritten < buf.length ∧ s.nsent + buf.length ≤ len ∧
      buf = sourceBytes s.usePread (off + s.nsent) (pos + s.nsent) buf.length ∧
      s.written = sourceBytes s.usePread off pos s.nsent ++ buf.take nwritten
  ended : ∀ result, s.phase = .ended result → result = -1 ∧ s.reqOff = off ∨
    result = s.nsent ∧ s.reqOff = off + s.nsent ∧
      s.written = sourceBytes s.usePread off pos s.nsent

theorem copied_failed (hoffset : s.offset = off + s.nsent) (hle : s.nsent ≤ len)
    (hreq : s.reqOff = off) : Copied len off pos (s.out (-1)) := by
  refine ⟨hoffset, hle, nofun, ?_, ?_⟩
  · rintro buf nwritten (habs | habs) <;> exact nomatch habs
  · rintro result hresult
    exact .inl ⟨(EmulPhase.ended.inj hresult).symm, hreq⟩

theorem copied_out (hoffset : s.offset = off + s.nsent) (hle : s.nsent ≤ len)
    (hwritten : s.written = sourceBytes s.usePread off pos s.nsent) :
    Copied len off pos (s.out s.nsent) := by
  refine ⟨hoffset, hle, nofun, ?_, ?_⟩
  · rintro buf nwritten (habs | habs) <;> exact nomatch habs
  · rintro result hresult
    have hne : (s.nsent : ℤ) ≠ -1 := by omega
    have hreq : (s.out s.nsent).reqOff = s.offset := by
      rw [out]
      rw [if_pos hne]
    exact .inr ⟨(EmulPhase.ended.inj hresult).symm, hreq.trans hoffset, hwritten⟩

theorem copied_next (hoffset : s.offset = off + s.nsent) (hle : s.nsent ≤ len)
    (hreq : s.reqOff = off) (hpos : s.pos = if s.usePread then pos else pos + s.nsent)
    (hwritten : s.written = sourceBytes s.usePread off pos s.nsent) :
    Copied len off pos (s.next len) := by
  unfold next
  split_ifs with hlt
  · refine ⟨hoffset, hle, fun _ => ⟨hreq, hpos, hlt, hwritten⟩, ?_, nofun⟩
    rintro buf nwritten (habs | habs) <;> exact nomatch habs
  · exact copied_out hoffset hle hwritten

theorem copied_start (len : ℕ) (off : ℤ) (pos : ℕ) : Copied len off pos (start len off pos) :=
  copied_next (Int.add_zero off).symm (Nat.zero_le len) rfl rfl rfl

theorem copied_write (hoffset : s.offset = off + s.nsent)
    (hphase : s.phase = .write buf nwritten ∨ s.phase = .poll buf nwritten)
    (hreq : s.reqOff = off) (hpos : s.pos = if s.usePread then pos else pos + s.nsent + buf.length)
    (hlt : nwritten < buf.length) (hle : s.nsent + buf.length ≤ len)
    (hbuf : buf = sourceBytes s.usePread (off + s.nsent) (pos + s.nsent) buf.length)
    (hwritten : s.written = sourceBytes s.usePread off pos s.nsent ++ buf.take nwritten) :
    Copied len off pos s := by
  refine ⟨hoffset, by omega, ?_, ?_, ?_⟩
  · intro habs
    rw [habs] at hphase
    exact hphase.elim nofun nofun
  · rintro buf' nwritten' hphase'
    obtain ⟨rfl, rfl⟩ : buf' = buf ∧ nwritten' = nwritten := by
      obtain hphase | hphase := hphase <;> rw [hphase] at hphase' <;> simpa [eq_comm] using hphase'
    exact ⟨hreq, hpos, hlt, hle, hbuf, hwritten⟩
  · intro result habs
    rw [habs] at hphase
    exact hphase.elim nofun nofun

theorem Copied.reqOff_eq (h : Copied len off pos s) (hopen : ∀ result, s.phase ≠ .ended result) :
    s.reqOff = off := by
  cases hphase : s.phase with
  | read => exact (h.read hphase).1
  | write buf nwritten => exact (h.writing buf nwritten (.inl hphase)).1
  | poll buf nwritten => exact (h.writing buf nwritten (.inr hphase)).1
  | ended result => exact absurd hphase (hopen result)

theorem Copied.moves (h : Copied len off pos s) (hmoves : Moves len s a t) :
    Copied len off pos t := by
  cases hmoves with
  | again => exact { h with }
  | fails errno hopen => exact copied_failed h.offset h.nsent_le (h.reqOff_eq hopen)
  | stops errno hphase _ =>
    obtain ⟨-, -, -, hwritten⟩ := h.read hphase
    exact copied_out h.offset h.nsent_le hwritten
  | fallsBack hphase hread hnsent =>
    obtain ⟨hreq, hpos, -, hwritten⟩ := h.read hphase
    rw [hread] at hpos
    refine copied_next h.offset h.nsent_le hreq ?_ ?_
    · rw [hpos, hnsent]
      rfl
    · rw [hwritten, hnsent]
      rfl
  | @reads n hphase hpositive hfits =>
    obtain ⟨hreq, hpos, -, hwritten⟩ := h.read hphase
    refine copied_write h.offset (.inl rfl) hreq ?_ ?_ ?_ ?_ ?_
    · rw [length_sourceBytes, hpos]
      cases s.usePread <;> rfl
    · rw [length_sourceBytes]
      exact hpositive
    · change s.nsent + _ ≤ len
      rw [length_sourceBytes]
      omega
    · rw [length_sourceBytes, h.offset]
      cases hread : s.usePread with
      | true => exact sourceBytes_pread _ _ _ _
      | false =>
        rw [hread] at hpos
        rw [hpos]
        rfl
    · rw [take_zero, append_nil]
      exact hwritten
  | @writes buf nwritten n hphase _ hmore =>
    obtain ⟨hreq, hpos, -, hle, hbuf, hwritten⟩ := h.writing buf nwritten (.inl hphase)
    refine copied_write h.offset (.inl rfl) hreq hpos hmore hle hbuf ?_
    rw [hwritten, append_assoc, ← take_add]
  | @drains buf nwritten n hphase _ hall =>
    obtain ⟨hreq, hpos, -, hle, hbuf, hwritten⟩ := h.writing buf nwritten (.inl hphase)
    refine copied_next ?_ hle hreq ?_ ?_
    · change s.offset + buf.length = off + ((s.nsent + buf.length : ℕ) : ℤ)
      rw [h.offset]
      omega
    · rw [hpos, Nat.add_assoc]
    · rw [hwritten, append_assoc, ← take_add, hall, take_length, sourceBytes_add,
        ← hbuf]
  | @waits buf nwritten errno hphase _ =>
    obtain ⟨hreq, hpos, hlt, hle, hbuf, hwritten⟩ := h.writing buf nwritten (.inl hphase)
    exact copied_write h.offset (.inr rfl) hreq hpos hlt hle hbuf hwritten
  | @ready buf nwritten revents hphase =>
    obtain ⟨hreq, hpos, hlt, hle, hbuf, hwritten⟩ := h.writing buf nwritten (.inr hphase)
    exact copied_write h.offset (.inl rfl) hreq hpos hlt hle hbuf hwritten

/-! ### The end -/

theorem next_nsent (s : SendfileEmul) : (s.next len).nsent = s.nsent := by
  unfold next
  split <;> rfl

theorem next_phase_ended {result : ℤ} (h : (s.next len).phase = .ended result) :
    result = s.nsent ∧ len ≤ s.nsent := by
  unfold next at h
  by_cases hlt : s.nsent < len
  · rw [if_pos hlt] at h
    cases h
  · rw [if_neg hlt] at h
    exact ⟨(EmulPhase.ended.inj h).symm, Nat.le_of_not_lt hlt⟩

theorem Moves.last (h : Moves len s a t) {result : ℤ}
    (hended : t.phase = .ended result) (hnonneg : 0 ≤ result) (hlt : result < len) :
    s.phase = .read ∧ s.nsent = result ∧ (a = .count 0 ∨ ∃ errno, a = .failed errno) := by
  cases h with
  | again hopen => exact absurd hended (hopen result)
  | fails =>
    obtain rfl := EmulPhase.ended.inj hended
    exact absurd hnonneg (by decide)
  | stops errno hphase ha => exact ⟨hphase, EmulPhase.ended.inj hended, ha⟩
  | fallsBack =>
    obtain ⟨rfl, hle⟩ := next_phase_ended hended
    omega
  | reads | writes => exact nomatch hended
  | drains =>
    obtain ⟨rfl, hle⟩ := next_phase_ended hended
    omega
  | waits | ready => exact nomatch hended

/-- How many calls can be left that are not made again -/
def rank (len : ℕ) (s : SendfileEmul) : ℕ :=
  match s.phase with
  | .read => 2 * (len - s.nsent) + (if s.usePread = true ∧ s.nsent = 0 then 1 else 0) + 1
  | .write buf nwritten | .poll buf nwritten =>
    2 * (len - (s.nsent + buf.length)) + (buf.length - nwritten) + 1
  | .ended _ => 0

theorem rank_next_le (len : ℕ) (s : SendfileEmul) :
    (s.next len).rank len ≤
      2 * (len - s.nsent) + (if s.usePread = true ∧ s.nsent = 0 then 1 else 0) + 1 := by
  unfold next
  by_cases hlt : s.nsent < len
  · rw [if_pos hlt]
    rfl
  · rw [if_neg hlt]
    exact Nat.zero_le _

theorem rank_pos (hopen : ∀ result, s.phase ≠ .ended result) : 0 < s.rank len := by
  unfold rank
  cases hphase : s.phase with
  | read | write buf nwritten | poll buf nwritten => exact Nat.succ_pos _
  | ended result => exact absurd hphase (hopen result)

theorem rank_read (hphase : s.phase = .read) : s.rank len =
    2 * (len - s.nsent) + (if s.usePread = true ∧ s.nsent = 0 then 1 else 0) + 1 := by
  rw [rank, hphase]

theorem rank_write (hphase : s.phase = .write buf nwritten ∨ s.phase = .poll buf nwritten) :
    s.rank len = 2 * (len - (s.nsent + buf.length)) + (buf.length - nwritten) + 1 := by
  obtain hphase | hphase := hphase <;> rw [rank, hphase]

theorem Copied.rank_moves (h : Copied len off pos s) (hmoves : Moves len s a t) :
    t.rank len + 1 ≤ s.rank len + if a.retries = true then 1 else 0 := by
  cases hmoves with
  | again _ hretries =>
    rw [if_pos hretries]
    exact Nat.le_refl _
  | fails errno hopen => exact Nat.le_add_right_of_le (rank_pos hopen)
  | stops errno hphase _ =>
    refine Nat.le_add_right_of_le (rank_pos ?_)
    rw [hphase]
    exact nofun
  | @fallsBack errno hphase hread hnsent =>
    have hnext := rank_next_le len { s with errno := errno, usePread := false }
    rw [rank_read hphase, if_pos ⟨hread, hnsent⟩]
    simp only [Bool.false_eq_true, false_and, if_false] at hnext
    omega
  | @reads n hphase hpositive hfits =>
    rw [rank_read hphase, rank_write (.inl rfl), length_sourceBytes]
    dsimp only
    omega
  | @writes buf nwritten n hphase hpositive hmore =>
    rw [rank_write (.inl hphase), rank_write (.inl rfl)]
    dsimp only
    omega
  | @drains buf nwritten n hphase hpositive hall =>
    rw [rank_write (.inl hphase)]
    refine (Nat.add_le_add_right (rank_next_le len _) 1).trans ?_
    have hsent : ¬(s.usePread = true ∧ s.nsent + buf.length = 0) := by omega
    dsimp only
    rw [if_neg hsent]
    omega
  | @waits buf nwritten errno hphase hretries =>
    rw [rank_write (.inl hphase), rank_write (.inr rfl), if_pos hretries]
  | @ready buf nwritten revents hphase =>
    rw [rank_write (.inr hphase)]
    exact Nat.le_refl _

def run (len : ℕ) (off : ℤ) (pos : ℕ) (answers : List EmulAnswer) : Option SendfileEmul :=
  answers.foldlM (step len) (start len off pos)

/-- The function is right: a count is the number of bytes that were written, which are the first
ones of the source; fewer than the length are written only where the source ended or failed; the
request is not changed on an error; and all but so many calls are made again, so that it ends. -/
structure CopiesRight (len : ℕ) (off : ℤ) (pos : ℕ) : Prop where
  sent : ∀ answers s (n : ℕ), run len off pos answers = some s → s.phase = .ended n →
    s.written = sourceBytes s.usePread off pos n ∧ s.reqOff = off + n
  full : ∀ answers s (n : ℕ), run len off pos answers = some s → s.phase = .ended n →
    n = len ∨ n < len ∧ ∃ init a t, answers = init ++ [a] ∧ run len off pos init = some t ∧
      t.phase = .read ∧ t.nsent = n ∧ (a = .count 0 ∨ ∃ errno, a = .failed errno)
  error : ∀ answers s result, run len off pos answers = some s → s.phase = .ended result →
    result < 0 → result = -1 ∧ s.reqOff = off
  calls : ∀ answers s, run len off pos answers = some s →
    answers.length ≤ 2 * len + 2 + answers.countP EmulAnswer.retries
  ends : ∀ answers : ℕ → EmulAnswer, (∀ i, ∃ j, i ≤ j ∧ (answers j).retries = false) →
    (∀ k s, run len off pos ((List.range k).map answers) = some s →
      s.step len (answers k) = none → ∃ result, s.phase = .ended result) →
    ∃ k s result, run len off pos ((List.range k).map answers) = some s ∧ s.phase = .ended result

theorem reachable_start (len : ℕ) (off : ℤ) (pos : ℕ) :
    Transition.Reachable (fun s => s = start len off pos) (fun s a t => s.step len a = some t)
      (start len off pos) := .init rfl

variable {answers : List EmulAnswer}

theorem reachable_of_run (hrun : run len off pos answers = some s) :
    Transition.Reachable (fun s => s = start len off pos) (fun s a t => s.step len a = some t) s :=
  Transition.Reachable.of_foldlM (reachable_start len off pos) hrun

theorem copied_of_run (hrun : run len off pos answers = some s) :
    Copied len off pos s := by
  refine (reachable_of_run hrun).invariant ?_ ?_
  · rintro s rfl
    exact copied_start len off pos
  · intro s a t _ hs hstep
    exact hs.moves (moves_of_step hstep)

theorem length_le_of_run (answers : List EmulAnswer) (s : SendfileEmul)
    (hrun : run len off pos answers = some s) :
    answers.length ≤ 2 * len + 2 + answers.countP EmulAnswer.retries := by
  have hle := Ranking.length_le (rank len) (fun a => if a.retries = true then 1 else 0)
    (Transition.Run.of_foldlM hrun) (reachable_start len off pos) (copied_start len off pos) fun s a t _ hs hstep =>
      ⟨hs.moves (moves_of_step hstep), hs.rank_moves (moves_of_step hstep)⟩
  have hstart : (start len off pos).rank len ≤ 2 * len + 2 := (rank_next_le len _).trans (by simp)
  have hcost : (answers.map fun a => if a.retries = true then 1 else 0).sum =
      answers.countP EmulAnswer.retries := by
    clear hrun hle
    induction answers with
    | nil => rfl
    | cons a answers ih => rw [map_cons, sum_cons, ih, countP_cons, Nat.add_comm]
  omega

theorem emul_right (len : ℕ) (off : ℤ) (pos : ℕ) : CopiesRight len off pos := by
  refine ⟨?_, ?_, ?_, length_le_of_run, ?_⟩
  · intro answers s n hrun hphase
    obtain ⟨habs, -⟩ | ⟨hn, hreq, hwritten⟩ := (copied_of_run hrun).ended _ hphase
    · omega
    · obtain rfl := Int.ofNat.inj hn
      exact ⟨hwritten, hreq⟩
  · intro answers s n hrun hphase
    have hcopied := copied_of_run hrun
    obtain ⟨habs, -⟩ | ⟨hn, -⟩ := hcopied.ended _ hphase
    · omega
    obtain rfl := Int.ofNat.inj hn
    obtain hfull | hlt := Nat.eq_or_lt_of_le hcopied.nsent_le
    · exact .inl hfull
    obtain rfl | ⟨init, a, rfl⟩ := List.eq_nil_or_concat answers
    · obtain rfl := Option.some.inj hrun
      obtain ⟨-, hle⟩ := next_phase_ended hphase
      rw [start, next_nsent] at hlt
      exact absurd hlt (Nat.not_lt.mpr hle)
    · rw [List.concat_eq_append] at hrun ⊢
      obtain ⟨t, ht, hlast⟩ : ∃ t, run len off pos init = some t ∧ t.step len a = some s := by
        simpa [run, List.foldlM_append, Option.bind_eq_some_iff] using hrun
      obtain ⟨hread, hsent, ha⟩ := (moves_of_step hlast).last hphase (Int.natCast_nonneg _)
        (Int.ofNat_lt.mpr hlt)
      exact .inr ⟨hlt, init, a, t, rfl, ht, hread, Int.ofNat.inj hsent, ha⟩
  · intro answers s result hrun hphase hneg
    obtain hfailed | ⟨hn, -⟩ := (copied_of_run hrun).ended _ hphase
    · exact hfailed
    · omega
  · intro answers hfair hsuits
    obtain ⟨k, s, hrun, hstuck⟩ := Ranking.exists_stuck
      (fun es t hrun => length_le_of_run es t hrun) answers hfair
    obtain ⟨result, hphase⟩ := hsuits k s hrun hstuck
    exact ⟨k, s, result, hrun, hphase⟩

end SendfileEmul

end LibuvWorks.Unix
