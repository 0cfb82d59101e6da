import LibuvWorks.Win.TtyRead

/-!
# The read request of a console is out once

Two branches leave the counters alone. `uv_tty_read_start` inserts the request while a key is half
delivered without `UV_HANDLE_READ_PENDING` and `reqs_pending`, and a wait that could not be
registered stops reading without `activecnt`.
-/
namespace LibuvWorks.Win.TtyRead

open Transition List Option Nat Bool

variable {s t : TtyRead} {e : Event} {registered : Bool} {frame : TtyFrame} {frames : List TtyFrame}

def processing (s : TtyRead) : ℕ := (s.frames.map TtyFrame.processed).sum

/-- What holds of the flags and counters of a handle; `processed` requests are being handled by
functions that are not among the frames. -/
structure Balanced (s : TtyRead) (processed : ℕ) : Prop where
  pending : s.readReq.outstanding = if s.readPending then 1 else 0
  reqs : s.reqsPending = s.readReq.outstanding + s.processing + processed
  active : s.activecnt = if s.reading then 1 else 0
  closing : s.closing = true → s.reading = false ∧ s.readable = false
  endgame : s.closing = true → s.closed = false → s.reqsPending = 0 → s.endgameQueued = true
  closed : s.closed = true → s.closing = true ∧ s.endgameQueued = false ∧ s.reqsPending = 0 ∧
    s.frames = []
  rawWait : s.rawWait = true → 0 < s.readReq.waits

/-- A line is being queued, and `alloc_cb` runs. -/
def queuesLine (s : TtyRead) : Bool :=
  match s.frames.head? with
  | some (.lineAlloc _) => true
  | _ => false

/-- What the handle asks of the user and the system: reading is not started while no read is
pending and a key is half delivered, a wait that could not be registered is not handled while the
handle reads in raw mode, and an `alloc_cb` for a line has not queued a read itself. -/
def Careful (s : TtyRead) : Event → Prop
  | .process _ _ => s.lineBuffer = 0 → s.reading = true → s.raw = true → s.readReq.failed = false
  | .buffer base len _ => s.queuesLine = true → base = true → len ≠ 0 → s.readPending = false
  | .readStart _ => s.reading = false → s.readable = true → s.readPending = false →
      s.lastKeyLen = 0
  | .setMode _ modeSet _ => s.reading = true → modeSet = true → s.readPending = false →
      s.lastKeyLen = 0
  | _ => True

instance (s : TtyRead) (e : Event) : Decidable (Careful s e) := by
  induction e using Event.casesOn <;> dsimp only [Careful] <;> infer_instance

namespace Balanced

variable {processed : ℕ}

theorem not_closing (h : Balanced s processed) (hreading : s.reading = true) :
    s.closing = false := by
  by_contra hset
  cases hreading.symm.trans (h.closing (eq_true_of_ne_false hset)).1

theorem not_closed (h : Balanced s processed) (hclosing : s.closing = false) :
    s.closed = false := by
  by_contra hset
  cases hclosing.symm.trans (h.closed (eq_true_of_ne_false hset)).1

theorem open_of_processing (h : Balanced s 1) : s.closed = false := by
  have hreqs := h.reqs
  by_contra hset
  have hnone := (h.closed (eq_true_of_ne_false hset)).2.2.1
  omega

theorem none_out (h : Balanced s processed) (hpending : s.readPending = false) :
    s.readReq.outstanding = 0 := by
  rw [h.pending, hpending]
  rfl

theorem enter (frame : TtyFrame) (h : Balanced s frame.processed) (hopen : s.closed = false) :
    Balanced (s.enter frame) 0 := { h with
  reqs := by
    have hreqs := h.reqs
    change s.reqsPending =
      s.readReq.outstanding + (frame.processed + (s.frames.map TtyFrame.processed).sum) + 0
    change s.reqsPending =
      s.readReq.outstanding + (s.frames.map TtyFrame.processed).sum + frame.processed at hreqs
    omega
  closed := fun habs => by cases hopen.symm.trans habs }

theorem leave {frame : TtyFrame} {frames : List TtyFrame} (h : Balanced s 0)
    (hframes : s.frames = frame :: frames) :
    Balanced { s with frames } frame.processed ∧ s.closed = false := by
  have hopen : s.closed = false := by
    by_contra hset
    cases hframes.symm.trans (h.closed (eq_true_of_ne_false hset)).2.2.2
  constructor
  · exact { h with
      reqs := by
        have hreqs := h.reqs
        rw [TtyRead.processing, hframes, map_cons, sum_cons] at hreqs
        change s.reqsPending =
          s.readReq.outstanding + (frames.map TtyFrame.processed).sum + frame.processed
        omega
      closed := fun habs => by cases hopen.symm.trans habs }
  · exact hopen

theorem decreasePending (h : Balanced s 1) :
    ∃ t, s.decreasePending = some t ∧ Balanced t 0 := by
  have hreqs := h.reqs
  have hopen := h.open_of_processing
  unfold TtyRead.decreasePending
  rw [if_neg (by omega)]
  exact ⟨_, rfl, { h with
    reqs := by
      change s.reqsPending - 1 = s.readReq.outstanding + s.processing + 0
      omega
    endgame := by
      intro hclosing _ hnone
      have hone : s.reqsPending = 1 := by
        change s.reqsPending - 1 = 0 at hnone
        omega
      change (s.endgameQueued || (s.closing && s.reqsPending == 1)) = true
      rw [hone, show s.closing = true from hclosing]
      exact Bool.or_true _
    closed := fun habs => by cases hopen.symm.trans habs }⟩

theorem afterQueue {processing : Bool} (h : Balanced s processing.toNat) :
    ∃ t, s.afterQueue processing = some t ∧ Balanced t 0 := by
  unfold TtyRead.afterQueue
  cases processing with
  | false => exact ⟨s, rfl, h⟩
  | true => exact h.decreasePending

/-! ### Queueing a read -/

theorem submitted {r : TtyReadReq} {lineBuffer : ℕ} {rawWait : Bool} (h : Balanced s processed)
    (hpending : s.readPending = false) (hopen : s.closed = false) (hout : r.outstanding = 1)
    (hwait : rawWait = true → 0 < r.waits) :
    Balanced { s with
      lineBuffer
      rawWait
      readReq := r
      readPending := true
      reqsPending := s.reqsPending + 1 } processed := { h with
  pending := hout
  reqs := by
    have hreqs := h.reqs
    have hnone := h.none_out hpending
    change s.reqsPending + 1 = r.outstanding + s.processing + processed
    omega
  endgame := fun _ _ habs => absurd habs (succ_ne_zero _)
  closed := fun habs => by cases hopen.symm.trans habs
  rawWait := hwait }

theorem outstanding_wait (hnone : s.readReq.outstanding = 0) : s.readReq.wait.outstanding = 1 := by
  change s.readReq.waits + s.readReq.threads + s.readReq.queued = 0 at hnone
  change s.readReq.waits + 1 + s.readReq.threads + s.readReq.queued = 1
  omega

theorem outstanding_spawn (hnone : s.readReq.outstanding = 0) :
    s.readReq.spawn.outstanding = 1 := by
  change s.readReq.waits + s.readReq.threads + s.readReq.queued = 0 at hnone
  change s.readReq.waits + (s.readReq.threads + 1) + s.readReq.queued = 1
  omega

theorem outstanding_insert {failed : Bool} (hnone : s.readReq.outstanding = 0) :
    (s.readReq.insert failed).outstanding = 1 := by
  change s.readReq.outstanding + 1 = 1
  rw [hnone]

theorem uvTtyQueueReadRaw (h : Balanced s processed) (registered : Bool)
    (hreading : s.reading = true)
    (hpending : s.readPending = false) :
    ∃ t, s.uvTtyQueueReadRaw registered = some t ∧ Balanced t processed := by
  have hclosing := h.not_closing hreading
  have hnone := h.none_out hpending
  unfold TtyRead.uvTtyQueueReadRaw
  rw [if_neg (by simp [hreading, hpending, hclosing])]
  refine ⟨_, rfl, h.submitted hpending (h.not_closed hclosing) ?_ ?_⟩
  · split_ifs
    · exact outstanding_wait hnone
    · exact outstanding_insert hnone
  · intro hregistered
    rw [if_pos hregistered]
    exact succ_pos _

theorem uvTtyQueueRead (processing : Bool) (h : Balanced s processing.toNat)
    (hreading : s.reading = true) (hpending : s.readPending = false) :
    ∃ t, s.uvTtyQueueRead processing registered = some t ∧ Balanced t 0 := by
  have hclosing := h.not_closing hreading
  unfold TtyRead.uvTtyQueueRead
  split_ifs
  · obtain ⟨t, ht, hqueued⟩ := h.uvTtyQueueReadRaw registered hreading hpending
    rw [ht]
    exact hqueued.afterQueue
  · unfold uvTtyQueueReadLine
    rw [if_neg (by simp [hreading, hpending, hclosing])]
    have hemptied : Balanced { s with lineBuffer := 0 } processing.toNat := { h with }
    exact ⟨_, rfl, enter (.lineAlloc processing) hemptied (h.not_closed hclosing)⟩

/-! ### The calls of the user -/

theorem started (h : Balanced s 0) (hreading : s.reading = false) (hclosing : s.closing = false) :
    { s with reading := true }.increaseActive =
      some { s with reading := true, activecnt := s.activecnt + 1 } ∧
    Balanced { s with reading := true, activecnt := s.activecnt + 1 } 0 := by
  constructor
  · exact if_neg (by simp [hclosing])
  · exact { h with
      active := by
        have hactive := h.active
        rw [hreading, if_neg Bool.false_ne_true] at hactive
        change s.activecnt + 1 = if true = true then 1 else 0
        rw [hactive, if_pos rfl]
        rfl
      closing := fun habs => by cases hclosing.symm.trans habs }

theorem uvTtyReadStart (h : Balanced s 0) (hreading : s.reading = false)
    (hclosing : s.closing = false) (hkey : s.readPending = false → s.lastKeyLen = 0) :
    ∃ t, s.uvTtyReadStart registered = some t ∧ Balanced t 0 := by
  obtain ⟨heq, hstarted⟩ := h.started hreading hclosing
  unfold TtyRead.uvTtyReadStart
  rw [heq, bind_eq_bind, bind_some]
  split_ifs with hpending hhalf
  · exact ⟨_, rfl, hstarted⟩
  · exact absurd (hkey (eq_false_of_ne_true hpending)) (Nat.ne_of_gt hhalf)
  · exact uvTtyQueueRead false hstarted rfl (eq_false_of_ne_true hpending)

theorem uvReadStart (h : Balanced s 0) (hkey : s.reading = false → s.readable = true →
    s.readPending = false → s.lastKeyLen = 0) :
    ∃ t, s.uvReadStart registered = some t ∧ Balanced t 0 := by
  unfold TtyRead.uvReadStart
  split_ifs with hreading hreadable
  · exact ⟨s, rfl, h⟩
  · exact ⟨s, rfl, h⟩
  · have hclosing : s.closing = false := by
      by_contra hset
      exact hreadable (h.closing (eq_true_of_ne_false hset)).2
    have hidle := eq_false_of_ne_true hreading
    exact h.uvTtyReadStart hidle hclosing (hkey hidle (eq_true_of_ne_false hreadable))

theorem stopped (h : Balanced s processed) (hreading : s.reading = true) (c : Bool) :
    { s with reading := false }.decreaseActive =
      some { s with reading := false, activecnt := s.activecnt - 1 } ∧
    Balanced { s with reading := false, activecnt := s.activecnt - 1, cancellationPending := c }
      processed := by
  have hactive := h.active
  rw [hreading, if_pos rfl] at hactive
  constructor
  · refine if_neg ?_
    change ¬s.activecnt ≤ 0
    omega
  · exact { h with
      active := by
        change s.activecnt - 1 = if false = true then 1 else 0
        rw [hactive, if_neg Bool.false_ne_true]
        rfl
      closing := fun hclosing => ⟨rfl, (h.closing hclosing).2⟩ }

theorem uvTtyReadStop (h : Balanced s processed) (written : Bool) (hreading : s.reading = true) :
    ∃ c, s.uvTtyReadStop written = some { s with
        reading := false
        activecnt := s.activecnt - 1
        cancellationPending := c } ∧
      Balanced { s with
        reading := false
        activecnt := s.activecnt - 1
        cancellationPending := c } processed := by
  have heq := (h.stopped hreading s.cancellationPending).1
  unfold TtyRead.uvTtyReadStop
  rw [heq, bind_eq_bind, bind_some]
  split_ifs
  · exact ⟨true, rfl, (h.stopped hreading true).2⟩
  · exact ⟨s.cancellationPending, rfl, (h.stopped hreading _).2⟩

theorem uvReadStop (h : Balanced s processed) (written : Bool) :
    ∃ t, s.uvReadStop written = some t ∧ Balanced t processed ∧ t.reading = false ∧
      t.closing = s.closing ∧ t.closed = s.closed ∧ t.frames = s.frames := by
  unfold TtyRead.uvReadStop
  split_ifs with hreading
  · obtain ⟨c, ht, hstopped⟩ := h.uvTtyReadStop written hreading
    exact ⟨_, ht, hstopped, rfl, rfl, rfl, rfl⟩
  · exact ⟨s, rfl, h, eq_false_of_ne_true hreading, rfl, rfl, rfl⟩

theorem uvTtyClose (h : Balanced s 0) (written : Bool) (hclosing : s.closing = false) :
    ∃ t, s.uvTtyClose written = some t ∧ Balanced t 0 ∧ t.closing = true ∧ t.closed = false := by
  obtain ⟨u, hu, hstopped, hreading, hsame, hsameClosed, -⟩ := h.uvReadStop written
  have hopen : u.closed = false := hsameClosed.trans (h.not_closed hclosing)
  unfold TtyRead.uvTtyClose
  rw [hu, bind_eq_bind, bind_some, if_neg (by simp [hsame, hclosing])]
  exact ⟨_, rfl, { hstopped with
    closing := fun _ => ⟨hreading, rfl⟩
    endgame := by
      intro _ _ hnone
      change (u.endgameQueued || u.reqsPending == 0) = true
      rw [show u.reqsPending = 0 from hnone]
      exact Bool.or_true _
    closed := fun habs => by cases hopen.symm.trans habs }, rfl, hopen⟩

theorem uvTtySetMode {written modeSet : Bool} (h : Balanced s 0) (hclosing : s.closing = false)
    (hkey : s.reading = true → modeSet = true → s.readPending = false → s.lastKeyLen = 0) :
    ∃ t, s.uvTtySetMode written modeSet registered = some t ∧ Balanced t 0 := by
  have hmode : ∀ {u : TtyRead} {raw : Bool}, Balanced u 0 → Balanced { u with raw } 0 :=
    fun hu => { hu with }
  unfold TtyRead.uvTtySetMode
  by_cases hreading : s.reading = true
  · obtain ⟨c, ht, hstopped⟩ := h.uvTtyReadStop written hreading
    rw [if_pos hreading, ht, bind_eq_bind, bind_some]
    split_ifs with hfails
    · exact ⟨_, rfl, hstopped⟩
    · exact uvTtyReadStart (hmode hstopped) rfl hclosing
        (hkey hreading (eq_true_of_ne_false (not_or.mp hfails).2))
  · rw [if_neg hreading]
    split_ifs
    · exact ⟨_, rfl, hmode h⟩
    · exact ⟨_, rfl, h⟩

theorem uvTtyEndgame (h : Balanced s 0) (hqueued : s.endgameQueued = true) (hidle : s.frames = []) :
    ∃ t, s.uvTtyEndgame = some t ∧ Balanced t 0 := by
  have hopen : s.closed = false := by
    by_contra hset
    cases hqueued.symm.trans (h.closed (eq_true_of_ne_false hset)).2.1
  unfold TtyRead.uvTtyEndgame
  dsimp only
  split_ifs with hdone hassert
  · have hreqs := h.reqs
    rcases hassert with hwait | hclosed
    · have hwaits := h.rawWait hwait
      have hout : s.readReq.outstanding = 0 := by omega
      change s.readReq.waits + s.readReq.threads + s.readReq.queued = 0 at hout
      omega
    · cases hopen.symm.trans hclosed
  · exact ⟨_, rfl, { h with
      endgame := nofun
      closed := fun _ => ⟨hdone.1, rfl, hdone.2, hidle⟩ }⟩
  · exact ⟨_, rfl, { h with
      endgame := fun hclosing _ hnone => absurd ⟨hclosing, hnone⟩ hdone
      closed := fun habs => by cases hopen.symm.trans habs }⟩

/-! ### Processing -/

theorem out (h : Balanced s 1) : ∃ t, s.out registered = some t ∧ Balanced t 0 := by
  unfold TtyRead.out
  split_ifs with hqueue
  · exact uvTtyQueueRead true h hqueue.1 hqueue.2
  · exact h.decreasePending

theorem endReading (h : Balanced s 1) (hreading : s.reading = true) :
    ∃ t, s.endReading = some t ∧ Balanced t 0 := by
  obtain ⟨heq, hstopped⟩ := h.stopped hreading s.cancellationPending
  unfold TtyRead.endReading
  rw [heq]
  exact ⟨_, rfl, enter .last hstopped h.open_of_processing⟩

theorem taken (h : Balanced s 0) (lineBuffer : ℕ) (hqueued : 0 < s.readReq.queued) :
    Balanced { s with readReq := s.readReq.take, readPending := false, lineBuffer } 1 := by
  have hout := h.pending
  have hreqs := h.reqs
  change s.readReq.waits + s.readReq.threads + s.readReq.queued = _ at hout
  change s.reqsPending =
    s.readReq.waits + s.readReq.threads + s.readReq.queued + s.processing + 0 at hreqs
  split_ifs at hout with hpending
  · exact { h with
      pending := by
        change s.readReq.waits + s.readReq.threads + (s.readReq.queued - 1) = 0
        omega
      reqs := by
        change s.reqsPending =
          s.readReq.waits + s.readReq.threads + (s.readReq.queued - 1) + s.processing + 1
        omega }
  · omega

theorem uvProcessTtyReadReq {count : Option ℕ} (h : Balanced s 0) (hqueued : 0 < s.readReq.queued)
    (hcareful : s.lineBuffer = 0 → s.reading = true → s.raw = true → s.readReq.failed = false) :
    ∃ t, s.uvProcessTtyReadReq count registered = some t ∧ Balanced t 0 := by
  have htaken := h.taken s.lineBuffer hqueued
  unfold TtyRead.uvProcessTtyReadReq
  by_cases hraw : s.lineBuffer = 0
  · rw [if_pos hraw]
    unfold uvProcessTtyReadRawReq
    dsimp only
    split_ifs with hstopped hfailed
    · exact htaken.out
    · obtain ⟨hreading, hmode⟩ := not_or.mp hstopped
      have hsucceeded :=
        hcareful hraw (eq_true_of_ne_false hreading) (eq_true_of_ne_false hmode)
      cases hsucceeded.symm.trans hfailed
    · cases count with
      | none => exact htaken.endReading (eq_true_of_ne_false (not_or.mp hstopped).1)
      | some recordsLeft =>
        exact ⟨_, rfl, enter (.rawLoop recordsLeft 0 0) htaken htaken.open_of_processing⟩
  · rw [if_neg hraw]
    have hline := h.taken 0 hqueued
    unfold uvProcessTtyReadLineReq
    dsimp only
    split_ifs with hfailed hreading
    · exact hline.endReading hreading
    · exact ⟨_, rfl, enter .last hline hline.open_of_processing⟩
    · have hcleared : Balanced { s with
          readReq := s.readReq.take
          readPending := false
          lineBuffer := 0
          cancellationPending := false } 1 := { hline with }
      exact ⟨_, rfl, enter .last hcleared hline.open_of_processing⟩

theorem setKey (h : Balanced s processed) (len offset repeatCount : ℕ) :
    Balanced { s with lastKeyLen := len, lastKeyOffset := offset, repeatCount } processed :=
  { h with }

theorem copyByte (h : Balanced s 1) (recordsLeft bufUsed bufLen : ℕ) :
    Balanced (s.copyByte recordsLeft bufUsed bufLen) 0 := by
  have hcopied := h.setKey s.lastKeyLen (s.lastKeyOffset + 1) s.repeatCount
  have hopen := h.open_of_processing
  unfold TtyRead.copyByte
  dsimp only
  split_ifs
  · exact enter (.rawFull recordsLeft) hcopied hopen
  · exact enter (.rawLoop recordsLeft (bufUsed + 1) bufLen) hcopied hopen

theorem rawRound {recordsLeft bufUsed bufLen : ℕ} {record : InputRecord} (h : Balanced s 1) :
    ∃ t, s.rawRound recordsLeft bufUsed bufLen record registered = some t ∧ Balanced t 0 := by
  have hopen := h.open_of_processing
  unfold TtyRead.rawRound
  split_ifs with hover hused hkey hoffset hempty
  · exact ⟨_, rfl, enter .last h hopen⟩
  · exact h.out
  · have hreading : s.reading = true := eq_true_of_ne_false (not_or.mp hover).2
    cases record with
    | unread => exact h.endReading hreading
    | skipped =>
      exact ⟨_, rfl, enter (.rawLoop (recordsLeft - 1) bufUsed bufLen) h hopen⟩
    | unconverted => exact h.endReading hreading
    | key len repeatCount =>
      have hpressed := h.setKey len 0 repeatCount
      exact ⟨_, rfl, enter (.rawLoop (recordsLeft - 1) bufUsed bufLen) hpressed hopen⟩
  · exact ⟨_, rfl, enter (.rawAlloc recordsLeft) h hopen⟩
  · exact ⟨_, rfl, h.copyByte recordsLeft bufUsed bufLen⟩
  · exact ⟨_, rfl, enter (.rawLoop recordsLeft bufUsed bufLen) (h.setKey _ _ _) hopen⟩

theorem round {record : InputRecord} (h : Balanced s 0) (hruns : s.runs = true) :
    ∃ t, s.round record registered = some t ∧ Balanced t 0 := by
  unfold runs at hruns
  unfold TtyRead.round
  cases hframes : s.frames with
  | nil => simp [hframes] at hruns
  | cons frame frames =>
    obtain ⟨hleft, -⟩ := h.leave hframes
    cases frame <;> simp only [hframes, List.head?_cons, false_eq_true] at hruns
    case rawLoop => exact hleft.rawRound

theorem buffered {base spawned : Bool} {len : ℕ} (h : Balanced s 0) (halloc : s.allocates = true)
    (hcareful : s.queuesLine = true → base = true → len ≠ 0 → s.readPending = false) :
    ∃ t, s.buffered base len spawned = some t ∧ Balanced t 0 := by
  unfold allocates at halloc
  unfold TtyRead.buffered
  cases hframes : s.frames with
  | nil => simp [hframes] at halloc
  | cons frame frames =>
    obtain ⟨hleft, hopen⟩ := h.leave hframes
    cases frame <;> simp only [hframes, List.head?_cons, false_eq_true] at halloc
    case rawAlloc recordsLeft =>
      dsimp only
      split_ifs
      · exact ⟨_, rfl, enter .last hleft hopen⟩
      · exact ⟨_, rfl, hleft.copyByte recordsLeft 0 len⟩
    case lineAlloc processing =>
      have hgiven : Balanced { s with frames, lineBuffer := len } processing.toNat := { hleft with }
      dsimp only
      split_ifs with hrefused
      · exact ⟨_, rfl, enter (.lineNobufs processing) hgiven hopen⟩
      · obtain ⟨hbase, hlen⟩ := not_or.mp hrefused
        have hqueues : s.queuesLine = true := by
          unfold queuesLine
          rw [hframes]
          rfl
        have hpending := hcareful hqueues (eq_true_of_ne_false hbase) hlen
        have hnone := h.none_out hpending
        have hwait : s.rawWait = true → 0 < (if spawned then s.readReq.spawn
            else s.readReq.insert true).waits := by
          intro habs
          have hwaits := h.rawWait habs
          split_ifs
          · exact hwaits
          · exact hwaits
        apply afterQueue
        apply hgiven.submitted hpending hopen _ hwait
        split_ifs
        · exact outstanding_spawn hnone
        · exact outstanding_insert hnone

theorem returned (h : Balanced s 0) (hreads : s.reads = true) :
    ∃ t, s.returned registered = some t ∧ Balanced t 0 := by
  unfold reads at hreads
  unfold TtyRead.returned
  cases hframes : s.frames with
  | nil => simp [hframes] at hreads
  | cons frame frames =>
    obtain ⟨hleft, hopen⟩ := h.leave hframes
    cases frame <;> simp only [hframes, List.head?_cons, false_eq_true] at hreads
    case rawFull recordsLeft => exact ⟨_, rfl, enter (.rawLoop recordsLeft 0 0) hleft hopen⟩
    case last => exact hleft.out
    case lineNobufs processing => exact hleft.afterQueue

/-! ### Every run -/

theorem arrived {r : TtyReadReq} {rawWait : Bool} (h : Balanced s 0)
    (hout : r.outstanding = s.readReq.outstanding) (hwait : rawWait = true → 0 < r.waits) :
    Balanced { s with rawWait, readReq := r } 0 := { h with
  pending := hout.trans h.pending
  reqs := by
    change s.reqsPending = r.outstanding + s.processing + 0
    rw [hout]
    exact h.reqs
  rawWait := hwait }

theorem next (h : Balanced s 0) (henabled : s.Enabled e) (hcareful : Careful s e) :
    ∃ t, s.next e = some t ∧ Balanced t 0 := by
  cases e with
  | signalled =>
    have hwaits : 0 < s.readReq.waits := henabled
    refine ⟨_, rfl, h.arrived ?_ nofun⟩
    change s.readReq.waits - 1 + s.readReq.threads + (s.readReq.queued + 1) =
      s.readReq.waits + s.readReq.threads + s.readReq.queued
    omega
  | lineRead failed =>
    have hthreads : 0 < s.readReq.threads := henabled
    refine ⟨_, rfl, h.arrived ?_ h.rawWait⟩
    change s.readReq.waits + (s.readReq.threads - 1) + (s.readReq.queued + 1) =
      s.readReq.waits + s.readReq.threads + s.readReq.queued
    omega
  | process count registered => exact h.uvProcessTtyReadReq henabled.2 hcareful
  | endgame => exact h.uvTtyEndgame henabled.2 henabled.1
  | round record registered => exact h.round henabled
  | buffer base len spawned => exact h.buffered henabled hcareful
  | returned registered => exact h.returned henabled
  | readStart registered => exact h.uvReadStart hcareful
  | readStop written =>
    obtain ⟨t, ht, hstopped, -⟩ := h.uvReadStop written
    exact ⟨t, ht, hstopped⟩
  | setMode written modeSet registered => exact h.uvTtySetMode henabled.2 hcareful
  | close written =>
    obtain ⟨t, ht, hclosed, -⟩ := h.uvTtyClose written henabled.2
    exact ⟨t, ht, hclosed⟩

theorem init (h : Init s) : Balanced s 0 := by
  constructor
  · rw [h.readReq, h.readPending]
    rfl
  · rw [h.reqsPending, h.readReq, processing, h.frames]
    rfl
  · rw [h.activecnt, h.reading]
    rfl
  · intro habs
    cases h.closing.symm.trans habs
  · intro habs
    cases h.closing.symm.trans habs
  · intro habs
    cases h.closed.symm.trans habs
  · intro habs
    cases h.rawWait.symm.trans habs

theorem of_reachable (h : Reachable Init (Guarded Careful Step) s) : Balanced s 0 :=
  h.invariant_of_guarded (fun _ => init) fun _ _ => next

end Balanced

/-! ### Closing -/

/-- The steps that are left to a frame of a handle that no longer reads. -/
def frameWork : TtyFrame → ℕ
  | .rawLoop _ _ _ => 3
  | .rawAlloc _ => 3
  | .rawFull _ => 4
  | .last => 2
  | .lineAlloc _ => 3
  | .lineNobufs _ => 2

def work (s : TtyRead) : ℕ :=
  (s.frames.map frameWork).sum + 5 * (s.readReq.waits + s.readReq.threads) +
    4 * s.readReq.queued + s.endgameQueued.toNat

/-- `t` is closing as `s` is, with less to do. -/
structure Advances (s t : TtyRead) : Prop where
  closing : t.closing = s.closing
  less : t.work < s.work

theorem work_frames (hframes : s.frames = frame :: frames) :
    s.work = ({ s with frames } : TtyRead).work + frameWork frame := by
  unfold work
  rw [hframes, map_cons, sum_cons]
  dsimp only
  omega

theorem work_enter (frame : TtyFrame) : (s.enter frame).work = s.work + frameWork frame :=
  work_frames rfl

theorem work_decreasePending (ht : s.decreasePending = some t) :
    t.closing = s.closing ∧ t.work ≤ s.work + 1 := by
  unfold decreasePending at ht
  rw [ite_none_left_eq_some] at ht
  cases ht.2
  constructor
  · rfl
  · have hle := toNat_le (s.endgameQueued || (s.closing && s.reqsPending == 1))
    unfold work
    dsimp only
    omega

theorem work_out (ht : s.out registered = some t) (hreading : s.reading = false) :
    t.closing = s.closing ∧ t.work ≤ s.work + 1 := by
  have heq : s.out registered = s.decreasePending :=
    if_neg fun habs => by cases hreading.symm.trans habs.1
  exact work_decreasePending (heq.symm.trans ht)

theorem Advances.returned (hframes : s.frames = frame :: frames) (hreading : s.reading = false)
    (hreads : s.reads = true) (ht : s.returned registered = some t) : Advances s t := by
  have hwork := work_frames hframes
  unfold TtyRead.returned at ht
  unfold reads at hreads
  rw [hframes] at ht hreads
  cases frame <;> simp only [List.head?_cons, false_eq_true] at hreads
  case rawFull recordsLeft =>
    cases ht
    constructor
    · rfl
    · rw [work_enter, hwork]
      exact Nat.add_lt_add_left (lt_succ_self 3) _
  case last =>
    obtain ⟨hclosing, hle⟩ := work_out ht hreading
    exact ⟨hclosing, hwork ▸ lt_succ_of_le hle⟩
  case lineNobufs processing =>
    dsimp only [TtyRead.afterQueue] at ht
    cases processing with
    | false =>
      cases ht
      exact ⟨rfl, hwork ▸ Nat.lt_add_of_pos_right Nat.two_pos⟩
    | true =>
      obtain ⟨hclosing, hle⟩ := work_decreasePending ht
      exact ⟨hclosing, hwork ▸ lt_succ_of_le hle⟩

theorem Advances.buffered (hframes : s.frames = frame :: frames) (halloc : s.allocates = true)
    (ht : s.buffered false 0 false = some t) : Advances s t := by
  have hwork := work_frames hframes
  unfold TtyRead.buffered at ht
  unfold allocates at halloc
  rw [hframes] at ht halloc
  cases frame <;> simp only [List.head?_cons, false_eq_true] at halloc
  case rawAlloc recordsLeft =>
    cases ht
    constructor
    · rfl
    · rw [work_enter, hwork]
      exact Nat.add_lt_add_left (lt_succ_self 2) _
  case lineAlloc processing =>
    cases ht
    constructor
    · rfl
    · rw [work_enter, hwork]
      exact Nat.add_lt_add_left (lt_succ_self 2) _

theorem Advances.round {record : InputRecord}
    (hframes : s.frames = frame :: frames) (hreading : s.reading = false) (hruns : s.runs = true)
    (ht : s.round record registered = some t) : Advances s t := by
  have hwork := work_frames hframes
  unfold TtyRead.round at ht
  unfold runs at hruns
  rw [hframes] at ht hruns
  cases frame <;> simp only [List.head?_cons, false_eq_true] at hruns
  case rawLoop recordsLeft bufUsed bufLen =>
    dsimp only at ht
    unfold rawRound at ht
    rw [if_pos (.inr hreading)] at ht
    split_ifs at ht
    · cases ht
      constructor
      · rfl
      · rw [work_enter, hwork]
        exact Nat.add_lt_add_left (lt_succ_self 2) _
    · obtain ⟨hclosing, hle⟩ := work_out ht hreading
      refine ⟨hclosing, ?_⟩
      rw [hwork]
      exact Nat.lt_of_le_of_lt hle (Nat.add_lt_add_left (Nat.lt_of_sub_pos Nat.two_pos) _)

theorem Advances.process {count : Option ℕ} (hreading : s.reading = false)
    (hqueued : 0 < s.readReq.queued) (ht : s.uvProcessTtyReadReq count registered = some t) :
    Advances s t := by
  have htaken : ∀ lineBuffer,
      ({ s with readReq := s.readReq.take, readPending := false, lineBuffer } : TtyRead).work + 4 =
        s.work := by
    intro lineBuffer
    change (s.frames.map frameWork).sum + 5 * (s.readReq.waits + s.readReq.threads) +
        4 * (s.readReq.queued - 1) + s.endgameQueued.toNat + 4 =
      (s.frames.map frameWork).sum + 5 * (s.readReq.waits + s.readReq.threads) +
        4 * s.readReq.queued + s.endgameQueued.toNat
    omega
  unfold uvProcessTtyReadReq at ht
  dsimp only at ht
  split_ifs at ht with hraw
  · unfold uvProcessTtyReadRawReq at ht
    dsimp only at ht
    rw [if_pos (.inl hreading)] at ht
    obtain ⟨hclosing, hle⟩ := work_out ht hreading
    have heq := htaken s.lineBuffer
    exact ⟨hclosing, by omega⟩
  · have heq := htaken 0
    unfold uvProcessTtyReadLineReq at ht
    dsimp only at ht
    split_ifs at ht with hfailed hset
    · cases hreading.symm.trans hset
    · cases ht
      refine ⟨rfl, ?_⟩
      rw [work_enter, ← heq]
      exact Nat.add_lt_add_left (by decide) _
    · cases ht
      refine ⟨rfl, ?_⟩
      rw [work_enter, ← heq]
      exact Nat.add_lt_add_left (by decide) _

theorem step_of_next (henabled : s.Enabled e) (ht : s.next e = some t) : Step s e t :=
  (if_pos henabled).trans ht

/-- A handle that closes is closed by its next step, or has less to do after it. -/
theorem Balanced.advances (h : Balanced s 0) (hclosing : s.closing = true)
    (hopen : s.closed = false) :
    ∃ e t, Step s e t ∧ Balanced t 0 ∧ (t.closed = true ∨ Advances s t) := by
  have hreading := (h.closing hclosing).1
  have hgo : ∀ e, s.Enabled e → Careful s e →
      (∀ t, s.next e = some t → t.closed = true ∨ Advances s t) →
      ∃ e t, Step s e t ∧ Balanced t 0 ∧ (t.closed = true ∨ Advances s t) := by
    intro e henabled hcareful hless
    obtain ⟨t, ht, hbalanced⟩ := h.next henabled hcareful
    exact ⟨e, t, step_of_next henabled ht, hbalanced, hless t ht⟩
  cases hframes : s.frames with
  | cons frame frames =>
    have hhead : s.runs = true ∨ s.allocates = true ∨ s.reads = true := by
      unfold runs allocates reads
      rw [hframes]
      cases frame <;> simp
    rcases hhead with hruns | halloc | hreads
    · exact hgo (.round .skipped false) hruns trivial
        fun t ht => .inr (.round hframes hreading hruns ht)
    · exact hgo (.buffer false 0 false) halloc nofun
        fun t ht => .inr (.buffered hframes halloc ht)
    · exact hgo (.returned false) hreads trivial
        fun t ht => .inr (.returned hframes hreading hreads ht)
  | nil =>
    by_cases hwaits : 0 < s.readReq.waits
    · apply hgo .signalled hwaits trivial
      intro t ht
      cases ht
      refine .inr ⟨rfl, ?_⟩
      unfold work
      dsimp only [TtyReadReq.signalled]
      omega
    by_cases hthreads : 0 < s.readReq.threads
    · apply hgo (.lineRead false) hthreads trivial
      intro t ht
      cases ht
      refine .inr ⟨rfl, ?_⟩
      unfold work
      dsimp only [TtyReadReq.lineRead]
      omega
    by_cases hqueued : 0 < s.readReq.queued
    · apply hgo (.process none false) ⟨hframes, hqueued⟩
      · intro _ habs
        cases hreading.symm.trans habs
      · exact fun t ht => .inr (.process hreading hqueued ht)
    -- Nothing is out: the handle is in the list for the endgame.
    have hnone : s.reqsPending = 0 := by
      have hreqs := h.reqs
      rw [processing, hframes] at hreqs
      change s.reqsPending = s.readReq.waits + s.readReq.threads + s.readReq.queued + 0 + 0 at hreqs
      omega
    apply hgo .endgame ⟨hframes, h.endgame hclosing hopen hnone⟩ trivial
    intro t ht
    change s.uvTtyEndgame = some t at ht
    unfold TtyRead.uvTtyEndgame at ht
    dsimp only at ht
    rw [if_pos ⟨hclosing, hnone⟩, ite_none_left_eq_some] at ht
    cases ht.2
    exact .inl rfl

theorem Balanced.closes (n : ℕ) : ∀ {s : TtyRead}, s.work = n → Balanced s 0 → s.closing = true →
    ∃ es t, Run Step s es t ∧ t.closed = true := by
  induction n using Nat.strongRecOn with
  | ind n ih =>
    intro s hn h hclosing
    by_cases hclosed : s.closed = true
    · exact ⟨[], s, .nil s, hclosed⟩
    · obtain ⟨e, t, hst, hbalanced, hdone | hadvances⟩ :=
        h.advances hclosing (eq_false_of_ne_true hclosed)
      · exact ⟨[e], t, .cons hst (.nil t), hdone⟩
      · obtain ⟨es, u, hrun, hu⟩ := ih t.work (hn ▸ hadvances.less) rfl hbalanced
          (hadvances.closing.trans hclosing)
        exact ⟨e :: es, u, .cons hst hrun, hu⟩

/-- The request is out once at most, the flag says whether it is out, both counters count what they
are for, no assertion fails, and the handle can be closed from every callback and outside of all. -/
theorem ttyRead_balanced (h : Reachable Init (Guarded Careful Step) s) :
    s.readReq.outstanding ≤ 1 ∧ (s.readPending = true ↔ s.readReq.outstanding = 1) ∧
    s.reqsPending = s.readReq.outstanding + s.processing ∧
    s.activecnt = (if s.reading then 1 else 0) ∧
    (∀ e, s.Enabled e → Careful s e → ∃ t, s.next e = some t) ∧
    (s.closing = true ∨ s.runs = false → ∃ es t, Run Step s es t ∧ t.closed = true) := by
  have hs := Balanced.of_reachable h
  have hpending := hs.pending
  refine ⟨?_, ?_, hs.reqs, hs.active, fun e henabled hcareful => ?_, fun hcan => ?_⟩
  · split_ifs at hpending <;> omega
  · split_ifs at hpending with hset
    · exact iff_of_true hset hpending
    · exact iff_of_false hset (hpending ▸ Nat.zero_ne_one)
  · obtain ⟨t, ht, -⟩ := hs.next henabled hcareful
    exact ⟨t, ht⟩
  · by_cases hclosing : s.closing = true
    · exact hs.closes s.work rfl hclosing
    · have hopen := eq_false_of_ne_true hclosing
      have henabled : s.Enabled (.close true) := ⟨hcan.resolve_left hclosing, hopen⟩
      obtain ⟨t, ht, hbalanced, hset, -⟩ := hs.uvTtyClose true hopen
      obtain ⟨es, u, hrun, hu⟩ := hbalanced.closes t.work rfl hset
      exact ⟨.close true :: es, u, .cons (step_of_next henabled ht) hrun, hu⟩

/-- A console in raw mode. -/
def console : TtyRead where
  reading := false
  readPending := false
  raw := true
  readable := true
  cancellationPending := false
  closing := false
  closed := false
  endgameQueued := false
  activecnt := 0
  reqsPending := 0
  lineBuffer := 0
  lastKeyLen := 0
  lastKeyOffset := 0
  repeatCount := 0
  rawWait := false
  readReq := ⟨0, 0, 0, false⟩
  frames := []

theorem console_init : Init console :=
  ⟨rfl, rfl, rfl, rfl, rfl, rfl, rfl, rfl, rfl, rfl, rfl, rfl, rfl⟩

/-- A key arrives, reading is stopped and started again in its `read_cb`, then the handle reads a
line, which is cancelled by closing. -/
def pressedRun : Option TtyRead :=
  [Event.readStart true, .signalled, .process (some 1) true, .round (.key 2 1) true,
    .round .skipped true, .buffer true 100 true, .round .skipped true, .round .skipped true,
    .round .skipped true, .readStop true, .readStart true, .returned true,
    .setMode true true true, .signalled, .process none true, .buffer true 80 true,
    .close true].foldlM
    (fun s e => if Careful s e then s.step e else none) console

theorem pressedRun_isSome : pressedRun.isSome = true := by
  rfl

theorem ttyRead_balanced_pressed :
    (pressedRun.get pressedRun_isSome).readReq.outstanding ≤ 1 := by
  have hrun : Reachable Init (Guarded Careful Step) (pressedRun.get pressedRun_isSome) :=
    .of_foldlM_if (.init console_init) (Option.some_get pressedRun_isSome).symm
  exact (ttyRead_balanced hrun).1

/-- Reading is stopped when the first byte of a key is delivered, and started again. -/
def halfRun : Option TtyRead :=
  [Event.readStart true, .signalled, .process (some 1) true, .round (.key 3 1) true,
    .round .skipped true, .buffer true 1 true, .readStop true, .returned true,
    .round .skipped true, .readStart true].foldlM step console

theorem halfRun_isSome : halfRun.isSome = true := by
  rfl

def stoppedRun : Option TtyRead := halfRun.bind (·.step (.readStop true))

theorem stoppedRun_isSome : stoppedRun.isSome = true := by
  rfl

def unregisteredRun : Option TtyRead :=
  [Event.readStart false, .process none true].foldlM step console

theorem unregisteredRun_isSome : unregisteredRun.isSome = true := by
  rfl

/-- The request is in the pending queue without being counted, its processing fails an assertion,
and a handle that does not read is active. -/
theorem request_uncounted :
    (∃ s, Reachable Init Step s ∧ s.readReq.outstanding = 1 ∧ s.readPending = false ∧
      s.reqsPending = 0) ∧
    (∃ s e, Reachable Init Step s ∧ s.Enabled e ∧ s.next e = none) ∧
    ∃ s, Reachable Init Step s ∧ s.reading = false ∧ s.activecnt = 1 := by
  have hhalf : Reachable Init Step (halfRun.get halfRun_isSome) :=
    .of_foldlM (.init console_init) (Option.some_get halfRun_isSome).symm
  have hstopped : Step (halfRun.get halfRun_isSome) (.readStop true)
      (stoppedRun.get stoppedRun_isSome) := by
    unfold Step
    decide
  refine ⟨⟨_, hhalf, by decide⟩, ?_, ?_⟩
  · exact ⟨_, .process none true, .step _ hhalf hstopped, by decide, by decide⟩
  · refine ⟨unregisteredRun.get unregisteredRun_isSome, ?_, by decide⟩
    exact .of_foldlM (.init console_init) (Option.some_get unregisteredRun_isSome).symm

end LibuvWorks.Win.TtyRead
