import LibuvWorks.Lib.Blocks
import LibuvWorks.Lib.Transition

/-!
# The bytes of the signal pipe

`uv__signal_event` of `unix/signal.c` as it reads bytes: a call of `read` can end anywhere, also in
a message. The handler writes its messages whole, from any thread and at any time at which no
other code has the lock of the signals.
-/
namespace LibuvWorks.Unix

open List Option
open Function (update update_self update_of_ne)
open Transition

/-- `uv__signal_msg_t`, where a pointer has 64 bits and an `int` 32. -/
structure SignalPacket where
  handle : UInt64
  signum : UInt32

namespace SignalPacket

def toBytes (m : SignalPacket) : List UInt8 :=
  LittleEndian.toBytes 8 m.handle.toNat ++ LittleEndian.toBytes 4 m.signum.toNat ++ [0, 0, 0, 0]

def ofBytes (bs : List UInt8) : SignalPacket where
  handle := UInt64.ofNat (LittleEndian.ofBytes (bs.take 8))
  signum := UInt32.ofNat (LittleEndian.ofBytes ((bs.drop 8).take 4))

theorem ofBytes_toBytes (m : SignalPacket) : ofBytes m.toBytes = m := by
  have hhandle : m.toBytes.take 8 = LittleEndian.toBytes 8 m.handle.toNat := rfl
  have hsignum : (m.toBytes.drop 8).take 4 = LittleEndian.toBytes 4 m.signum.toNat := rfl
  rw [ofBytes, hhandle, hsignum, LittleEndian.ofBytes_toBytes m.handle.toNat_lt,
    LittleEndian.ofBytes_toBytes m.signum.toNat_lt, UInt64.ofNat_toNat, UInt32.ofNat_toNat]

/-- How a message is in memory. -/
def format : BlockFormat SignalPacket UInt8 where
  size := 16
  pos := by decide
  encode := toBytes
  decode := ofBytes
  length_encode _ := rfl
  decode_encode := ofBytes_toBytes

end SignalPacket

/-- The fields of `uv_signal_t` that are about messages. -/
structure PipedSignal where
  signum : UInt32
  caughtSignals : UInt32
  dispatchedSignals : UInt32
  closing : Bool

/-- Where the thread of the loop is: in the code of the program, before `read`, in the inner loop
of `uv__signal_event`, or in a callback. -/
inductive SignalPlace where
  | user
  | reading
  | dispatching (i : ℕ)
  | callback (i : ℕ)
  deriving DecidableEq

namespace SignalPlace

def isDispatching : SignalPlace → Bool
  | .dispatching _ => true
  | _ => false

def isCallback : SignalPlace → Bool
  | .callback _ => true
  | _ => false

end SignalPlace

/-- The pipe of a loop, and what `uv__signal_event` has read. `buf` has the `bytes` bytes of its
buffer that count, `endBytes` is its `end`, and `uncounted` is the handle whose message is written
and not counted. The last fields are the messages written, those dispatched, the lengths
of what `read` has returned, and what was in the buffer when the function returned. -/
structure SignalPipe where
  handle : UInt64 → PipedSignal
  pipe : List UInt8
  uncounted : Option UInt64
  place : SignalPlace
  buf : List UInt8
  endBytes : ℕ
  closingHandles : List UInt64
  written : List SignalPacket
  dispatched : List SignalPacket
  reads : List ℕ
  lost : List UInt8

/-- What can happen. The lock is free when a handle is changed or a handler begins. -/
inductive SignalPipeEvent where
  | handler (h : UInt64)
  | count
  | start (h : UInt64) (signum : UInt32)
  | stop (h : UInt64)
  | close (h : UInt64)
  | event
  | read (n : ℕ)
  | interrupted
  | again
  | dispatch
  | callback

namespace SignalPipe

/-- `sizeof buf` -/
def bufSize : ℕ := SignalPacket.format.size * 32

variable (s : SignalPipe)

def setHandle (h : UInt64) (v : PipedSignal) : SignalPipe :=
  { s with handle := update s.handle h v }

/-! ### `uv__signal_handler` -/

/-- `write` of a message, which is whole. When the pipe is full it does nothing. -/
def uvSignalHandler (h : UInt64) : SignalPipe :=
  let msg : SignalPacket := ⟨h, (s.handle h).signum⟩
  { s with
    pipe := s.pipe ++ SignalPacket.format.encode msg
    uncounted := some h
    written := s.written ++ [msg] }

/-- `handle->caught_signals++` -/
def handlerCount : Option SignalPipe :=
  s.uncounted.map fun h =>
    { s.setHandle h { s.handle h with caughtSignals := (s.handle h).caughtSignals + 1 } with
      uncounted := none }

/-! ### What a program calls -/

def uvSignalStart (h : UInt64) (signum : UInt32) : SignalPipe :=
  s.setHandle h { s.handle h with signum }

def uvSignalStop (h : UInt64) : SignalPipe := s.setHandle h { s.handle h with signum := 0 }

def uvMakeClosePending (h : UInt64) : SignalPipe :=
  { s with closingHandles := h :: s.closingHandles }

def closeIfDispatched (h : UInt64) : SignalPipe :=
  if (s.handle h).closing = true ∧ (s.handle h).caughtSignals = (s.handle h).dispatchedSignals then
    s.uvMakeClosePending h
  else s

def uvClose (h : UInt64) : SignalPipe :=
  (s.setHandle h { s.handle h with signum := 0, closing := true }).closeIfDispatched h

/-! ### `uv__signal_event` -/

def uvSignalEvent : SignalPipe := { s with place := .reading, buf := [], endBytes := 0 }

def uvReturn : SignalPipe := { s with place := .user, buf := [], lost := s.lost ++ s.buf }

/-- `while (end == sizeof buf)`, to which `continue` goes too. -/
def loopCondition : SignalPipe := if s.endBytes = bufSize then { s with place := .reading } else s.uvReturn

/-- `read` has returned a number of bytes. -/
def readBytes (n : ℕ) : SignalPipe :=
  let buf := s.buf ++ s.pipe.take n
  { s with
    pipe := s.pipe.drop n
    place := .dispatching 0
    buf := buf
    endBytes := buf.length / SignalPacket.format.size * SignalPacket.format.size
    reads := s.reads ++ [n] }

/-- `EAGAIN` -/
def readAgain : SignalPipe := if 0 < s.buf.length then s.loopCondition else s.uvReturn

/-- `(uv__signal_msg_t*) (buf + i)` -/
def msg (i : ℕ) : SignalPacket :=
  SignalPacket.format.decode ((s.buf.drop i).take SignalPacket.format.size)

/-- `handle->dispatched_signals++`, and the close that has waited for it. -/
def finishMsg (i : ℕ) : SignalPipe :=
  let h := (s.msg i).handle
  let s := s.setHandle h { s.handle h with dispatchedSignals := (s.handle h).dispatchedSignals + 1 }
  { s with place := .dispatching (i + SignalPacket.format.size) }.closeIfDispatched h

/-- The inner loop up to `signal_cb`; there is no next state when the assertion fails. -/
def dispatchMsg (i : ℕ) : Option SignalPipe :=
  let msg := s.msg i
  let handle := s.handle msg.handle
  let s := { s with dispatched := s.dispatched ++ [msg] }
  if msg.signum = handle.signum then
    if handle.closing = true then none else some { s with place := .callback i }
  else some (s.finishMsg i)

def dispatch (i : ℕ) : Option SignalPipe :=
  if i < s.endBytes then s.dispatchMsg i
  else some { s with buf := s.buf.drop s.endBytes }.loopCondition

def next : SignalPipeEvent → Option SignalPipe
  | .handler h => some (s.uvSignalHandler h)
  | .count => s.handlerCount
  | .start h signum => some (s.uvSignalStart h signum)
  | .stop h => some (s.uvSignalStop h)
  | .close h => some (s.uvClose h)
  | .event => some s.uvSignalEvent
  | .read n => some (s.readBytes n)
  | .interrupted => some s.loopCondition
  | .again => some s.readAgain
  | .dispatch =>
    match s.place with
    | .dispatching i => s.dispatch i
    | _ => none
  | .callback =>
    match s.place with
    | .callback i => some (s.finishMsg i)
    | _ => none

def MayCall : Prop := s.place = .user ∨ s.place.isCallback = true

instance : Decidable s.MayCall := inferInstanceAs (Decidable (_ ∨ _))

/-- The program starts and stops handles that it has not closed, and `read` returns at most what is
in the pipe and what it is offered space for. -/
def Enabled : SignalPipeEvent → Prop
  | .handler h => s.uncounted = none ∧ (s.handle h).signum ≠ 0
  | .count => s.uncounted.isSome = true
  | .start h signum =>
    s.MayCall ∧ s.uncounted = none ∧ (s.handle h).closing = false ∧ signum ≠ 0
  | .stop h => s.MayCall ∧ s.uncounted = none ∧ (s.handle h).closing = false
  | .close h => s.MayCall ∧ s.uncounted = none ∧ (s.handle h).closing = false
  | .event => s.place = .user
  | .read n => s.place = .reading ∧ n ≤ s.pipe.length ∧ n ≤ bufSize - s.buf.length
  | .interrupted => s.place = .reading
  | .again => s.place = .reading
  | .dispatch => s.place.isDispatching = true
  | .callback => s.place.isCallback = true

instance : DecidablePred s.Enabled := fun e => by
  unfold Enabled
  cases e <;> infer_instance

def step (e : SignalPipeEvent) : Option SignalPipe := if s.Enabled e then s.next e else none

abbrev Step (s : SignalPipe) (e : SignalPipeEvent) (t : SignalPipe) : Prop := s.step e = some t

structure Init : Prop where
  pipe : s.pipe = []
  uncounted : s.uncounted = none
  place : s.place = .user
  buf : s.buf = []
  closed : ∀ h, (s.handle h).closing = true → (s.handle h).signum = 0
  written : s.written = []
  dispatched : s.dispatched = []
  reads : s.reads = []
  lost : s.lost = []

/-- The messages are dispatched once each and in order, so that each handle that is looked at is
one that was written; no byte that was read is dropped; and when the function has returned, all that
was read is dispatched. -/
structure Delivered : Prop where
  inOrder : s.dispatched <+: s.written
  kept : s.lost = []
  complete : s.place = .user → SignalPacket.format.encodeAll s.written =
    SignalPacket.format.encodeAll s.dispatched ++ s.pipe

/-- Each `read` has ended between two messages. -/
def Aligned : Prop := ∀ n ∈ s.reads, SignalPacket.format.size ∣ n

/-! ### What every step keeps -/

/-- The bytes of the buffer that no message has been taken from. -/
def pending : List UInt8 :=
  match s.place with
  | .user => s.buf
  | .reading => s.buf
  | .dispatching i => s.buf.drop i
  | .callback i => s.buf.drop (i + SignalPacket.format.size)

def InMessages : Prop := s.place.isDispatching = true ∨ s.place.isCallback = true

/-- As long as each `read` ends between two messages, the buffer and the pipe have whole ones. -/
structure OnTrack : Prop where
  closed : ∀ h, (s.handle h).closing = true → (s.handle h).signum = 0
  signums : ∀ m ∈ s.written, m.signum ≠ 0
  aligned : s.Aligned
  kept : s.lost = []
  rest : ∃ ms ns, s.written = s.dispatched ++ ms ++ ns ∧
    s.pending = SignalPacket.format.encodeAll ms ∧ s.pipe = SignalPacket.format.encodeAll ns
  empty : s.place = .user ∨ s.place = .reading → s.buf = []
  whole : s.InMessages → s.endBytes = s.buf.length

structure Drained : Prop where
  closed : ∀ h, (s.handle h).closing = true → (s.handle h).signum = 0
  signums : ∀ m ∈ s.written, m.signum ≠ 0
  aligned : s.Aligned
  kept : s.lost = []
  rest : ∃ ns, s.written = s.dispatched ++ ns ∧ s.pipe = SignalPacket.format.encodeAll ns
  empty : s.buf = []

/-- After a `read` that has ended in a message, what is left of it is dropped at the end of the
inner loop. -/
structure Spoiled : Prop where
  misaligned : ¬s.Aligned
  partial_lost : s.lost ≠ [] ∨
    s.InMessages ∧ s.endBytes < s.buf.length ∧ s.endBytes ≠ bufSize

variable {s t : SignalPipe} {e : SignalPipeEvent} {i : ℕ}

theorem pending_dispatching (hplace : s.place = .dispatching i) :
    s.pending = s.buf.drop i := by
  rw [pending, hplace]

theorem pending_callback (hplace : s.place = .callback i) :
    s.pending = s.buf.drop (i + SignalPacket.format.size) := by
  rw [pending, hplace]

theorem OnTrack.setHandle {i : UInt64} {v : PipedSignal} (h : s.OnTrack)
    (hv : v.closing = true → v.signum = 0) : (s.setHandle i v).OnTrack := by
  refine { h with closed := fun j hj => ?_ }
  by_cases hji : j = i
  · subst hji
    have hself : (s.setHandle j v).handle j = v := update_self ..
    rw [hself] at hj ⊢
    exact hv hj
  · have hother : (s.setHandle i v).handle j = s.handle j := update_of_ne hji ..
    rw [hother] at hj ⊢
    exact h.closed j hj

theorem OnTrack.closeIfDispatched {i : UInt64} (h : s.OnTrack) :
    (s.closeIfDispatched i).OnTrack := by
  unfold SignalPipe.closeIfDispatched
  split
  · exact { h with }
  · exact h

theorem OnTrack.uvSignalHandler {i : UInt64} (h : s.OnTrack) (hi : (s.handle i).signum ≠ 0) :
    (s.uvSignalHandler i).OnTrack := by
  obtain ⟨ms, ns, hwritten, hpending, hpipe⟩ := h.rest
  refine { h with
    signums := ?_
    rest := ⟨ms, ns ++ [⟨i, (s.handle i).signum⟩], ?_, hpending, ?_⟩ }
  · intro m hm
    obtain hm | hm := mem_append.mp hm
    · exact h.signums m hm
    · rw [mem_singleton.mp hm]
      exact hi
  · exact (congrArg (· ++ _) hwritten).trans (append_assoc ..)
  · rw [BlockFormat.encodeAll_append, ← hpipe, BlockFormat.encodeAll_cons,
      BlockFormat.encodeAll_nil, append_nil]
    rfl

theorem Drained.onTrack (h : s.Drained) (hplace : s.place = .user ∨ s.place = .reading) :
    s.OnTrack := by
  obtain ⟨ns, hwritten, hpipe⟩ := h.rest
  refine { h with rest := ⟨[], ns, ?_, ?_, hpipe⟩, empty := fun _ => h.empty, whole := ?_ }
  · rwa [append_nil]
  · unfold pending
    obtain hplace | hplace := hplace <;> rw [hplace] <;> exact h.empty
  · rintro (habs | habs) <;> obtain hplace | hplace := hplace <;> rw [hplace] at habs <;> cases habs

theorem OnTrack.drained (h : s.OnTrack) (hplace : s.place = .user ∨ s.place = .reading) :
    s.Drained := by
  obtain ⟨ms, ns, hwritten, hpending, hpipe⟩ := h.rest
  have hempty := h.empty hplace
  have hms : ms = [] := by
    have hbuf : s.pending = s.buf := by
      unfold pending
      obtain hplace | hplace := hplace <;> rw [hplace]
    have hlength := congrArg List.length (hpending.symm.trans (hbuf.trans hempty))
    rw [BlockFormat.length_encodeAll, length_nil, Nat.mul_eq_zero] at hlength
    exact eq_nil_of_length_eq_zero (hlength.resolve_right (by decide))
  rw [hms, append_nil] at hwritten
  exact { h with rest := ⟨ns, hwritten, hpipe⟩, empty := hempty }

theorem Drained.uvReturn (h : s.Drained) : s.uvReturn.OnTrack := by
  apply Drained.onTrack _ (.inl rfl)
  refine { h with kept := ?_, empty := rfl }
  exact (congrArg (s.lost ++ ·) h.empty).trans ((append_nil _).trans h.kept)

theorem Drained.loopCondition (h : s.Drained) : s.loopCondition.OnTrack := by
  unfold SignalPipe.loopCondition
  split
  · apply Drained.onTrack _ (.inr rfl)
    exact { h with }
  · exact h.uvReturn

theorem OnTrack.readBytes {n : ℕ} (h : s.OnTrack) (hplace : s.place = .reading)
    (hn : n ≤ s.pipe.length) (haligned : SignalPacket.format.size ∣ n) :
    (s.readBytes n).OnTrack := by
  obtain ⟨k, rfl⟩ := haligned
  have hdrained := h.drained (.inr hplace)
  obtain ⟨ns, hwritten, hpipe⟩ := hdrained.rest
  rw [Nat.mul_comm] at hn ⊢
  have hbuf : s.buf ++ s.pipe.take (k * SignalPacket.format.size) =
      SignalPacket.format.encodeAll (ns.take k) := by
    rw [hdrained.empty, hpipe, BlockFormat.take_encodeAll, nil_append]
  refine ⟨h.closed, h.signums, ?_, h.kept, ⟨ns.take k, ns.drop k, ?_, hbuf, ?_⟩, ?_, fun _ => ?_⟩
  · intro m hm
    obtain hm | hm := mem_append.mp hm
    · exact h.aligned m hm
    · rw [mem_singleton.mp hm]
      exact Nat.dvd_mul_left ..
  · rw [append_assoc, take_append_drop]
    exact hwritten
  · rw [← BlockFormat.drop_encodeAll, ← hpipe]
    rfl
  · rintro (habs | habs) <;> cases habs
  · have hlength : (s.buf ++ s.pipe.take (k * SignalPacket.format.size)).length =
        (ns.take k).length * SignalPacket.format.size := by
      rw [hbuf, BlockFormat.length_encodeAll]
    change _ / _ * _ = _
    rw [hlength, Nat.mul_div_cancel _ SignalPacket.format.pos]
    exact hlength.symm

theorem OnTrack.finishMsg (h : s.OnTrack) (hplace : s.place = .callback i) :
    (s.finishMsg i).OnTrack := by
  have hset : (s.setHandle (s.msg i).handle { s.handle (s.msg i).handle with
      dispatchedSignals := (s.handle (s.msg i).handle).dispatchedSignals + 1 }).OnTrack :=
    h.setHandle (h.closed (s.msg i).handle)
  obtain ⟨ms, ns, hwritten, hpending, hpipe⟩ := hset.rest
  apply OnTrack.closeIfDispatched
  refine { hset with
    rest := ⟨ms, ns, hwritten, ?_, hpipe⟩
    empty := ?_
    whole := fun _ => h.whole (.inr ?_) }
  · have hbuf : (s.setHandle (s.msg i).handle { s.handle (s.msg i).handle with
        dispatchedSignals := (s.handle (s.msg i).handle).dispatchedSignals + 1 }).pending =
        s.buf.drop (i + SignalPacket.format.size) := pending_callback hplace
    exact hbuf.symm.trans hpending
  · rintro (habs | habs) <;> cases habs
  · rw [hplace]
    rfl

theorem OnTrack.takeMsg (h : s.OnTrack) (hplace : s.place = .dispatching i)
    (hi : i < s.endBytes) : { s with
      dispatched := s.dispatched ++ [s.msg i], place := .callback i : SignalPipe }.OnTrack ∧
      s.msg i ∈ s.written := by
  obtain ⟨ms, ns, hwritten, hpending, hpipe⟩ := h.rest
  have hbuf : s.buf.drop i = SignalPacket.format.encodeAll ms := by
    rw [← hpending, pending_dispatching hplace]
  have hwhole : s.endBytes = s.buf.length := h.whole (.inl (by rw [hplace]; rfl))
  cases ms with
  | nil =>
    have hlength := congrArg List.length hbuf
    rw [length_drop, BlockFormat.encodeAll_nil, length_nil] at hlength
    omega
  | cons m ms =>
    have hmsg : s.msg i = m := by
      rw [msg, hbuf, BlockFormat.encodeAll_cons, BlockFormat.decode_take]
    rw [hmsg]
    refine ⟨{ h with rest := ⟨ms, ns, ?_, ?_, hpipe⟩, empty := ?_, whole := fun _ => hwhole },
      ?_⟩
    · rw [hwritten]
      simp
    · change s.buf.drop (i + SignalPacket.format.size) = _
      rw [← drop_drop, hbuf, BlockFormat.encodeAll_cons,
        ← SignalPacket.format.length_encode m, drop_left]
    · rintro (habs | habs) <;> cases habs
    · rw [hwritten]
      simp

theorem OnTrack.dispatchMsg (h : s.OnTrack) (hplace : s.place = .dispatching i)
    (hi : i < s.endBytes) : ∃ t, s.dispatchMsg i = some t ∧ t.OnTrack := by
  obtain ⟨htaken, hmem⟩ := h.takeMsg hplace hi
  unfold SignalPipe.dispatchMsg
  dsimp only
  split_ifs with hsignum hclosing
  · -- the assertion: a closed handle has no signal
    exact absurd (hsignum.trans (h.closed _ hclosing)) (h.signums _ hmem)
  · exact ⟨_, rfl, htaken⟩
  · exact ⟨_, rfl, htaken.finishMsg rfl⟩

theorem OnTrack.dispatch (h : s.OnTrack) (hplace : s.place = .dispatching i) :
    ∃ t, s.dispatch i = some t ∧ t.OnTrack := by
  unfold SignalPipe.dispatch
  split
  next hi => exact h.dispatchMsg hplace hi
  next hi =>
    have hwhole : s.endBytes = s.buf.length := h.whole (.inl (by rw [hplace]; rfl))
    obtain ⟨ms, ns, hwritten, hpending, hpipe⟩ := h.rest
    have hms : ms = [] := by
      have hlength := congrArg List.length hpending
      rw [pending_dispatching hplace, length_drop, BlockFormat.length_encodeAll] at hlength
      have hzero : ms.length * SignalPacket.format.size = 0 := by omega
      exact eq_nil_of_length_eq_zero ((Nat.mul_eq_zero.mp hzero).resolve_right (by decide))
    rw [hms, append_nil] at hwritten
    refine ⟨_, rfl, Drained.loopCondition { h with rest := ?_, empty := ?_ }⟩
    · exact ⟨ns, hwritten, hpipe⟩
    · exact drop_eq_nil_of_le (Nat.le_of_eq hwhole.symm)

theorem OnTrack.next (h : s.OnTrack) (henabled : s.Enabled e)
    (haligned : ∀ n, e = .read n → SignalPacket.format.size ∣ n) :
    ∃ t, s.next e = some t ∧ t.OnTrack := by
  cases e with
  | handler i => exact ⟨_, rfl, h.uvSignalHandler henabled.2⟩
  | count =>
    obtain ⟨i, hi⟩ := isSome_iff_exists.mp henabled
    have hset := h.setHandle (i := i)
      (v := { s.handle i with caughtSignals := (s.handle i).caughtSignals + 1 }) (h.closed i)
    refine ⟨_, congrArg (Option.map _) hi, ?_⟩
    exact { h with closed := hset.closed }
  | start i signum =>
    refine ⟨_, rfl, h.setHandle fun habs => ?_⟩
    cases henabled.2.2.1.symm.trans habs
  | stop i => exact ⟨_, rfl, h.setHandle fun _ => rfl⟩
  | close i => exact ⟨_, rfl, (h.setHandle fun _ => rfl).closeIfDispatched⟩
  | event =>
    have hdrained := h.drained (.inl henabled)
    refine ⟨_, rfl, Drained.onTrack ?_ (.inr rfl)⟩
    exact { h with rest := hdrained.rest, empty := rfl }
  | read n => exact ⟨_, rfl, h.readBytes henabled.1 henabled.2.1 (haligned n rfl)⟩
  | interrupted => exact ⟨_, rfl, (h.drained (.inr henabled)).loopCondition⟩
  | again =>
    have hdrained := h.drained (.inr henabled)
    refine ⟨_, rfl, ?_⟩
    unfold readAgain
    rw [if_neg (by simp [hdrained.empty])]
    exact hdrained.uvReturn
  | dispatch =>
    cases hplace : s.place with
    | dispatching i =>
      have hnext : s.next .dispatch = s.dispatch i := by rw [SignalPipe.next, hplace]
      rw [hnext]
      exact h.dispatch hplace
    | _ =>
      rw [Enabled, hplace] at henabled
      cases henabled
  | callback =>
    cases hplace : s.place with
    | callback i =>
      have hnext : s.next .callback = some (s.finishMsg i) := by rw [SignalPipe.next, hplace]
      exact ⟨_, hnext, h.finishMsg hplace⟩
    | _ =>
      rw [Enabled, hplace] at henabled
      cases henabled

/-! ### After a `read` that has ended in a message -/

theorem Spoiled.closeIfDispatched {i : UInt64} (h : s.Spoiled) :
    (s.closeIfDispatched i).Spoiled := by
  unfold SignalPipe.closeIfDispatched
  split
  · exact { h with }
  · exact h

theorem Spoiled.uvReturn (hmisaligned : ¬s.Aligned) (hlost : s.lost ≠ [] ∨ s.buf ≠ []) :
    s.uvReturn.Spoiled := by
  refine ⟨hmisaligned, .inl fun habs => ?_⟩
  obtain ⟨hnil, hbuf⟩ := append_eq_nil_iff.mp habs
  exact hlost.elim (absurd hnil) (absurd hbuf)


theorem Spoiled.loopCondition (hmisaligned : ¬s.Aligned)
    (hlost : s.lost ≠ [] ∨ s.buf ≠ [] ∧ s.endBytes ≠ bufSize) : s.loopCondition.Spoiled := by
  unfold SignalPipe.loopCondition
  split
  next hfull =>
    refine ⟨hmisaligned, .inl (hlost.resolve_right fun habs => habs.2 hfull)⟩
  next => exact .uvReturn hmisaligned (hlost.imp id And.left)

theorem Spoiled.finishMsg (h : s.Spoiled) : (s.finishMsg i).Spoiled := by
  apply Spoiled.closeIfDispatched
  refine ⟨h.misaligned, h.partial_lost.imp id fun hpartial => ⟨.inl rfl, hpartial.2⟩⟩

theorem Spoiled.dispatch (h : s.Spoiled) (ht : s.dispatch i = some t) : t.Spoiled := by
  unfold SignalPipe.dispatch at ht
  split at ht
  · unfold SignalPipe.dispatchMsg at ht
    dsimp only at ht
    split_ifs at ht
    · cases ht
      exact ⟨h.misaligned, h.partial_lost.imp id fun hpartial => ⟨.inr rfl, hpartial.2⟩⟩
    · cases ht
      exact Spoiled.finishMsg { h with }
  · cases ht
    refine .loopCondition h.misaligned (h.partial_lost.imp id fun hpartial => ⟨?_, hpartial.2.2⟩)
    exact ne_nil_of_length_pos (by
      rw [length_drop]
      exact Nat.sub_pos_of_lt hpartial.2.1)

theorem Spoiled.next (h : s.Spoiled) (henabled : s.Enabled e) (ht : s.next e = some t) :
    t.Spoiled := by
  have hoff : ¬s.InMessages → s.lost ≠ [] := fun hnot =>
    h.partial_lost.resolve_right fun habs => hnot habs.1
  have hreading : s.place = .reading → s.lost ≠ [] := by
    intro hplace
    apply hoff
    rintro (habs | habs) <;> rw [hplace] at habs <;> cases habs
  cases e with
  | handler i => exact (Option.some.inj ht) ▸ { h with }
  | count =>
    obtain ⟨i, -, rfl⟩ := map_eq_some_iff.mp ht
    exact { h with }
  | start i signum | stop i => exact (Option.some.inj ht) ▸ { h with }
  | close i =>
    cases ht
    exact Spoiled.closeIfDispatched { h with }
  | event =>
    cases ht
    refine ⟨h.misaligned, .inl (hoff ?_)⟩
    rintro (habs | habs) <;> rw [henabled] at habs <;> cases habs
  | read n =>
    cases ht
    refine ⟨fun habs => h.misaligned fun m hm => ?_, .inl (hreading henabled.1)⟩
    exact habs m (mem_append_left _ hm)
  | interrupted =>
    cases ht
    exact .loopCondition h.misaligned (.inl (hreading henabled))
  | again =>
    cases ht
    unfold readAgain
    split
    · exact .loopCondition h.misaligned (.inl (hreading henabled))
    · exact .uvReturn h.misaligned (.inl (hreading henabled))
  | dispatch =>
    cases hplace : s.place with
    | dispatching i =>
      rw [SignalPipe.next, hplace] at ht
      exact h.dispatch ht
    | _ =>
      rw [Enabled, hplace] at henabled
      cases henabled
  | callback =>
    cases hplace : s.place with
    | callback i =>
      rw [SignalPipe.next, hplace] at ht
      cases ht
      exact h.finishMsg
    | _ =>
      rw [Enabled, hplace] at henabled
      cases henabled

theorem OnTrack.readBytes_spoiled {n : ℕ} (h : s.OnTrack) (hplace : s.place = .reading)
    (hn : n ≤ s.pipe.length) (hspace : n ≤ bufSize - s.buf.length)
    (hmisaligned : ¬SignalPacket.format.size ∣ n) : (s.readBytes n).Spoiled := by
  have hempty := (h.drained (.inr hplace)).empty
  have hlength : (s.buf ++ s.pipe.take n).length = n := by
    rw [hempty, nil_append, length_take, Nat.min_eq_left hn]
  refine ⟨fun habs => hmisaligned (habs n (mem_append_right _ mem_cons_self)),
    .inr ⟨.inl rfl, ?_⟩⟩
  change _ / _ * _ < (s.buf ++ s.pipe.take n).length ∧ _ / _ * _ ≠ _
  rw [hlength]
  have hlt : n / SignalPacket.format.size * SignalPacket.format.size < n := by
    refine Nat.lt_of_le_of_ne (Nat.div_mul_le_self ..) fun habs => hmisaligned ?_
    exact ⟨_, habs.symm.trans (Nat.mul_comm ..)⟩
  have hle : n ≤ bufSize := Nat.le_trans hspace (Nat.sub_le ..)
  exact ⟨hlt, Nat.ne_of_lt (Nat.lt_of_lt_of_le hlt hle)⟩

theorem Init.onTrack (h : s.Init) : s.OnTrack := by
  apply Drained.onTrack _ (.inl h.place)
  refine ⟨h.closed, ?_, ?_, h.lost, ⟨[], ?_, h.pipe⟩, h.buf⟩
  · rw [h.written]
    simp
  · rw [Aligned, h.reads]
    simp
  · rw [h.written, h.dispatched, append_nil]

theorem OnTrack.delivered (h : s.OnTrack) : s.Delivered := by
  obtain ⟨ms, ns, hwritten, hpending, hpipe⟩ := h.rest
  refine ⟨⟨ms ++ ns, ?_⟩, h.kept, fun hplace => ?_⟩
  · rw [hwritten, append_assoc]
  · obtain ⟨ns, hwritten, hpipe⟩ := (h.drained (.inl hplace)).rest
    rw [hwritten, BlockFormat.encodeAll_append, hpipe]

/-- A run is on its track up to a `read` that ends in a message, and spoiled after it. -/
theorem Reachable.onTrack_or_spoiled (h : Reachable Init Step s) : s.OnTrack ∨ s.Spoiled := by
  apply h.invariant
  · exact fun s hs => .inl hs.onTrack
  · rintro s e t - hs hst
    obtain ⟨henabled, ht⟩ := ite_none_right_eq_some.mp hst
    obtain hs | hs := hs
    · by_cases haligned : ∀ n, e = .read n → SignalPacket.format.size ∣ n
      · obtain ⟨u, hu, htrack⟩ := hs.next henabled haligned
        cases hu.symm.trans ht
        exact .inl htrack
      · push Not at haligned
        obtain ⟨n, rfl, hn⟩ := haligned
        cases ht
        exact .inr (hs.readBytes_spoiled henabled.1 henabled.2.1 henabled.2.2 hn)
    · exact .inr (hs.next henabled ht)

/-- The messages are dispatched once each, in order and without the loss of a byte, if and only if
no `read` ends in the middle of one. -/
theorem uvSignalEvent_delivers (h : Reachable Init Step s) :
    (s.Aligned → s.Delivered) ∧ (s.place = .user → s.Delivered → s.Aligned) := by
  obtain htrack | hspoiled := Reachable.onTrack_or_spoiled h
  · exact ⟨fun _ => htrack.delivered, fun _ _ => htrack.aligned⟩
  · refine ⟨fun haligned => absurd haligned hspoiled.misaligned, fun hplace hdelivered => ?_⟩
    obtain hlost | ⟨hin | hin, -⟩ := hspoiled.partial_lost
    · exact absurd hdelivered.kept hlost
    · rw [hplace] at hin
      cases hin
    · rw [hplace] at hin
      cases hin

/-! ### Concrete runs -/

def fresh : SignalPipe where
  handle _ := ⟨0, 0, 0, false⟩
  pipe := []
  uncounted := none
  place := .user
  buf := []
  endBytes := 0
  closingHandles := []
  written := []
  dispatched := []
  reads := []
  lost := []

theorem fresh_init : fresh.Init :=
  ⟨rfl, rfl, rfl, rfl, fun _ habs => absurd habs Bool.false_ne_true, rfl, rfl, rfl, rfl⟩

def wholeRun : Option SignalPipe :=
  [SignalPipeEvent.start 64 2, .handler 64, .count, .event, .read 16, .dispatch, .callback,
    .dispatch].foldlM step fresh

theorem wholeRun_isSome : wholeRun.isSome = true := rfl

theorem uvSignalEvent_delivers_whole :
    (wholeRun.get wholeRun_isSome).dispatched = [⟨64, 2⟩] ∧
      (wholeRun.get wholeRun_isSome).Delivered := by
  have hrun : Reachable Init Step (wholeRun.get wholeRun_isSome) :=
    .of_foldlM (.init fresh_init) (Option.some_get wholeRun_isSome).symm
  exact ⟨rfl, (uvSignalEvent_delivers hrun).1 (by unfold Aligned; decide)⟩

/-- Two messages, and a first `read` that ends in the first of them. -/
def brokenRun : Option SignalPipe :=
  [SignalPipeEvent.start 64 2, .handler 64, .count, .handler 64, .count, .event, .read 8, .dispatch,
    .event, .read 24, .dispatch].foldlM step fresh

theorem brokenRun_isSome : brokenRun.isSome = true := rfl

/-- The first eight bytes are dropped, and the number of the signal is then taken for a handle. -/
theorem partial_dropped : Reachable Init Step (brokenRun.get brokenRun_isSome) ∧
    (brokenRun.get brokenRun_isSome).lost.length = 8 ∧
    (brokenRun.get brokenRun_isSome).dispatched = [⟨2, 64⟩] ∧
    ¬(brokenRun.get brokenRun_isSome).Delivered := by
  refine ⟨?_, rfl, rfl, fun h => absurd h.kept (by decide)⟩
  exact .of_foldlM (.init fresh_init) (Option.some_get brokenRun_isSome).symm

end SignalPipe

end LibuvWorks.Unix
