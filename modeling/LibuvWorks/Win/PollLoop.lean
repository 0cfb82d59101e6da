import LibuvWorks.Win.Run
import Mathlib.Data.List.ReduceOption

/-!
# Waiting on the completion port: `uv_poll` and `uv_poll_ex` of `win/core.c`

The loop waits for packets with one of two functions, by whether the system has
`GetQueuedCompletionStatusEx`. Both call the system again when a wait ends too early. A packet is
the request whose overlapped structure it carries, or `none` where `uv__wake_all_loops` has posted
it.
-/
open List Option Nat

namespace LibuvWorks.Win

/-- `uv_poll` and `uv_poll_ex` -/
inductive PollKind where
  | plain : PollKind
  | ex : PollKind

def PollKind.capacity : PollKind → ℕ
  | .plain => 1
  | .ex => 128

/-- How a call fails: `uv_fatal_error`, or in a function of the loop. -/
inductive PollFault where
  | fatalError (errno : UInt32) : PollFault
  | fault (f : Fault) : PollFault

def waitTimeout : UInt32 := 258

structure PortWait where
  timeoutTime : UInt64
  timeout : UInt32
  round : ℕ

structure PortPoll (ι γ : Type*) where
  loop : UvLoop ι γ
  wait : Option PortWait

namespace PortPoll

variable {ι γ : Type*} (s : PortPoll ι γ)

/-- `uv_poll` and `uv_poll_ex` up to their loop. -/
def uvPollEnter (timeout : UInt32) : PortPoll ι γ :=
  { s with wait := some ⟨s.loop.time + timeout.toUInt64, timeout, 0⟩ }

/-- `uv_update_time` -/
def updateTime (now : UInt64) : Except PollFault (PortPoll ι γ) :=
  match uvUpdateTime s.loop now with
  | .ok loop => .ok { s with loop }
  | .error f => .error (.fault f)

/-- `break` -/
def leave : PortPoll ι γ := { s with wait := none }

/-- What is added to the timeout of the round after `round`. -/
def extension (round : ℕ) : UInt32 := if round = 0 then 0 else 1 <<< (UInt32.ofNat (round - 1))

/-- The branch of a wait that has timed out, and the end of the round. -/
def timedOut (w : PortWait) (now : UInt64) : Except PollFault (PortPoll ι γ) :=
  if 0 < w.timeout then do
    let s ← s.updateTime now
    if s.loop.time < w.timeoutTime then
      let timeout := (w.timeoutTime - s.loop.time).toUInt32 + extension w.round
      .ok { s with wait := some { w with timeout, round := w.round + 1 } }
    else .ok s.leave
  else .ok s.leave

/-- The body of the loop of `uv_poll`, after `GetQueuedCompletionStatus` has stored `overlapped`. -/
def uvPollRound (w : PortWait) (overlapped : Option ι) (lastError : UInt32) (now : UInt64) :
    Except PollFault (PortPoll ι γ) :=
  match overlapped with
  | some req => do
    let s ← { s with loop := uvInsertPendingReq s.loop req }.updateTime now
    .ok s.leave
  | none => if lastError ≠ waitTimeout then .error (.fatalError lastError) else s.timedOut w now

/-- The packets of one call of `GetQueuedCompletionStatusEx` are queued. -/
def insertPackets (l : UvLoop ι γ) (overlappeds : List (Option ι)) : UvLoop ι γ :=
  overlappeds.foldl (fun l overlapped =>
    match overlapped with
    | some req => uvInsertPendingReq l req
    | none => l) l

/-- The body of the loop of `uv_poll_ex`; `overlappeds` is null where the call was no success. -/
def uvPollExRound (w : PortWait) (overlappeds : Option (List (Option ι))) (lastError : UInt32)
    (now : UInt64) : Except PollFault (PortPoll ι γ) :=
  match overlappeds with
  | some overlappeds => do
    let s ← { s with loop := insertPackets s.loop overlappeds }.updateTime now
    .ok s.leave
  | none => if lastError ≠ waitTimeout then .error (.fatalError lastError) else s.timedOut w now

/-- The loop is called to poll, the system dequeues packets, or it returns without a packet. After
the call `GetLastError()` is `lastError` and the clock shows `now`. -/
inductive Event (ι : Type*) where
  | call (timeout : UInt32) : Event ι
  | dequeued (packets : List (Option ι)) (lastError : UInt32) (now : UInt64) : Event ι
  | noPacket (lastError : UInt32) (now : UInt64) : Event ι

def Event.packets : Event ι → List (Option ι)
  | .dequeued packets _ _ => packets
  | _ => []

/-- The clock is a signed counter of at least a millisecond, and does not go back. -/
def Shows (now : UInt64) : Prop := s.loop.time ≤ now ∧ now.toNat < 2 ^ 63

instance (now : UInt64) : Decidable (s.Shows now) := inferInstanceAs (Decidable (_ ∧ _))

/-- What the system may do. A wait that times out is at most `early` milliseconds short, and one for
`INFINITE` does not time out. -/
def Enabled (kind : PollKind) (early : ℕ) : Event ι → Prop
  | .call _ => s.wait = none
  | .dequeued packets _ now =>
    s.wait.isSome = true ∧ s.Shows now ∧ packets ≠ [] ∧ packets.length ≤ kind.capacity
  | .noPacket lastError now =>
    s.Shows now ∧
      match s.wait with
      | some w => lastError = waitTimeout → w.timeout.toNat ≠ infinite ∧
          s.loop.time.toNat + w.timeout.toNat ≤ now.toNat + early
      | none => False

instance (kind : PollKind) (early : ℕ) (e : Event ι) : Decidable (s.Enabled kind early e) := by
  cases e with
  | call timeout =>
    unfold Enabled
    infer_instance
  | dequeued packets lastError now =>
    have : Decidable (packets ≠ []) :=
      decidable_of_iff (packets.length ≠ 0) (not_congr List.length_eq_zero_iff)
    unfold Enabled
    infer_instance
  | noPacket lastError now =>
    unfold Enabled
    cases s.wait <;> infer_instance

/-- What the functions of the loop do with what the system has done. -/
def next (kind : PollKind) (e : Event ι) : Except PollFault (PortPoll ι γ) :=
  match e, s.wait with
  | .call timeout, _ => .ok (s.uvPollEnter timeout)
  | .dequeued packets lastError now, some w =>
    match kind with
    | .plain => s.uvPollRound w packets.head?.join lastError now
    | .ex => s.uvPollExRound w (some packets) lastError now
  | .noPacket lastError now, some w =>
    match kind with
    | .plain => s.uvPollRound w none lastError now
    | .ex => s.uvPollExRound w none lastError now
  | _, none => .ok s

def Step (kind : PollKind) (early : ℕ) (s : PortPoll ι γ) (e : Event ι) (t : PortPoll ι γ) : Prop :=
  s.Enabled kind early e ∧ s.next kind e = .ok t

structure Init (s : PortPoll ι γ) : Prop where
  wait : s.wait = none
  clock : s.loop.time.toNat < 2 ^ 63

end PortPoll

end LibuvWorks.Win

/-!
## The two ways to poll agree

Both queue the requests of the packets in their order, and neither returns early without a packet.
`uv_poll_ex` tells a packet without a request from a call that has failed. `uv_poll` does not: it
asks `GetLastError()`, which the call that took the packet has not set.
-/
namespace LibuvWorks.Win.PortPoll

open Transition

variable {ι γ : Type*} {s t : PortPoll ι γ} {kind : PollKind} {early start : ℕ} {w : PortWait}
  {now : UInt64} {e : Event ι} {es fs : List (Event ι)}

/-! ### The requests -/

/-- The loop has only moved on in time and queued some requests. Its clock stays far from the end of
its range. -/
structure Moves (l : UvLoop ι γ) (reqs : List ι) (l' : UvLoop ι γ) : Prop where
  loop : l' = { l with time := l'.time, pendingReqs := l.pendingReqs ++ reqs }
  time : l.time ≤ l'.time
  clock : l.time.toNat < 2 ^ 63 → l'.time.toNat < 2 ^ 63

theorem moves_refl (l : UvLoop ι γ) : Moves l [] l := by
  constructor
  · rw [append_nil]
  · exact UInt64.le_refl _
  · exact id

theorem Moves.trans {l l' l'' : UvLoop ι γ} {reqs rest : List ι} (h : Moves l reqs l')
    (h' : Moves l' rest l'') : Moves l (reqs ++ rest) l'' := by
  have hloop := h'.loop
  rw [h.loop] at hloop
  constructor
  · rw [← append_assoc]
    exact hloop
  · exact UInt64.le_trans h.time h'.time
  · exact fun hclock => h'.clock (h.clock hclock)

theorem insertPackets_eq (l : UvLoop ι γ) (packets : List (Option ι)) :
    insertPackets l packets = { l with pendingReqs := l.pendingReqs ++ packets.reduceOption } := by
  induction packets generalizing l with
  | nil => simp [insertPackets]
  | cons overlapped packets ih =>
    cases overlapped with
    | none => exact ih l
    | some req =>
      have hrest := ih (uvInsertPendingReq l req)
      simpa [insertPackets, uvInsertPendingReq] using hrest

theorem updateTime_eq (h : s.loop.time ≤ now) :
    s.updateTime now = .ok { s with loop := { s.loop with time := now } } := by
  unfold updateTime uvUpdateTime
  rw [if_pos h]

def rewait (w : PortWait) (now : UInt64) : PortWait :=
  ⟨w.timeoutTime, (w.timeoutTime - now).toUInt32 + extension w.round, w.round + 1⟩

theorem timedOut_eq (h : s.loop.time ≤ now) :
    s.timedOut w now = .ok (
      if 0 < w.timeout then
        { loop := { s.loop with time := now },
          wait := if now < w.timeoutTime then some (rewait w now) else none }
      else s.leave) := by
  unfold timedOut
  rw [updateTime_eq h]
  dsimp only [bind, Except.bind]
  split_ifs <;> rfl

theorem timedOut_moves (h : s.Shows now) (ht : s.timedOut w now = .ok t) :
    Moves s.loop [] t.loop := by
  rw [timedOut_eq h.1] at ht
  cases ht
  by_cases hpos : 0 < w.timeout
  · rw [if_pos hpos]
    exact ⟨by rw [append_nil], h.1, fun _ => h.2⟩
  · rw [if_neg hpos]
    exact moves_refl s.loop

variable {lastError : UInt32} {overlapped : Option ι}

theorem uvPollRound_moves (h : s.Shows now)
    (ht : s.uvPollRound w overlapped lastError now = .ok t) :
    Moves s.loop [overlapped].reduceOption t.loop := by
  cases overlapped with
  | some req =>
    rw [uvPollRound, updateTime_eq (by exact h.1)] at ht
    cases ht
    exact ⟨rfl, h.1, fun _ => h.2⟩
  | none =>
    rw [uvPollRound] at ht
    split_ifs at ht
    exact timedOut_moves h ht

theorem uvPollExRound_moves {packets : Option (List (Option ι))} {lastError : UInt32}
    (h : s.Shows now) (ht : s.uvPollExRound w packets lastError now = .ok t) :
    Moves s.loop (packets.getD []).reduceOption t.loop := by
  cases packets with
  | some packets =>
    have htime : { s with loop := insertPackets s.loop packets }.loop.time ≤ now := by
      rw [insertPackets_eq]
      exact h.1
    rw [uvPollExRound, updateTime_eq htime] at ht
    cases ht
    exact ⟨by rw [leave, insertPackets_eq]; rfl, h.1, fun _ => h.2⟩
  | none =>
    rw [uvPollExRound] at ht
    split_ifs at ht
    exact timedOut_moves h ht

variable {packets : List (Option ι)}

theorem packets_eq_singleton (hne : packets ≠ [])
    (hlength : packets.length ≤ 1) : packets = [packets.head?.join] := by
  match packets with
  | [overlapped] => cases overlapped <;> rfl

theorem Step.moves (h : Step kind early s e t) :
    Moves s.loop e.packets.reduceOption t.loop := by
  obtain ⟨henabled, hnext⟩ := h
  cases e with
  | call timeout =>
    cases hnext
    exact moves_refl s.loop
  | dequeued packets lastError now =>
    obtain ⟨hwait, hshows, hne, hlength⟩ := henabled
    obtain ⟨w, hw⟩ := isSome_iff_exists.mp hwait
    simp only [next, hw] at hnext
    cases kind with
    | plain =>
      have hmoves := uvPollRound_moves hshows hnext
      rw [← packets_eq_singleton hne hlength] at hmoves
      exact hmoves
    | ex => exact uvPollExRound_moves hshows hnext
  | noPacket lastError now =>
    obtain ⟨hshows, -⟩ := henabled
    cases hw : s.wait with
    | none =>
      simp only [next, hw] at hnext
      cases hnext
      exact moves_refl s.loop
    | some w =>
      simp only [next, hw] at hnext
      cases kind with
      | plain => exact uvPollRound_moves hshows hnext
      | ex => exact uvPollExRound_moves hshows hnext

def dequeuedReqs (es : List (Event ι)) : List ι := (es.flatMap Event.packets).reduceOption

theorem moves_of_run (hrun : Run (Step kind early) s es t) :
    Moves s.loop (dequeuedReqs es) t.loop := by
  induction hrun with
  | nil s => exact moves_refl s.loop
  | cons hst _ ih =>
    have hmoves := hst.moves.trans ih
    rw [dequeuedReqs, ← reduceOption_append, ← flatMap_cons] at hmoves
    exact hmoves

/-! ### The time -/

theorem extension_toNat {round : ℕ} (hpos : round ≠ 0) (h : round ≤ 32) :
    (extension round).toNat = 2 ^ (round - 1) := by
  have hround : (UInt32.ofNat (round - 1)).toNat = round - 1 := by
    rw [UInt32.toNat_ofNat']
    omega
  have hpow : 2 ^ (round - 1) < 2 ^ 32 := Nat.pow_lt_pow_right (by omega) (by omega)
  rw [extension, if_neg hpos, UInt32.toNat_shiftLeft, hround,
      mod_eq_of_lt (by omega : round - 1 < 32)]
  change (1 <<< (round - 1)) % 2 ^ 32 = 2 ^ (round - 1)
  rw [one_shiftLeft, mod_eq_of_lt hpow]

def extended (round : ℕ) : ℕ := if round ≤ 1 then 0 else 2 ^ (round - 2)

/-- A wait that is short by less than `2 ^ 30` is extended to no more than `2 ^ 31`. -/
theorem extended_succ (round : ℕ) (h : extended round < 2 ^ 30) :
    (extension round).toNat = extended (round + 1) ∧
      extended (round + 1) ≤ 2 * extended round + 1 := by
  unfold extended at h ⊢
  by_cases hfirst : round ≤ 1
  · obtain rfl | rfl : round = 0 ∨ round = 1 := by omega
    · exact ⟨rfl, by decide⟩
    · exact ⟨rfl, by decide⟩
  · rw [if_neg hfirst] at h ⊢
    have hround := (Nat.pow_lt_pow_iff_right (by decide : 1 < 2)).mp h
    rw [if_neg (by omega), extension_toNat (by omega) (by omega)]
    obtain ⟨k, rfl⟩ : ∃ k, round = k + 2 := ⟨round - 2, by omega⟩
    constructor
    · rfl
    · change 2 ^ (k + 1) ≤ 2 * 2 ^ k + 1
      rw [Nat.pow_succ]
      omega

/-- A call that is to wait until `due`. -/
structure Waits (due : ℕ) (s : PortPoll ι γ) (w : PortWait) : Prop where
  target : w.timeoutTime.toNat = due
  timeout : s.loop.time.toNat + w.timeout.toNat = due + extended w.round

/-- A call has waited until `due`, or does so. -/
def Due (due : ℕ) (s : PortPoll ι γ) : Prop :=
  due ≤ s.loop.time.toNat ∨ ∃ w, s.wait = some w ∧ Waits due s w

theorem due_uvPollEnter {timeout : UInt32} (hclock : s.loop.time.toNat < 2 ^ 63) :
    Due (s.loop.time.toNat + timeout.toNat) (s.uvPollEnter timeout) := by
  refine .inr ⟨_, rfl, ?_, rfl⟩
  have hlt := timeout.toNat_lt
  change (s.loop.time + timeout.toUInt64).toNat = _
  rw [UInt64.toNat_add, UInt32.toNat_toUInt64]
  omega

theorem due_timedOut {due : ℕ} (hearly : early ≤ 2 ^ 30) (h : Waits due s w)
    (hnow : s.loop.time ≤ now) (hwait : s.loop.time.toNat + w.timeout.toNat ≤ now.toNat + early)
    (ht : s.timedOut w now = .ok t) : Due due t := by
  rw [timedOut_eq hnow] at ht
  cases ht
  have htimeout := h.timeout
  by_cases hpos : 0 < w.timeout
  · rw [if_pos hpos]
    by_cases hleft : now < w.timeoutTime
    · rw [if_pos hleft]
      have hlt : now.toNat < due := h.target ▸ hleft
      obtain ⟨hextension, hle⟩ := extended_succ w.round (by omega)
      refine .inr ⟨rewait w now, rfl, h.target, ?_⟩
      change now.toNat + ((w.timeoutTime - now).toUInt32 + extension w.round).toNat = due + _
      have hsub : (w.timeoutTime - now).toUInt32.toNat = due - now.toNat := by
        rw [UInt64.toNat_toUInt32, UInt64.toNat_sub_of_le _ _ (UInt64.le_of_lt hleft), h.target]
        omega
      rw [UInt32.toNat_add, hsub, hextension]
      change _ = due + extended (w.round + 1)
      omega
    · rw [if_neg hleft]
      left
      rw [← h.target]
      exact Nat.le_of_not_lt hleft
  · rw [if_neg hpos]
    have hzero : w.timeout.toNat = 0 := le_zero.mp (Nat.le_of_not_lt hpos)
    left
    change due ≤ s.loop.time.toNat
    omega

theorem next_noPacket (hw : s.wait = some w) :
    s.next kind (.noPacket lastError now) =
      if lastError ≠ waitTimeout then .error (.fatalError lastError) else s.timedOut w now := by
  cases kind <;> simp only [next, hw] <;> rfl

theorem Step.due {due : ℕ} (hearly : early ≤ 2 ^ 30) (h : Step kind early s e t)
    (hpackets : e.packets = []) (hdue : Due due s) : Due due t := by
  rcases hdue with hdue | ⟨w, hw, hwaits⟩
  · exact .inl (Nat.le_trans hdue h.moves.time)
  · obtain ⟨henabled, hnext⟩ := h
    cases e with
    | call timeout =>
      cases hw.symm.trans henabled
    | dequeued packets lastError now => exact absurd hpackets henabled.2.2.1
    | noPacket lastError now =>
      obtain ⟨hshows, hwait⟩ := henabled
      rw [next_noPacket hw] at hnext
      split_ifs at hnext with herror
      rw [hw] at hwait
      obtain ⟨-, hshort⟩ := hwait (not_not.mp herror)
      exact due_timedOut hearly hwaits hshows.1 hshort hnext

theorem due_of_run {due : ℕ} (hearly : early ≤ 2 ^ 30) (hrun : Run (Step kind early) s es t)
    (hpackets : es.flatMap Event.packets = []) (hdue : Due due s) : Due due t := by
  induction hrun with
  | nil => exact hdue
  | cons hst _ ih =>
    rw [flatMap_cons, append_eq_nil_iff] at hpackets
    exact ih hpackets.2 (hst.due hearly hpackets.1 hdue)

def OnTime (s : PortPoll ι γ) (es : List (Event ι)) (t : PortPoll ι γ) : Prop :=
  ∀ timeout rounds, es = .call timeout :: rounds → rounds.flatMap Event.packets = [] →
    t.wait = none → s.loop.time.toNat + timeout.toNat ≤ t.loop.time.toNat

theorem onTime_of_run (hearly : early ≤ 2 ^ 30) (hclock : s.loop.time.toNat < 2 ^ 63)
    (hrun : Run (Step kind early) s es t) : OnTime s es t := by
  rintro timeout rounds rfl hpackets hwait
  cases hrun with
  | cons hst hrun =>
    cases hst.2
    rcases due_of_run hearly hrun hpackets (due_uvPollEnter hclock) with hdue | ⟨w, hw, -⟩
    · exact hdue
    · cases hwait.symm.trans hw

theorem clock_of_reachable (h : Reachable Init (Step kind early) s) :
    s.loop.time.toNat < 2 ^ 63 := by
  apply h.invariant
  · exact fun s hs => hs.clock
  · exact fun s e t _ hs hst => hst.moves.clock hs

/-! ### Packets without a request -/

/-- What `uv_poll` asks of the call that takes a packet without a request: that `GetLastError()` is
still that of a wait that has timed out. -/
def Careful (_ : PortPoll ι γ) : Event ι → Prop
  | .dequeued packets lastError _ => none ∈ packets → lastError = waitTimeout
  | _ => True

instance [DecidableEq ι] (s : PortPoll ι γ) (e : Event ι) : Decidable (Careful s e) := by
  cases e <;> dsimp only [Careful] <;> infer_instance

def Tolerates (kind : PollKind) (early : ℕ) (cond : PortPoll ι γ → Event ι → Prop)
    (s : PortPoll ι γ) : Prop :=
  ∀ e, e.packets ≠ [] → s.Enabled kind early e → cond s e → ∃ t, s.next kind e = .ok t

theorem timedOut_isOk (h : s.loop.time ≤ now) : ∃ t, s.timedOut w now = .ok t :=
  ⟨_, timedOut_eq h⟩

/-- `uv_poll` fails for the packets without a request whose dequeueing has left another error. -/
theorem uvPollRound_isOk_iff (h : s.loop.time ≤ now) :
    (∃ t, s.uvPollRound w overlapped lastError now = .ok t) ↔
      (overlapped = none → lastError = waitTimeout) := by
  cases overlapped with
  | some req =>
    rw [uvPollRound, updateTime_eq (by exact h)]
    exact ⟨nofun, fun _ => ⟨_, rfl⟩⟩
  | none =>
    rw [uvPollRound]
    split_ifs with herror
    · constructor
      · rintro ⟨t, ht⟩
        cases ht
      · exact fun habs => absurd (habs rfl) herror
    · exact ⟨fun _ _ => not_not.mp herror, fun _ => timedOut_isOk h⟩

theorem uvPollExRound_isOk {lastError : UInt32}
    (h : s.loop.time ≤ now) : ∃ t, s.uvPollExRound w (some packets) lastError now = .ok t := by
  have htime : { s with loop := insertPackets s.loop packets }.loop.time ≤ now := by
    rw [insertPackets_eq]
    exact h
  rw [uvPollExRound, updateTime_eq htime]
  exact ⟨_, rfl⟩

theorem tolerates_plain (s : PortPoll ι γ) : Tolerates .plain early Careful s := by
  intro e hpackets henabled hcareful
  cases e with
  | call timeout | noPacket lastError now => exact absurd rfl hpackets
  | dequeued packets lastError now =>
    obtain ⟨hwait, hshows, hne, hlength⟩ := henabled
    obtain ⟨w, hw⟩ := isSome_iff_exists.mp hwait
    simp only [next, hw]
    apply (uvPollRound_isOk_iff hshows.1).mpr
    intro hnone
    apply hcareful
    rw [packets_eq_singleton hne hlength, hnone]
    exact mem_singleton_self _

theorem tolerates_ex (s : PortPoll ι γ) : Tolerates .ex early (fun _ _ => True) s := by
  intro e hpackets henabled _
  cases e with
  | call timeout | noPacket lastError now => exact absurd rfl hpackets
  | dequeued packets lastError now =>
    obtain ⟨hwait, hshows, -, -⟩ := henabled
    obtain ⟨w, hw⟩ := isSome_iff_exists.mp hwait
    simp only [next, hw]
    exact uvPollExRound_isOk hshows.1

/-- Two loops whose pending queues are alike, one that polls with `uv_poll` and one that polls with
`uv_poll_ex`, and the same packets in any grouping. -/
theorem polls_agree {s' t' : PortPoll ι γ} (hearly : early ≤ 2 ^ 30)
    (hs : Reachable Init (Guarded Careful (Step .plain early)) s)
    (hs' : Reachable Init (Step .ex early) s')
    (hpending : s.loop.pendingReqs = s'.loop.pendingReqs)
    (hrun : Run (Guarded Careful (Step .plain early)) s es t)
    (hrun' : Run (Step .ex early) s' fs t') :
    (es.flatMap Event.packets = fs.flatMap Event.packets →
      t.loop.pendingReqs = t'.loop.pendingReqs) ∧
    Tolerates .plain early Careful t ∧ Tolerates .ex early (fun _ _ => True) t' ∧
    OnTime s es t ∧ OnTime s' fs t' := by
  have hplain := hs.mono fun _ _ _ h => h.2
  have hrunPlain := hrun.mono fun _ _ _ h => h.2
  refine ⟨fun hpackets => ?_, tolerates_plain t, tolerates_ex t', ?_, ?_⟩
  · rw [(moves_of_run hrunPlain).loop, (moves_of_run hrun').loop, hpending, dequeuedReqs,
      hpackets, dequeuedReqs]
  · exact onTime_of_run hearly (clock_of_reachable hplain) hrunPlain
  · exact onTime_of_run hearly (clock_of_reachable hs') hrun'

/-- A loop without handles. -/
def idle : PortPoll ℕ Unit where
  loop := {
    time := 0
    stopFlag := false
    activeHandles := 0
    activeReqs := 0
    endgameHandles := []
    pendingReqs := []
    watcherHandles := fun _ => []
    nextWatcher := fun _ => none
    timers := []
    timerCounter := 0
    flags := fun _ => ⟨false, true, false, false, false⟩
    timer := fun _ => ⟨none, 0, 0, 0⟩
    watcherCb := fun _ _ => none
    closeCb := fun _ => none
    reqsPending := fun _ => 0 }
  wait := none

theorem idle_init : Init idle := ⟨rfl, by decide⟩

/-- A request and a packet without one, taken in two calls and in one. -/
theorem polls_agree_grouped : ∃ t t' : PortPoll ℕ Unit,
    t.loop.pendingReqs = t'.loop.pendingReqs ∧ t.loop.pendingReqs = [7] := by
  obtain ⟨t, hrun, hpending⟩ : ∃ t, Run (Guarded Careful (Step .plain 16)) idle
      [.call 5, .dequeued [some 7] 0 3, .call 0, .dequeued [none] 258 3] t ∧
      t.loop.pendingReqs = [7] :=
    ⟨_, .cons ⟨trivial, by decide, rfl⟩ (.cons ⟨by decide, by decide, rfl⟩
      (.cons ⟨trivial, by decide, rfl⟩ (.cons ⟨by decide, by decide, rfl⟩ (.nil _)))), rfl⟩
  obtain ⟨t', hrun'⟩ : ∃ t', Run (Step .ex 16) idle [.call 5, .dequeued [some 7, none] 0 3] t' :=
    ⟨_, .cons ⟨by decide, rfl⟩ (.cons ⟨by decide, rfl⟩ (.nil _))⟩
  have hagree := polls_agree (by decide) (.init idle_init) (.init idle_init) rfl hrun hrun'
  exact ⟨t, t', hagree.1 rfl, hpending⟩

/-- `uv_poll` fails when it is woken up, and `uv_poll_ex` does not. -/
theorem wakeUp_fatal : ∃ s : PortPoll ℕ Unit, Reachable Init (Step .plain 16) s ∧
    s.Enabled .plain 16 (.dequeued [none] 0 3) ∧ s.Enabled .ex 16 (.dequeued [none] 0 3) ∧
    s.next .plain (.dequeued [none] 0 3) = .error (.fatalError 0) ∧
    ∃ t, s.next .ex (.dequeued [none] 0 3) = .ok t :=
  ⟨_, .step (.call 5) (.init idle_init) ⟨by decide, rfl⟩, by decide, by decide, rfl, ⟨_, rfl⟩⟩

end LibuvWorks.Win.PortPoll
