import LibuvWorks.Lib.Ranking
import LibuvWorks.Win.TcpWrite

/-!
# A tcp connection is shut down and closed in order

What the system and the loop owe a handle has a measure, which every event lowers but a call. When
nothing is owed any more, every call has been answered.
-/
namespace LibuvWorks.Win.TcpWriter

open Transition History List Option Bool

variable {ρ : Type*} [DecidableEq ρ] {s t : TcpWriter ρ} {e : Event ρ}

/-- How much a callback weighs: when it returns, the endgame of the handle may be queued. -/
def phaseWork : TcpWritePhase → ℕ
  | .idle => 0
  | .closeCb => 1
  | _ => 4

def work (s : TcpWriter ρ) : ℕ :=
  6 * s.kernel.length + 5 * s.pendingReqs.length + 5 * s.others + phaseWork s.phase +
    2 * s.endgameQueued.toNat + 3 * s.waiting.toNat

/-- What a call adds to the work. The other events are what the system and the loop owe the
handle. -/
def cost : Event ρ → ℕ
  | .write _ _ _ _ => 7
  | .shutdown => 6
  | .close => 3
  | .reqBegin => 6
  | _ => 0

section

omit [DecidableEq ρ]

theorem work_decreasePending (ht : s.decreasePending = some t) (hphase : phaseWork s.phase = 4)
    (hwaiting : s.waiting = s.shutdownReq) :
    t.work + 2 + 2 * s.endgameQueued.toNat ≤ s.work := by
  have hqueued : s.endgameQueued.toNat ≤ 1 := toNat_le _
  unfold TcpWriter.decreasePending at ht
  rw [ite_none_left_eq_some] at ht
  obtain ⟨-, ht⟩ := ht
  cases ht
  dsimp only [wantEndgame]
  unfold work
  rw [hphase, hwaiting]
  split_ifs
  · change 6 * s.kernel.length + 5 * s.pendingReqs.length + 5 * s.others + 0 + 2 * 1 +
      3 * (s.shutdownReq && true).toNat + 2 + _ ≤ _
    rw [Bool.and_true]
    omega
  · change 6 * s.kernel.length + 5 * s.pendingReqs.length + 5 * s.others + 0 +
      2 * s.endgameQueued.toNat + 3 * (s.shutdownReq && true).toNat + 2 + _ ≤ _
    rw [Bool.and_true]
    omega

theorem work_returned (ht : s.returned = some t) (hphase : s.phase ≠ .idle) :
    t.work + 1 ≤ s.work := by
  unfold TcpWriter.returned at ht
  cases hcb : s.phase with
  | idle => exact absurd hcb hphase
  | writeCb =>
    have hwaiting : s.waiting = s.shutdownReq := waiting_eq (by simp [hcb])
    have hweight : phaseWork s.phase = 4 := by rw [hcb]; rfl
    rw [hcb] at ht
    dsimp only [writeCbReturned] at ht
    split_ifs at ht
    · have hwork := work_decreasePending ht hweight hwaiting
      change t.work + 2 + 2 * 1 ≤ 6 * s.kernel.length + 5 * s.pendingReqs.length + 5 * s.others +
        phaseWork s.phase + 2 * 1 + 3 * s.waiting.toNat at hwork
      change _ ≤ 6 * s.kernel.length + 5 * s.pendingReqs.length + 5 * s.others +
        phaseWork s.phase + 2 * s.endgameQueued.toNat + 3 * s.waiting.toNat
      omega
    · have hwork := work_decreasePending ht hweight hwaiting
      change t.work + 2 + 2 * s.endgameQueued.toNat ≤ s.work at hwork
      omega
  | shutdownCb =>
    have hwaiting : s.waiting = false := by simp [waiting, hcb]
    rw [hcb] at ht
    have hwork := work_decreasePending ht (by simp [phaseWork]) (waiting_false rfl)
    have hsame : work { s with shutdownReq := false, phase := .shutdownCb } = s.work := by
      unfold work
      rw [hwaiting, hcb, waiting_false rfl]
    rw [hsame] at hwork
    omega
  | otherCb =>
    have hwaiting : s.waiting = s.shutdownReq := waiting_eq (by simp [hcb])
    rw [hcb] at ht
    have hwork := work_decreasePending ht (by simp [hcb, phaseWork]) hwaiting
    omega
  | closeCb =>
    have hwaiting : s.waiting = s.shutdownReq := waiting_eq (by simp [hcb])
    rw [hcb] at ht
    cases ht
    unfold work
    rw [hcb, hwaiting]
    change _ + 0 + 2 * s.endgameQueued.toNat + 3 * (s.shutdownReq && true).toNat + 1 ≤
      _ + 1 + 2 * s.endgameQueued.toNat + _
    rw [Bool.and_true]
    dsimp only
    omega

theorem work_uvTcpEndgame {err : ℕ} (ht : s.uvTcpEndgame err = some t) (hphase : s.phase = .idle)
    (hqueued : s.endgameQueued = true) : t.work + 1 ≤ s.work := by
  have hwaiting : s.waiting = s.shutdownReq := waiting_eq (by simp [hphase])
  have hwork : s.work = 6 * s.kernel.length + 5 * s.pendingReqs.length + 5 * s.others + 0 + 2 * 1 +
      3 * s.shutdownReq.toNat := by
    rw [work, hphase, hqueued, hwaiting]
    rfl
  have hshutdownCb : ∀ log,
      work { s with endgameQueued := false, phase := .shutdownCb, log := log } =
      6 * s.kernel.length + 5 * s.pendingReqs.length + 5 * s.others + 4 + 2 * 0 + 3 * 0 := by
    intro log
    unfold work
    rw [show waiting { s with endgameQueued := false, phase := .shutdownCb, log := log } = false from
      Bool.and_false _]
    rfl
  unfold TcpWriter.uvTcpEndgame at ht
  dsimp only at ht
  split_ifs at ht with hshut hclosing hclose hclosed
  · cases ht
    rw [hshutdownCb, hwork, hshut.2.1]
    change _ + 1 ≤ _ + 3 * 1
    omega
  · cases ht
    rw [hshutdownCb, hwork, hshut.2.1]
    change _ + 1 ≤ _ + 3 * 1
    omega
  · cases ht
    rw [hwork]
    change 6 * s.kernel.length + 5 * s.pendingReqs.length + 5 * s.others + 1 + 2 * 0 +
      3 * (s.shutdownReq && true).toNat + 1 ≤ _
    rw [Bool.and_true]
    omega
  · cases ht
    rw [hwork]
    change 6 * s.kernel.length + 5 * s.pendingReqs.length + 5 * s.others + phaseWork s.phase + 2 * 0 +
      3 * s.waiting.toNat + 1 ≤ _
    rw [hphase, hwaiting]
    change _ + 0 + _ + _ + 1 ≤ _
    omega

theorem work_uvWrite (r : ρ) (bufs : List ℕ) (outcome : SendOutcome) (registered : Bool) :
    (s.uvWrite r bufs outcome registered).work ≤ s.work + 6 := by
  unfold uvWrite uvTcpWrite insertPendingReq
  dsimp only
  split_ifs
  · exact Nat.le_add_right _ 6
  all_goals
    simp only [work, waiting, length_cons]
    omega

theorem work_uvShutdown : s.uvShutdown.work ≤ s.work + 5 := by
  unfold uvShutdown
  split_ifs
  · exact Nat.le_add_right _ 5
  · have hwaiting : (true && s.phase != .shutdownCb).toNat ≤ 1 := toNat_le _
    simp only [work, waiting, wantEndgame, toNat_true]
    omega

theorem work_uvTcpClose (ht : s.uvTcpClose = some t) : t.work ≤ s.work + 2 := by
  unfold uvTcpClose at ht
  rw [ite_none_left_eq_some] at ht
  obtain ⟨-, ht⟩ := ht
  cases ht
  dsimp only [wantEndgame]
  split_ifs
  · simp only [work, waiting, toNat_true]
    omega
  · exact Nat.le_add_right _ 2

end

theorem work_step (hst : Step s e t) : t.work + 1 ≤ s.work + cost e := by
  rw [Step, TcpWriter.step] at hst
  split_ifs at hst with henabled
  cases e with
  | write r bufs outcome registered =>
    cases hst
    exact Nat.add_le_add_right (work_uvWrite r bufs outcome registered) 1
  | shutdown =>
    cases hst
    exact Nat.add_le_add_right work_uvShutdown 1
  | close => exact Nat.add_le_add_right (work_uvTcpClose hst) 1
  | reqBegin =>
    cases hst
    simp only [work, waiting, cost]
    omega
  | complete w =>
    cases hst
    have hlength := length_erase_add_one henabled
    simp only [work, waiting, cost, length_cons]
    omega
  | process w =>
    obtain ⟨hidle, hmem⟩ := henabled
    have hlength := length_erase_add_one hmem
    change s.uvProcessTcpWriteReq w = some t at hst
    unfold uvProcessTcpWriteReq at hst
    rw [ite_none_left_eq_some] at hst
    obtain ⟨-, hst⟩ := hst
    cases hst
    simp only [work, waiting, cost, hidle, phaseWork]
    change _ + 3 * (s.shutdownReq && true).toNat + 1 ≤ _ + 3 * (s.shutdownReq && true).toNat + 0
    omega
  | reqDone =>
    obtain ⟨hidle, hothers⟩ := henabled
    cases hst
    simp only [work, waiting, cost, hidle, phaseWork]
    change _ + 3 * (s.shutdownReq && true).toNat + 1 ≤ _ + 3 * (s.shutdownReq && true).toNat + 0
    omega
  | returned => exact work_returned hst henabled
  | endgame err => exact work_uvTcpEndgame hst henabled.1 henabled.2

namespace Consistent

/-- Where neither the system nor the loop owes the handle anything, each call has been answered. -/
theorem answered_of_quiet (h : Rests s) (hquiet : ∀ e : Event ρ, cost e = 0 → ¬ s.Enabled e) :
    Written s.log ∧ (.shutdown ∈ s.log → ∃ err, .shutdownCb err ∈ s.log) ∧
      (.close ∈ s.log → .closeCb ∈ s.log) := by
  have hidle : s.phase = .idle := by
    by_contra hphase
    exact hquiet .returned rfl hphase
  have hunqueued : s.endgameQueued = false := by
    by_contra hset
    exact hquiet (.endgame 0) rfl ⟨hidle, by simpa using hset⟩
  have hkernel : s.kernel = [] := by
    apply eq_nil_iff_forall_not_mem.mpr
    exact fun w hw => hquiet (.complete w) rfl hw
  have hpending : s.pendingReqs = [] := by
    apply eq_nil_iff_forall_not_mem.mpr
    exact fun w hw => hquiet (.process w) rfl ⟨hidle, hw⟩
  have hothers : s.others = 0 := by
    by_contra hsome
    exact hquiet .reqDone rfl ⟨hidle, Nat.pos_of_ne_zero hsome⟩
  have hout : s.outstanding = [] := by
    rw [outstanding, hkernel, hpending]
    rfl
  have hrest := at_idle h hidle
  have hwrites : s.writeReqsPending = 0 := by
    rw [hrest.writes, hout]
    rfl
  have hwaiting : s.waiting = false := by
    by_contra hset
    cases hunqueued.symm.trans (hrest.wanted (by simpa using hset) hwrites)
  have hreqs : s.reqsPending = 0 := by
    rw [hrest.reqs, hout, hothers, hwaiting]
    rfl
  refine ⟨hrest.written_of_none hwrites, fun hshut => ?_, fun hclose => ?_⟩
  · obtain hset | hdone := hrest.answered hshut
    · cases hwaiting.symm.trans hset
    · exact hdone
  · apply hrest.closeCb.mp
    by_contra hopen
    have hset := hrest.ended (hrest.closing.mpr hclose) hreqs (by simpa using hopen)
    cases hunqueued.symm.trans hset

end Consistent

/-- A connection. -/
def connected : TcpWriter ℕ where
  connection := true
  writable := true
  shutdownReq := false
  closing := false
  closed := false
  endgameQueued := false
  syncBypass := false
  emulateIocp := false
  kernel := []
  pendingReqs := []
  others := 0
  writeQueueSize := 0
  writeReqsPending := 0
  reqsPending := 0
  phase := .idle
  log := []

theorem connected_init : Init connected :=
  ⟨rfl, rfl, rfl, rfl, rfl, rfl, rfl, rfl, rfl, rfl, rfl, rfl, rfl⟩

/-- The callback of a write shuts the connection down while another write is under way, and the
handle is closed before both are done. -/
def shutdownRun : Option (TcpWriter ℕ) :=
  [Event.write 0 [3, 4] .pending true, .write 1 [5] .succeeded true, .complete ⟨0, 7⟩,
    .process ⟨0, 7⟩, .shutdown, .returned, .endgame 0, .close, .complete ⟨1, 5⟩, .process ⟨1, 5⟩,
    .returned, .endgame 0, .returned, .endgame 0, .returned].foldlM
    (fun s e => s.step e) connected

theorem shutdownRun_isSome : shutdownRun.isSome = true := by
  rfl

end LibuvWorks.Win.TcpWriter
