import LibuvWorks.Lib.Register
import LibuvWorks.Unix.Signal

/-!
# The signal tree

The tree has the handles that watch a signal, and the handler of the process is installed for the
signals that they watch. Each critical section of `uv__signal_stop` and `uv_signal_start` keeps
both.
-/
namespace LibuvWorks.Unix.Signals

open Transition Register List Option Function

variable {Λ ι γ : Type*} [LinearOrder Λ] [LinearOrder ι] {s t u : Signals Λ ι γ}
    {capacity : ℕ} {h : ι}

/-- `uv__signal_loop_cleanup` comes to a handle of the loop that is closed. -/
def uvSignalLoopCleanup (s : Signals Λ ι γ) (h : ι) : Option (Signals Λ ι γ) :=
  if s.mayCall (s.handle h).loop then s.uvSignalStopHandle h else none

inductive LoopEvent (Λ ι γ : Type*) where
  | event (e : Event Λ ι γ) : LoopEvent Λ ι γ
  | cleanup (h : ι) : LoopEvent Λ ι γ

def loopStep (capacity : ℕ) (s : Signals Λ ι γ) : LoopEvent Λ ι γ → Option (Signals Λ ι γ)
  | .event e => s.step capacity e
  | .cleanup h => s.uvSignalLoopCleanup h

def LoopStep (capacity : ℕ) (s : Signals Λ ι γ) (e : LoopEvent Λ ι γ) (t : Signals Λ ι γ) : Prop :=
  s.loopStep capacity e = some t

structure LoopInit (s : Signals Λ ι γ) : Prop where
  init : Init s
  registered : ∀ signum, s.registered signum = false

/-! ### Steps that do not touch the tree -/

structure SameTree (s t : Signals Λ ι γ) : Prop where
  tree : t.tree = s.tree
  registered : t.registered = s.registered
  signum : ∀ k, (t.handle k).signum = (s.handle k).signum
  loop : ∀ k, (t.handle k).loop = (s.handle k).loop
  starting : ∀ i, (t.loop i).starting = (s.loop i).starting

namespace SameTree

omit [LinearOrder Λ] [LinearOrder ι]

theorem refl (s : Signals Λ ι γ) : SameTree s s :=
  ⟨rfl, rfl, fun _ => rfl, fun _ => rfl, fun _ => rfl⟩

theorem trans (hst : SameTree s t) (htu : SameTree t u) : SameTree s u where
  tree := htu.tree.trans hst.tree
  registered := htu.registered.trans hst.registered
  signum k := (htu.signum k).trans (hst.signum k)
  loop k := (htu.loop k).trans (hst.loop k)
  starting i := (htu.starting i).trans (hst.starting i)

theorem setWalk (h : SameTree s t) (w : Option (Walk ι)) : SameTree s { t with walk := w } :=
  { h with }

theorem setHandle [LinearOrder ι] {v : UvSignal Λ γ} (hsignum : v.signum = (s.handle h).signum)
    (hloop : v.loop = (s.handle h).loop) : SameTree s (s.setHandle h v) := by
  refine ⟨rfl, rfl, fun k => ?_, fun k => ?_, fun _ => rfl⟩
  · by_cases hk : k = h
    · simpa [hk] using hsignum
    · simp [hk]
  · by_cases hk : k = h
    · simpa [hk] using hloop
    · simp [hk]

theorem setLoop [LinearOrder Λ] {i : Λ} {v : SignalLoop ι γ}
    (hstarting : v.starting = (s.loop i).starting) : SameTree s (s.setLoop i v) := by
  refine ⟨rfl, rfl, fun _ => rfl, fun _ => rfl, fun j => ?_⟩
  by_cases hj : j = i
  · simpa [hj] using hstarting
  · simp [hj]

theorem closeIfDispatched [LinearOrder Λ] (s : Signals Λ ι γ) (h : ι) :
    SameTree s (s.closeIfDispatched h) := by
  unfold Signals.closeIfDispatched
  split_ifs
  · exact setLoop rfl
  · exact refl s

theorem messageDone [LinearOrder Λ] [LinearOrder ι] (s : Signals Λ ι γ) (i : Λ)
    (full : Bool) (h : ι)
    (rest : List (SignalMsg ι)) : SameTree s (s.messageDone i full h rest) := by
  refine trans (setLoop ?_) (setHandle ?_ ?_)
  all_goals rfl

theorem eventDispatched [LinearOrder Λ] [LinearOrder ι] {i : Λ} {full : Bool}
    (hstep : s.eventDispatched i full = some t) : SameTree s t := by
  unfold Signals.eventDispatched at hstep
  split at hstep
  · cases hstep
  next k _ rest _ =>
    cases hstep
    split_ifs
    · exact trans (messageDone s i full k rest) (closeIfDispatched _ k)
    · exact messageDone s i full k rest

theorem handlerWrite [LinearOrder Λ] {stored : Bool}
    (hstep : s.handlerWrite capacity stored = some t) :
    SameTree s t := by
  unfold Signals.handlerWrite at hstep
  split at hstep
  · dsimp only at hstep
    split_ifs at hstep
    · cases hstep
      apply setWalk (setLoop _) _
      rfl
    · cases hstep
      exact (refl s).setWalk _
  · cases hstep

theorem handlerCount [LinearOrder ι] (hstep : s.handlerCount = some t) : SameTree s t := by
  unfold Signals.handlerCount at hstep
  split at hstep
  · cases hstep
    apply setWalk (setHandle _ _) _
    all_goals rfl
  · cases hstep

theorem of_step {e : Event Λ ι γ} [LinearOrder Λ] [LinearOrder ι]
    (hstep : s.step capacity e = some t)
      (hstart : ∀ k signalCb signum, e ≠ .start k signalCb signum)
    (hregister : ∀ i fails, e ≠ .register i fails) (hstop : ∀ k, e ≠ .stop k)
    (hclose : ∀ k, e ≠ .close k) : SameTree s t := by
  cases e with
  | start k signalCb signum => exact absurd rfl (hstart k signalCb signum)
  | register i fails => exact absurd rfl (hregister i fails)
  | stop k => exact absurd rfl (hstop k)
  | close k => exact absurd rfl (hclose k)
  | handler signum =>
    change s.uvSignalHandler signum = some t at hstep
    unfold uvSignalHandler at hstep
    split_ifs at hstep
    cases hstep
    exact (refl s).setWalk _
  | write stored => exact handlerWrite hstep
  | count => exact handlerCount hstep
  | unlock =>
    change s.handlerUnlock = some t at hstep
    unfold handlerUnlock at hstep
    split at hstep
    · cases hstep
      exact (refl s).setWalk _
    · cases hstep
  | event i =>
    change s.uvSignalEvent i = some t at hstep
    unfold uvSignalEvent at hstep
    split_ifs at hstep
    cases hstep
    exact setLoop rfl
  | read i n =>
    change s.eventRead i n = some t at hstep
    unfold eventRead at hstep
    split at hstep
    · split_ifs at hstep
      cases hstep
      exact setLoop rfl
    · cases hstep
  | readFails i eintr =>
    change s.eventReadFails i eintr = some t at hstep
    unfold eventReadFails at hstep
    split at hstep
    · cases hstep
      exact setLoop rfl
    · cases hstep
  | dispatch i =>
    change s.eventDispatch i = some t at hstep
    unfold eventDispatch at hstep
    split at hstep
    · split_ifs at hstep
      · cases hstep
        exact setLoop rfl
      · exact eventDispatched hstep
    · cases hstep
  | returned i =>
    change s.eventReturned i = some t at hstep
    unfold eventReturned at hstep
    split at hstep
    · split_ifs at hstep
      exact eventDispatched hstep
    · cases hstep
  | round i =>
    change s.eventRound i = some t at hstep
    unfold eventRound at hstep
    split at hstep
    · cases hstep
      exact setLoop rfl
    · cases hstep

end SameTree

/-! ### The tree and the handler -/

/-- The tree has the handles that watch a signal, the handler is installed for their signals, and a
handle that is about to be registered watches none. -/
structure Treed (s : Signals Λ ι γ) : Prop where
  registers : Registers s.uvSignalLe (fun k => (s.handle k).signum ≠ 0) s.tree
  registered : ∀ signum, s.registered signum = true ↔ ∃ k ∈ s.tree, (s.handle k).signum = signum
  starting : ∀ i st, (s.loop i).starting = some st →
    (s.handle st.handle).loop = i ∧ (s.handle st.handle).signum = 0 ∧ st.signum ≠ 0

instance : Std.Total s.uvSignalLe :=
  inferInstanceAs (Std.Total (FieldsLe (fun k => (s.handle k).signum) fun k => (s.handle k).loop))

instance : IsTrans ι s.uvSignalLe :=
  inferInstanceAs (IsTrans ι (FieldsLe (fun k => (s.handle k).signum) fun k => (s.handle k).loop))

theorem uvSignalLe_iff {a b : ι} (ha : (t.handle a).signum = (s.handle a).signum)
    (hb : (t.handle b).signum = (s.handle b).signum) (hla : (t.handle a).loop = (s.handle a).loop)
    (hlb : (t.handle b).loop = (s.handle b).loop) : t.uvSignalLe a b ↔ s.uvSignalLe a b := by
  unfold uvSignalLe
  rw [ha, hb, hla, hlb]

theorem uvSignalFirstHandle_eq_none (signum : ℤ) (h : s.tree.Pairwise s.uvSignalLe) :
    s.uvSignalFirstHandle signum = none ↔ ∀ k ∈ s.tree, (s.handle k).signum ≠ signum :=
  head_dropWhile_eq_none h

namespace Treed

section

variable (hs : Treed s)
include hs

theorem same (hsame : SameTree s t) : Treed t where
  registers := by
    rw [hsame.tree]
    apply hs.registers.congr
    · exact fun a b => uvSignalLe_iff (hsame.signum a) (hsame.signum b) (hsame.loop a) (hsame.loop b)
    · exact fun k => by rw [hsame.signum]
  registered signum := by
    rw [hsame.tree, hsame.registered, hs.registered]
    simp only [hsame.signum]
  starting i st hst := by
    rw [hsame.starting] at hst
    rw [hsame.loop, hsame.signum]
    exact hs.starting i st hst

theorem mem_erase_of_signum {signum : ℤ} {k : ι} (hk : k ∈ s.tree)
    (hsignum : (s.handle k).signum = signum) (hne : signum ≠ (s.handle h).signum) :
    k ∈ s.tree.erase h := by
  apply hs.registers.nodup.mem_erase_iff.mpr
  refine ⟨?_, hk⟩
  rintro rfl
  exact hne hsignum.symm

theorem removed {r : ℤ → Bool} {a : Bool}
    (hr : ∀ signum, r signum = true ↔ ∃ k ∈ s.tree.erase h, (s.handle k).signum = signum) :
    Treed ({ s with tree := s.tree.erase h, registered := r }.setHandle h
      { s.handle h with signum := 0, active := a }) := by
  have hother : ∀ k, k ≠ h → ({ s with tree := s.tree.erase h, registered := r }.setHandle h
      { s.handle h with signum := 0, active := a }).handle k = s.handle k := by
    intro k hk
    simp [hk]
  refine ⟨?_, fun signum => ?_, fun i st hst => ?_⟩
  · apply hs.registers.erase
    · intro a b ha hb
      apply uvSignalLe_iff
      · rw [hother a ha]
      · rw [hother b hb]
      · rw [hother a ha]
      · rw [hother b hb]
    · intro k
      by_cases hk : k = h
      · simp [hk]
      · simp [hk]
  · apply (hr signum).trans
    apply exists_congr
    intro k
    apply and_congr_right
    intro hk
    rw [hother k (hs.registers.nodup.mem_erase_iff.mp hk).1]
  · obtain ⟨hloop, hsignum, hnonzero⟩ := hs.starting i st hst
    by_cases hk : st.handle = h
    · subst hk
      simpa using ⟨hloop, hnonzero⟩
    · rw [hother _ hk]
      exact ⟨hloop, hsignum, hnonzero⟩

theorem stopHandle (hstep : s.uvSignalStopHandle h = some t) :
    Treed t ∧ (t.handle h).signum = 0 ∧ (∀ k, (t.handle k).loop = (s.handle k).loop) ∧
      t.loop = s.loop := by
  unfold uvSignalStopHandle at hstep
  by_cases hzero : (s.handle h).signum = 0
  · rw [if_pos hzero] at hstep
    cases hstep
    exact ⟨hs, hzero, fun _ => rfl, rfl⟩
  rw [if_neg hzero] at hstep
  by_cases hwalk : s.walk = none
  swap
  · rw [if_neg hwalk] at hstep
    cases hstep
  have hloop : ∀ (r : ℤ → Bool) (a : Bool) (k : ι),
      (({ s with tree := s.tree.erase h, registered := r }.setHandle h
        { s.handle h with signum := 0, active := a }).handle k).loop = (s.handle k).loop := by
    intro r a k
    by_cases hk : k = h
    · simp [hk]
    · simp [hk]
  have hfirst := uvSignalFirstHandle_eq_none (s := { s with tree := s.tree.erase h })
    (s.handle h).signum (hs.registers.sorted.sublist erase_sublist)
  dsimp only at hstep
  split_ifs at hstep with hnone
  · cases hstep
    refine ⟨hs.removed fun signum => ?_, by simp, hloop _ _, rfl⟩
    by_cases hsignum : signum = (s.handle h).signum
    · rw [hsignum, update_self]
      apply iff_of_false Bool.false_ne_true
      rintro ⟨k, hk, heq⟩
      exact hfirst.mp hnone k hk heq
    · rw [update_of_ne hsignum, hs.registered]
      constructor
      · rintro ⟨k, hk, heq⟩
        exact ⟨k, hs.mem_erase_of_signum hk heq hsignum, heq⟩
      · rintro ⟨k, hk, heq⟩
        exact ⟨k, mem_of_mem_erase hk, heq⟩
  · cases hstep
    refine ⟨hs.removed fun signum => ?_, by simp, hloop _ _, rfl⟩
    rw [hs.registered]
    constructor
    · rintro ⟨k, hk, heq⟩
      by_cases hsignum : signum = (s.handle h).signum
      · by_contra habs
        apply hnone
        apply hfirst.mpr
        intro j hj hsame
        exact habs ⟨j, hj, hsame.trans hsignum.symm⟩
      · exact ⟨k, hs.mem_erase_of_signum hk heq hsignum, heq⟩
    · rintro ⟨k, hk, heq⟩
      exact ⟨k, mem_of_mem_erase hk, heq⟩

theorem uvSignalStop (hstep : s.uvSignalStop h = some t) : Treed t := by
  unfold Signals.uvSignalStop at hstep
  split_ifs at hstep
  obtain ⟨u, hu, rfl⟩ := map_eq_some_iff.mp hstep
  apply (hs.stopHandle hu).1.same
  apply SameTree.setHandle
  all_goals rfl

theorem uvClose (hstep : s.uvClose h = some t) : Treed t := by
  unfold Signals.uvClose at hstep
  split_ifs at hstep
  obtain ⟨u, hu, rfl⟩ := map_eq_some_iff.mp hstep
  apply (hs.stopHandle hu).1.same
  apply SameTree.trans _ (SameTree.closeIfDispatched _ h)
  apply SameTree.setHandle
  all_goals rfl

theorem uvSignalStart {signalCb : Option γ} {signum : ℤ}
    (hstep : s.uvSignalStart h signalCb signum = some t) : Treed t := by
  unfold Signals.uvSignalStart at hstep
  split_ifs at hstep with hguard hzero hsame
  · cases hstep
    exact hs
  · cases hstep
    apply hs.same
    apply SameTree.setHandle
    all_goals rfl
  · obtain ⟨u, hu, rfl⟩ := map_eq_some_iff.mp hstep
    obtain ⟨hu', hstopped, hloop, -⟩ := hs.stopHandle hu
    refine { hu' with starting := fun i st hst => ?_ }
    by_cases hi : i = (u.handle h).loop
    · rw [hi, setLoop_loop, update_self] at hst
      cases hst
      exact ⟨hi.symm, hstopped, hzero⟩
    · rw [setLoop_loop, update_of_ne hi] at hst
      exact hu'.starting i st hst

theorem inserted {i : Λ} {st : Starting ι γ} (hst : (s.loop i).starting = some st)
    {r : ℤ → Bool} (hr : ∀ signum, r signum = true ↔
      signum = st.signum ∨ ∃ k ∈ s.tree, (s.handle k).signum = signum)
    (hu : u = { s.setLoop i { s.loop i with starting := none } with registered := r }.setHandle
      st.handle { s.handle st.handle with
        signum := st.signum, signalCb := st.signalCb, active := true, started := true }) :
    Treed { u with tree := u.tree.orderedInsert u.uvSignalLe st.handle } := by
  obtain ⟨hloop, hzero, hnonzero⟩ := hs.starting i st hst
  have hself : (u.handle st.handle).signum = st.signum ∧ (u.handle st.handle).loop = i := by
    simpa [hu] using hloop
  have hother : ∀ k, k ≠ st.handle → u.handle k = s.handle k := by
    intro k hk
    simp [hu, hk]
  have htree : u.tree = s.tree := by
    rw [hu]
    rfl
  have hnew : st.handle ∉ s.tree := fun hmem => (hs.registers.mem _).mp hmem hzero
  have hregisters : Registers u.uvSignalLe (fun k => (u.handle k).signum ≠ 0)
      (s.tree.orderedInsert u.uvSignalLe st.handle) := by
    apply hs.registers.insert (not_not.mpr hzero)
    · intro a b ha hb
      apply uvSignalLe_iff
      · rw [hother a ha]
      · rw [hother b hb]
      · rw [hother a ha]
      · rw [hother b hb]
    · intro k
      by_cases hk : k = st.handle
      · simp [hk, hself.1, hnonzero]
      · simp [hk, hother k hk]
  refine ⟨?_, fun signum => ?_, fun j st' hst' => ?_⟩
  · rw [htree]
    exact hregisters
  · have hregistered : u.registered = r := by
      rw [hu]
      rfl
    rw [hregistered, htree, hr]
    simp only [mem_orderedInsert, exists_eq_or_imp, hself.1]
    apply or_congr eq_comm
    apply exists_congr
    intro k
    apply and_congr_right
    intro hk
    rw [hother k (ne_of_mem_of_not_mem hk hnew)]
  · have hne : j ≠ i := by
      rintro rfl
      rw [hu] at hst'
      simp [Signals.setHandle] at hst'
    have hold : (s.loop j).starting = some st' := by
      rw [hu] at hst'
      simpa [Signals.setHandle, hne] using hst'
    obtain ⟨hloop', hzero', hnonzero'⟩ := hs.starting j st' hold
    have hk : st'.handle ≠ st.handle := by
      intro heq
      rw [heq, hloop] at hloop'
      exact hne hloop'.symm
    rw [hother _ hk]
    exact ⟨hloop', hzero', hnonzero'⟩

theorem uvSignalRegister {i : Λ} {fails : Bool}
    (hstep : s.uvSignalRegister i fails = some t) : Treed t := by
  unfold Signals.uvSignalRegister at hstep
  split at hstep
  · cases hstep
  next h signalCb signum hst =>
    dsimp only at hstep
    have hfirst := uvSignalFirstHandle_eq_none signum hs.registers.sorted
    split_ifs at hstep with hwalk hfails hnone
    · cases hstep
      refine { hs with starting := fun j st hst' => ?_ }
      by_cases hj : j = i
      · rw [hj, setLoop_loop, update_self] at hst'
        cases hst'
      · rw [setLoop_loop, update_of_ne hj] at hst'
        exact hs.starting j st hst'
    · cases hstep
      refine hs.inserted hst (r := Function.update s.registered signum true) (fun signum' => ?_) rfl
      by_cases hsignum : signum' = signum
      · simp [hsignum]
      · simp [hsignum, hs.registered]
    · cases hstep
      refine hs.inserted hst (r := s.registered) (fun signum' => ?_) rfl
      rw [hs.registered]
      refine (or_iff_right_of_imp ?_).symm
      rintro rfl
      by_contra habs
      apply hnone
      apply hfirst.mpr
      intro k hk heq
      exact habs ⟨k, hk, heq⟩

end

theorem init (hs : LoopInit s) : Treed s := by
  obtain ⟨htree, -, hhandle, hloop⟩ := hs.init
  refine ⟨⟨?_, fun k => ?_, ?_⟩, fun signum => ?_, fun i st hst => ?_⟩
  · rw [htree]
    exact nodup_nil
  · simp [htree, (hhandle k).1]
  · rw [htree]
    exact .nil
  · simp [htree, hs.registered signum]
  · cases (hloop i).2.2.2.1.symm.trans hst

theorem step {e : LoopEvent Λ ι γ} (hs : Treed s) (hstep : LoopStep capacity s e t) : Treed t := by
  cases e with
  | cleanup k =>
    change s.uvSignalLoopCleanup k = some t at hstep
    unfold uvSignalLoopCleanup at hstep
    split_ifs at hstep
    exact (hs.stopHandle hstep).1
  | event e =>
    by_cases hcall : (∃ k signalCb signum, e = .start k signalCb signum) ∨
        (∃ i fails, e = .register i fails) ∨ (∃ k, e = .stop k) ∨ ∃ k, e = .close k
    · obtain ⟨k, signalCb, signum, rfl⟩ | ⟨i, fails, rfl⟩ | ⟨k, rfl⟩ | ⟨k, rfl⟩ := hcall
      · exact hs.uvSignalStart hstep
      · exact hs.uvSignalRegister hstep
      · exact hs.uvSignalStop hstep
      · exact hs.uvClose hstep
    · simp only [not_or, not_exists] at hcall
      exact hs.same (.of_step hstep hcall.1 hcall.2.1 hcall.2.2.1 hcall.2.2.2)

theorem of_reachable (h : Reachable LoopInit (LoopStep capacity) s) : Treed s :=
  h.invariant (fun _ => init) fun _ _ _ _ => step

end Treed

end LibuvWorks.Unix.Signals
