import LibuvWorks.Lib.Register
import LibuvWorks.Lib.Transition
import Mathlib.Data.List.Count

/-!
# The signal tree: `win/signal.c`

The tree is shared by the loops of the process, and its lock makes `uv_signal_stop` and the second
half of `uv_signal_start` critical sections. `signal_cb` and the dispatching of signals are left
out; `uv__loop_close` leaves signal handles alone.
-/
namespace LibuvWorks.Win

open List
open Function (update update_of_ne update_self)
open Transition Register

def sighup : ℤ := 1
def sigint : ℤ := 2
def sigill : ℤ := 4
def sigabrtCompat : ℤ := 6
def sigfpe : ℤ := 8
def sigsegv : ℤ := 11
def sigterm : ℤ := 15
def sigbreak : ℤ := 21
def sigabrt : ℤ := 22
def sigwinch : ℤ := 28

def controlSignals : List ℤ := [sigint, sigbreak, sighup]

def otherSignals : List ℤ := [sigwinch, sigill, sigabrtCompat, sigfpe, sigsegv, sigterm, sigabrt]

/-- The fields of `uv_signal_t` that registering a signal reads and writes. -/
structure WinSignal (Λ : Type*) where
  loop : Λ
  signum : ℤ
  active : Bool
  closing : Bool

/-- The process. `hooked` says that the control handler is hooked, and `starting` has the call of
`uv_signal_start` that a loop is in and that has not yet registered its handle. -/
structure SignalTree (Λ ι : Type*) where
  handle : ι → WinSignal Λ
  tree : List ι
  controlHandlerRefs : ℤ
  hooked : Bool
  starting : Λ → Option (ι × ℤ)

namespace SignalTree

variable {Λ ι : Type*} [LinearOrder Λ] [LinearOrder ι] (s : SignalTree Λ ι)

def setHandle (h : ι) (v : WinSignal Λ) : SignalTree Λ ι :=
  { s with handle := update s.handle h v }

/-- `uv__signal_compare` is not positive. -/
def uvSignalLe (a b : ι) : Prop :=
  (s.handle a).signum < (s.handle b).signum ∨ (s.handle a).signum = (s.handle b).signum ∧
    ((s.handle a).loop < (s.handle b).loop ∨ (s.handle a).loop = (s.handle b).loop ∧ a ≤ b)

instance : DecidableRel s.uvSignalLe := fun _ _ => inferInstanceAs (Decidable (_ ∨ _))

/-- `uv__signal_register_control_handler`, where `hooks` is what `SetConsoleCtrlHandler` returns;
`none` is an error. -/
def uvSignalRegisterControlHandler (hooks : Bool) : Option (SignalTree Λ ι) :=
  if 0 < s.controlHandlerRefs then some { s with controlHandlerRefs := s.controlHandlerRefs + 1 }
  else if hooks then some { s with controlHandlerRefs := s.controlHandlerRefs + 1, hooked := true }
  else none

/-- `uv__signal_unregister_control_handler`; `none` if an assertion fails. A handler that is not
hooked cannot be unhooked. -/
def uvSignalUnregisterControlHandler : Option (SignalTree Λ ι) :=
  if 1 < s.controlHandlerRefs then some { s with controlHandlerRefs := s.controlHandlerRefs - 1 }
  else if s.controlHandlerRefs ≠ 1 ∨ s.hooked = false then none
  else some { s with controlHandlerRefs := s.controlHandlerRefs - 1, hooked := false }

/-- `uv__signal_register`; `none` is an error. -/
def uvSignalRegister (signum : ℤ) (hooks : Bool) : Option (SignalTree Λ ι) :=
  if signum ∈ controlSignals then s.uvSignalRegisterControlHandler hooks
  else if signum ∈ otherSignals then some s
  else none

/-- `uv__signal_unregister`; `none` if an assertion fails. -/
def uvSignalUnregister (signum : ℤ) : Option (SignalTree Λ ι) :=
  if signum ∈ controlSignals then s.uvSignalUnregisterControlHandler
  else if signum ∈ otherSignals then some s
  else none

/-- `uv_signal_stop`; `none` if an assertion fails. -/
def uvSignalStop (h : ι) : Option (SignalTree Λ ι) :=
  if (s.handle h).signum = 0 then some s
  else
    (s.uvSignalUnregister (s.handle h).signum).bind fun s =>
      if h ∉ s.tree then none
      else
        some ({ s with tree := s.tree.erase h }.setHandle h
          { s.handle h with signum := 0, active := false })

/-- `uv_signal_start`, up to the critical section that registers the handle. -/
def uvSignalStart (h : ι) (signum : ℤ) : Option (SignalTree Λ ι) :=
  if signum = 0 then some s
  else if signum = (s.handle h).signum then some s
  else
    (s.uvSignalStop h).map fun s =>
      { s with starting := update s.starting (s.handle h).loop (some (h, signum)) }

/-- The rest of it. -/
def uvSignalStartRegister (i : Λ) (hooks : Bool) : Option (SignalTree Λ ι) :=
  match s.starting i with
  | none => none
  | some (h, signum) =>
    let s := { s with starting := update s.starting i none }
    match s.uvSignalRegister signum hooks with
    | none => some s
    | some s =>
      let s := s.setHandle h { s.handle h with signum := signum, active := true }
      some { s with tree := s.tree.orderedInsert s.uvSignalLe h }

/-- `uv_signal_close` without the endgame. -/
def uvSignalClose (h : ι) : Option (SignalTree Λ ι) :=
  (s.uvSignalStop h).map fun s => s.setHandle h { s.handle h with closing := true }

/-- The calls, and the second half of `uv_signal_start` on a loop. -/
inductive Event (Λ ι : Type*) where
  | start (h : ι) (signum : ℤ) : Event Λ ι
  | register (i : Λ) (hooks : Bool) : Event Λ ι
  | stop (h : ι) : Event Λ ι
  | close (h : ι) : Event Λ ι

/-- A handle is used by the thread of its loop, and not started or closed once it is closing. -/
def Enabled : Event Λ ι → Prop
  | .start h _ => s.starting (s.handle h).loop = none ∧ (s.handle h).closing = false
  | .register i _ => s.starting i ≠ none
  | .stop h => s.starting (s.handle h).loop = none
  | .close h => s.starting (s.handle h).loop = none ∧ (s.handle h).closing = false

instance (e : Event Λ ι) : Decidable (s.Enabled e) := by
  cases e <;> unfold Enabled <;> infer_instance

def next : Event Λ ι → Option (SignalTree Λ ι)
  | .start h signum => s.uvSignalStart h signum
  | .register i hooks => s.uvSignalStartRegister i hooks
  | .stop h => s.uvSignalStop h
  | .close h => s.uvSignalClose h

def step (e : Event Λ ι) : Option (SignalTree Λ ι) := if s.Enabled e then s.next e else none

def Step (s : SignalTree Λ ι) (e : Event Λ ι) (t : SignalTree Λ ι) : Prop := s.step e = some t

structure Init (s : SignalTree Λ ι) : Prop where
  signum : ∀ h, (s.handle h).signum = 0
  tree : s.tree = []
  controlHandlerRefs : s.controlHandlerRefs = 0
  hooked : s.hooked = false
  starting : ∀ i, s.starting i = none

/-! ### The tree and the control handler -/

variable {s} {t u : SignalTree Λ ι} {e : Event Λ ι} {h : ι}

instance : Std.Total s.uvSignalLe :=
  inferInstanceAs (Std.Total (FieldsLe (fun k => (s.handle k).signum) fun k => (s.handle k).loop))

instance : IsTrans ι s.uvSignalLe :=
  inferInstanceAs (IsTrans ι (FieldsLe (fun k => (s.handle k).signum) fun k => (s.handle k).loop))

def watchesControl (s : SignalTree Λ ι) (h : ι) : Bool := (s.handle h).signum ∈ controlSignals

/-- The tree has the handles that watch a signal, the control handler is hooked for those that need
it, and a handle that is about to be registered watches none. -/
structure Treed (s : SignalTree Λ ι) : Prop where
  registers : Registers s.uvSignalLe (fun k => (s.handle k).signum ≠ 0) s.tree
  refs : s.controlHandlerRefs = s.tree.countP s.watchesControl
  hooked : s.hooked = true ↔ 0 < s.controlHandlerRefs
  valid : ∀ k ∈ s.tree, (s.handle k).signum ∈ controlSignals ∨ (s.handle k).signum ∈ otherSignals
  starting : ∀ i h signum, s.starting i = some (h, signum) →
    (s.handle h).loop = i ∧ (s.handle h).signum = 0 ∧ signum ≠ 0

theorem uvSignalLe_iff {a b : ι} (ha : t.handle a = s.handle a) (hb : t.handle b = s.handle b) :
    t.uvSignalLe a b ↔ s.uvSignalLe a b := by
  unfold uvSignalLe
  rw [ha, hb]

omit [LinearOrder ι] [LinearOrder Λ] in
theorem countP_watchesControl {xs : List ι} (hsame : ∀ k ∈ xs, t.handle k = s.handle k) :
    xs.countP t.watchesControl = xs.countP s.watchesControl := by
  apply countP_congr
  intro k hk
  unfold watchesControl
  rw [hsame k hk]

omit [LinearOrder Λ] in
theorem setHandle_of_ne {v : WinSignal Λ} {k : ι} (hk : k ≠ h) :
    (s.setHandle h v).handle k = s.handle k := update_of_ne hk ..

namespace Treed

section

variable (hs : Treed s) {signum : ℤ}
include hs

theorem uvSignalUnregister (hmem : h ∈ s.tree) :
    ∃ hooked, s.uvSignalUnregister (s.handle h).signum = some { s with
        controlHandlerRefs := s.controlHandlerRefs - if s.watchesControl h then 1 else 0
        hooked := hooked } ∧
      (hooked = true ↔ 0 < s.controlHandlerRefs - if s.watchesControl h then 1 else 0) := by
  unfold SignalTree.uvSignalUnregister
  by_cases hcontrol : (s.handle h).signum ∈ controlSignals
  · have hwatches : s.watchesControl h = true := by simpa [watchesControl] using hcontrol
    have hcount : 0 < s.tree.countP s.watchesControl := countP_pos_iff.mpr ⟨h, hmem, hwatches⟩
    have hrefs := hs.refs
    rw [if_pos hcontrol, if_pos hwatches]
    unfold uvSignalUnregisterControlHandler
    by_cases hmany : 1 < s.controlHandlerRefs
    · rw [if_pos hmany]
      refine ⟨s.hooked, rfl, hs.hooked.trans ?_⟩
      omega
    · have hhooked : s.hooked = true := hs.hooked.mpr (by omega)
      rw [if_neg hmany, if_neg (by simp [hhooked]; omega)]
      refine ⟨false, rfl, ?_⟩
      apply iff_of_false Bool.false_ne_true
      omega
  · have hwatches : ¬ s.watchesControl h = true := by simpa [watchesControl] using hcontrol
    rw [if_neg hcontrol, if_pos ((hs.valid h hmem).resolve_left hcontrol), if_neg hwatches,
        Int.sub_zero]
    exact ⟨s.hooked, rfl, hs.hooked⟩

theorem uvSignalStop :
    ∃ t, s.uvSignalStop h = some t ∧ Treed t ∧ (t.handle h).signum = 0 ∧
      (t.handle h).loop = (s.handle h).loop ∧ t.starting = s.starting := by
  unfold SignalTree.uvSignalStop
  by_cases hzero : (s.handle h).signum = 0
  · rw [if_pos hzero]
    exact ⟨s, rfl, hs, hzero, rfl, rfl⟩
  have hmem : h ∈ s.tree := (hs.registers.mem h).mpr hzero
  obtain ⟨hooked, hunregister, hhooked⟩ := hs.uvSignalUnregister hmem
  rw [if_neg hzero, hunregister, Option.bind_some, if_neg (not_not.mpr hmem)]
  have hother : ∀ k ∈ s.tree.erase h, k ≠ h := fun k hk =>
    (hs.registers.nodup.mem_erase_iff.mp hk).1
  refine ⟨_, rfl,
    ⟨?_, ?_, hhooked, fun k hk => ?_, fun i k signum hst => ?_⟩, by simp [SignalTree.setHandle],
    by simp [SignalTree.setHandle], rfl⟩
  · apply hs.registers.erase
    · intro a b ha hb
      exact uvSignalLe_iff (setHandle_of_ne ha) (setHandle_of_ne hb)
    · intro k
      by_cases hk : k = h
      · simp [hk, SignalTree.setHandle]
      · simp [hk, SignalTree.setHandle]
  · have hcount := (perm_cons_erase hmem).countP_eq s.watchesControl
    have hrefs := hs.refs
    rw [countP_cons] at hcount
    change s.controlHandlerRefs - _ = ((s.tree.erase h).countP _ : ℤ)
    rw [countP_watchesControl fun k hk => setHandle_of_ne (hother k hk)]
    change _ = ((s.tree.erase h).countP s.watchesControl : ℤ)
    split_ifs at hcount ⊢ <;> omega
  · rw [setHandle_of_ne (hother k hk)]
    exact hs.valid k (mem_of_mem_erase hk)
  · obtain ⟨hloop, hsignum, hnonzero⟩ := hs.starting i k signum hst
    by_cases hk : k = h
    · subst hk
      simpa [SignalTree.setHandle] using ⟨hloop, hnonzero⟩
    · rw [setHandle_of_ne hk]
      exact ⟨hloop, hsignum, hnonzero⟩

theorem uvSignalStart : ∃ t, s.uvSignalStart h signum = some t ∧ Treed t := by
  unfold SignalTree.uvSignalStart
  split_ifs with hzero hsame
  · exact ⟨s, rfl, hs⟩
  · exact ⟨s, rfl, hs⟩
  · obtain ⟨u, hu, hu', hstopped, hloop, hstarting⟩ := hs.uvSignalStop (h := h)
    rw [hu]
    refine ⟨_, rfl, hu'.registers, hu'.refs, hu'.hooked, hu'.valid, fun i k signum' hst => ?_⟩
    dsimp only at hst
    by_cases hi : i = (u.handle h).loop
    · rw [hi, update_self] at hst
      cases hst
      exact ⟨hi.symm, hstopped, hzero⟩
    · rw [update_of_ne hi] at hst
      exact hu'.starting i k signum' hst

theorem uvSignalRegister {hooks : Bool} (hu : s.uvSignalRegister signum hooks = some u) :
    ∃ hooked, u = { s with
        controlHandlerRefs := s.controlHandlerRefs + if signum ∈ controlSignals then 1 else 0
        hooked := hooked } ∧
      (hooked = true ↔ 0 < s.controlHandlerRefs + if signum ∈ controlSignals then 1 else 0) ∧
      (signum ∈ controlSignals ∨ signum ∈ otherSignals) := by
  have hnonneg : 0 ≤ s.controlHandlerRefs := by
    rw [hs.refs]
    exact Int.natCast_nonneg _
  unfold SignalTree.uvSignalRegister uvSignalRegisterControlHandler at hu
  split_ifs at hu with hcontrol hmany hhooks hother
  · cases hu
    refine ⟨s.hooked, by rw [if_pos hcontrol], hs.hooked.trans ?_, .inl hcontrol⟩
    rw [if_pos hcontrol]
    omega
  · cases hu
    refine ⟨true, by rw [if_pos hcontrol], ?_, .inl hcontrol⟩
    rw [if_pos hcontrol]
    exact iff_of_true rfl (by omega)
  · cases hu
    refine ⟨s.hooked, ?_, ?_, .inr hother⟩
    · rw [if_neg hcontrol, Int.add_zero]
    · rw [if_neg hcontrol, Int.add_zero]
      exact hs.hooked

theorem clearStarting (i : Λ) :
    Treed { s with starting := update s.starting i none } := by
  refine { hs with starting := fun j k signum hst => ?_ }
  by_cases hj : j = i
  · rw [hj] at hst
    cases (update_self ..).symm.trans hst
  · exact hs.starting j k signum ((update_of_ne hj ..).symm.trans hst)

/-- A handle that watches no signal, and is not about to be registered, is registered for one. -/
theorem inserted {refs : ℤ} {hooked : Bool}
    (hzero : (s.handle h).signum = 0) (hnonzero : signum ≠ 0)
    (hfree : ∀ i k signum', s.starting i = some (k, signum') → k ≠ h)
    (hrefs : refs = s.controlHandlerRefs + if signum ∈ controlSignals then 1 else 0)
    (hhooked : hooked = true ↔ 0 < refs) (hvalid : signum ∈ controlSignals ∨ signum ∈ otherSignals)
    (hu : u = { s with controlHandlerRefs := refs, hooked := hooked }.setHandle h
      { s.handle h with signum := signum, active := true }) :
    Treed { u with tree := u.tree.orderedInsert u.uvSignalLe h } := by
  have hself : (u.handle h).signum = signum := by simp [hu, SignalTree.setHandle]
  have hother : ∀ k, k ≠ h → u.handle k = s.handle k := by
    intro k hk
    rw [hu]
    exact setHandle_of_ne hk
  have htree : u.tree = s.tree := by
    rw [hu]
    rfl
  have hnew : ∀ k ∈ s.tree, k ≠ h := by
    rintro k hk rfl
    exact (hs.registers.mem k).mp hk hzero
  have hregisters : Registers u.uvSignalLe (fun k => (u.handle k).signum ≠ 0)
      (s.tree.orderedInsert u.uvSignalLe h) := by
    apply hs.registers.insert (not_not.mpr hzero)
    · exact fun a b ha hb => uvSignalLe_iff (hother a ha) (hother b hb)
    · intro k
      by_cases hk : k = h
      · simp [hk, hself, hnonzero]
      · simp [hk, hother k hk]
  refine ⟨?_, ?_, ?_, fun k hk => ?_, fun i k signum' hst => ?_⟩
  · rw [htree]
    exact hregisters
  · have hcount := (perm_orderedInsert u.uvSignalLe h s.tree).countP_eq u.watchesControl
    have hold := hs.refs
    rw [countP_cons, countP_watchesControl fun k hk => hother k (hnew k hk)] at hcount
    have hself' : u.watchesControl h = decide (signum ∈ controlSignals) := by
      rw [watchesControl, hself]
    have hrefs' : u.controlHandlerRefs = refs := by
      rw [hu]
      rfl
    change u.controlHandlerRefs = ((u.tree.orderedInsert u.uvSignalLe h).countP u.watchesControl : ℤ)
    rw [htree, hrefs', hrefs, hcount, hself']
    simp only [decide_eq_true_eq]
    split_ifs <;> omega
  · rw [hu]
    exact hhooked
  · dsimp only at hk
    rw [htree, mem_orderedInsert] at hk
    obtain rfl | hk := hk
    · dsimp only
      rw [hself]
      exact hvalid
    · dsimp only
      rw [hother k (hnew k hk)]
      exact hs.valid k hk
  · have hold : s.starting i = some (k, signum') := by
      rw [hu] at hst
      exact hst
    dsimp only
    rw [hother k (hfree i k signum' hold)]
    exact hs.starting i k signum' hold

theorem uvSignalStartRegister {i : Λ} {hooks : Bool}
    (hstarting : s.starting i ≠ none) :
    ∃ t, s.uvSignalStartRegister i hooks = some t ∧ Treed t := by
  unfold SignalTree.uvSignalStartRegister
  cases hst : s.starting i with
  | none => exact absurd hst hstarting
  | some call =>
    obtain ⟨h, signum⟩ := call
    obtain ⟨hloop, hzero, hnonzero⟩ := hs.starting i h signum hst
    have hcleared := hs.clearStarting i
    dsimp only
    cases hu : { s with starting := update s.starting i none }.uvSignalRegister signum hooks with
    | none => exact ⟨_, rfl, hcleared⟩
    | some u =>
      obtain ⟨hooked, rfl, hhooked, hvalid⟩ := hcleared.uvSignalRegister hu
      refine ⟨_, rfl, hcleared.inserted hzero hnonzero ?_ rfl hhooked hvalid rfl⟩
      intro j k signum' hst' heq
      dsimp only at hst'
      by_cases hj : j = i
      · rw [hj, update_self] at hst'
        cases hst'
      · rw [update_of_ne hj] at hst'
        have hloop' := (hs.starting j k signum' hst').1
        rw [heq] at hloop'
        exact hj (hloop'.symm.trans hloop)

theorem uvSignalClose : ∃ t, s.uvSignalClose h = some t ∧ Treed t := by
  obtain ⟨u, hu, hu', -⟩ := hs.uvSignalStop (h := h)
  have hsame : ∀ k, ((u.setHandle h { u.handle h with closing := true }).handle k).signum =
      (u.handle k).signum ∧ ((u.setHandle h { u.handle h with closing := true }).handle k).loop =
      (u.handle k).loop := by
    intro k
    by_cases hk : k = h
    · simp [hk, setHandle]
    · simp [hk, setHandle]
  unfold SignalTree.uvSignalClose
  rw [hu]
  refine ⟨_, rfl, ?_, ?_, hu'.hooked, fun k hk => ?_, fun i k signum hst => ?_⟩
  · apply hu'.registers.congr
    · intro a b
      unfold uvSignalLe
      rw [(hsame a).1, (hsame a).2, (hsame b).1, (hsame b).2]
    · exact fun k => by rw [(hsame k).1]
  · apply hu'.refs.trans
    apply congrArg
    apply countP_congr
    intro k _
    unfold watchesControl
    rw [(hsame k).1]
  · rw [(hsame k).1]
    exact hu'.valid k hk
  · rw [(hsame k).1, (hsame k).2]
    exact hu'.starting i k signum hst

theorem next (henabled : s.Enabled e) : ∃ t, s.next e = some t ∧ Treed t := by
  cases e with
  | start k signum => exact hs.uvSignalStart
  | register i hooks => exact hs.uvSignalStartRegister henabled
  | stop k =>
    obtain ⟨t, ht, htreed, -⟩ := hs.uvSignalStop (h := k)
    exact ⟨t, ht, htreed⟩
  | close k => exact hs.uvSignalClose

end

theorem init (hs : Init s) : Treed s := by
  refine ⟨⟨?_, fun k => ?_, ?_⟩, ?_, ?_, fun k hk => ?_, fun i k signum hst => ?_⟩
  · rw [hs.tree]
    exact nodup_nil
  · simp [hs.tree, hs.signum k]
  · rw [hs.tree]
    exact .nil
  · rw [hs.controlHandlerRefs, hs.tree]
    rfl
  · simp [hs.controlHandlerRefs, hs.hooked]
  · rw [hs.tree] at hk
    cases hk
  · cases (hs.starting i).symm.trans hst

theorem of_reachable (h : Reachable Init Step s) : Treed s := by
  apply h.invariant_of_next
  · exact fun _ => init
  · exact fun s e hs henabled => hs.next henabled

end Treed

end SignalTree

end LibuvWorks.Win
