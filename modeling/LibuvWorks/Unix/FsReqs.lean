import LibuvWorks.Lib.Custody
import LibuvWorks.Unix.FsReq
import Mathlib.Algebra.GroupWithZero.Nat

/-!
# Who frees the memory of a request

The worker frees the array of buffers, and `uv_fs_req_cleanup` the paths and the result. So every
block that a request has allocated is accounted for until then, as long as the worker does run for a
request with an array.
-/

namespace LibuvWorks.Unix

open Custody Transition List Option

namespace FsReq

variable {iovmax : ℕ} {s t : FsReq} {a : FsAttempt} {n : ℕ} {r errno : ℤ}
  {held rest ps bs ds : List ℕ}

/-! ## Blocks -/

def Holds (s : FsReq) (held : List ℕ) : Prop := Accounts s.allocated s.frees [] held

theorem Holds.readable (h : Holds s held) (hn : n ∈ held) : s.readable (.block n) = true :=
  decide_eq_true (h.of_mem_held hn)

theorem Holds.free {p : FsPtr} (h : Holds s (n :: rest)) (hp : p = .block n) :
    s.free p = some { s with frees := n :: s.frees } ∧
      Holds { s with frees := n :: s.frees } rest := by
  subst hp
  refine ⟨if_pos (h.readable mem_cons_self), ?_⟩
  have hheld : Accounts s.allocated s.frees [] ([n] ++ rest) := h
  exact hheld.release

inductive PathHeld (path : FsPtr) (cb : Bool) (t : FsType) : List ℕ → Prop
  | null : path = .null → PathHeld path cb t []
  | user : path = .user → cb = false → t ≠ .mkdtemp → PathHeld path cb t []
  | block (n : ℕ) : path = .block n → cb = true ∨ t = .mkdtemp → PathHeld path cb t [n]

inductive BufsHeld (t : FsType) (bufs : FsPtr) (off : ℕ) : List ℕ → Prop
  | other : t.hasBufs = false → BufsHeld t bufs off []
  | small : t.hasBufs = true → bufs = .bufsml → off = 0 → BufsHeld t bufs off []
  | block (n : ℕ) : t.hasBufs = true → bufs = .block n → off = 0 → BufsHeld t bufs off [n]

inductive DataHeld (ptr : FsPtr) (t : FsType) (result : ℤ) (nbufs : ℕ) (dents : List ℕ) :
    List ℕ → Prop
  | null : ptr = .null → (t = .scandir → result = 0 → nbufs = 0) →
    DataHeld ptr t result nbufs dents []
  | statbuf : ptr = .statbuf → t ≠ .scandir → DataHeld ptr t result nbufs dents []
  | string (n : ℕ) : ptr = .block n → t ≠ .scandir → DataHeld ptr t result nbufs dents [n]
  | dents (n : ℕ) : ptr = .block n → t = .scandir → (dents.length : ℤ) = result →
    nbufs ≤ dents.length → DataHeld ptr t result nbufs dents (n :: dents.drop (nbufs - 1))

abbrev Result (s : FsReq) (ds : List ℕ) : Prop :=
  DataHeld s.ptr s.fsType s.result s.nbufs s.dents ds

structure Pending (s : FsReq) (ps bs : List ℕ) : Prop where
  ptr : s.ptr = .null
  result : s.result = 0
  path : PathHeld s.path s.cb s.fsType ps
  hasPath : s.fsType.hasFile = false → s.path ≠ .null
  bufs : BufsHeld s.fsType s.bufs s.bufsOff bs
  holds : Holds s (ps ++ bs)

inductive Stage (s : FsReq) : Prop
  | unused : s.phase = .unused → Holds s [] → Stage s
  | idle : s.phase = .refused ∨ s.phase = .clean → s.path = .null → s.ptr = .null → Holds s [] →
    Stage s
  | queued (ps bs : List ℕ) : s.phase = .queued → (s.nbufs ≤ 4 → bs = []) → s.Pending ps bs →
    Stage s
  | working (ps bs : List ℕ) : s.phase = .working → s.Pending ps bs → Stage s
  | cancelled (ps : List ℕ) : s.phase = .worked (-ecanceled) → s.Pending ps [] → Stage s
  | done (ps ds : List ℕ) : s.phase = .worked 0 ∨ s.phase = .answered →
    PathHeld s.path s.cb s.fsType ps → s.Result ds → Holds s (ps ++ ds) → Stage s

/-! ## Submission -/

theorem Stage.post (h : Pending s ps bs) (hsmall : s.nbufs ≤ 4 → bs = []) : Stage s.post := by
  have hpost : Pending s.post ps bs := { h with }
  cases hcb : s.cb with
  | true => exact .queued ps bs (if_pos hcb) hsmall hpost
  | false =>
    have hnot : ¬s.cb = true := by simp [hcb]
    exact .working ps bs (if_neg hnot) hpost

theorem Stage.submitFile (h : Holds s []) {t : FsType} (hfile : t.hasFile = true)
    (hbufs : t.hasBufs = false) (cb : Bool) : Stage (s.submitFile t cb) := by
  refine .post (?_ : Pending _ [] []) fun _ => rfl
  exact ⟨rfl, rfl, .null rfl, fun habs => absurd (hfile.symm.trans habs) nofun, .other hbufs, h⟩

theorem Stage.refused (h : Holds s []) (t : FsType) (cb : Bool) :
    Stage { s.init t cb with phase := .refused } := .idle (.inl rfl) rfl rfl h

theorem Stage.submitPath (h : Holds s []) {t : FsType} (hbufs : t.hasBufs = false)
    (ht : t ≠ .mkdtemp) (cb alloc : Bool) : Stage (s.submitPath t cb alloc) := by
  unfold FsReq.submitPath
  by_cases hcb : cb = false
  · rw [if_pos hcb]
    refine .post (?_ : Pending _ [] []) fun _ => rfl
    exact ⟨rfl, rfl, .user rfl hcb ht, fun _ => nofun, .other hbufs, h⟩
  rw [if_neg hcb]
  split_ifs with halloc
  · refine .post (?_ : Pending _ [s.allocated] []) fun _ => rfl
    have htrue : cb = true := by simpa using hcb
    exact ⟨rfl, rfl, .block _ rfl (.inl htrue), fun _ => nofun, .other hbufs, h.acquire⟩
  · exact .refused h t cb

theorem Stage.submitPath2 (h : Holds s []) {t : FsType} (hbufs : t.hasBufs = false)
    (ht : t ≠ .mkdtemp) (cb alloc : Bool) : Stage (s.submitPath2 t cb alloc) := by
  unfold FsReq.submitPath2
  by_cases hcb : cb = false
  · rw [if_pos hcb]
    refine .post (?_ : Pending _ [] []) fun _ => rfl
    exact ⟨rfl, rfl, .user rfl hcb ht, fun _ => nofun, .other hbufs, h⟩
  rw [if_neg hcb]
  split_ifs with halloc
  · refine .post (?_ : Pending _ [s.allocated] []) fun _ => rfl
    have htrue : cb = true := by simpa using hcb
    exact ⟨rfl, rfl, .block _ rfl (.inl htrue), fun _ => nofun, .other hbufs, h.acquire⟩
  · exact .refused h t cb

theorem Stage.uvFsMkdtemp (h : Holds s []) (cb alloc : Bool) : Stage (s.uvFsMkdtemp cb alloc) := by
  unfold FsReq.uvFsMkdtemp
  split_ifs with halloc
  · refine .post (?_ : Pending _ [s.allocated] []) fun _ => rfl
    exact ⟨rfl, rfl, .block _ rfl (.inr rfl), fun _ => nofun, .other rfl, h.acquire⟩
  · exact .refused h .mkdtemp cb

theorem Stage.submitBufs (h : Stage s) (hholds : Holds s []) {t : FsType}
    (hbufs : t.hasBufs = true) (cb bufsNull alloc : Bool) (nbufs : ℕ) :
    Stage (s.submitBufs t cb bufsNull alloc nbufs) := by
  have hfile : ∀ {p : Prop}, t.hasFile = false → p := by
    intro p habs
    cases t with
    | read | write => cases habs
    | _ => cases hbufs
  unfold FsReq.submitBufs
  by_cases hnone : bufsNull = true ∨ nbufs = 0
  · rw [if_pos hnone]
    exact h
  rw [if_neg hnone]
  by_cases hsmall : nbufs ≤ 4
  · rw [if_pos hsmall]
    refine .post (?_ : Pending _ [] []) fun _ => rfl
    exact ⟨rfl, rfl, .null rfl, fun habs => hfile habs, .small hbufs rfl rfl, hholds⟩
  rw [if_neg hsmall]
  split_ifs with halloc
  · refine .post (?_ : Pending _ [] [s.allocated]) fun habs => absurd habs hsmall
    exact ⟨rfl, rfl, .null rfl, fun habs => hfile habs, .block _ hbufs rfl rfl, hholds.acquire⟩
  · exact .idle (.inl rfl) rfl rfl hholds

theorem Stage.submit (h : Stage s) (hphase : s.phase = .unused ∨ s.phase = .clean) (t : FsType)
    (cb bufsNull alloc : Bool) (nbufs : ℕ) : Stage (s.submit t cb bufsNull alloc nbufs) := by
  have hholds : Holds s [] := by
    cases h with
    | unused _ hholds | idle _ _ _ hholds => exact hholds
    | queued _ _ habs | working _ _ habs | cancelled _ habs => simp [habs] at hphase
    | done _ _ habs => rcases habs with habs | habs <;> simp [habs] at hphase
  cases t with
  | read | write => exact h.submitBufs hholds rfl cb bufsNull alloc nbufs
  | mkdtemp => exact .uvFsMkdtemp hholds cb alloc
  | _ =>
    first
    | exact .submitFile hholds rfl rfl cb
    | exact .submitPath hholds rfl (fun habs => by cases habs) cb alloc
    | exact .submitPath2 hholds rfl (fun habs => by cases habs) cb alloc

/-! ## Work -/

theorem bufLoop_moved {results : ℕ → ℤ} : ∀ {fuel i left off nbufs : ℕ} {total : ℤ},
    0 ≤ total → (bufLoop iovmax results fuel i left off nbufs total).total < 0 →
    total = 0 ∧ (bufLoop iovmax results fuel i left off nbufs total).off = off
  | 0, _, _, _, _, _, htotal, hneg => absurd hneg (by simpa [bufLoop] using htotal)
  | fuel + 1, i, left, off, nbufs, total, htotal, hneg => by
    unfold bufLoop at hneg ⊢
    by_cases hleft : left = 0
    · rw [if_pos hleft] at hneg
      exact absurd hneg (by simpa using htotal)
    rw [if_neg hleft] at hneg ⊢
    by_cases hresult : results i ≤ 0
    · simp only [if_pos hresult] at hneg ⊢
      by_cases hzero : total = 0
      · exact ⟨hzero, trivial⟩
      · rw [if_neg hzero] at hneg
        omega
    · simp only [if_neg hresult] at hneg ⊢
      have hpos : 0 ≤ total + results i := by omega
      obtain ⟨habs, -⟩ := bufLoop_moved hpos hneg
      omega

theorem Stage.finish (hpath : PathHeld t.path t.cb t.fsType ps)
    (hdata : (t.finish r errno).Result ds) (hholds : Holds t (ps ++ ds)) :
    Stage (t.finish r errno) := by
  refine .done ps ds ?_ hpath hdata hholds
  cases hcb : t.cb with
  | true => exact .inl (if_pos hcb)
  | false => exact .inr (if_neg (by simp [hcb]))

theorem finish_ptr (hstat : t.fsType.isStat = false) : (t.finish r errno).ptr = t.ptr := by
  apply if_neg
  rintro ⟨-, habs⟩
  exact absurd (hstat.symm.trans habs) nofun

theorem Pending.bufs_eq (h : Pending s ps bs) (hbufs : s.fsType.hasBufs = true) :
    s.readable s.bufs = true ∧ s.bufsOff = 0 ∧
      (s.bufs = .bufsml ∧ bs = [] ∨ ∃ n, s.bufs = .block n ∧ bs = [n]) := by
  have hholds := h.holds
  cases h.bufs with
  | other habs => exact absurd (habs.symm.trans hbufs) nofun
  | small _ hptr hoff => exact ⟨by rw [hptr]; rfl, hoff, .inl ⟨hptr, rfl⟩⟩
  | block n _ hptr hoff =>
    refine ⟨?_, hoff, .inr ⟨n, hptr, rfl⟩⟩
    rw [hptr]
    exact hholds.readable (mem_append_right ps mem_cons_self)

/-- The state after a round of the loop in `uv__fs_work`. -/
def round (s : FsReq) (a : FsAttempt) (p : FsReq × ℤ) : FsReq :=
  if p.2 = -1 ∧ s.errnoOf a = eintr ∧ s.fsType ≠ .close then p.1 else p.1.finish p.2 (s.errnoOf a)

theorem Pending.uvFsBufIter (h : Pending s ps bs) (hphase : s.phase = .working)
    (hbufs : s.fsType.hasBufs = true) :
    ∃ p, s.uvFsBufIter iovmax a = some p ∧ Stage (s.round a p) := by
  have hkind : s.fsType = .read ∨ s.fsType = .write := by
    cases hty : s.fsType <;> simp [hty, FsType.hasBufs] at hbufs ⊢
  have hclose : s.fsType ≠ .close := by rcases hkind with h | h <;> simp [h]
  have hscandir : s.fsType ≠ .scandir := by rcases hkind with h | h <;> simp [h]
  have hstat : s.fsType.isStat = false := by rcases hkind with h | h <;> simp [h, FsType.isStat]
  have herrno : s.errnoOf a = a.errno := by
    apply if_neg
    rcases hkind with h | h <;> simp [h]
  obtain ⟨hread, hoff, hholds⟩ := h.bufs_eq hbufs
  unfold FsReq.uvFsBufIter
  rw [if_neg (by rw [hread]; nofun)]
  generalize hw : bufLoop iovmax a.results s.nbufs 0 s.nbufs s.bufsOff s.nbufs 0 = w
  by_cases hintr : a.errno = eintr ∧ w.total = -1
  · -- the call is repeated, with the array where it was
    have hmoved : w.off = s.bufsOff := by
      rw [← hw]
      refine (bufLoop_moved (Int.le_refl 0) ?_).2
      rw [hw, hintr.2]
      decide
    refine ⟨_, if_pos hintr, ?_⟩
    unfold round
    rw [herrno, if_pos ⟨hintr.2, hintr.1, hclose⟩]
    refine .working ps bs hphase { h with bufs := ?_ }
    rw [hmoved]
    exact h.bufs
  · have hround : ∀ t : FsReq, s.round a (t, w.total) = t.finish w.total a.errno := by
      intro t
      unfold round
      rw [herrno]
      exact if_neg fun habs => hintr ⟨habs.2.1, habs.1⟩
    rw [if_neg hintr, if_neg (not_not.mpr hoff)]
    have hnull : ∀ t : FsReq, t.ptr = .null → t.fsType = s.fsType →
        (t.finish w.total a.errno).Result [] := by
      intro t hptr hty
      refine .null ((finish_ptr (hty ▸ hstat)).trans hptr) fun habs => ?_
      exact absurd (hty.symm.trans habs) hscandir
    rcases hholds with ⟨hptr, rfl⟩ | ⟨n, hptr, rfl⟩
    · rw [if_pos hptr]
      refine ⟨_, rfl, ?_⟩
      rw [hround]
      exact .finish h.path (hnull _ h.ptr rfl) h.holds
    · have hne : s.bufs ≠ .bufsml := by simp [hptr]
      have hperm : Holds s (n :: ps) := h.holds.perm (perm_append_comm)
      obtain ⟨hfree, hrest⟩ := hperm.free hptr
      rw [if_neg hne, hfree]
      refine ⟨_, rfl, ?_⟩
      rw [hround]
      refine .finish h.path (hnull _ h.ptr rfl) ?_
      rw [append_nil]
      exact hrest

theorem Pending.path_readable (h : Pending s ps bs) (hfile : s.fsType.hasFile = false) :
    s.readable s.path = true := by
  have hholds := h.holds
  have hne := h.hasPath hfile
  cases h.path with
  | null habs => exact absurd habs hne
  | user hpath => rw [hpath]; rfl
  | block n hpath =>
    rw [hpath]
    exact hholds.readable (mem_append_left bs mem_cons_self)

theorem Pending.finish (h : Pending t ps []) (hscandir : t.fsType = .scandir → t.nbufs = 0) :
    Stage (t.finish r errno) := by
  by_cases hstat : r = 0 ∧ t.fsType.isStat = true
  · refine .finish h.path (.statbuf (if_pos hstat) fun habs => ?_) h.holds
    have hty : t.fsType = .scandir := habs
    simp [hty, FsType.isStat] at hstat
  · exact .finish h.path (.null ((if_neg hstat).trans h.ptr) fun hty _ => hscandir hty) h.holds

theorem Pending.round (h : Pending t ps []) (hphase : t.phase = .working)
    (hscandir : t.fsType = .scandir → t.nbufs = 0) : Stage (s.round a (t, r)) := by
  unfold FsReq.round
  split
  · exact .working ps [] hphase h
  · exact h.finish hscandir

theorem Pending.bufs_nil (h : Pending s ps bs) (hbufs : s.fsType.hasBufs = false) : bs = [] := by
  cases h.bufs with
  | other => rfl
  | small habs | block _ habs => exact absurd (hbufs.symm.trans habs) nofun

theorem Pending.uvFsScandir (h : Pending s ps bs) (hphase : s.phase = .working)
    (hty : s.fsType = .scandir) (hr : -1 ≤ a.r) :
    ∃ p, s.uvFsScandir a = some p ∧ Stage (s.round a p) := by
  have hfile : s.fsType.hasFile = false := by rw [hty]; rfl
  obtain rfl := h.bufs_nil (by rw [hty]; rfl)
  have hread := h.path_readable hfile
  have hholds : Holds s ps := by simpa using h.holds
  have hbufs : BufsHeld s.fsType s.bufs s.bufsOff [] := .other (by rw [hty]; rfl)
  unfold FsReq.uvFsScandir
  have hif : ¬readable { s with nbufs := 0 } s.path = false := by
    change ¬s.readable s.path = false
    rw [hread]
    nofun
  rw [if_neg hif]
  by_cases hzero : a.r = 0
  · rw [if_pos hzero]
    refine ⟨_, rfl, ?_⟩
    cases a.emptyDents with
    | true =>
      refine Pending.round (?_ : Pending _ ps []) hphase fun _ => rfl
      refine ⟨rfl, h.result, h.path, h.hasPath, hbufs, ?_⟩
      rw [append_nil]
      exact hholds.discard
    | false =>
      refine Pending.round (?_ : Pending _ ps []) hphase fun _ => rfl
      exact { h with ptr := rfl, bufs := hbufs }
  rw [if_neg hzero]
  split_ifs with hneg
  · refine ⟨_, rfl, ?_⟩
    refine Pending.round (?_ : Pending _ ps []) hphase fun _ => rfl
    exact { h with bufs := hbufs }
  · refine ⟨_, rfl, ?_⟩
    have hne : a.r ≠ -1 := by omega
    have hnat : ((a.r.toNat : ℕ) : ℤ) = a.r := by omega
    have hstat : s.fsType.isStat = false := by rw [hty]; rfl
    unfold FsReq.round
    rw [if_neg fun habs => hne habs.1]
    refine .finish h.path (.dents s.allocated (finish_ptr hstat) hty ?_ (Nat.zero_le _)) ?_
    · change ((range' (s.allocated + 1) a.r.toNat).length : ℤ) = if a.r = -1 then _ else a.r
      rw [length_range', if_neg hne, hnat]
    · apply (hholds.acquire.acquireMany a.r.toNat).perm
      exact perm_append_comm.trans perm_middle.symm

theorem Pending.uvFsReadlink (h : Pending s ps bs) (hphase : s.phase = .working)
    (hty : s.fsType = .readlink ∨ s.fsType = .realpath) :
    ∃ p, s.uvFsReadlink a = some p ∧ Stage (s.round a p) := by
  have hfile : s.fsType.hasFile = false := by rcases hty with hty | hty <;> rw [hty] <;> rfl
  have hnot : s.fsType.hasBufs = false := by rcases hty with hty | hty <;> rw [hty] <;> rfl
  have hstat : s.fsType.isStat = false := by rcases hty with hty | hty <;> rw [hty] <;> rfl
  have hscandir : s.fsType ≠ .scandir := by rcases hty with hty | hty <;> rw [hty] <;> nofun
  obtain rfl := h.bufs_nil hnot
  have hholds : Holds s ps := by simpa using h.holds
  unfold FsReq.uvFsReadlink
  rw [if_neg (by rw [h.path_readable hfile]; nofun)]
  by_cases hmalloc : a.malloc = false
  · rw [if_pos hmalloc]
    exact ⟨_, rfl, h.round hphase fun habs => absurd habs hscandir⟩
  rw [if_neg hmalloc]
  by_cases hr : a.r = -1
  · rw [if_pos hr]
    refine ⟨_, rfl, ?_⟩
    refine Pending.round (?_ : Pending _ ps []) hphase fun habs => absurd habs hscandir
    refine { h with bufs := .other hnot, holds := ?_ }
    rw [append_nil]
    exact hholds.discard
  · rw [if_neg hr]
    refine ⟨_, rfl, ?_⟩
    unfold FsReq.round
    refine .finish h.path (.string s.allocated (finish_ptr hstat) hscandir) ?_
    exact hholds.acquire.perm (perm_append_singleton s.allocated ps).symm

theorem Pending.uvFsWork (h : Pending s ps bs) (hphase : s.phase = .working) (hr : -1 ≤ a.r) :
    ∃ t, s.uvFsWork iovmax a = some t ∧ Stage t := by
  have hmap : (∃ p, s.action iovmax a = some p ∧ Stage (s.round a p)) →
      ∃ t, s.uvFsWork iovmax a = some t ∧ Stage t := by
    rintro ⟨p, hp, hstage⟩
    refine ⟨s.round a p, ?_, hstage⟩
    rw [FsReq.uvFsWork, hp]
    rfl
  apply hmap
  have hplain : s.fsType.hasBufs = false → s.fsType ≠ .scandir →
      ∃ p, (if s.fsType.hasFile = false ∧ s.readable s.path = false then none
        else some (s, a.r)) = some p ∧ Stage (s.round a p) := by
    intro hbufs hscandir
    obtain rfl := h.bufs_nil hbufs
    refine ⟨(s, a.r), if_neg ?_, h.round hphase fun habs => absurd habs hscandir⟩
    rintro ⟨hfile, habs⟩
    rw [h.path_readable hfile] at habs
    cases habs
  unfold action
  cases hty : s.fsType with
  | read | write => exact h.uvFsBufIter hphase (by rw [hty]; rfl)
  | scandir => exact h.uvFsScandir hphase hty hr
  | readlink => exact h.uvFsReadlink hphase (.inl hty)
  | realpath => exact h.uvFsReadlink hphase (.inr hty)
  | _ =>
    rw [hty] at hplain
    exact hplain rfl nofun

/-! ## The callback and the cleanup -/

theorem Stage.uvCancel (h : Stage s) (hsmall : s.phase = .queued → s.fsType.hasBufs = true →
    s.nbufs ≤ 4) : Stage s.uvCancel := by
  unfold FsReq.uvCancel
  split_ifs with hphase
  · cases h with
    | queued ps bs _ hbs hpending =>
      have hnil : bs = [] := by
        cases hbufs : s.fsType.hasBufs with
        | true => exact hbs (hsmall hphase hbufs)
        | false => exact hpending.bufs_nil hbufs
      subst hnil
      exact .cancelled ps rfl { hpending with }
    | unused habs => simp [habs] at hphase
    | idle habs => simp [hphase] at habs
    | working _ _ habs | cancelled _ habs => simp [habs] at hphase
    | done _ _ habs => simp [hphase] at habs
  · exact h

theorem Stage.of_queued (h : Stage s) (hphase : s.phase = .queued) : ∃ ps bs, Pending s ps bs := by
  cases h with
  | queued ps bs _ _ hpending => exact ⟨ps, bs, hpending⟩
  | unused habs => simp [habs] at hphase
  | idle habs => simp [hphase] at habs
  | working _ _ habs | cancelled _ habs => simp [habs] at hphase
  | done _ _ habs => simp [hphase] at habs

theorem Stage.of_working (h : Stage s) (hphase : s.phase = .working) :
    ∃ ps bs, Pending s ps bs := by
  cases h with
  | working ps bs _ hpending => exact ⟨ps, bs, hpending⟩
  | unused habs => simp [habs] at hphase
  | idle habs => simp [hphase] at habs
  | queued _ _ habs | cancelled _ habs => simp [habs] at hphase
  | done _ _ habs => simp [hphase] at habs

theorem Stage.uvFsDone (h : Stage s) (hphase : s.phase.isWorked = true) :
    ∃ t, s.uvFsDone = some t ∧ Stage t := by
  unfold FsReq.uvFsDone
  cases h with
  | cancelled ps hworked hpending =>
    rw [hworked]
    dsimp only
    rw [if_neg (not_not.mpr hpending.result)]
    refine ⟨_, rfl, .done ps [] (.inr rfl) hpending.path (.null hpending.ptr ?_) hpending.holds⟩
    exact fun _ habs => absurd (show -ecanceled = 0 from habs) (by decide)
  | done ps ds hworked hpath hdata hholds =>
    rcases hworked with hworked | habs
    · rw [hworked]
      dsimp only
      exact ⟨_, rfl, .done ps ds (.inr rfl) hpath hdata hholds⟩
    · rw [habs] at hphase
      cases hphase
  | unused habs => simp [habs, FsPhase.isWorked] at hphase
  | idle habs => rcases habs with habs | habs <;> simp [habs, FsPhase.isWorked] at hphase
  | working _ _ habs | queued _ _ habs => simp [habs, FsPhase.isWorked] at hphase

theorem Holds.freeDent {i d : ℕ} (h : Holds s (d :: rest)) (hptr : s.ptr = .block n)
    (hn : n ∈ rest) (hd : s.dents[i]? = some d) :
    s.freeDent i = some { s with frees := d :: s.frees } ∧
      Holds { s with frees := d :: s.frees } rest := by
  have hread := h.readable (mem_cons_of_mem d hn)
  unfold FsReq.freeDent
  rw [if_neg (by rw [hptr, hread]; nofun), hd]
  exact h.free rfl

theorem Holds.freeDents (hptr : s.ptr = .block n) (hn : n ∈ rest) : ∀ {k i : ℕ} {frees : List ℕ},
    i + k = s.dents.length → Holds { s with frees := frees } (s.dents.drop i ++ rest) →
    ∃ frees', (range' i k).foldlM FsReq.freeDent { s with frees := frees } =
      some { s with frees := frees' } ∧ Holds { s with frees := frees' } rest
  | 0, i, frees, hik, h => by
    have hlength : s.dents.length ≤ i := by omega
    rw [drop_eq_nil_of_le hlength] at h
    exact ⟨frees, rfl, h⟩
  | k + 1, i, frees, hik, h => by
    have hlt : i < s.dents.length := by omega
    rw [drop_eq_getElem_cons hlt] at h
    have hfree := Holds.freeDent h hptr (mem_append_right _ hn) (List.getElem?_eq_getElem hlt)
    obtain ⟨hstep, hrest⟩ := hfree
    obtain ⟨frees', hloop, hfinal⟩ :=
      freeDents hptr hn (show i + 1 + k = s.dents.length by omega) hrest
    refine ⟨frees', ?_, hfinal⟩
    rw [range'_succ, foldlM_cons, hstep]
    exact hloop

theorem Holds.freePrevious (h : Holds s (ps ++ n :: s.dents.drop (s.nbufs - 1)))
    (hptr : s.ptr = .block n) (hle : s.nbufs ≤ s.dents.length) :
    ∃ frees, (if 0 < s.nbufs then s.freeDent (s.nbufs - 1) else some s) =
      some { s with frees := frees } ∧
      Holds { s with frees := frees } (ps ++ n :: s.dents.drop s.nbufs) := by
  by_cases hpos : 0 < s.nbufs
  · have hlt : s.nbufs - 1 < s.dents.length := by omega
    have hsucc : s.nbufs - 1 + 1 = s.nbufs := by omega
    rw [drop_eq_getElem_cons hlt, hsucc] at h
    have hperm : (ps ++ n :: s.dents[s.nbufs - 1] :: s.dents.drop s.nbufs).Perm
        (s.dents[s.nbufs - 1] :: (ps ++ n :: s.dents.drop s.nbufs)) :=
      ((List.Perm.swap ..).append_left ps).trans perm_middle
    obtain ⟨hfree, hrest⟩ := Holds.freeDent (h.perm hperm) hptr
      (mem_append_right ps mem_cons_self) (List.getElem?_eq_getElem hlt)
    exact ⟨_, (if_pos hpos).trans hfree, hrest⟩
  · have hdrop : s.dents.drop (s.nbufs - 1) = s.dents.drop s.nbufs := by
      rw [show s.nbufs - 1 = s.nbufs by omega]
    rw [hdrop] at h
    exact ⟨s.frees, if_neg hpos, h⟩

theorem Stage.uvFsScandirNext (h : Stage s) (hphase : s.phase = .answered)
    (hty : s.fsType = .scandir) (hend : s.ptr = .null → s.result = 0) :
    ∃ t, s.uvFsScandirNext = some t ∧ Stage t := by
  cases h with
  | done ps ds _ hpath hdata hholds =>
    cases hdata with
    | statbuf _ hne | string _ _ hne => exact absurd hty hne
    | null hptr hnbufs =>
      have hresult := hend hptr
      have hzero := hnbufs hty hresult
      have hnext : s.uvFsScandirNext = some { s with ptr := .null } := by
        simp [FsReq.uvFsScandirNext, hzero, hresult, hptr, FsReq.free]
      exact ⟨_, hnext, .done ps [] (.inr hphase) hpath (.null rfl hnbufs) hholds⟩
    | dents n hptr _ hlength hle =>
      obtain ⟨frees, hprevious, hrest⟩ := hholds.freePrevious hptr hle
      unfold FsReq.uvFsScandirNext
      rw [hprevious, bind_some]
      by_cases hlast : (s.nbufs : ℤ) = s.result
      · -- the end is reached
        have hnil : s.dents.drop s.nbufs = [] := drop_eq_nil_of_le (by omega)
        rw [hnil] at hrest
        obtain ⟨hfree, hheld⟩ := Holds.free (hrest.perm (perm_append_singleton n ps)) hptr
        rw [if_pos hlast, hfree]
        refine ⟨_, rfl, .done ps [] (.inr hphase) hpath (.null rfl fun _ habs => ?_) ?_⟩
        · change s.nbufs = 0
          have hresult : s.result = 0 := habs
          omega
        · rw [append_nil]
          exact hheld
      · have hlt : s.nbufs < s.dents.length := by omega
        have hread : readable { s with frees := frees } s.ptr = true := by
          rw [hptr]
          exact hrest.readable (mem_append_right ps mem_cons_self)
        rw [if_neg hlast, if_neg (by rw [hread]; nofun), List.getElem?_eq_getElem hlt]
        exact ⟨_, rfl, .done ps _ (.inr hphase) hpath (.dents n hptr hty hlength hlt) hrest⟩
  | unused habs => simp [habs] at hphase
  | idle habs => simp [hphase] at habs
  | queued _ _ habs | working _ _ habs | cancelled _ habs => simp [habs] at hphase

/-- The entries that were not given yet, the one that was given last, and their array are freed. -/
theorem Holds.uvFsScandirCleanup (h : Holds s (n :: s.dents.drop (s.nbufs - 1)))
    (hptr : s.ptr = .block n) (hlength : (s.dents.length : ℤ) = s.result)
    (hle : s.nbufs ≤ s.dents.length) (hgiven : (s.nbufs : ℤ) ≠ s.result) :
    ∃ frees nbufs, s.uvFsScandirCleanup =
      some { s with ptr := .null, frees := frees, nbufs := nbufs } ∧
      Holds { s with frees := frees } [] := by
  have hfirst : (if 0 < s.nbufs ∧ (s.nbufs : ℤ) ≠ s.result then s.nbufs - 1 else s.nbufs) =
      s.nbufs - 1 := by
    split <;> omega
  have hcount : s.nbufs - 1 + (s.result.toNat - (s.nbufs - 1)) = s.dents.length := by omega
  have hperm : Holds s (s.dents.drop (s.nbufs - 1) ++ [n]) :=
    h.perm (perm_append_singleton n _).symm
  obtain ⟨frees, hloop, hrest⟩ := Holds.freeDents hptr mem_cons_self hcount hperm
  obtain ⟨hfree, hnone⟩ := hrest.free hptr
  refine ⟨n :: frees, s.nbufs - 1 + (s.result.toNat - (s.nbufs - 1)), ?_, hnone⟩
  unfold FsReq.uvFsScandirCleanup
  rw [hfirst]
  dsimp only
  rw [hloop, bind_some, hfree]
  rfl

theorem Holds.freePath (h : Holds s (ps ++ ds)) (hpath : PathHeld s.path s.cb s.fsType ps) :
    ∃ frees, (if s.path ≠ .null ∧ (s.cb = true ∨ s.fsType = .mkdtemp) then s.free s.path
      else some s) = some { s with frees := frees } ∧ Holds { s with frees := frees } ds := by
  cases hpath with
  | null hnull => exact ⟨s.frees, if_neg fun habs => habs.1 hnull, h⟩
  | user hpath hcb hty =>
    refine ⟨s.frees, if_neg ?_, h⟩
    rintro ⟨-, habs | habs⟩
    · exact absurd (hcb.symm.trans habs) nofun
    · exact hty habs
  | block n hpath hcopy =>
    obtain ⟨hfree, hrest⟩ := h.free hpath
    exact ⟨_, (if_pos ⟨by rw [hpath]; nofun, hcopy⟩).trans hfree, hrest⟩

theorem Holds.freeResult (h : Holds s ds) (hdata : s.Result ds)
    (hgiven : s.fsType = .scandir → s.ptr ≠ .null → (s.nbufs : ℤ) ≠ s.result) :
    ∃ frees nbufs, ((if s.fsType = .scandir ∧ s.ptr ≠ .null then s.uvFsScandirCleanup
      else some s).bind fun s => (if s.ptr ≠ .statbuf then s.free s.ptr else some s).map fun s =>
        { s with ptr := .null, phase := .clean }) =
      some { s with ptr := .null, phase := .clean, frees := frees, nbufs := nbufs } ∧
      Holds { s with frees := frees } [] := by
  cases hdata with
  | null hptr =>
    refine ⟨s.frees, s.nbufs, ?_, h⟩
    simp [hptr, FsReq.free]
  | statbuf hptr hty =>
    refine ⟨s.frees, s.nbufs, ?_, h⟩
    simp [hptr, hty]
  | string n hptr hty =>
    obtain ⟨hfree, hrest⟩ := h.free rfl
    refine ⟨n :: s.frees, s.nbufs, ?_, hrest⟩
    simp [hptr, hty, hfree]
  | dents n hptr hty hlength hle =>
    have hne : s.ptr ≠ .null := by rw [hptr]; nofun
    obtain ⟨frees, nbufs, hcleanup, hrest⟩ :=
      h.uvFsScandirCleanup hptr hlength hle (hgiven hty hne)
    refine ⟨frees, nbufs, ?_, hrest⟩
    rw [if_pos ⟨hty, hne⟩, hcleanup]
    rfl

theorem Stage.uvFsReqCleanup (h : Stage s)
    (hphase : s.phase = .answered ∨ s.phase = .refused ∨ s.phase = .clean)
    (hgiven : s.fsType = .scandir → s.ptr ≠ .null → (s.nbufs : ℤ) ≠ s.result) :
    ∃ t, s.uvFsReqCleanup = some t ∧ Stage t := by
  have hall : ∀ {ps ds : List ℕ}, PathHeld s.path s.cb s.fsType ps → s.Result ds →
      Holds s (ps ++ ds) → ∃ t, s.uvFsReqCleanup = some t ∧ Stage t := by
    intro ps ds hpath hdata hholds
    obtain ⟨frees, hfreePath, hrest⟩ := hholds.freePath hpath
    have hresult := Holds.freeResult (s := { s with
      path := .null, newPath := .null, frees := frees }) hrest hdata hgiven
    obtain ⟨frees', nbufs, hfreeResult, hnone⟩ := hresult
    have hcleanup : s.uvFsReqCleanup = some { s with
        path := .null
        newPath := .null
        ptr := .null
        phase := .clean
        frees := frees'
        nbufs := nbufs } := by
      unfold FsReq.uvFsReqCleanup
      rw [hfreePath]
      exact hfreeResult
    exact ⟨_, hcleanup, .idle (.inr rfl) rfl rfl hnone⟩
  cases h with
  | done ps ds _ hpath hdata hholds => exact hall hpath hdata hholds
  | idle _ hpath hptr hholds =>
    have hcleanup : s.uvFsReqCleanup = some { s with
        path := .null, newPath := .null, ptr := .null, phase := .clean } := by
      simp [FsReq.uvFsReqCleanup, hpath, hptr, FsReq.free]
    exact ⟨_, hcleanup, .idle (.inr rfl) rfl rfl hholds⟩
  | unused habs | queued _ _ habs | working _ _ habs | cancelled _ habs => simp [habs] at hphase

/-! ## Whole runs -/

/-- A request with more buffers than `bufsml` has room for is not cancelled before the pool begins
with it, and a request for the entries of a directory is not cleaned up when all of them were given
but its end was not. -/
def Careful (s : FsReq) : Event → Prop
  | .cancel => s.phase = .queued → s.fsType.hasBufs = true → s.nbufs ≤ 4
  | .cleanup => s.fsType = .scandir → s.ptr ≠ .null → (s.nbufs : ℤ) ≠ s.result
  | _ => True

instance : DecidablePred s.Careful := fun e => by
  induction e using Event.casesOn <;> dsimp only [Careful] <;> infer_instance

theorem Stage.next (h : Stage s) {e : Event} (he : s.Enabled e) (hcareful : s.Careful e) :
    ∃ t, s.next iovmax e = some t ∧ Stage t := by
  cases e with
  | submit t cb bufsNull alloc nbufs => exact ⟨_, rfl, h.submit he t cb bufsNull alloc nbufs⟩
  | begin =>
    refine ⟨_, rfl, ?_⟩
    obtain ⟨ps, bs, hpending⟩ := h.of_queued he
    exact .working ps bs rfl { hpending with }
  | cancel => exact ⟨_, rfl, h.uvCancel hcareful⟩
  | attempt a =>
    obtain ⟨ps, bs, hpending⟩ := h.of_working he.1
    exact hpending.uvFsWork he.1 he.2
  | done => exact h.uvFsDone he
  | scandirNext => exact h.uvFsScandirNext he.1 he.2.1 he.2.2.2
  | cleanup =>
    exact h.uvFsReqCleanup he hcareful

theorem Stage.of_reachable
    (h : Reachable (fun s => ∃ junk, s = FsReq.unused junk) (Guarded Careful (Step iovmax)) s) :
    Stage s := by
  refine Reachable.invariant_of_guarded (P := Stage) h ?_ ?_
  · rintro _ ⟨junk, rfl⟩
    exact .unused rfl Accounts.nil
  · exact fun s e hs he hcareful => hs.next he hcareful

/-- No step reads what was freed, frees it again, or frees what the caller owns. When a request is
cleaned up, every block that was allocated for it has been freed once. -/
structure Tidy (iovmax : ℕ) (s : FsReq) : Prop where
  possible : ∀ e, s.Enabled e → s.Careful e → (s.next iovmax e).isSome = true
  freed : s.phase = .clean → ∀ n, s.frees.count n = if n < s.allocated then 1 else 0

theorem uvFsReq_tidy
    (h : Reachable (fun s => ∃ junk, s = unused junk) (Guarded Careful (Step iovmax)) s) :
    s.Tidy iovmax := by
  have hs := Stage.of_reachable h
  refine ⟨fun e he hcareful => ?_, fun hclean n => ?_⟩
  · obtain ⟨t, ht, -⟩ := hs.next he hcareful
    rw [ht]
    rfl
  · cases hs with
    | idle _ _ _ hholds =>
      have hn := hholds n
      simpa using hn
    | unused habs | queued _ _ habs | working _ _ habs | cancelled _ habs => simp [habs] at hclean
    | done _ _ habs => simp [hclean] at habs

def blank : FsReq :=
  unused ⟨.open_, false, 0, .null, .null, .null, .null, 0, 0, [], .unused, 0, []⟩

def interrupted : FsAttempt := ⟨-1, 4, true, fun _ => -1, false⟩

def tenBytes : FsAttempt := ⟨0, 0, true, fun i => if i = 0 then 10 else 0, false⟩

/-- Five buffers are read, which the first time is interrupted; then a directory is read. -/
def readRun : Option FsReq :=
  [Event.submit .read true false true 5, .begin, .attempt interrupted, .attempt tenBytes, .done,
    .cleanup, .submit .scandir false false true 0, .attempt ⟨2, 0, true, fun _ => 0, false⟩,
    .scandirNext, .cleanup, .cleanup].foldlM
      (fun s e => if s.Careful e then s.step 1024 e else none) blank

theorem readRun_isSome : readRun.isSome = true := by
  rfl

theorem uvFsReq_tidy_read : (readRun.get readRun_isSome).frees.count 2 =
    if 2 < (readRun.get readRun_isSome).allocated then 1 else 0 := by
  have hrun : Reachable (fun s => ∃ junk, s = unused junk) (Guarded Careful (Step 1024))
      (readRun.get readRun_isSome) :=
    .of_foldlM_if (.init ⟨_, rfl⟩) (Option.some_get readRun_isSome).symm
  exact (uvFsReq_tidy hrun).freed (by decide) 2

/-- A request for five buffers is cancelled before the pool begins with it. -/
def cancelledRun : Option FsReq :=
  [Event.submit .read true false true 5, .cancel, .done, .cleanup].foldlM (step 1024) blank

theorem cancelledRun_isSome : cancelledRun.isSome = true := by
  rfl

/-- The copy of the array of buffers is never freed. -/
theorem cancelled_leaks : (cancelledRun.get cancelledRun_isSome).phase = .clean ∧
    0 < (cancelledRun.get cancelledRun_isSome).allocated ∧
    (cancelledRun.get cancelledRun_isSome).frees.count 0 = 0 := by
  decide

end FsReq

end LibuvWorks.Unix
