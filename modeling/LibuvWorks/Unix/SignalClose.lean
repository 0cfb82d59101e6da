import LibuvWorks.Unix.Signal
import Mathlib.Algebra.Group.Nat.Defs
import Mathlib.Data.List.Count

/-!
# The close of a signal handle

A message is in the pipe, in the buffer, or dispatched; `Books` says that the counters of a
handle know how many of its messages are on the way, and that a closed handle is made
pending at the moment when none is.
-/
namespace LibuvWorks.Unix.Signals

open Transition List Option Function

variable {Λ ι γ : Type*} {s t : Signals Λ ι γ} {capacity : ℕ} {h : ι}

/-! ### The messages that are on the way -/

def msgs (s : Signals Λ ι γ) (i : Λ) : List (SignalMsg ι) := (s.loop i).buf ++ (s.loop i).pipe

structure Watch (s : Signals Λ ι γ) : Prop where
  nodup : s.tree.Nodup
  mem_tree : ∀ h, h ∈ s.tree ↔ (s.handle h).signum ≠ 0
  walk : ∀ w, s.walk = some w → ∀ h ∈ w.todo, h ∈ s.tree ∧ w.signum ≠ 0
  closed : ∀ h, (s.handle h).closing = true → (s.handle h).signum = 0
  starting : ∀ i st, (s.loop i).starting = some st → (s.handle st.handle).loop = i ∧
    (s.handle st.handle).closing = false ∧ (s.handle st.handle).signum = 0 ∧ st.signum ≠ 0
  started : ∀ h, (s.handle h).signum ≠ 0 → (s.handle h).started = true
  empty : ∀ i, (s.loop i).buf ≠ [] →
    ∃ full, (s.loop i).thread = .dispatching full ∨ (s.loop i).thread = .callback full

/-- The fields of a handle that `Watch` is about are as they were. -/
def SameWatch (v w : UvSignal Λ γ) : Prop :=
  v.signum = w.signum ∧ v.loop = w.loop ∧ v.closing = w.closing ∧ v.started = w.started

theorem Watch.congr (hs : Watch s) (htree : t.tree = s.tree)
    (hwalk : ∀ w, t.walk = some w → ∀ h ∈ w.todo, h ∈ s.tree ∧ w.signum ≠ 0)
    (hhandle : ∀ k, SameWatch (t.handle k) (s.handle k))
    (hloop : ∀ i, (t.loop i).starting = (s.loop i).starting ∧ ((t.loop i).buf ≠ [] →
      ∃ full, (t.loop i).thread = .dispatching full ∨ (t.loop i).thread = .callback full)) :
    Watch t where
  nodup := htree ▸ hs.nodup
  mem_tree := by
    intro k
    rw [htree, (hhandle k).1]
    exact hs.mem_tree k
  walk := by
    rw [htree]
    exact hwalk
  closed := by
    intro k hk
    rw [(hhandle k).2.2.1] at hk
    rw [(hhandle k).1]
    exact hs.closed k hk
  starting := by
    intro i st hst
    rw [(hloop i).1] at hst
    obtain ⟨hsignum, hl, hclosing, -⟩ := hhandle st.handle
    rw [hsignum, hl, hclosing]
    exact hs.starting i st hst
  started := by
    intro k hk
    rw [(hhandle k).1] at hk
    rw [(hhandle k).2.2.2]
    exact hs.started k hk
  empty := fun i => (hloop i).2

variable [LinearOrder ι]

def inflight (s : Signals Λ ι γ) (h : ι) : ℕ :=
  ((s.msgs (s.handle h).loop).map SignalMsg.handle).count h

/-- How often `uv__make_close_pending` was called for the handle. -/
def pendings (s : Signals Λ ι γ) (h : ι) : ℕ :=
  (s.loop (s.handle h).loop).closingHandles.count h

/-- The number of messages of the handle that are written and not counted. -/
def ahead (w : Option (Walk ι)) (h : ι) : ℕ :=
  match w with
  | some ⟨_, k :: _, true⟩ => if k = h then 1 else 0
  | _ => 0

structure Counts (capacity : ℕ) (s : Signals Λ ι γ) : Prop where
  room : ∀ i, (s.loop i).pipe.length ≤ capacity ∧ (s.loop i).buf.length ≤ bufMsgs
  owned : ∀ i, ∀ m ∈ s.msgs i, (s.handle m.handle).loop = i ∧ m.signum ≠ 0
  counted : ∀ h, (s.handle h).caughtSignals + UInt32.ofNat (ahead s.walk h) =
    (s.handle h).dispatchedSignals + UInt32.ofNat (s.inflight h)

/-- A closed handle was made pending once if no message names it, and not at all otherwise. -/
def Closes (s : Signals Λ ι γ) (h : ι) : Prop :=
  s.pendings h = if (s.handle h).closing = true ∧ s.inflight h = 0 then 1 else 0

structure Books (capacity : ℕ) (s : Signals Λ ι γ) : Prop extends Counts capacity s where
  closes : ∀ h, Closes s h

/-- The fields of a handle that `Books` is about are as they were. -/
def SameBooks (v w : UvSignal Λ γ) : Prop :=
  v.loop = w.loop ∧ v.caughtSignals = w.caughtSignals ∧
    v.dispatchedSignals = w.dispatchedSignals ∧ v.closing = w.closing

/-- A step that closes nothing and at most moves messages from the pipe to the buffer. -/
theorem Books.congr (hs : Books capacity s) (hhandle : ∀ h, SameBooks (t.handle h) (s.handle h))
    (hmsgs : ∀ i, t.msgs i = s.msgs i)
    (hroom : ∀ i, (t.loop i).pipe.length ≤ capacity ∧ (t.loop i).buf.length ≤ bufMsgs)
    (hpend : ∀ i, (t.loop i).closingHandles = (s.loop i).closingHandles)
    (hwalk : ∀ h, ahead t.walk h = ahead s.walk h) : Books capacity t := by
  have hinflight : ∀ h, t.inflight h = s.inflight h := fun h => by
    rw [inflight, inflight, (hhandle h).1, hmsgs]
  refine ⟨⟨hroom, ?_, ?_⟩, ?_⟩
  · intro i m hm
    rw [hmsgs] at hm
    rw [(hhandle _).1]
    exact hs.owned i m hm
  · intro h
    rw [(hhandle h).2.1, (hhandle h).2.2.1, hinflight, hwalk]
    exact hs.counted h
  · intro h
    rw [Closes, pendings, (hhandle h).1, hpend, (hhandle h).2.2.2, hinflight]
    exact hs.closes h

theorem Counts.inflight_le (hs : Counts capacity s) (h : ι) :
    s.inflight h ≤ capacity + bufMsgs := by
  have hroom := hs.room (s.handle h).loop
  have hcount := count_le_length (a := h)
    (l := (s.msgs (s.handle h).loop).map SignalMsg.handle)
  rw [length_map, msgs, length_append] at hcount
  exact hcount.trans (by omega)

/-- When nothing is ahead the counters agree exactly when no message is on the way. -/
theorem Counts.caught_eq_iff (hs : Counts capacity s) (hcap : capacity + bufMsgs < 2 ^ 32)
    (hahead : ahead s.walk h = 0) :
    (s.handle h).caughtSignals = (s.handle h).dispatchedSignals ↔ s.inflight h = 0 := by
  have hcounted := hs.counted h
  have hle := hs.inflight_le h
  rw [hahead] at hcounted
  have hcaught : (s.handle h).caughtSignals =
      (s.handle h).dispatchedSignals + UInt32.ofNat (s.inflight h) := by
    rw [← hcounted]
    exact (UInt32.add_zero _).symm
  rw [hcaught]
  constructor
  · intro heq
    have hzero : UInt32.ofNat (s.inflight h) = 0 := by
      have hcancel := heq.trans (UInt32.add_zero _).symm
      exact (UInt32.add_right_inj _).mp hcancel
    have hnat := congrArg UInt32.toNat hzero
    rwa [UInt32.toNat_ofNat', Nat.mod_eq_of_lt (by omega)] at hnat
  · intro hzero
    rw [hzero]
    exact UInt32.add_zero _

/-! ### The last message of a closed handle -/

variable [LinearOrder Λ]

omit [LinearOrder ι] in
theorem closeIfDispatched_handle : (s.closeIfDispatched h).handle = s.handle := by
  unfold closeIfDispatched
  split_ifs <;> rfl

theorem Counts.closeIfDispatched (hs : Counts capacity s) (hcap : capacity + bufMsgs < 2 ^ 32)
    (hclosing : (s.handle h).closing = true) (hahead : ahead s.walk h = 0)
    (hfirst : s.pendings h = 0) (hrest : ∀ k, k ≠ h → Closes s k) :
    Books capacity (s.closeIfDispatched h) := by
  unfold Signals.closeIfDispatched
  split_ifs with heq
  · have hnone := (hs.caught_eq_iff hcap hahead).mp heq
    have hloop : ∀ i, ((s.uvMakeClosePending h).loop i).pipe = (s.loop i).pipe ∧
        ((s.uvMakeClosePending h).loop i).buf = (s.loop i).buf ∧
        ((s.uvMakeClosePending h).loop i).closingHandles =
          if i = (s.handle h).loop then h :: (s.loop i).closingHandles
          else (s.loop i).closingHandles := by
      intro i
      by_cases hi : i = (s.handle h).loop
      · subst hi
        simp [uvMakeClosePending]
      · simp [uvMakeClosePending, hi]
    have hmsgs : ∀ i, (s.uvMakeClosePending h).msgs i = s.msgs i := fun i => by
      rw [msgs, msgs, (hloop i).1, (hloop i).2.1]
    have hinflight : ∀ k, (s.uvMakeClosePending h).inflight k = s.inflight k := fun k => by
      rw [inflight, hmsgs]
      rfl
    refine ⟨⟨fun i => ?_, fun i m hm => ?_, fun k => ?_⟩, fun k => ?_⟩
    · rw [(hloop i).1, (hloop i).2.1]
      exact hs.room i
    · rw [hmsgs] at hm
      exact hs.owned i m hm
    · rw [hinflight]
      exact hs.counted k
    · rw [Closes, hinflight]
      change List.count k ((s.uvMakeClosePending h).loop (s.handle k).loop).closingHandles =
        if (s.handle k).closing = true ∧ s.inflight k = 0 then 1 else 0
      rw [(hloop _).2.2]
      by_cases hk : k = h
      · subst hk
        have hcount : List.count k (s.loop (s.handle k).loop).closingHandles = 0 := hfirst
        rw [if_pos rfl, if_pos ⟨hclosing, hnone⟩, count_cons_self, hcount]
      · have hcloses : List.count k (s.loop (s.handle k).loop).closingHandles = _ := hrest k hk
        rw [← hcloses]
        split_ifs
        · exact count_cons_of_ne (Ne.symm hk)
        · rfl
  · have hsome : s.inflight h ≠ 0 := fun habs => heq ((hs.caught_eq_iff hcap hahead).mpr habs)
    refine ⟨hs, fun k => ?_⟩
    by_cases hk : k = h
    · subst hk
      rw [Closes, hfirst, if_neg fun habs => hsome habs.2]
    · exact hrest k hk

/-! ### The signal handler -/

structure Sound (capacity : ℕ) (s : Signals Λ ι γ) : Prop where
  watch : Watch s
  books : Books capacity s

omit [LinearOrder Λ] in
theorem Watch.ahead_eq_zero (hs : Watch s) (hstopped : (s.handle h).signum = 0) :
    ahead s.walk h = 0 := by
  unfold ahead
  split
  next signum k rest hwalk =>
    have hmem := (hs.mem_tree k).mp (hs.walk _ hwalk k mem_cons_self).1
    rw [if_neg]
    rintro rfl
    exact hmem hstopped
  next => rfl

omit [LinearOrder ι] [LinearOrder Λ] in
theorem mem_uvSignalHandles {signum : ℤ} (hs : Watch s) (hmem : h ∈ s.uvSignalHandles signum) :
    h ∈ s.tree ∧ signum ≠ 0 := by
  have htree : h ∈ s.tree :=
    (dropWhile_sublist _).subset ((takeWhile_sublist _).subset hmem)
  have hsignum := of_decide_eq_true (all_eq_true.mp all_takeWhile h hmem)
  exact ⟨htree, hsignum ▸ (hs.mem_tree h).mp htree⟩

section

variable (hs : Sound capacity s)
include hs

omit [LinearOrder Λ] in
theorem Sound.uvSignalHandler {signum : ℤ}
    (hstep : s.uvSignalHandler signum = some t) : Sound capacity t := by
  simp only [Signals.uvSignalHandler, ite_none_right_eq_some] at hstep
  obtain ⟨hwalk, hstep⟩ := hstep
  cases hstep
  constructor
  · refine hs.watch.congr rfl ?_ (fun _ => ⟨rfl, rfl, rfl, rfl⟩) fun i => ⟨rfl, hs.watch.empty i⟩
    rintro w ⟨⟩ k hk
    exact mem_uvSignalHandles hs.watch hk
  · refine hs.books.congr (fun _ => ⟨rfl, rfl, rfl, rfl⟩) (fun _ => rfl) hs.books.room
      (fun _ => rfl) fun k => ?_
    rw [hwalk]
    simp [ahead]

omit [LinearOrder Λ] in
theorem Sound.handlerUnlock (hstep : s.handlerUnlock = some t) :
    Sound capacity t := by
  unfold Signals.handlerUnlock at hstep
  split at hstep
  next signum hwalk =>
    cases hstep
    constructor
    · refine hs.watch.congr rfl ?_ (fun _ => ⟨rfl, rfl, rfl, rfl⟩) fun i => ⟨rfl, hs.watch.empty i⟩
      rintro w ⟨⟩
    · refine hs.books.congr (fun _ => ⟨rfl, rfl, rfl, rfl⟩) (fun _ => rfl) hs.books.room
        (fun _ => rfl) fun k => ?_
      rw [hwalk]
      simp [ahead]
  next => cases hstep

theorem Books.written {signum : ℤ} {rest : List ι}
    (hwalk : s.walk = some ⟨signum, h :: rest, false⟩)
    (hroom : (s.loop (s.handle h).loop).pipe.length < capacity) :
    Books capacity { s.setLoop (s.handle h).loop { s.loop (s.handle h).loop with
      pipe := (s.loop (s.handle h).loop).pipe ++ [⟨h, signum⟩] } with
      walk := some ⟨signum, h :: rest, true⟩ } := by
  generalize ht : ({ s.setLoop (s.handle h).loop { s.loop (s.handle h).loop with
    pipe := (s.loop (s.handle h).loop).pipe ++ [⟨h, signum⟩] } with
    walk := some ⟨signum, h :: rest, true⟩ } : Signals Λ ι γ) = t
  have hhandle : t.handle = s.handle := by rw [← ht]; rfl
  have hmsgs : ∀ i, t.msgs i =
      s.msgs i ++ if i = (s.handle h).loop then [⟨h, signum⟩] else [] := by
    intro i
    rw [← ht]
    by_cases hi : i = (s.handle h).loop
    · subst hi
      simp [msgs]
    · simp [msgs, hi]
  have hinflight : ∀ k, t.inflight k = s.inflight k + if k = h then 1 else 0 := by
    intro k
    rw [inflight, inflight, hhandle, hmsgs, map_append]
    by_cases hk : k = h
    · subst hk
      simp
    · split_ifs <;> simp [Ne.symm hk]
  have hopen : (s.handle h).closing = false := by
    have hmem := (hs.watch.mem_tree h).mp (hs.watch.walk _ hwalk h mem_cons_self).1
    rw [← Bool.not_eq_true]
    exact fun habs => hmem (hs.watch.closed h habs)
  refine ⟨⟨fun i => ?_, fun i m hm => ?_, fun k => ?_⟩, fun k => ?_⟩
  · rw [← ht]
    by_cases hi : i = (s.handle h).loop
    · subst hi
      have hbuf := (hs.books.room (s.handle h).loop).2
      simp only [setLoop_loop, update_self, length_append, length_singleton]
      exact ⟨hroom, hbuf⟩
    · simpa [hi] using hs.books.room i
  · rw [hmsgs] at hm
    rw [hhandle]
    rcases mem_append.mp hm with hm | hm
    · exact hs.books.owned i m hm
    · split_ifs at hm with hi
      · rw [mem_singleton.mp hm, hi]
        exact ⟨rfl, (hs.watch.walk _ hwalk h mem_cons_self).2⟩
      · cases hm
  · have hcounted := hs.books.counted k
    rw [hwalk] at hcounted
    rw [hhandle, hinflight, ← ht]
    simp only [ahead, eq_comm (a := h)] at hcounted ⊢
    rw [UInt32.ofNat_add, ← UInt32.add_assoc, ← hcounted]
    simp
  · rw [Closes, hinflight, pendings, hhandle]
    have hcloses := hs.books.closes k
    rw [Closes, pendings] at hcloses
    have hpend : (t.loop (s.handle k).loop).closingHandles =
        (s.loop (s.handle k).loop).closingHandles := by
      rw [← ht]
      by_cases hi : (s.handle k).loop = (s.handle h).loop
      · rw [hi]
        simp
      · simp [hi]
    rw [hpend, hcloses]
    by_cases hk : k = h
    · subst hk
      simp [hopen]
    · simp [hk]

theorem Sound.handlerWrite {stored : Bool}
    (hstep : s.handlerWrite capacity stored = some t) : Sound capacity t := by
  unfold Signals.handlerWrite at hstep
  split at hstep
  next signum h rest hwalk =>
    have htodo := hs.watch.walk _ hwalk
    split_ifs at hstep with hstored
    · dsimp only at hstep
      split_ifs at hstep with hroom
      cases hstep
      constructor
      · refine hs.watch.congr rfl ?_ (fun _ => ⟨rfl, rfl, rfl, rfl⟩) fun i => ?_
        · rintro w ⟨⟩
          exact htodo
        · by_cases hi : i = (s.handle h).loop
          · subst hi
            simpa using hs.watch.empty (s.handle h).loop
          · simpa [hi] using hs.watch.empty i
      · exact Books.written hs hwalk hroom
    · cases hstep
      constructor
      · refine hs.watch.congr rfl ?_ (fun _ => ⟨rfl, rfl, rfl, rfl⟩) fun i =>
          ⟨rfl, hs.watch.empty i⟩
        rintro w ⟨⟩ k hk
        exact htodo k (mem_cons_of_mem _ hk)
      · refine hs.books.congr (fun _ => ⟨rfl, rfl, rfl, rfl⟩) (fun _ => rfl) hs.books.room
          (fun _ => rfl) fun k => ?_
        rw [hwalk]
        simp [ahead]
  next => cases hstep

omit [LinearOrder Λ] in
theorem Sound.handlerCount (hstep : s.handlerCount = some t) :
    Sound capacity t := by
  unfold Signals.handlerCount at hstep
  split at hstep
  next signum h rest hwalk =>
    have htodo := hs.watch.walk _ hwalk
    have hsame : ∀ k, (t.handle k).loop = (s.handle k).loop ∧
        (t.handle k).closing = (s.handle k).closing ∧
        (t.handle k).dispatchedSignals = (s.handle k).dispatchedSignals ∧
        (t.handle k).caughtSignals = (s.handle k).caughtSignals + if k = h then 1 else 0 := by
      intro k
      cases hstep
      by_cases hk : k = h <;> simp [hk]
    have hloop : t.loop = s.loop := by
      cases hstep
      rfl
    have hinflight : ∀ k, t.inflight k = s.inflight k := fun k => by
      rw [inflight, inflight, (hsame k).1, msgs, msgs, hloop]
    have hwalk' : t.walk = some ⟨signum, rest, false⟩ := by
      cases hstep
      rfl
    constructor
    · refine hs.watch.congr (by cases hstep; rfl) ?_ (fun k => ?_) fun i => ?_
      · rw [hwalk']
        rintro w ⟨⟩ k hk
        exact htodo k (mem_cons_of_mem _ hk)
      · cases hstep
        by_cases hk : k = h <;> simp [SameWatch, hk]
      · rw [hloop]
        exact ⟨rfl, hs.watch.empty i⟩
    · refine ⟨⟨fun i => ?_, fun i m hm => ?_, fun k => ?_⟩, fun k => ?_⟩
      · rw [hloop]
        exact hs.books.room i
      · rw [msgs, hloop] at hm
        rw [(hsame _).1]
        exact hs.books.owned i m hm
      · have hcounted := hs.books.counted k
        rw [hwalk] at hcounted
        rw [hinflight, (hsame k).2.2.1, (hsame k).2.2.2, hwalk', ← hcounted]
        by_cases hk : k = h
        · simp [ahead, hk]
        · simp [ahead, hk, Ne.symm hk]
      · rw [Closes, pendings, hinflight, (hsame k).1, (hsame k).2.1, hloop]
        exact hs.books.closes k
  next => cases hstep

end

/-! ### Stopping and closing -/

section

omit [LinearOrder Λ]

theorem uvSignalStopHandle_spec (hs : Watch s) (hstep : s.uvSignalStopHandle h = some t) :
    t.tree = s.tree.erase h ∧ t.loop = s.loop ∧ t.walk = s.walk ∧
      (s.walk = none ∨ h ∉ s.tree) ∧ t.handle = Function.update s.handle h
        { s.handle h with signum := 0, active := (t.handle h).active } := by
  unfold uvSignalStopHandle at hstep
  split_ifs at hstep with hzero hwalk
  · cases hstep
    have hmem : h ∉ s.tree := fun habs => (hs.mem_tree h).mp habs hzero
    refine ⟨(erase_of_not_mem hmem).symm, rfl, rfl, .inr hmem, ?_⟩
    have hself : { s.handle h with signum := 0, active := (s.handle h).active } = s.handle h := by
      rw [← hzero]
    rw [hself, update_eq_self]
  · dsimp only at hstep
    split_ifs at hstep <;> cases hstep <;> exact ⟨rfl, rfl, rfl, .inl hwalk, by simp⟩

theorem Sound.stopHandle (hs : Sound capacity s) (hstep : s.uvSignalStopHandle h = some t) :
    Sound capacity t := by
  obtain ⟨htree, hloop, hwalk, hlocked, hhandle⟩ := uvSignalStopHandle_spec hs.watch hstep
  generalize (t.handle h).active = a at hhandle
  have hself : t.handle h = { s.handle h with signum := 0, active := a } := by simp [hhandle]
  have hother : ∀ k, k ≠ h → t.handle k = s.handle k := fun k hk => by simp [hhandle, hk]
  constructor
  · constructor
    · rw [htree]
      exact hs.watch.nodup.erase h
    · intro k
      rw [htree, hs.watch.nodup.mem_erase_iff, hs.watch.mem_tree]
      by_cases hk : k = h
      · simp [hk, hself]
      · simp [hk, hother k hk]
    · intro w hw k hk
      rw [hwalk] at hw
      rw [htree]
      rcases hlocked with hnone | hmem
      · rw [hnone] at hw
        cases hw
      · rw [erase_of_not_mem hmem]
        exact hs.watch.walk w hw k hk
    · intro k hk
      by_cases hkh : k = h
      · rw [hkh, hself]
      · rw [hother k hkh] at hk ⊢
        exact hs.watch.closed k hk
    · intro i st hst
      rw [hloop] at hst
      obtain ⟨h1, h2, h3, h4⟩ := hs.watch.starting i st hst
      by_cases hkh : st.handle = h
      · rw [hkh] at h1 h2
        rw [hkh, hself]
        exact ⟨h1, h2, rfl, h4⟩
      · rw [hother _ hkh]
        exact ⟨h1, h2, h3, h4⟩
    · intro k hk
      by_cases hkh : k = h
      · rw [hkh, hself] at hk
        exact absurd rfl hk
      · rw [hother k hkh] at hk ⊢
        exact hs.watch.started k hk
    · rw [hloop]
      exact hs.watch.empty
  · refine hs.books.congr (fun k => ?_) (fun i => ?_) ?_ (fun i => ?_) fun k => ?_
    · by_cases hk : k = h
      · rw [hk, hself]
        exact ⟨rfl, rfl, rfl, rfl⟩
      · rw [hother k hk]
        exact ⟨rfl, rfl, rfl, rfl⟩
    · rw [msgs, hloop]
      rfl
    · rw [hloop]
      exact hs.books.room
    · rw [hloop]
    · rw [hwalk]

/-- A change of the flags and callbacks of a handle that `Watch` and `Books` do not see,
apart from `started`. -/
theorem Sound.setHandle {v : UvSignal Λ γ} (hs : Sound capacity s)
    (hv : SameBooks v (s.handle h)) (hsignum : v.signum = (s.handle h).signum)
    (hstarted : v.signum ≠ 0 → v.started = true) : Sound capacity (s.setHandle h v) := by
  have hsame : ∀ k, SameBooks ((s.setHandle h v).handle k) (s.handle k) ∧
      ((s.setHandle h v).handle k).signum = (s.handle k).signum := by
    intro k
    by_cases hk : k = h
    · subst hk
      simpa using ⟨hv, hsignum⟩
    · simp [SameBooks, hk]
  constructor
  · refine ⟨hs.watch.nodup, fun k => ?_, hs.watch.walk, fun k hk => ?_, fun i st hst => ?_,
      fun k hk => ?_, hs.watch.empty⟩
    · rw [(hsame k).2]
      exact hs.watch.mem_tree k
    · rw [(hsame k).1.2.2.2] at hk
      rw [(hsame k).2]
      exact hs.watch.closed k hk
    · rw [(hsame _).1.1, (hsame _).1.2.2.2, (hsame _).2]
      exact hs.watch.starting i st hst
    · by_cases hkh : k = h
      · subst hkh
        simpa using hstarted (by simpa using hk)
      · rw [setHandle_handle, update_of_ne hkh] at hk ⊢
        exact hs.watch.started k hk
  · exact hs.books.congr (fun k => (hsame k).1) (fun _ => rfl) hs.books.room (fun _ => rfl)
      fun _ => rfl

theorem Sound.uvSignalStop (hs : Sound capacity s) (hstep : s.uvSignalStop h = some t) :
    Sound capacity t := by
  unfold Signals.uvSignalStop at hstep
  split_ifs at hstep
  obtain ⟨u, hu, rfl⟩ := map_eq_some_iff.mp hstep
  obtain ⟨-, -, -, -, hhandle⟩ := uvSignalStopHandle_spec hs.watch hu
  refine (hs.stopHandle hu).setHandle (v := { u.handle h with started := false })
    ⟨rfl, rfl, rfl, rfl⟩ rfl fun habs => ?_
  rw [hhandle] at habs
  simp at habs

end

omit [LinearOrder ι] in
theorem closeIfDispatched_rest : (s.closeIfDispatched h).tree = s.tree ∧
    (s.closeIfDispatched h).walk = s.walk ∧ ∀ i,
      ((s.closeIfDispatched h).loop i).buf = (s.loop i).buf ∧
      ((s.closeIfDispatched h).loop i).thread = (s.loop i).thread ∧
      ((s.closeIfDispatched h).loop i).starting = (s.loop i).starting := by
  unfold closeIfDispatched
  split_ifs
  · refine ⟨rfl, rfl, fun i => ?_⟩
    by_cases hi : i = (s.handle h).loop
    · subst hi
      simp [uvMakeClosePending]
    · simp [uvMakeClosePending, hi]
  · exact ⟨rfl, rfl, fun _ => ⟨rfl, rfl, rfl⟩⟩

omit [LinearOrder ι] in
theorem Watch.closeIfDispatched (hs : Watch s) : Watch (s.closeIfDispatched h) := by
  obtain ⟨htree, hwalk, hloop⟩ := closeIfDispatched_rest (s := s) (h := h)
  refine hs.congr htree ?_ (fun k => ?_) fun i => ?_
  · rw [hwalk]
    exact hs.walk
  · rw [closeIfDispatched_handle]
    exact ⟨rfl, rfl, rfl, rfl⟩
  · rw [(hloop i).1, (hloop i).2.1]
    exact ⟨(hloop i).2.2, hs.empty i⟩

omit [LinearOrder ι] [LinearOrder Λ] in
/-- No call of `uv_signal_start` is under way for a handle that its thread may use. -/
theorem not_starting (hs : Watch s) (hcall : s.mayCall (s.handle h).loop = true) {i : Λ}
    {st : Starting ι γ} (hst : (s.loop i).starting = some st) : st.handle ≠ h := by
  rintro rfl
  have hi := (hs.starting i st hst).1
  rw [hi] at hcall
  simp [mayCall, hst] at hcall

theorem Sound.uvClose (hs : Sound capacity s) (hcap : capacity + bufMsgs < 2 ^ 32)
    (hstep : s.uvClose h = some t) : Sound capacity t := by
  unfold Signals.uvClose at hstep
  split_ifs at hstep with hguard
  simp only [not_or, Bool.not_eq_true, Bool.not_eq_false'] at hguard
  obtain ⟨hcall, hopen⟩ := hguard
  obtain ⟨u, hu, rfl⟩ := map_eq_some_iff.mp hstep
  obtain ⟨-, hloop, -, -, hhandle⟩ := uvSignalStopHandle_spec hs.watch hu
  have hu' := hs.stopHandle hu
  have hstopped : (u.handle h).signum = 0 := by
    rw [hhandle]
    simp
  have hopen' : (u.handle h).closing = false := by
    rw [hhandle]
    simpa using hopen
  generalize hv : u.setHandle h { u.handle h with closing := true, started := false } = v
  have hself : v.handle h = { u.handle h with closing := true, started := false } := by
    rw [← hv]
    simp
  have hother : ∀ k, k ≠ h → v.handle k = u.handle k := fun k hk => by
    rw [← hv]
    simp [hk]
  have hsame : ∀ k, (v.handle k).loop = (u.handle k).loop ∧
      (v.handle k).caughtSignals = (u.handle k).caughtSignals ∧
      (v.handle k).dispatchedSignals = (u.handle k).dispatchedSignals ∧
      (v.handle k).signum = (u.handle k).signum := by
    intro k
    by_cases hk : k = h
    · rw [hk, hself]
      exact ⟨rfl, rfl, rfl, rfl⟩
    · rw [hother k hk]
      exact ⟨rfl, rfl, rfl, rfl⟩
  have hmsgs : v.msgs = u.msgs := by
    rw [← hv]
    rfl
  have hinflight : ∀ k, v.inflight k = u.inflight k := fun k => by
    rw [inflight, inflight, (hsame k).1, hmsgs]
  have hpendings : ∀ k, v.pendings k = u.pendings k := fun k => by
    rw [pendings, (hsame k).1, ← hv]
    rfl
  have hwatch : Watch v := by
    refine ⟨?_, fun k => ?_, ?_, fun k hk => ?_, fun i st hst => ?_, fun k hk => ?_, ?_⟩
    · rw [← hv]
      exact hu'.watch.nodup
    · rw [(hsame k).2.2.2, ← hv]
      exact hu'.watch.mem_tree k
    · rw [← hv]
      exact hu'.watch.walk
    · rw [(hsame k).2.2.2]
      by_cases hkh : k = h
      · rw [hkh, hstopped]
      · rw [hother k hkh] at hk
        exact hu'.watch.closed k hk
    · have hst' : (u.loop i).starting = some st := by
        rw [← hv] at hst
        exact hst
      have hne := not_starting hs.watch hcall (hloop ▸ hst')
      rw [hother _ hne]
      exact hu'.watch.starting i st hst'
    · by_cases hkh : k = h
      · rw [hkh, hself] at hk
        exact absurd hstopped hk
      · rw [hother k hkh] at hk ⊢
        exact hu'.watch.started k hk
    · rw [← hv]
      exact hu'.watch.empty
  have hcounts : Counts capacity v := by
    refine ⟨?_, fun i m hm => ?_, fun k => ?_⟩
    · rw [← hv]
      exact hu'.books.room
    · rw [hmsgs] at hm
      rw [(hsame _).1]
      exact hu'.books.owned i m hm
    · rw [(hsame k).2.1, (hsame k).2.2.1, hinflight, ← hv]
      exact hu'.books.counted k
  refine ⟨hwatch.closeIfDispatched, hcounts.closeIfDispatched hcap ?_ ?_ ?_ fun k hk => ?_⟩
  · rw [hself]
  · exact hwatch.ahead_eq_zero ((hsame h).2.2.2.trans hstopped)
  · rw [hpendings]
    exact (hu'.books.closes h).trans (if_neg (by simp [hopen']))
  · rw [Closes, hpendings, hinflight, hother k hk]
    exact hu'.books.closes k

/-! ### Starting -/

/-- A step of a thread that moves no message out of the buffer and the pipe of its loop. -/
theorem Sound.setLoop {i : Λ} {v : SignalLoop ι γ} (hs : Sound capacity s)
    (hmsgs : v.buf ++ v.pipe = s.msgs i)
    (hroom : v.pipe.length ≤ capacity ∧ v.buf.length ≤ bufMsgs)
    (hpend : v.closingHandles = (s.loop i).closingHandles)
    (hstarting : ∀ st, v.starting = some st → (s.handle st.handle).loop = i ∧
      (s.handle st.handle).closing = false ∧ (s.handle st.handle).signum = 0 ∧ st.signum ≠ 0)
    (hthread : v.buf ≠ [] → ∃ full, v.thread = .dispatching full ∨ v.thread = .callback full) :
    Sound capacity (s.setLoop i v) := by
  have hself : (s.setLoop i v).loop i = v := by simp
  have hother : ∀ j, j ≠ i → (s.setLoop i v).loop j = s.loop j := fun j hj => by simp [hj]
  constructor
  · refine { hs.watch with starting := fun j st hst => ?_, empty := fun j hj => ?_ }
    · by_cases hji : j = i
      · rw [hji, hself] at hst
        rw [hji]
        exact hstarting st hst
      · rw [hother j hji] at hst
        exact hs.watch.starting j st hst
    · by_cases hji : j = i
      · rw [hji, hself] at hj ⊢
        exact hthread hj
      · rw [hother j hji] at hj ⊢
        exact hs.watch.empty j hj
  · refine hs.books.congr (fun _ => ⟨rfl, rfl, rfl, rfl⟩) (fun j => ?_) (fun j => ?_)
      (fun j => ?_) fun _ => rfl
    · by_cases hji : j = i
      · rw [hji, msgs, hself, hmsgs]
      · rw [msgs, hother j hji]
        rfl
    · by_cases hji : j = i
      · rw [hji, hself]
        exact hroom
      · rw [hother j hji]
        exact hs.books.room j
    · by_cases hji : j = i
      · rw [hji, hself, hpend]
      · rw [hother j hji]

theorem Sound.uvSignalStart {signalCb : Option γ} {signum : ℤ} (hs : Sound capacity s)
    (hstep : s.uvSignalStart h signalCb signum = some t) : Sound capacity t := by
  unfold Signals.uvSignalStart at hstep
  split_ifs at hstep with hguard hzero hsame
  · cases hstep
    exact hs
  · cases hstep
    exact hs.setHandle (v := { s.handle h with signalCb := signalCb, started := true })
      ⟨rfl, rfl, rfl, rfl⟩ rfl fun _ => rfl
  · obtain ⟨u, hu, rfl⟩ := map_eq_some_iff.mp hstep
    simp only [not_or, Bool.not_eq_true, Bool.not_eq_false'] at hguard
    obtain ⟨-, -, -, -, hhandle⟩ := uvSignalStopHandle_spec hs.watch hu
    have hu' := hs.stopHandle hu
    refine hu'.setLoop rfl (hu'.books.room _) rfl ?_ (hu'.watch.empty _)
    rintro st ⟨⟩
    refine ⟨rfl, ?_, ?_, hzero⟩
    · rw [hhandle]
      simpa using hguard.2
    · rw [hhandle]
      simp

theorem Sound.insert {i : Λ} {st : Starting ι γ} {r : ℤ → Bool} {a : Bool}
    (hs : Sound capacity s) (hst : (s.loop i).starting = some st) (hwalk : s.walk = none)
    {tree : List ι} (hperm : tree.Perm (st.handle :: s.tree)) :
    Sound capacity { (s.setLoop i { s.loop i with starting := none }).setHandle st.handle
      { s.handle st.handle with
        signum := st.signum, signalCb := st.signalCb, active := a, started := true } with
      registered := r, tree := tree } := by
  obtain ⟨hi, hopen, hstopped, hsignum⟩ := hs.watch.starting i st hst
  have hidle := hs.setLoop (i := i) (v := { s.loop i with starting := none }) rfl
    (hs.books.room i) rfl (fun _ habs => (by cases habs)) (hs.watch.empty i)
  have hnew : st.handle ∉ s.tree := fun habs => (hs.watch.mem_tree _).mp habs hstopped
  constructor
  · refine ⟨?_, fun k => ?_, ?_, fun k hk => ?_, fun j st' hst' => ?_, fun k hk => ?_,
      hidle.watch.empty⟩
    · exact hperm.nodup_iff.mpr (nodup_cons.mpr ⟨hnew, hs.watch.nodup⟩)
    · rw [hperm.mem_iff, mem_cons, hs.watch.mem_tree]
      by_cases hk : k = st.handle
      · simp [hk, hsignum]
      · simp [hk]
    · intro w hw
      have habs : s.walk = some w := hw
      rw [hwalk] at habs
      cases habs
    · by_cases hkh : k = st.handle
      · subst hkh
        simp [hopen] at hk
      · simp only [setHandle_handle, update_of_ne hkh] at hk ⊢
        exact hs.watch.closed k hk
    · have hne : st'.handle ≠ st.handle := by
        intro heq
        have hj := hidle.watch.starting j st' hst'
        have hji : j = i := by
          rw [← hj.1, ← hi, heq]
          rfl
        rw [hji] at hst'
        simp [Signals.setHandle] at hst'
      simp only [setHandle_handle, update_of_ne hne]
      exact hidle.watch.starting j st' hst'
    · by_cases hkh : k = st.handle
      · subst hkh
        simp
      · simp only [setHandle_handle, update_of_ne hkh] at hk ⊢
        exact hs.watch.started k hk
  · refine hidle.books.congr (fun k => ?_) (fun _ => rfl) hidle.books.room (fun _ => rfl)
      fun _ => rfl
    by_cases hkh : k = st.handle
    · subst hkh
      simp [SameBooks, Signals.setLoop]
    · simp [SameBooks, hkh, Signals.setLoop]

theorem Sound.uvSignalRegister {i : Λ} {fails : Bool} (hs : Sound capacity s)
    (hstep : s.uvSignalRegister i fails = some t) : Sound capacity t := by
  unfold Signals.uvSignalRegister at hstep
  split at hstep
  · cases hstep
  next h signalCb signum hst =>
    have hperm : ∀ u : Signals Λ ι γ, (s.tree.orderedInsert u.uvSignalLe h).Perm (h :: s.tree) :=
      fun u => perm_orderedInsert u.uvSignalLe h s.tree
    dsimp only at hstep
    split_ifs at hstep with hwalk hfails hfirst
    · cases hstep
      exact hs.setLoop rfl (hs.books.room i) rfl (fun _ habs => (by cases habs))
        (hs.watch.empty i)
    · cases hstep
      exact hs.insert hst (not_not.mp hwalk) (hperm _)
    · cases hstep
      exact hs.insert hst (not_not.mp hwalk) (hperm _)

/-! ### Reading and dispatching -/

theorem Sound.uvSignalEvent {i : Λ} (hs : Sound capacity s)
    (hstep : s.uvSignalEvent i = some t) : Sound capacity t := by
  simp only [Signals.uvSignalEvent, ite_none_right_eq_some] at hstep
  obtain ⟨⟨hthread, hstarting⟩, hstep⟩ := hstep
  cases hstep
  refine hs.setLoop rfl (hs.books.room i) rfl (hs.watch.starting i) fun hbuf => ?_
  obtain ⟨full, habs | habs⟩ := hs.watch.empty i hbuf
  · rw [hthread] at habs
    cases habs
  · rw [hthread] at habs
    cases habs

omit [LinearOrder ι] [LinearOrder Λ] in
theorem Watch.buf_eq_nil {i : Λ} {full : Bool} (hs : Watch s)
    (hthread : (s.loop i).thread = .reading full) : (s.loop i).buf = [] := by
  by_contra hbuf
  obtain ⟨full, habs | habs⟩ := hs.empty i hbuf
  · rw [hthread] at habs
    cases habs
  · rw [hthread] at habs
    cases habs

theorem Sound.eventRead {i : Λ} {n : ℕ} (hs : Sound capacity s)
    (hstep : s.eventRead i n = some t) : Sound capacity t := by
  unfold Signals.eventRead at hstep
  split at hstep
  next full hthread =>
    rw [ite_none_right_eq_some] at hstep
    obtain ⟨⟨-, hle, -⟩, hstep⟩ := hstep
    cases hstep
    refine hs.setLoop ?_ ?_ rfl (hs.watch.starting i) fun _ => ⟨_, .inl rfl⟩
    · rw [msgs, hs.watch.buf_eq_nil hthread]
      exact take_append_drop n _
    · have hroom := (hs.books.room i).1
      constructor
      · exact (drop_sublist ..).length_le.trans hroom
      · exact (length_take_le ..).trans hle
  next => cases hstep

theorem Sound.eventReadFails {i : Λ} {eintr : Bool} (hs : Sound capacity s)
    (hstep : s.eventReadFails i eintr = some t) : Sound capacity t := by
  unfold Signals.eventReadFails at hstep
  split at hstep
  next full hthread =>
    cases hstep
    have hnil := hs.watch.buf_eq_nil hthread
    exact hs.setLoop rfl (hs.books.room i) rfl (hs.watch.starting i) fun habs => absurd hnil habs
  next => cases hstep

theorem Sound.eventRound {i : Λ} (hs : Sound capacity s) (hstep : s.eventRound i = some t) :
    Sound capacity t := by
  unfold Signals.eventRound at hstep
  split at hstep
  next full hthread hbuf =>
    cases hstep
    exact hs.setLoop rfl (hs.books.room i) rfl (hs.watch.starting i) fun habs => absurd hbuf habs
  next => cases hstep

section

variable {i : Λ} (full : Bool) {rest : List (SignalMsg ι)} {signum : ℤ}

theorem messageDone_handle (k : ι) :
    ((s.messageDone i full h rest).handle k).loop = (s.handle k).loop ∧
      SameWatch ((s.messageDone i full h rest).handle k) (s.handle k) ∧
      ((s.messageDone i full h rest).handle k).caughtSignals = (s.handle k).caughtSignals ∧
      ((s.messageDone i full h rest).handle k).dispatchedSignals =
        (s.handle k).dispatchedSignals + if k = h then 1 else 0 := by
  by_cases hk : k = h
  · subst hk
    simp [messageDone, SameWatch]
  · simp [messageDone, SameWatch, hk]

section

variable (hbuf : (s.loop i).buf = ⟨h, signum⟩ :: rest)
include hbuf

theorem messageDone_loop (j : Λ) :
    ((s.messageDone i full h rest).loop j).pipe = (s.loop j).pipe ∧
      ((s.messageDone i full h rest).loop j).closingHandles = (s.loop j).closingHandles ∧
      ((s.messageDone i full h rest).loop j).starting = (s.loop j).starting ∧
      ((s.messageDone i full h rest).loop j).buf.length ≤ (s.loop j).buf.length ∧
      s.msgs j = (if j = i then [⟨h, signum⟩] else []) ++ (s.messageDone i full h rest).msgs j := by
  by_cases hj : j = i
  · subst hj
    simp [messageDone, msgs, hbuf]
  · simp [messageDone, msgs, hj]

theorem messageDone_inflight
    (hown : (s.handle h).loop = i) (k : ι) :
    s.inflight k = (s.messageDone i full h rest).inflight k + if k = h then 1 else 0 := by
  rw [inflight, inflight, (messageDone_handle full k).1, (messageDone_loop full hbuf _).2.2.2.2,
    map_append, count_append]
  by_cases hk : k = h
  · subst hk
    simp [hown, Nat.add_comm]
  · split_ifs <;> simp [Ne.symm hk]

theorem messageDone_pendings (k : ι) :
    (s.messageDone i full h rest).pendings k = s.pendings k := by
  rw [pendings, pendings, (messageDone_handle full k).1, (messageDone_loop full hbuf _).2.1]

end

theorem Watch.messageDone (hs : Watch s) (hbuf : (s.loop i).buf = ⟨h, signum⟩ :: rest) :
    Watch (s.messageDone i full h rest) := by
  refine hs.congr rfl hs.walk (fun k => (messageDone_handle full k).2.1) fun j =>
    ⟨(messageDone_loop full hbuf j).2.2.1, ?_⟩
  by_cases hj : j = i
  · subst hj
    simp [Signals.messageDone]
  · simpa [Signals.messageDone, hj] using hs.empty j

theorem Counts.messageDone (hs : Counts capacity s)
    (hbuf : (s.loop i).buf = ⟨h, signum⟩ :: rest) (hown : (s.handle h).loop = i) :
    Counts capacity (s.messageDone i full h rest) := by
  refine ⟨fun j => ?_, fun j m hm => ?_, fun k => ?_⟩
  · obtain ⟨hpipe, -, -, hlen, -⟩ := messageDone_loop full hbuf j
    rw [hpipe]
    exact ⟨(hs.room j).1, hlen.trans (hs.room j).2⟩
  · rw [(messageDone_handle full _).1]
    apply hs.owned j m
    rw [(messageDone_loop full hbuf j).2.2.2.2]
    exact mem_append_right _ hm
  · have hcounted := hs.counted k
    rw [messageDone_inflight full hbuf hown, UInt32.ofNat_add] at hcounted
    change _ + UInt32.ofNat (ahead s.walk k) = _
    rw [(messageDone_handle full k).2.2.1, hcounted, (messageDone_handle full k).2.2.2,
      UInt32.add_comm (UInt32.ofNat _), ← UInt32.add_assoc]
    split_ifs <;> rfl

theorem Sound.eventDispatched (hs : Sound capacity s) (hcap : capacity + bufMsgs < 2 ^ 32)
    (hstep : s.eventDispatched i full = some t) : Sound capacity t := by
  unfold Signals.eventDispatched at hstep
  split at hstep
  · cases hstep
  next h signum rest hbuf =>
    have hown : (s.handle h).loop = i :=
      hs.books.owned i ⟨h, signum⟩ (by rw [msgs, hbuf]; exact mem_cons_self) |>.1
    have hwatch := hs.watch.messageDone full hbuf
    have hcounts := hs.books.toCounts.messageDone full hbuf hown
    have hrest : ∀ k, k ≠ h → Closes (s.messageDone i full h rest) k := by
      intro k hk
      have hcloses := hs.books.closes k
      rw [Closes, messageDone_inflight full hbuf hown, if_neg hk] at hcloses
      rw [Closes, messageDone_pendings full hbuf, (messageDone_handle full k).2.1.2.2.1]
      exact hcloses
    have hfirst : (s.messageDone i full h rest).pendings h = 0 := by
      rw [messageDone_pendings full hbuf, hs.books.closes h, if_neg]
      rw [messageDone_inflight full hbuf hown, if_pos rfl]
      exact fun habs => Nat.succ_ne_zero _ habs.2
    dsimp only at hstep
    split_ifs at hstep with hclosing
    · cases hstep
      exact ⟨hwatch.closeIfDispatched, hcounts.closeIfDispatched hcap hclosing
        (hwatch.ahead_eq_zero (hwatch.closed h hclosing)) hfirst hrest⟩
    · cases hstep
      refine ⟨hwatch, hcounts, fun k => ?_⟩
      by_cases hk : k = h
      · subst hk
        rw [Closes, hfirst, if_neg fun habs => hclosing habs.1]
      · exact hrest k hk

end

theorem Sound.eventDispatch {i : Λ} (hs : Sound capacity s) (hcap : capacity + bufMsgs < 2 ^ 32)
    (hstep : s.eventDispatch i = some t) : Sound capacity t := by
  unfold Signals.eventDispatch at hstep
  split at hstep
  next full h signum rest hthread hbuf =>
    split_ifs at hstep with hsignum hclosing
    · cases hstep
      exact hs.setLoop rfl (hs.books.room i) rfl (hs.watch.starting i) fun _ => ⟨_, .inr rfl⟩
    · exact hs.eventDispatched full hcap hstep
  next => cases hstep

theorem Sound.eventReturned {i : Λ} (hs : Sound capacity s) (hcap : capacity + bufMsgs < 2 ^ 32)
    (hstep : s.eventReturned i = some t) : Sound capacity t := by
  unfold Signals.eventReturned at hstep
  split at hstep
  next full hthread =>
    rw [ite_none_right_eq_some] at hstep
    exact hs.eventDispatched full hcap hstep.2
  next => cases hstep

/-! ### Every reachable state -/

omit [LinearOrder Λ] in
theorem Init.sound (hs : Init s) : Sound capacity s := by
  obtain ⟨htree, hwalk, hhandle, hloop⟩ := hs
  have hmsgs : ∀ i, s.msgs i = [] :=
    fun i => by rw [msgs, (hloop i).1, (hloop i).2.1, nil_append]
  have hinflight : ∀ h, s.inflight h = 0 := fun h => by simp [inflight, hmsgs]
  constructor
  · refine ⟨?_, fun h => ?_, ?_, fun h _ => (hhandle h).1, fun i st hst => ?_, fun h hsignum => ?_,
      fun i habs => absurd (hloop i).2.1 habs⟩
    · rw [htree]
      exact nodup_nil
    · simp [htree, (hhandle h).1]
    · rw [hwalk]
      rintro w ⟨⟩
    · rw [(hloop i).2.2.2.1] at hst
      cases hst
    · exact absurd (hhandle h).1 hsignum
  · refine ⟨⟨fun i => ?_, fun i m hm => ?_, fun h => ?_⟩, fun h => ?_⟩
    · simp [(hloop i).1, (hloop i).2.1]
    · rw [hmsgs] at hm
      cases hm
    · rw [(hhandle h).2.1, (hhandle h).2.2.1, hinflight, hwalk]
      rfl
    · rw [Closes, pendings, (hloop _).2.2.2.2, (hhandle h).2.2.2]
      rfl

theorem Sound.step {e : Event Λ ι γ} (hs : Sound capacity s) (hcap : capacity + bufMsgs < 2 ^ 32)
    (hstep : Step capacity s e t) : Sound capacity t := by
  cases e with
  | handler signum => exact hs.uvSignalHandler hstep
  | write stored => exact hs.handlerWrite hstep
  | count => exact hs.handlerCount hstep
  | unlock => exact hs.handlerUnlock hstep
  | start h signalCb signum => exact hs.uvSignalStart hstep
  | register i fails => exact hs.uvSignalRegister hstep
  | stop h => exact hs.uvSignalStop hstep
  | close h => exact hs.uvClose hcap hstep
  | event i => exact hs.uvSignalEvent hstep
  | read i n => exact hs.eventRead hstep
  | readFails i eintr => exact hs.eventReadFails hstep
  | dispatch i => exact hs.eventDispatch hcap hstep
  | returned i => exact hs.eventReturned hcap hstep
  | round i => exact hs.eventRound hstep

theorem sound_of_reachable (hcap : capacity + bufMsgs < 2 ^ 32)
    (hs : Reachable Init (Step capacity) s) : Sound capacity s :=
  hs.invariant (fun _ => Init.sound) fun _ _ _ _ hsound => hsound.step hcap

omit [LinearOrder Λ] in
theorem Counts.inflight_pos (hs : Counts capacity s) {i : Λ} {m : SignalMsg ι}
    (hm : m ∈ s.msgs i) : 0 < s.inflight m.handle := by
  rw [inflight, (hs.owned i m hm).1]
  exact count_pos_iff.mpr (mem_map_of_mem hm)

theorem eventDispatched_thread {i : Λ} (full : Bool) {m : SignalMsg ι} {rest : List (SignalMsg ι)}
    (hbuf : (s.loop i).buf = m :: rest) :
    ∃ t, s.eventDispatched i full = some t ∧ (t.loop i).thread = .dispatching full := by
  have hdone : ∀ u : Signals Λ ι γ, (u.loop i).thread = .dispatching full →
      ((if (u.handle m.handle).closing then u.closeIfDispatched m.handle else u).loop i).thread =
        .dispatching full := by
    intro u hu
    split_ifs
    · rw [(closeIfDispatched_rest.2.2 i).2.1, hu]
    · exact hu
  unfold eventDispatched
  rw [hbuf]
  exact ⟨_, rfl, hdone _ (by simp [messageDone])⟩

/-- A pipe holds fewer messages than the counters can count. In every state a closed handle was made
pending once if no message names it, and not at all otherwise; then its counters agree. The
callback of a message runs only for a handle that was started last, and the assertion
before it holds. -/
theorem signals_closed_once (hcap : capacity + bufMsgs < 2 ^ 32)
    (hs : Reachable Init (Step capacity) s) :
    (∀ h, s.pendings h = if (s.handle h).closing = true ∧ s.inflight h = 0 then 1 else 0) ∧
    (∀ h, 0 < s.pendings h → (s.handle h).caughtSignals = (s.handle h).dispatchedSignals ∧
      ∀ i, ∀ m ∈ s.msgs i, m.handle ≠ h) ∧
    ∀ i full m rest, (s.loop i).thread = .dispatching full → (s.loop i).buf = m :: rest →
      ∃ t, Step capacity s (.dispatch i) t ∧ ((∃ b, (t.loop i).thread = .callback b) →
        (s.handle m.handle).started = true ∧ (s.handle m.handle).closing = false) := by
  have hsound := sound_of_reachable hcap hs
  refine ⟨hsound.books.closes, fun h hpos => ?_, fun i full m rest hthread hbuf => ?_⟩
  · have hcloses := hsound.books.closes h
    rw [Closes] at hcloses
    split_ifs at hcloses with hcond
    · obtain ⟨hclosing, hnone⟩ := hcond
      have hahead := hsound.watch.ahead_eq_zero (hsound.watch.closed h hclosing)
      refine ⟨(hsound.books.caught_eq_iff hcap hahead).mpr hnone, fun i m hm hmh => ?_⟩
      have hinflight := hsound.books.inflight_pos hm
      rw [hmh] at hinflight
      omega
    · omega
  · obtain ⟨h, signum⟩ := m
    have hdispatch : s.eventDispatch i = if signum = (s.handle h).signum then
        if (s.handle h).closing then none
        else some (s.setLoop i { s.loop i with thread := .callback full })
      else s.eventDispatched i full := by
      simp only [eventDispatch, hthread, hbuf]
    have hmem : ⟨h, signum⟩ ∈ s.msgs i := by
      rw [msgs, hbuf]
      exact List.mem_cons_self
    have hnz := (hsound.books.owned i _ hmem).2
    have hwatching : signum = (s.handle h).signum →
        (s.handle h).started = true ∧ (s.handle h).closing = false := by
      intro heq
      have hsignum : (s.handle h).signum ≠ 0 := heq ▸ hnz
      refine ⟨hsound.watch.started h hsignum, ?_⟩
      rw [← Bool.not_eq_true]
      exact fun habs => hsignum (hsound.watch.closed h habs)
    by_cases heq : signum = (s.handle h).signum
    · obtain ⟨hstarted, hopen⟩ := hwatching heq
      rw [if_pos heq, if_neg (by simp [hopen])] at hdispatch
      exact ⟨_, hdispatch, fun _ => ⟨hstarted, hopen⟩⟩
    · rw [if_neg heq] at hdispatch
      obtain ⟨t, ht, hthread'⟩ := eventDispatched_thread full hbuf
      refine ⟨t, hdispatch.trans ht, fun ⟨b, habs⟩ => ?_⟩
      rw [hthread'] at habs
      cases habs

/-- A loop whose signal handles were initialised. -/
def fresh : Signals ℕ ℕ Unit where
  handle _ := ⟨0, 0, none, 0, 0, false, false, false⟩
  loop _ := ⟨[], [], .user, none, []⟩
  tree := []
  registered _ := false
  walk := none

theorem init_fresh : Init fresh :=
  ⟨rfl, rfl, fun _ => ⟨rfl, rfl, rfl, rfl⟩, fun _ => ⟨rfl, rfl, rfl, rfl, rfl⟩⟩

/-- The signal is caught twice, and the callback for the first message closes the handle: the second
message is dispatched without a callback and makes the close pending. -/
theorem signals_closed_once_in_callback : ∃ s : Signals ℕ ℕ Unit,
    (s.handle 0).closing = true ∧ (s.handle 0).dispatchedSignals = 2 ∧ s.pendings 0 = 1 := by
  have hsome : ([Event.start 0 (some ()) 2, .register 0 false, .handler 2, .write true, .count,
      .unlock, .handler 2, .write true, .count, .unlock, .event 0, .read 0 2, .dispatch 0, .close 0,
      .returned 0, .dispatch 0,
        .round 0].foldlM (fun s e => step s 4096 e) fresh).isSome = true := by
    rfl
  have hcap : 4096 + bufMsgs < 2 ^ 32 := by decide
  obtain ⟨hpendings, -, -⟩ := signals_closed_once hcap
    (.of_foldlM (.init init_fresh) (Option.some_get hsome).symm)
  exact ⟨_, by rfl, by rfl, (hpendings 0).trans (by rfl)⟩

end LibuvWorks.Unix.Signals
