import LibuvWorks.Unix.Io
import Mathlib.Data.Finset.Card

/-!
# The table, the queue and the masks of the watchers

`IoOk` is what every operation on a watcher keeps. A watcher that is started has its slot, which
makes started watchers have different descriptors.
-/
namespace LibuvWorks.Unix

open List Option Function Finset
open Function (update update_self update_of_ne update_eq_self)

def Batch.fakes : Option Batch → Slot × Slot
  | none => (.null, .null)
  | some b => (.events, .count b.events.length)

namespace IoLoop

variable {s t : IoLoop} {w v : ℕ} {events : Events} {len : ℕ} {x : Io} {o : Option (ℕ × Events)}

def used (s : IoLoop) : Finset ℕ := (Finset.range s.nwatchers).filter fun i => s.watchers i ≠ .null

structure IoOk (s : IoLoop) : Prop where
  started : ∀ w, (s.io w).pevents ≠ 0 → 0 ≤ (s.io w).fd ∧ (s.io w).fd.toNat < s.nwatchers ∧
    s.watchers (s.io w).fd.toNat = .watcher w
  table : ∀ i < s.nwatchers, s.watchers i = .null ∨
    ∃ w, s.watchers i = .watcher w ∧ (s.io w).fd = i ∧ (s.io w).pevents ≠ 0
  nfds : s.nfds = s.used.card
  fakes : (s.watchers s.nwatchers, s.watchers (s.nwatchers + 1)) = Batch.fakes s.batch
  queued : ∀ w, (s.io w).pevents ≠ 0 → (s.io w).pevents ≠ (s.io w).events → w ∈ s.watcherQueue
  queue : ∀ w ∈ s.watcherQueue, (s.io w).pevents ≠ 0
  nodup : s.watcherQueue.Nodup
  stopped : ∀ w, (s.io w).pevents = 0 → (s.io w).events = 0
  legal : ∀ w, (s.io w).pevents &&& ~~~pollAll = 0
  allocated : s.allocated = true

theorem zero_and_legal {m : Events} : (0 : Events) &&& m = 0 := BitVec.zero_and

theorem IoOk.of_idle (hio : ∀ w, (s.io w).events = 0 ∧ (s.io w).pevents = 0)
    (hqueue : s.watcherQueue = []) (hallocated : s.allocated = true)
    (hwatchers : ∀ i < s.nwatchers + 2, s.watchers i = .null) (hnfds : s.nfds = 0)
    (hbatch : s.batch = none) : IoOk s := by
  have hused : s.used = ∅ := by
    refine filter_eq_empty_iff.mpr fun i hi hne => hne (hwatchers i ?_)
    exact Nat.lt_add_right 2 (Finset.mem_range.mp hi)
  refine ⟨fun w hw => absurd (hio w).2 hw, fun i hi => .inl ?_, ?_, ?_,
    fun w hw => absurd (hio w).2 hw, ?_, ?_, fun w _ => (hio w).1, fun w => ?_, hallocated⟩
  · exact hwatchers i (Nat.lt_add_right 2 hi)
  · rw [hnfds, hused, card_empty]
  · rw [hwatchers _ (by omega), hwatchers _ (by omega), hbatch]
    rfl
  · simp [hqueue]
  · simp [hqueue]
  · rw [(hio w).2]
    exact zero_and_legal

/-! ### The table grows -/

theorem le_nextPowerOfTwo {val : ℕ} (hpos : 0 < val) (hlt : val < 2 ^ 32) :
    nextPowerOfTwo val = 0 ∨ val ≤ nextPowerOfTwo val := by
  -- Each round keeps what is there and stays below `2 ^ 32`.
  have hround : ∀ (k : ℕ) {x : ℕ}, val - 1 ≤ x ∧ x < 2 ^ 32 →
      val - 1 ≤ x ||| x >>> k ∧ x ||| x >>> k < 2 ^ 32 := by
    intro k x ⟨hle, hx⟩
    exact ⟨hle.trans Nat.left_le_or,
      Nat.or_lt_two_pow hx (Nat.lt_of_le_of_lt (Nat.shiftRight_le x k) hx)⟩
  have hval : (val + (2 ^ 32 - 1)) % 2 ^ 32 = val - 1 := by omega
  obtain ⟨hle, hsmear⟩ := hround 16 (hround 8 (hround 4 (hround 2 (hround 1
    ⟨le_refl (val - 1), by omega⟩))))
  simp only [nextPowerOfTwo, hval]
  omega

/-- The table `t` has at least `len` slots; the slots after the table have moved. -/
structure Grown (s t : IoLoop) (len : ℕ) : Prop where
  eq : t = { s with allocated := t.allocated, watchers := t.watchers, nwatchers := t.nwatchers }
  allocated : s.allocated = true → t.allocated = true
  le : s.nwatchers ≤ t.nwatchers ∧ len ≤ t.nwatchers
  old : ∀ i < s.nwatchers, t.watchers i = s.watchers i
  new : ∀ i < t.nwatchers, s.nwatchers ≤ i → t.watchers i = .null
  fakes : s.allocated = true → t.watchers t.nwatchers = s.watchers s.nwatchers ∧
    t.watchers (t.nwatchers + 1) = s.watchers (s.nwatchers + 1)

theorem maybeResize_spec (hlen : len < 2 ^ 31) (h : s.maybeResize len = some t) :
    Grown s t len := by
  unfold maybeResize at h
  split at h
  · next hle =>
    cases h
    exact ⟨rfl, id, ⟨le_rfl, hle⟩, fun _ _ => rfl, fun i hi hge => absurd hi hge.not_gt,
      fun _ => ⟨rfl, rfl⟩⟩
  · next hle =>
    obtain ⟨hbytes, rfl⟩ := by
      simpa only [ite_none_left_eq_some, Option.some.injEq] using h
    have hlen' : len ≤ (nextPowerOfTwo (len + 2) + (2 ^ 32 - 2)) % 2 ^ 32 := by
      have hpow : nextPowerOfTwo (len + 2) < 2 ^ 32 := Nat.mod_lt _ (by decide)
      obtain hzero | hge := le_nextPowerOfTwo (by omega : 0 < len + 2) (by omega)
      · rw [hzero] at hbytes
        exact absurd (by decide) hbytes
      · omega
    have hlt : ∀ {i}, i < (nextPowerOfTwo (len + 2) + (2 ^ 32 - 2)) % 2 ^ 32 →
        i ≠ (nextPowerOfTwo (len + 2) + (2 ^ 32 - 2)) % 2 ^ 32 ∧
          i ≠ (nextPowerOfTwo (len + 2) + (2 ^ 32 - 2)) % 2 ^ 32 + 1 := by
      intro i hi
      omega
    refine ⟨rfl, fun _ => rfl, ⟨by simp only; omega, hlen'⟩, fun i hi => ?_, fun i hi hge => ?_,
      fun halloc => ⟨?_, ?_⟩⟩
    · obtain ⟨hne, hne'⟩ := hlt (i := i) (by omega)
      simp only [update_of_ne hne, update_of_ne hne']
      rw [if_neg fun habs => absurd hi habs.1.not_gt]
    · obtain ⟨hne, hne'⟩ := hlt hi
      simp only [update_of_ne hne, update_of_ne hne']
      rw [if_pos ⟨hge, hi⟩]
    · simp [halloc]
    · simp [halloc]

theorem Grown.used_eq (h : Grown s t len) : t.used = s.used := by
  ext i
  simp only [used, Finset.mem_filter, Finset.mem_range]
  constructor
  · rintro ⟨hi, hne⟩
    have hlt : i < s.nwatchers := by
      by_contra hge
      exact hne (h.new i hi (not_lt.mp hge))
    exact ⟨hlt, h.old i hlt ▸ hne⟩
  · rintro ⟨hi, hne⟩
    exact ⟨lt_of_lt_of_le hi h.le.1, (h.old i hi).symm ▸ hne⟩

theorem IoOk.grow (h : IoOk s) (hgrown : Grown s t len) : IoOk t := by
  have hio : t.io = s.io := (congrArg IoLoop.io hgrown.eq).trans rfl
  have hqueue : t.watcherQueue = s.watcherQueue :=
    (congrArg IoLoop.watcherQueue hgrown.eq).trans rfl
  have hnfds : t.nfds = s.nfds := (congrArg IoLoop.nfds hgrown.eq).trans rfl
  have hbatch : t.batch = s.batch := (congrArg IoLoop.batch hgrown.eq).trans rfl
  refine ⟨fun w hw => ?_, fun i hi => ?_, ?_, ?_, ?_, ?_, ?_, ?_, ?_, hgrown.allocated h.allocated⟩
  · rw [hio] at hw ⊢
    obtain ⟨hfd, hlt, hslot⟩ := h.started w hw
    exact ⟨hfd, lt_of_lt_of_le hlt hgrown.le.1, (hgrown.old _ hlt).trans hslot⟩
  · rw [hio]
    by_cases hlt : i < s.nwatchers
    · rw [hgrown.old i hlt]
      exact h.table i hlt
    · exact .inl (hgrown.new i hi (not_lt.mp hlt))
  · rw [hnfds, hgrown.used_eq, h.nfds]
  · obtain ⟨hfirst, hsecond⟩ := hgrown.fakes h.allocated
    rw [hfirst, hsecond, hbatch, h.fakes]
  · rw [hio, hqueue]
    exact h.queued
  · rw [hio, hqueue]
    exact h.queue
  · rw [hqueue]
    exact h.nodup
  · rw [hio]
    exact h.stopped
  · rw [hio]
    exact h.legal

/-! ### A watcher is started and stopped -/

def Own (s : IoLoop) (w : ℕ) : Prop :=
  (s.io w).fd.toNat < s.nwatchers →
    s.watchers (s.io w).fd.toNat = .null ∨ s.watchers (s.io w).fd.toNat = .watcher w

theorem IoOk.own (h : IoOk s) (hw : (s.io w).pevents ≠ 0) : Own s w :=
  fun _ => .inr (h.started w hw).2.2

theorem IoOk.fd_ne (h : IoOk s) (hown : Own s w) (hv : (s.io v).pevents ≠ 0) (hne : v ≠ w) :
    (s.io v).fd.toNat ≠ (s.io w).fd.toNat := by
  intro heq
  obtain ⟨-, hlt, hslot⟩ := h.started v hv
  rw [heq] at hlt hslot
  rcases hown hlt with hslot' | hslot' <;> rw [hslot] at hslot'
  · cases hslot'
  · exact hne (Slot.watcher.inj hslot')

theorem mem_enqueue : v ∈ (s.enqueue w).watcherQueue ↔ v ∈ s.watcherQueue ∨ v = w := by
  simp only [enqueue_watcherQueue]
  split
  · next hmem =>
    refine ⟨.inl, ?_⟩
    rintro (hv | rfl)
    · exact hv
    · exact hmem
  · simp

theorem nodup_enqueue (h : s.watcherQueue.Nodup) : (s.enqueue w).watcherQueue.Nodup := by
  simp only [enqueue_watcherQueue]
  split
  · exact h
  · next hmem => exact nodup_append_comm.mpr (nodup_cons.mpr ⟨hmem, h⟩)

theorem IoOk.stopped_update (h : IoOk s) (hx : x.pevents = 0 → x.events = 0) :
    ∀ v, (update s.io w x v).pevents = 0 → (update s.io w x v).events = 0 :=
  (forall_update_iff s.io (p := fun _ y => y.pevents = 0 → y.events = 0)).mpr
    ⟨hx, fun v _ => h.stopped v⟩

theorem IoOk.legal_update (h : IoOk s) (hx : x.pevents &&& ~~~pollAll = 0) :
    ∀ v, (update s.io w x v).pevents &&& ~~~pollAll = 0 :=
  (forall_update_iff s.io (p := fun _ y => y.pevents &&& ~~~pollAll = 0)).mpr
    ⟨hx, fun v _ => h.legal v⟩

theorem IoOk.setPevents (h : IoOk s) (hold : (s.io w).pevents ≠ 0)
    (hfd : x.fd = (s.io w).fd) (hnew : x.pevents ≠ 0) (hlegal : x.pevents &&& ~~~pollAll = 0)
    (hqueued : x.pevents ≠ x.events → w ∈ s.watcherQueue) : IoOk (s.setIo w x) := by
  have hio : ∀ {v}, v ≠ w → (s.setIo w x).io v = s.io v := fun hne => update_of_ne hne _ _
  have hself : (s.setIo w x).io w = x := update_self _ _ _
  have hpev : ∀ v, ((s.setIo w x).io v).pevents ≠ 0 ↔ (s.io v).pevents ≠ 0 := by
    intro v
    by_cases hvw : v = w
    · subst hvw
      rw [hself]
      exact iff_of_true hnew hold
    · rw [hio hvw]
  have hfd' : ∀ v, ((s.setIo w x).io v).fd = (s.io v).fd := by
    intro v
    by_cases hvw : v = w
    · subst hvw
      rw [hself, hfd]
    · rw [hio hvw]
  refine ⟨fun v hv => ?_, fun i hi => ?_, h.nfds, h.fakes, fun v hv hne => ?_, fun v hv => ?_,
    h.nodup, h.stopped_update fun hx => absurd hx hnew, h.legal_update hlegal, h.allocated⟩
  · rw [hfd']
    exact h.started v ((hpev v).mp hv)
  · refine (h.table i hi).imp_right fun ⟨v, hslot, hv, hvpev⟩ => ?_
    exact ⟨v, hslot, (hfd' v).trans hv, (hpev v).mpr hvpev⟩
  · by_cases hvw : v = w
    · subst hvw
      rw [hself] at hne
      exact hqueued hne
    · rw [hio hvw] at hv hne
      exact h.queued v hv hne
  · exact (hpev v).mpr (h.queue v hv)

theorem IoOk.enqueue (h : IoOk s) (hw : (s.io w).pevents ≠ 0) : IoOk (s.enqueue w) :=
  { h with
    queued := fun v hv hne => mem_enqueue.mpr (.inl (h.queued v hv hne))
    queue := fun v hv => (mem_enqueue.mp hv).elim (h.queue v) fun hvw => hvw ▸ hw
    nodup := nodup_enqueue h.nodup }

theorem Own.of_table (hown : Own s w) (h : IoOk s) (hfd : (s.io w).fd.toNat < s.nwatchers) :
    (s.watchers (s.io w).fd.toNat = .null ∧ (s.io w).pevents = 0) ∨
      (s.watchers (s.io w).fd.toNat = .watcher w ∧ (s.io w).pevents ≠ 0) := by
  obtain hnull | hslot := hown hfd
  · refine .inl ⟨hnull, ?_⟩
    by_contra hw
    have hstarted := (h.started w hw).2.2
    rw [hnull] at hstarted
    cases hstarted
  · refine .inr ⟨hslot, ?_⟩
    obtain hnull | ⟨v, hv, -, hpev⟩ := h.table _ hfd
    · rw [hslot] at hnull
      cases hnull
    · rw [hslot] at hv
      exact Slot.watcher.inj hv ▸ hpev

theorem IoOk.adopt (h : IoOk s) (hfd : x.fd = (s.io w).fd) (hpos : 0 ≤ (s.io w).fd)
    (hlt : (s.io w).fd.toNat < s.nwatchers) (hslot : s.watchers (s.io w).fd.toNat = .null)
    (hnew : x.pevents ≠ 0) (hlegal : x.pevents &&& ~~~pollAll = 0) :
    IoOk { (s.setIo w x).enqueue w with
      watchers := update s.watchers (s.io w).fd.toNat (.watcher w), nfds := s.nfds + 1 } := by
  have hio : ∀ {v}, v ≠ w → (s.setIo w x).io v = s.io v := fun hne => update_of_ne hne _ _
  have hself : (s.setIo w x).io w = x := update_self _ _ _
  have hother : ∀ {v}, v ≠ w → (s.io v).pevents ≠ 0 → (s.io v).fd.toNat ≠ (s.io w).fd.toNat :=
    fun hne hv => h.fd_ne (fun _ => .inl hslot) hv hne
  have hused : (s.io w).fd.toNat ∉ s.used := by simp [used, hslot]
  have hfake : ∀ k, update s.watchers (s.io w).fd.toNat (.watcher w) (s.nwatchers + k) =
      s.watchers (s.nwatchers + k) := fun k => update_of_ne (by omega) _ _
  refine ⟨fun v hv => ?_, fun i hi => ?_, ?_, ?_, fun v hv hne => ?_, fun v hv => ?_,
    nodup_enqueue (s := s) h.nodup, h.stopped_update fun hx => absurd hx hnew,
    h.legal_update hlegal, h.allocated⟩
  · simp only [enqueue_io] at hv ⊢
    by_cases hvw : v = w
    · subst hvw
      rw [hself, hfd]
      exact ⟨hpos, hlt, update_self _ _ _⟩
    · rw [hio hvw] at hv ⊢
      obtain ⟨hvpos, hvlt, hvslot⟩ := h.started v hv
      exact ⟨hvpos, hvlt, (update_of_ne (hother hvw hv) _ _).trans hvslot⟩
  · simp only [enqueue_io]
    by_cases hiw : i = (s.io w).fd.toNat
    · refine .inr ⟨w, hiw ▸ update_self _ _ _, ?_, ?_⟩
      · rw [hself, hfd, hiw, Int.toNat_of_nonneg hpos]
      · rw [hself]
        exact hnew
    · rw [update_of_ne hiw]
      refine (h.table i hi).imp_right fun ⟨v, hvslot, hv, hvpev⟩ => ?_
      have hvw : v ≠ w := by
        rintro rfl
        exact hiw (by rw [hv, Int.toNat_natCast])
      exact ⟨v, hvslot, by rw [hio hvw, hv], by rwa [hio hvw]⟩
  · have hinsert : ({ (s.setIo w x).enqueue w with
        watchers := update s.watchers (s.io w).fd.toNat (.watcher w)
        nfds := s.nfds + 1 } : IoLoop).used = insert (s.io w).fd.toNat s.used := by
      ext i
      by_cases hiw : i = (s.io w).fd.toNat
      · simp [used, hiw, hlt]
      · simp [used, hiw]
    rw [hinsert, card_insert_of_notMem hused, ← h.nfds]
  · exact (Prod.ext (hfake 0) (hfake 1)).trans h.fakes
  · apply mem_enqueue.mpr
    by_cases hvw : v = w
    · exact .inr hvw
    · simp only [enqueue_io, hio hvw] at hv hne
      exact .inl (h.queued v hv hne)
  · simp only [enqueue_io]
    by_cases hvw : v = w
    · subst hvw
      rw [hself]
      exact hnew
    · rw [hio hvw]
      exact h.queue v ((mem_enqueue.mp hv).resolve_right hvw)

theorem setIo_maybeResize :
    (s.setIo w x).maybeResize len = (s.maybeResize len).map fun s => s.setIo w x := by
  unfold maybeResize
  by_cases hlen : len ≤ s.nwatchers
  · simp [hlen]
  · by_cases hbytes : ((nextPowerOfTwo (len + 2) + (2 ^ 32 - 2)) % 2 ^ 32 + 2) % 2 ^ 32 = 0
    · simp only [setIo, hlen, hbytes, if_true, if_false, map_none]
    · simp only [setIo, hlen, hbytes, if_false, map_some]
      rfl

theorem or_legal {a b m : Events} (ha : a &&& ~~~m = 0) (hb : b &&& ~~~m = 0) :
    (a ||| b) &&& ~~~m = 0 := by
  rw [BitVec.and_or_distrib_right, ha, hb, BitVec.or_self]

/-- What `uv__io_start` asks for. -/
def asked (x : Io) (events : Events) : Io := { x with pevents := x.pevents ||| events }

/-- The table grows; then the masks agree, or the watcher is queued and has or takes its slot. -/
theorem uvIoStart_cases (hstart : s.uvIoStart w events = some t) :
    events &&& ~~~pollAll = 0 ∧ events ≠ 0 ∧ 0 ≤ (s.io w).fd ∧ (s.io w).fd < 2 ^ 31 - 1 ∧
      ∃ g, s.maybeResize ((s.io w).fd.toNat + 1) = some g ∧
        (((s.io w).events = (asked (s.io w) events).pevents ∧ t = g.setIo w (asked (s.io w) events)) ∨
        ((s.io w).events ≠ (asked (s.io w) events).pevents ∧
          g.watchers (s.io w).fd.toNat = .null ∧
          t = { (g.setIo w (asked (s.io w) events)).enqueue w with
            watchers := update g.watchers (s.io w).fd.toNat (.watcher w), nfds := g.nfds + 1 }) ∨
        ((s.io w).events ≠ (asked (s.io w) events).pevents ∧
          g.watchers (s.io w).fd.toNat ≠ .null ∧
          t = (g.setIo w (asked (s.io w) events)).enqueue w)) := by
  unfold IoLoop.uvIoStart at hstart
  obtain ⟨hassert, hstart⟩ := by simpa only [ite_none_left_eq_some] using hstart
  obtain ⟨hevents, hzero, hneg, hmax⟩ := by simpa only [not_or, not_not, not_lt, not_le]
    using hassert
  refine ⟨hevents, hzero, hneg, hmax, ?_⟩
  rw [setIo_maybeResize, Option.map_map] at hstart
  obtain ⟨g, hg, hgt⟩ := map_eq_some_iff.mp hstart
  refine ⟨g, hg, ?_⟩
  simp only [comp_apply] at hgt
  split at hgt
  · next hsame =>
    have hne : (s.io w).events ≠ 0 := by
      intro habs
      rw [hsame] at habs
      exact hzero (BitVec.or_eq_zero_iff.mp habs).2
    rw [if_neg hne] at hgt
    exact .inl ⟨hsame, hgt.symm⟩
  · next hdiff =>
    split at hgt
    · next hslot => exact .inr (.inl ⟨hdiff, hslot, hgt.symm⟩)
    · next hslot => exact .inr (.inr ⟨hdiff, hslot, hgt.symm⟩)

/-- `uv__io_start` changes the masks of the watcher, and only what follows from that. -/
theorem IoOk.uvIoStart (h : IoOk s) (hown : Own s w) (hstart : s.uvIoStart w events = some t) :
    IoOk t ∧ t.io = update s.io w (asked (s.io w) events) ∧ t.interest = s.interest ∧
      t.batch = s.batch := by
  obtain ⟨hevents, hzero, hneg, hmax, g, hg, hcases⟩ := uvIoStart_cases hstart
  have hgrown := maybeResize_spec (by omega) hg
  have hok := h.grow hgrown
  have hio : g.io = s.io := (congrArg IoLoop.io hgrown.eq).trans rfl
  have hinterest : g.interest = s.interest := (congrArg IoLoop.interest hgrown.eq).trans rfl
  have hbatch : g.batch = s.batch := (congrArg IoLoop.batch hgrown.eq).trans rfl
  have hnew : (asked (s.io w) events).pevents ≠ 0 := fun habs =>
    hzero (BitVec.or_eq_zero_iff.mp habs).2
  have hlegal : (asked (s.io w) events).pevents &&& ~~~pollAll = 0 := or_legal (h.legal w) hevents
  rw [← hio] at hcases hnew hlegal hneg ⊢
  rw [← hinterest, ← hbatch]
  obtain ⟨hsame, rfl⟩ | ⟨hdiff, hslot, rfl⟩ | ⟨hdiff, hslot, rfl⟩ := hcases
  · have hold : (g.io w).pevents ≠ 0 := by
      intro habs
      have := hok.stopped w habs
      rw [hsame] at this
      exact hnew this
    exact ⟨hok.setPevents hold rfl hnew hlegal fun habs => absurd hsame.symm habs, rfl, rfl, rfl⟩
  · exact ⟨hok.adopt rfl hneg (hio ▸ hgrown.le.2) hslot hnew hlegal, rfl, rfl, rfl⟩
  · have hold : (g.io w).pevents ≠ 0 := by
      have hown' : Own g w := fun _ => .inr (by
        rw [hio] at hslot ⊢
        by_cases hlt : (s.io w).fd.toNat < s.nwatchers
        · rw [hgrown.old _ hlt] at hslot ⊢
          exact (hown hlt).resolve_left hslot
        · exact absurd (hgrown.new _ hgrown.le.2 (not_lt.mp hlt)) hslot)
      obtain ⟨hnull, -⟩ | ⟨-, hold⟩ := hown'.of_table hok (hio ▸ hgrown.le.2)
      · exact absurd hnull hslot
      · exact hold
    refine ⟨(hok.enqueue hold).setPevents hold rfl hnew hlegal fun _ => ?_, rfl, rfl, rfl⟩
    exact mem_enqueue.mpr (.inr rfl)

def Io.idle (x : Io) : Io := ⟨x.fd, 0, 0⟩

/-- What `uv__io_stop` leaves of the masks. -/
def dropped (x : Io) (events : Events) : Io :=
  if x.pevents &&& ~~~events = 0 then Io.idle x else ⟨x.fd, x.events, x.pevents &&& ~~~events⟩

/-- A started watcher gives its slot back. -/
@[simps] def release (s : IoLoop) (w : ℕ) : IoLoop :=
  { s with
    io := update s.io w (Io.idle (s.io w))
    watcherQueue := s.watcherQueue.erase w
    watchers := update s.watchers (s.io w).fd.toNat .null
    nfds := s.nfds - 1 }

theorem IoOk.release (h : IoOk s) (hw : (s.io w).pevents ≠ 0) : IoOk (s.release w) := by
  obtain ⟨hpos, hlt, hslot⟩ := h.started w hw
  have hio : ∀ {v}, v ≠ w → (s.release w).io v = s.io v := fun hne => update_of_ne hne _ _
  have hself : (s.release w).io w = Io.idle (s.io w) := update_self _ _ _
  have hother : ∀ {v}, v ≠ w → (s.io v).pevents ≠ 0 → (s.io v).fd.toNat ≠ (s.io w).fd.toNat :=
    fun hne hv => h.fd_ne (h.own hw) hv hne
  have hfake : ∀ k, (s.release w).watchers (s.nwatchers + k) = s.watchers (s.nwatchers + k) :=
    fun k => update_of_ne (by omega) _ _
  have hne : ∀ {v}, ((s.release w).io v).pevents ≠ 0 → v ≠ w := by
    rintro v hv rfl
    rw [hself] at hv
    exact hv rfl
  refine ⟨fun v hv => ?_, fun i hi => ?_, ?_, ?_, fun v hv hdiff => ?_, fun v hv => ?_,
    h.nodup.erase w, h.stopped_update fun _ => rfl, h.legal_update zero_and_legal, h.allocated⟩
  · have hvw := hne hv
    rw [hio hvw] at hv ⊢
    obtain ⟨hvpos, hvlt, hvslot⟩ := h.started v hv
    exact ⟨hvpos, hvlt, (update_of_ne (hother hvw hv) _ _).trans hvslot⟩
  · by_cases hiw : i = (s.io w).fd.toNat
    · exact .inl (hiw ▸ update_self _ _ _)
    · rw [release_watchers, update_of_ne hiw]
      refine (h.table i hi).imp_right fun ⟨v, hvslot, hv, hvpev⟩ => ?_
      have hvw : v ≠ w := by
        rintro rfl
        exact hiw (by rw [hv, Int.toNat_natCast])
      rw [← hio hvw] at hv hvpev
      exact ⟨v, hvslot, hv, hvpev⟩
  · have hused : (s.io w).fd.toNat ∈ s.used := by simp [used, hlt, hslot]
    have herase : (s.release w).used = s.used.erase (s.io w).fd.toNat := by
      ext i
      by_cases hiw : i = (s.io w).fd.toNat
      · simp [used, hiw]
      · simp [used, hiw]
    rw [herase, card_erase_of_mem hused, ← h.nfds]
    rfl
  · exact (Prod.ext (hfake 0) (hfake 1)).trans h.fakes
  · have hvw := hne hv
    rw [hio hvw] at hv hdiff
    exact h.nodup.mem_erase_iff.mpr ⟨hvw, h.queued v hv hdiff⟩
  · obtain ⟨hvw, hmem⟩ := h.nodup.mem_erase_iff.mp hv
    rw [hio hvw]
    exact h.queue v hmem

/-- Nothing happens, the watcher is stopped, or it goes on with fewer events. -/
theorem uvIoStop_cases (hstop : s.uvIoStop w events = some t) :
    (((s.io w).fd = -1 ∨ s.nwatchers ≤ (s.io w).fd.toNat) ∧ t = s) ∨
      (0 ≤ (s.io w).fd ∧ (s.io w).fd.toNat < s.nwatchers ∧
        (((s.io w).pevents &&& ~~~events = 0 ∧ s.watchers (s.io w).fd.toNat = .null ∧
          t = (s.setIo w ⟨(s.io w).fd, (s.io w).events, 0⟩).dequeue w) ∨
        ((s.io w).pevents &&& ~~~events = 0 ∧ s.watchers (s.io w).fd.toNat = .watcher w ∧
          t = s.release w) ∨
        ((s.io w).pevents &&& ~~~events ≠ 0 ∧
          t = (s.setIo w (dropped (s.io w) events)).enqueue w))) := by
  unfold IoLoop.uvIoStop at hstop
  split at hstop
  · cases hstop
  · split at hstop
    · next hfd => exact .inl ⟨.inl hfd, (Option.some.inj hstop).symm⟩
    · split at hstop
      · cases hstop
      · next hneg =>
        split at hstop
        · next hge => exact .inl ⟨.inr hge, (Option.some.inj hstop).symm⟩
        · next hlt =>
          refine .inr ⟨not_lt.mp hneg, not_le.mp hlt, ?_⟩
          simp only at hstop
          split at hstop
          · next hnone =>
            simp only [hnone] at hstop
            split at hstop
            · next hslot => exact .inl ⟨hnone, hslot, (Option.some.inj hstop).symm⟩
            · split at hstop
              · cases hstop
              · next hassert =>
                refine .inr (.inl ⟨hnone, not_not.mp (not_or.mp hassert).1, ?_⟩)
                rw [← Option.some.inj hstop]
                simp only [IoLoop.release, Io.idle, setIo, dequeue, update_idem]
          · next hsome =>
            refine .inr (.inr ⟨hsome, ?_⟩)
            rw [dropped, if_neg hsome]
            exact (Option.some.inj hstop).symm

/-- `uv__io_stop` changes the masks of the watcher, and only what follows from that. -/
theorem IoOk.uvIoStop (h : IoOk s) (hstop : s.uvIoStop w events = some t) :
    IoOk t ∧ t.io = update s.io w (dropped (s.io w) events) ∧ t.interest = s.interest ∧
      t.batch = s.batch := by
  have hidle : (s.io w).pevents = 0 → s.io w = dropped (s.io w) events := by
    intro hpev
    have hev := h.stopped w hpev
    rw [dropped, hpev, zero_and_legal, Io.idle]
    exact (Io.mk.injEq ..).mpr ⟨rfl, hev, hpev⟩
  obtain ⟨hout, rfl⟩ | ⟨hpos, hlt, hcases⟩ := uvIoStop_cases hstop
  · have hpev : (t.io w).pevents = 0 := by
      by_contra hne
      obtain ⟨hpos, hlt, -⟩ := h.started w hne
      omega
    rw [← hidle hpev, update_eq_self]
    exact ⟨h, rfl, rfl, rfl⟩
  · obtain ⟨hnone, hslot, rfl⟩ | ⟨hnone, hslot, rfl⟩ | ⟨hsome, rfl⟩ := hcases
    · obtain ⟨-, hpev⟩ | ⟨hslot', -⟩ := Own.of_table (fun _ => .inl hslot) h hlt
      · have hsame : s.setIo w ⟨(s.io w).fd, (s.io w).events, 0⟩ = s := by
          rw [← hpev]
          simp [setIo]
        have hnot : w ∉ s.watcherQueue := fun hmem => h.queue w hmem hpev
        rw [hsame, dequeue, erase_of_not_mem hnot, ← hidle hpev, update_eq_self]
        exact ⟨h, rfl, rfl, rfl⟩
      · rw [hslot] at hslot'
        cases hslot'
    · obtain ⟨hslot', -⟩ | ⟨-, hpev⟩ := Own.of_table (fun _ => .inr hslot) h hlt
      · rw [hslot] at hslot'
        cases hslot'
      · refine ⟨h.release hpev, ?_, rfl, rfl⟩
        rw [dropped, if_pos hnone]
        rfl
    · have hold : (s.io w).pevents ≠ 0 := by
        intro habs
        rw [habs, zero_and_legal] at hsome
        exact hsome rfl
      refine ⟨(h.enqueue hold).setPevents hold ?_ ?_ ?_ fun _ => ?_, rfl, rfl, rfl⟩
      · rw [dropped, if_neg hsome]
        rfl
      · rw [dropped, if_neg hsome]
        exact hsome
      · rw [dropped, if_neg hsome]
        rw [BitVec.and_assoc, BitVec.and_comm (~~~events), ← BitVec.and_assoc, h.legal,
          zero_and_legal]
      · exact mem_enqueue.mpr (.inr rfl)

theorem IoOk.setIdle {fd : ℤ} (h : IoOk s) (hw : (s.io w).pevents = 0) :
    IoOk (s.setIo w ⟨fd, 0, 0⟩) := by
  have hio : ∀ {v}, v ≠ w → (s.setIo w ⟨fd, 0, 0⟩).io v = s.io v := fun hne => update_of_ne hne _ _
  have hself : (s.setIo w ⟨fd, 0, 0⟩).io w = ⟨fd, 0, 0⟩ := update_self _ _ _
  have hne : ∀ {v}, ((s.setIo w ⟨fd, 0, 0⟩).io v).pevents ≠ 0 → v ≠ w := by
    rintro v hv rfl
    rw [hself] at hv
    exact hv rfl
  refine ⟨fun v hv => ?_, fun i hi => ?_, h.nfds, h.fakes, fun v hv hdiff => ?_, fun v hv => ?_,
    h.nodup, h.stopped_update fun _ => rfl, h.legal_update zero_and_legal, h.allocated⟩
  · have hvw := hne hv
    rw [hio hvw] at hv ⊢
    exact h.started v hv
  · refine (h.table i hi).imp_right fun ⟨v, hslot, hfd, hpev⟩ => ?_
    have hvw : v ≠ w := by
      rintro rfl
      exact hpev hw
    rw [← hio hvw] at hfd hpev
    exact ⟨v, hslot, hfd, hpev⟩
  · have hvw := hne hv
    rw [hio hvw] at hv hdiff
    exact h.queued v hv hdiff
  · have hpev := h.queue v hv
    rw [hio]
    · exact hpev
    · rintro rfl
      exact hpev hw

/-! ### The batch and the kernel's set -/

variable {interest : ℕ → Option Events}

theorem IoOk.setBatch {b : Option Batch} {pending : Links}
    (h : IoOk s) (hb : Batch.fakes b = Batch.fakes s.batch) :
    IoOk { s with batch := b, interest := interest, pendingQueue := pending } :=
  { h with fakes := h.fakes.trans hb.symm }

theorem IoOk.setFakes (h : IoOk s) (b : Option Batch) :
    IoOk { s with
      batch := b
      watchers := update (update s.watchers s.nwatchers (Batch.fakes b).1) (s.nwatchers + 1)
        (Batch.fakes b).2 } := by
  have hold : ∀ {i}, i < s.nwatchers → update (update s.watchers s.nwatchers (Batch.fakes b).1)
      (s.nwatchers + 1) (Batch.fakes b).2 i = s.watchers i := by
    intro i hi
    rw [update_of_ne (by omega), update_of_ne (by omega)]
  refine { h with started := fun w hw => ?_, table := fun i hi => ?_, nfds := ?_, fakes := ?_ }
  · obtain ⟨hpos, hlt, hslot⟩ := h.started w hw
    exact ⟨hpos, hlt, (hold hlt).trans hslot⟩
  · simp only [hold hi]
    exact h.table i hi
  · rw [h.nfds]
    refine congrArg Finset.card (Finset.filter_congr fun i hi => ?_)
    simp only [hold (Finset.mem_range.mp hi)]
  · refine Prod.ext ?_ (update_self _ _ _)
    exact (update_of_ne (Nat.ne_of_lt (Nat.lt_succ_self _)) _ _).trans (update_self _ _ _)

theorem disarm_eq (fd : ℤ) : s.disarm fd =
    { s with interest := if fd < 0 then s.interest else update s.interest fd.toNat none } := by
  unfold disarm
  split
  · rfl
  · cases hfd : s.interest fd.toNat with
    | none =>
      have hsame : update s.interest fd.toNat none = s.interest := by
        rw [← hfd, update_eq_self]
      simp [epollCtl, hfd, hsame]
    | some events => simp [epollCtl, hfd]

def Batch.invalidate (b : Batch) (fd : ℤ) : Batch :=
  { b with events := b.events.map fun e => if e.data = fd then { e with data := -1 } else e }

theorem fakes_invalidate (b : Option Batch) (fd : ℤ) :
    Batch.fakes (b.map fun b => Batch.invalidate b fd) = Batch.fakes b := by
  cases b with
  | none => rfl
  | some b => simp [Batch.fakes, Batch.invalidate]

theorem IoOk.uvPlatformInvalidateFd (h : IoOk s) (fd : ℤ) :
    s.uvPlatformInvalidateFd fd =
      some ({ s with batch := s.batch.map fun b => Batch.invalidate b fd }.disarm fd) := by
  unfold IoLoop.uvPlatformInvalidateFd
  rw [if_neg (by simp [h.allocated])]
  cases hbatch : s.batch with
  | none =>
    have hfakes : (s.watchers s.nwatchers, s.watchers (s.nwatchers + 1)) = (.null, .null) :=
      h.fakes.trans (congrArg Batch.fakes hbatch)
    obtain ⟨hfirst, hsecond⟩ := Prod.mk.inj hfakes
    simp only [hfirst, map_none, disarm_eq, hbatch]
  | some b =>
    have hfakes : (s.watchers s.nwatchers, s.watchers (s.nwatchers + 1)) =
        (.events, .count b.events.length) := h.fakes.trans (congrArg Batch.fakes hbatch)
    obtain ⟨hfirst, hsecond⟩ := Prod.mk.inj hfakes
    simp only [hfirst, hsecond, map_some, invalidate, Batch.invalidate, take_length,
      drop_length, append_nil]

/-- `uv__io_close` stops the watcher and takes its descriptor out of the batch. -/
theorem IoOk.uvIoClose (h : IoOk s) (hclose : s.uvIoClose w = some t) :
    IoOk t ∧ t.io = update s.io w (Io.idle (s.io w)) ∧
      t.batch = s.batch.map (fun b => Batch.invalidate b (s.io w).fd) ∧
      t.interest =
        if (s.io w).fd < 0 then s.interest else update s.interest (s.io w).fd.toNat none := by
  obtain ⟨u, hstop, hinvalidate⟩ := bind_eq_some_iff.mp hclose
  obtain ⟨hu, hio, hinterest, hbatch⟩ := h.uvIoStop hstop
  have hidle : dropped (s.io w) pollAll = Io.idle (s.io w) := if_pos (h.legal w)
  have hfd : (u.io w).fd = (s.io w).fd := by
    rw [hio, update_self, hidle]
    rfl
  rw [IoOk.uvPlatformInvalidateFd (hu.setBatch rfl), disarm_eq] at hinvalidate
  cases hinvalidate
  rw [hfd, ← hbatch, ← hinterest, ← hidle, ← hio]
  exact ⟨hu.setBatch (fakes_invalidate _ _), rfl, rfl, rfl⟩

theorem IoOk.wait (h : IoOk s) {batch : List EpollEvent} (hwait : s.wait batch = some t) :
    IoOk t ∧ t.io = s.io ∧ t.interest = s.interest ∧ t.batch = some ⟨batch, 0, false⟩ := by
  unfold IoLoop.wait at hwait
  obtain ⟨-, rfl⟩ := by simpa only [ite_none_left_eq_some, Option.some.injEq] using hwait
  exact ⟨h.setFakes (some ⟨batch, 0, false⟩), rfl, rfl, rfl⟩

theorem IoOk.finish (h : IoOk s) (hfinish : s.finish = some t) :
    IoOk t ∧ t.io = s.io ∧ t.interest = s.interest ∧ t.batch = none := by
  obtain ⟨b, hb, hfinish⟩ := bind_eq_some_iff.mp hfinish
  obtain ⟨-, rfl⟩ := by
    simpa only [ite_none_right_eq_some, Option.some.injEq] using hfinish
  exact ⟨h.setFakes none, rfl, rfl, rfl⟩

theorem turn_cases (hturn : s.turn = some (t, o)) :
    ∃ b pe, s.batch = some b ∧ b.events[b.i]? = some pe ∧
      ((t = { s with batch := some { b with i := b.i + 1 } } ∧ o = none) ∨
      (0 ≤ pe.data ∧ pe.data.toNat < s.nwatchers ∧ s.watchers pe.data.toNat = .null ∧
        t = { s with batch := some { b with i := b.i + 1 } }.disarm pe.data ∧ o = none) ∨
      ∃ w, 0 ≤ pe.data ∧ pe.data.toNat < s.nwatchers ∧ s.watchers pe.data.toNat = .watcher w ∧
        ((w = signalIoWatcher ∧ o = none ∧
          t = { s with batch := some { b with i := b.i + 1, haveSignals := true } }) ∨
        (t = { s with batch := some { b with i := b.i + 1 } } ∧
          o = some (w, deliverable pe.events (s.io w).pevents)))) := by
  obtain ⟨b, hb, hturn⟩ := bind_eq_some_iff.mp hturn
  obtain ⟨pe, hpe, hturn⟩ := bind_eq_some_iff.mp hturn
  refine ⟨b, pe, hb, hpe, ?_⟩
  simp only at hturn
  split at hturn
  · cases hturn
    exact .inl ⟨rfl, rfl⟩
  · split at hturn
    · cases hturn
    · next hrange =>
      obtain ⟨hpos, hlt⟩ := not_or.mp hrange
      split at hturn
      · next w hslot =>
        split at hturn
        · cases hturn
          exact .inl ⟨rfl, rfl⟩
        · refine .inr (.inr ⟨w, not_lt.mp hpos, not_le.mp hlt, hslot, ?_⟩)
          split at hturn
          · next hsignal =>
            cases hturn
            exact .inl ⟨hsignal, rfl, rfl⟩
          · cases hturn
            exact .inr ⟨rfl, rfl⟩
      · next hslot =>
        cases hturn
        exact .inr (.inl ⟨not_lt.mp hpos, not_le.mp hlt, hslot, rfl, rfl⟩)
      · cases hturn
      · cases hturn

theorem IoOk.turn (h : IoOk s) (hturn : s.turn = some (t, o)) : IoOk t ∧ t.io = s.io := by
  obtain ⟨b, pe, hb, -, hcases⟩ := turn_cases hturn
  have hfakes : ∀ {i : ℕ} {signals : Bool},
      Batch.fakes (some ⟨b.events, i, signals⟩) = Batch.fakes s.batch := by
    intro i signals
    rw [hb]
    rfl
  obtain ⟨rfl, -⟩ | ⟨-, -, -, rfl, -⟩ | ⟨w, -, -, -, ⟨-, -, rfl⟩ | ⟨rfl, -⟩⟩ := hcases
  · exact ⟨h.setBatch hfakes, rfl⟩
  · rw [disarm_eq]
    exact ⟨h.setBatch hfakes, rfl⟩
  · exact ⟨h.setBatch hfakes, rfl⟩
  · exact ⟨h.setBatch hfakes, rfl⟩

theorem IoOk.signals (h : IoOk s) (hsignals : s.signals = some (t, o)) :
    IoOk t ∧ t.io = s.io ∧ t.interest = s.interest := by
  obtain ⟨b, hb, hsignals⟩ := bind_eq_some_iff.mp hsignals
  obtain ⟨-, hsignals⟩ := by simpa only [ite_none_right_eq_some] using hsignals
  cases hsignals
  exact ⟨h.setBatch (by rw [hb]; rfl), rfl, rfl⟩

theorem IoOk.uvIoFeed (h : IoOk s) : IoOk (s.uvIoFeed w) ∧ (s.uvIoFeed w).io = s.io ∧
    (s.uvIoFeed w).interest = s.interest ∧ (s.uvIoFeed w).batch = s.batch := by
  unfold IoLoop.uvIoFeed
  split
  · exact ⟨h.setBatch rfl, rfl, rfl, rfl⟩
  · exact ⟨h, rfl, rfl, rfl⟩

/-! ### A registration pass that does not abort -/

theorem IoOk.dequeue (h : IoOk s) (hw : (s.io w).pevents = (s.io w).events) :
    IoOk (s.dequeue w) := by
  refine { h with
    queued := fun v hv hne => ?_
    queue := fun v hv => ?_
    nodup := h.nodup.erase w }
  · have hvw : v ≠ w := by
      rintro rfl
      exact hne hw
    exact h.nodup.mem_erase_iff.mpr ⟨hvw, h.queued v hv hne⟩
  · exact h.queue v (mem_of_mem_erase hv)

theorem IoOk.registered (h : IoOk s)
    (hw : (s.io w).pevents ≠ 0) :
    IoOk { (s.dequeue w).setIo w ⟨(s.io w).fd, (s.io w).pevents, (s.io w).pevents⟩ with
      interest := interest } := by
  have hset : IoOk (s.setIo w ⟨(s.io w).fd, (s.io w).pevents, (s.io w).pevents⟩) :=
    h.setPevents hw rfl hw (h.legal w) fun habs => absurd rfl habs
  exact (hset.dequeue (by simp)).setBatch rfl

theorem epollCtl_eq {op : EpollOp} {fd : ℕ} (h : s.epollCtl op fd events = .ok t) :
    t = { s with interest := t.interest } := by
  unfold epollCtl at h
  split at h <;> cases h <;> rfl

theorem register_eq (h : s.register w = some t) : (s.io w).pevents ≠ 0 ∧
    t = { (s.dequeue w).setIo w ⟨(s.io w).fd, (s.io w).pevents, (s.io w).pevents⟩ with
      interest := t.interest } := by
  unfold IoLoop.register at h
  obtain ⟨hassert, hregister⟩ := by simpa only [ite_none_left_eq_some] using h
  obtain ⟨u, hu, rfl⟩ := map_eq_some_iff.mp hregister
  refine ⟨(not_or.mp hassert).1, ?_⟩
  have heq : u = { s.dequeue w with interest := u.interest } := by
    split at hu
    · next v hctl =>
      cases hu
      exact epollCtl_eq hctl
    · cases hu
    · obtain ⟨-, hmod⟩ := by simpa only [ite_none_left_eq_some] using hu
      cases hctl : (s.dequeue w).epollCtl .mod ((s.dequeue w).io w).fd.toNat
          ((s.dequeue w).io w).pevents with
      | error err =>
        rw [hctl] at hmod
        cases hmod
      | ok v =>
        rw [hctl] at hmod
        exact Option.some.inj hmod ▸ epollCtl_eq hctl
  rw [heq]
  rfl

/-- A pass changes what the watchers are registered for, not what they ask for. -/
theorem IoOk.registerAll {ws : List ℕ} (h : IoOk s) (hpass : s.registerAll ws = some t) :
    IoOk t ∧ (∀ v, (t.io v).fd = (s.io v).fd ∧ (t.io v).pevents = (s.io v).pevents) ∧
      t.batch = s.batch := by
  induction ws generalizing s with
  | nil =>
    cases hpass
    exact ⟨h, fun _ => ⟨rfl, rfl⟩, rfl⟩
  | cons w ws ih =>
    obtain ⟨u, hregister, hrest⟩ := bind_eq_some_iff.mp hpass
    obtain ⟨hpev, heq⟩ := register_eq hregister
    have hu : IoOk u := heq ▸ h.registered hpev
    obtain ⟨ht, hio, hbatch⟩ := ih hu hrest
    have hsame : ∀ v, (u.io v).fd = (s.io v).fd ∧ (u.io v).pevents = (s.io v).pevents := by
      intro v
      rw [heq]
      by_cases hvw : v = w
      · simp [hvw]
      · simp [hvw]
    refine ⟨ht, fun v => ⟨(hio v).1.trans (hsame v).1, (hio v).2.trans (hsame v).2⟩, ?_⟩
    rw [hbatch, heq]
    rfl

theorem IoOk.registration (h : IoOk s) (hpass : s.registration = some t) :
    IoOk t ∧ (∀ v, (t.io v).fd = (s.io v).fd ∧ (t.io v).pevents = (s.io v).pevents) ∧
      t.batch = s.batch := by
  unfold IoLoop.registration at hpass
  split at hpass
  · obtain ⟨-, rfl⟩ := by
      simpa only [ite_none_right_eq_some, Option.some.injEq] using hpass
    exact ⟨h, fun _ => ⟨rfl, rfl⟩, rfl⟩
  · exact h.registerAll hpass

end IoLoop

end LibuvWorks.Unix
