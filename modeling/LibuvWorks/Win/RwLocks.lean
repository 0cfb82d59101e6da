import LibuvWorks.Lib.Threads
import LibuvWorks.Win.RwLock
import Mathlib.Algebra.BigOperators.Group.Finset.Piecewise

/-!
# Exclusion and progress of a read-write lock

The semaphore is free, or with a writer, or with the readers together. It is with the readers while
`num_readers_` is not 0, but for the moments in the critical section in which the first reader waits
for it and the last one releases it.
-/
namespace LibuvWorks.Win

open Option Function
open Function (update)
open Mutex Threads Transition

/-- The critical sections of `num_readers_lock_`. -/
def RwPc.inCs : RwPc → Bool
  | .idle | .rdEnter | .unEnter | .wrWait => false
  | _ => true

def RwPc.asks : RwPc → Bool
  | .rdEnter | .rdCount | .rdWait => true
  | _ => false

namespace RwThread

def InCs (x : RwThread) : Prop := x.pc.inCs = true

/-- `num_readers_` counts the thread, which does not yet hold the lock. -/
def counted (x : RwThread) : ℕ :=
  match x.pc with
  | .rdWait | .rdLeave | .tryLeave true => 1
  | _ => 0

def waiting (x : RwThread) : ℕ := if x.pc = .rdWait then 1 else 0

def releasing (x : RwThread) : ℕ := if x.pc = .unRelease then 1 else 0

def writing (x : RwThread) : ℕ := x.writes.toNat

def Unlocks (x : RwThread) : Prop := x.pc = .unEnter ∨ x.pc = .unCount → 0 < x.reads

theorem counted_of_away (x : RwThread) (h : ¬x.InCs) : x.counted = 0 := by
  obtain ⟨pc, reads, writes⟩ := x
  cases pc <;> first | rfl | exact absurd rfl h

theorem waiting_of_away (x : RwThread) (h : ¬x.InCs) : x.waiting = 0 :=
  if_neg fun habs => h (by rw [InCs, habs]; rfl)

theorem releasing_of_away (x : RwThread) (h : ¬x.InCs) : x.releasing = 0 :=
  if_neg fun habs => h (by rw [InCs, habs]; rfl)

end RwThread

namespace RwLock

open RwThread (InCs counted releasing waiting writing)

variable {τ : Type*} [DecidableEq τ] [Fintype τ] {s t : RwLock τ} {i j : τ} {e : Event τ}

def taken (numReaders : ℕ) : ℕ := if 0 < numReaders then 1 else 0

structure Shared (s : RwLock τ) : Prop where
  guards : Guards s.owner fun j => (s.thread j).InCs
  count : s.numReaders = total s.thread RwThread.reads + total s.thread counted
  semaphore : s.semaphore + total s.thread writing + taken s.numReaders +
    total s.thread releasing = 1 + total s.thread waiting
  first : ∀ j, (s.thread j).pc = .rdWait → s.numReaders = 1
  unlocks : ∀ j, (s.thread j).Unlocks

namespace Shared

variable {x y : RwThread} {semaphore : ℕ} {pc : RwPc}

theorem put (h : Shared s) (hi : s.thread i = y) {owner : Option τ} {numReaders : ℕ}
    (hguards : Guards owner fun j => (update s.thread i x j).InCs)
    (hcount : numReaders + (y.reads + y.counted) = s.numReaders + (x.reads + x.counted))
    (hsemaphore : semaphore + x.writing + taken numReaders + x.releasing + y.waiting =
      s.semaphore + y.writing + taken s.numReaders + y.releasing + x.waiting)
    (hsame : numReaders = s.numReaders ∨ y.InCs) (hfirst : x.pc = .rdWait → numReaders = 1)
    (hunlocks : x.Unlocks) :
    Shared ⟨owner, numReaders, semaphore, update s.thread i x⟩ := by
  subst hi
  constructor
  · exact hguards
  · have hreads := total_update s.thread RwThread.reads i x
    have hcounted := total_update s.thread counted i x
    have hold := h.count
    change numReaders = total (update s.thread i x) _ + total (update s.thread i x) _
    omega
  · have hwriting := total_update s.thread writing i x
    have hreleasing := total_update s.thread releasing i x
    have hwaiting := total_update s.thread waiting i x
    have hold := h.semaphore
    change semaphore + total (update s.thread i x) _ + taken numReaders +
      total (update s.thread i x) _ = 1 + total (update s.thread i x) _
    omega
  · intro j hj
    by_cases e : j = i
    · subst e
      change (update s.thread j x j).pc = .rdWait at hj
      rw [update_self] at hj
      exact hfirst hj
    · change (update s.thread i x j).pc = .rdWait at hj
      rw [update_of_ne e] at hj
      rcases hsame with hsame | hin
      · exact hsame.trans (h.first j hj)
      · exact absurd (h.guards.unique (by rw [InCs, hj]; rfl) hin) e
  · exact forall_update (P := fun _ => RwThread.Unlocks) h.unlocks hunlocks

theorem putAway (h : Shared s) (hi : s.thread i = y)
    (hy : y.pc.inCs = false) (hx : x.pc.inCs = false) (hreads : y.reads = x.reads)
    (hsemaphore : semaphore + x.writing = s.semaphore + y.writing) (hunlocks : x.Unlocks) :
    Shared ⟨s.owner, s.numReaders, semaphore, update s.thread i x⟩ := by
  have hyNot : ¬y.InCs := by simp [InCs, hy]
  have hxNot : ¬x.InCs := by simp [InCs, hx]
  have hxZero := And.intro (x.counted_of_away hxNot) (x.waiting_of_away hxNot)
  have hyZero := And.intro (y.counted_of_away hyNot) (y.waiting_of_away hyNot)
  have hxReleasing := x.releasing_of_away hxNot
  have hyReleasing := y.releasing_of_away hyNot
  apply h.put hi
  · apply guards_keep h.guards
    rw [hi]
    exact iff_of_false hxNot hyNot
  · omega
  · omega
  · exact .inl rfl
  · intro habs
    rw [habs] at hx
    cases hx
  · exact hunlocks

theorem enter (h : Shared s) (pc' : RwPc) {reads : ℕ} {writes : Bool}
    (hi : s.thread i = ⟨pc, reads, writes⟩) (hpc : pc.inCs = false)
    (hpc' : pc' = .rdCount ∨ pc' = .tryTest ∨ (pc' = .unCount ∧ 0 < reads))
    (hfree : s.owner = none) :
    Shared ⟨some i, s.numReaders, s.semaphore, update s.thread i ⟨pc', reads, writes⟩⟩ := by
  have hguards := h.guards
  rw [hfree] at hguards
  have hin : pc'.inCs = true := by
    rcases hpc' with rfl | rfl | ⟨rfl, -⟩ <;> rfl
  have hnot : ¬InCs ⟨pc, reads, writes⟩ := by simp [InCs, hpc]
  have hcounted := RwThread.counted_of_away ⟨pc, reads, writes⟩ hnot
  have hwaiting := RwThread.waiting_of_away ⟨pc, reads, writes⟩ hnot
  have hreleasing := RwThread.releasing_of_away ⟨pc, reads, writes⟩ hnot
  apply h.put hi
  · exact guards_take hguards hin
  · rw [hcounted]
    rcases hpc' with rfl | rfl | ⟨rfl, -⟩ <;> rfl
  · rw [hwaiting, hreleasing]
    rcases hpc' with rfl | rfl | ⟨rfl, -⟩ <;> rfl
  · exact .inl rfl
  · rcases hpc' with rfl | rfl | ⟨rfl, -⟩ <;> exact nofun
  · intro hunlocks
    rcases hpc' with rfl | rfl | ⟨rfl, hpos⟩
    · exact absurd hunlocks (by simp)
    · exact absurd hunlocks (by simp)
    · exact hpos

theorem leave (h : Shared s) {reads : ℕ} (reads' : ℕ) {writes : Bool}
    (hi : s.thread i = ⟨pc, reads, writes⟩) (hin : pc.inCs = true)
    (hwaiting : pc ≠ .rdWait) (hreleasing : pc ≠ .unRelease)
    (hreads : reads' = reads + counted ⟨pc, reads, writes⟩) :
    Shared ⟨none, s.numReaders, s.semaphore, update s.thread i ⟨.idle, reads', writes⟩⟩ := by
  have howner : s.owner = some i := by
    apply (h.guards i).mpr
    change (s.thread i).InCs
    rw [hi]
    exact hin
  have hguards := h.guards
  rw [howner] at hguards
  have hnoWait : waiting ⟨pc, reads, writes⟩ = 0 := if_neg hwaiting
  have hnoRelease : releasing ⟨pc, reads, writes⟩ = 0 := if_neg hreleasing
  apply h.put hi
  · exact guards_release hguards Bool.false_ne_true
  · change s.numReaders + (reads + _) = s.numReaders + (reads' + 0)
    omega
  · rw [hnoWait, hnoRelease]
    rfl
  · exact .inl rfl
  · exact nofun
  · exact fun habs => absurd habs (by simp)

theorem inside (h : Shared s) (hi : s.thread i = y) (hin : y.pc.inCs = true)
    (hin' : x.pc.inCs = true) {numReaders : ℕ}
    (hcount : numReaders + (y.reads + y.counted) = s.numReaders + (x.reads + x.counted))
    (hsemaphore : semaphore + x.writing + taken numReaders + x.releasing + y.waiting =
      s.semaphore + y.writing + taken s.numReaders + y.releasing + x.waiting)
    (hfirst : x.pc = .rdWait → numReaders = 1) (hunlocks : x.pc ≠ .unCount) :
    Shared ⟨s.owner, numReaders, semaphore, update s.thread i x⟩ := by
  apply h.put hi _ hcount hsemaphore (.inr hin) hfirst
  · rintro (habs | habs)
    · rw [habs] at hin'
      cases hin'
    · exact absurd habs hunlocks
  · apply guards_keep h.guards
    rw [hi]
    exact iff_of_true hin' hin

/-! ### Turns -/

section

variable (h : Shared s) {reads : ℕ} {writes : Bool}
include h

theorem tryRead (hi : s.thread i = ⟨.tryTest, reads, writes⟩) : Shared (s.tryRead i) := by
  unfold RwLock.tryRead goto RwLock.put
  simp only [hi]
  split_ifs with hnone hfree
  · apply h.inside hi rfl rfl
    · rw [hnone]
      change 1 + (reads + 0) = 0 + (reads + 1)
      omega
    · rw [hnone]
      change s.semaphore - 1 + writes.toNat + 1 + 0 + 0 = s.semaphore + writes.toNat + 0 + 0 + 0
      omega
    · exact nofun
    · exact nofun
  · exact h.inside hi rfl rfl rfl rfl nofun nofun
  · have hsome : taken (s.numReaders + 1) = taken s.numReaders := by
      rw [taken, taken, if_pos (Nat.succ_pos _), if_pos (Nat.pos_of_ne_zero hnone)]
    apply h.inside hi rfl rfl
    · change s.numReaders + 1 + (reads + 0) = s.numReaders + (reads + 1)
      omega
    · rw [hsome]
      rfl
    · exact nofun
    · exact nofun

theorem turn_rdCount (hi : s.thread i = ⟨.rdCount, reads, writes⟩) :
    Shared ⟨s.owner, s.numReaders + 1, s.semaphore,
      update s.thread i ⟨if s.numReaders + 1 = 1 then .rdWait else .rdLeave, reads, writes⟩⟩ := by
  split_ifs with hfirst
  · have hnone : s.numReaders = 0 := Nat.succ.inj hfirst
    apply h.inside hi rfl rfl
    · rw [hnone]
      change 1 + (reads + 0) = 0 + (reads + 1)
      omega
    · rw [hnone]
      change s.semaphore + writes.toNat + 1 + 0 + 0 = s.semaphore + writes.toNat + 0 + 0 + 1
      omega
    · exact fun _ => hfirst
    · exact nofun
  · have hsome : taken (s.numReaders + 1) = taken s.numReaders := by
      rw [taken, taken, if_pos (Nat.succ_pos _), if_pos (by omega)]
    apply h.inside hi rfl rfl
    · change s.numReaders + 1 + (reads + 0) = s.numReaders + (reads + 1)
      omega
    · rw [hsome]
      rfl
    · exact nofun
    · exact nofun

theorem turn_unCount (hi : s.thread i = ⟨.unCount, reads, writes⟩) :
    Shared ⟨s.owner, s.numReaders - 1, s.semaphore, update s.thread i
      ⟨if s.numReaders - 1 = 0 then .unRelease else .unLeave, reads - 1, writes⟩⟩ := by
  have hreads : 0 < reads := by
    have hunlocks := h.unlocks i
    rw [hi] at hunlocks
    exact hunlocks (.inr rfl)
  have hpos : 0 < s.numReaders := by
    have hle := le_total s.thread RwThread.reads i
    rw [hi] at hle
    have hcount := h.count
    change reads ≤ _ at hle
    omega
  split_ifs with hlast
  · have hone : s.numReaders = 1 := by omega
    apply h.inside hi rfl rfl
    · change s.numReaders - 1 + (reads + 0) = s.numReaders + (reads - 1 + 0)
      omega
    · rw [hone]
      rfl
    · exact nofun
    · exact nofun
  · have hsome : taken (s.numReaders - 1) = taken s.numReaders := by
      rw [taken, taken, if_pos (Nat.pos_of_ne_zero hlast), if_pos hpos]
    apply h.inside hi rfl rfl
    · change s.numReaders - 1 + (reads + 0) = s.numReaders + (reads - 1 + 0)
      omega
    · rw [hsome]
      rfl
    · exact nofun
    · exact nofun

theorem owner_sums (hin : (s.thread i).InCs) :
    total s.thread waiting = (s.thread i).waiting ∧
    total s.thread counted = (s.thread i).counted ∧
    total s.thread releasing = (s.thread i).releasing := by
  have hguards := h.guards
  rw [(h.guards i).mpr hin] at hguards
  exact ⟨total_of_owner hguards RwThread.waiting_of_away,
    total_of_owner hguards RwThread.counted_of_away,
    total_of_owner hguards RwThread.releasing_of_away⟩

theorem waiting_cases : total s.thread waiting = 0 ∨
    (total s.thread waiting = 1 ∧ total s.thread counted = 1 ∧
      s.numReaders = 1) := by
  by_cases hnone : total s.thread waiting = 0
  · exact .inl hnone
  · obtain ⟨j, hj⟩ := exists_of_total_pos (Nat.pos_of_ne_zero hnone)
    have hpc : (s.thread j).pc = .rdWait := by
      by_contra hne
      exact absurd hj (by simp [waiting, hne])
    have hin : (s.thread j).InCs := by
      rw [InCs, hpc]
      rfl
    obtain ⟨hwaiting, hcounted, -⟩ := h.owner_sums hin
    refine .inr ⟨hwaiting.trans (if_pos hpc), hcounted.trans ?_, h.first j hpc⟩
    rw [counted, hpc]

theorem semaphore_of_share
    (hshare : (s.thread i).writes = true ∨ (s.thread i).pc = .unRelease) : s.semaphore = 0 := by
  have hsemaphore := h.semaphore
  rcases hshare with hwrites | hrelease
  · have hle := le_total s.thread writing i
    rw [writing, hwrites, Bool.toNat_true] at hle
    rcases h.waiting_cases with hnone | ⟨hone, -, hfirst⟩
    · omega
    · rw [hone, hfirst] at hsemaphore
      change _ + _ + 1 + _ = 2 at hsemaphore
      omega
  · have hin : (s.thread i).InCs := by
      rw [InCs, hrelease]
      rfl
    obtain ⟨hwaiting, -, hreleasing⟩ := h.owner_sums hin
    rw [waiting, if_neg (by simp [hrelease])] at hwaiting
    rw [releasing, if_pos hrelease] at hreleasing
    omega

theorem exclusive (hwrites : (s.thread i).writes = true) :
    total s.thread writing = 1 ∧ total s.thread RwThread.reads = 0 := by
  have hsemaphore := h.semaphore
  have hcount := h.count
  have hle := le_total s.thread writing i
  rw [writing, hwrites, Bool.toNat_true] at hle
  rcases h.waiting_cases with hnone | ⟨hone, hcounted, hfirst⟩
  · have hzero : s.numReaders = 0 := by
      by_contra hpos
      rw [taken, if_pos (Nat.pos_of_ne_zero hpos)] at hsemaphore
      omega
    omega
  · rw [hone, hfirst] at hsemaphore
    change _ + _ + 1 + _ = 2 at hsemaphore
    omega

theorem turn (ht : s.turn i = some t) : Shared t := by
  cases hi : s.thread i with
  | mk pc reads writes =>
    unfold RwLock.turn at ht
    simp only [hi] at ht
    cases pc with
    | idle => cases ht
    | rdEnter =>
      obtain ⟨hfree, ht⟩ := ite_none_right_eq_some.mp ht
      cases ht
      have hentered := h.enter .rdCount hi rfl (.inl rfl) hfree
      simpa only [goto, RwLock.put, hi] using hentered
    | rdCount =>
      cases ht
      simpa only [goto, RwLock.put, hi] using h.turn_rdCount hi
    | rdWait =>
      obtain ⟨hfree, ht⟩ := ite_none_right_eq_some.mp ht
      cases ht
      have hone : s.numReaders = 1 := h.first i (by rw [hi])
      have hwaited : Shared ⟨s.owner, s.numReaders, s.semaphore - 1,
          update s.thread i ⟨.rdLeave, reads, writes⟩⟩ := by
        apply h.inside hi rfl rfl
        · rfl
        · change s.semaphore - 1 + writes.toNat + taken s.numReaders + 0 + 1 =
            s.semaphore + writes.toNat + taken s.numReaders + 0 + 0
          omega
        · exact nofun
        · exact nofun
      simpa only [goto, RwLock.put, hi] using hwaited
    | rdLeave =>
      cases ht
      have hleft := h.leave (reads + 1) hi rfl nofun nofun rfl
      simpa only [RwLock.leave, RwLock.put, hi] using hleft
    | tryTest =>
      cases ht
      exact h.tryRead hi
    | tryLeave ok =>
      cases ht
      have hcounted : ok.toNat = counted ⟨.tryLeave ok, reads, writes⟩ := by
        cases ok <;> rfl
      have hleft := h.leave (reads + ok.toNat) hi rfl nofun nofun
        (congrArg (reads + ·) hcounted)
      simpa only [RwLock.leave, RwLock.put, hi] using hleft
    | unEnter =>
      obtain ⟨hfree, ht⟩ := ite_none_right_eq_some.mp ht
      cases ht
      have hunlocks := h.unlocks i
      rw [hi] at hunlocks
      have hentered := h.enter .unCount hi rfl
        (.inr (.inr ⟨rfl, hunlocks (.inl rfl)⟩)) hfree
      simpa only [goto, RwLock.put, hi] using hentered
    | unCount =>
      cases ht
      simpa only [RwLock.put] using h.turn_unCount hi
    | unRelease =>
      obtain ⟨hbusy, ht⟩ := ite_none_right_eq_some.mp ht
      cases ht
      have hzero : s.semaphore = 0 := hbusy
      have hreleased : Shared ⟨s.owner, s.numReaders, 1,
          update s.thread i ⟨.unLeave, reads, writes⟩⟩ := by
        apply h.inside hi rfl rfl
        · rfl
        · rw [hzero]
          change 1 + writes.toNat + taken s.numReaders + 0 + 0 =
            0 + writes.toNat + taken s.numReaders + 1 + 0
          omega
        · exact nofun
        · exact nofun
      simpa only [goto, RwLock.put, hi] using hreleased
    | unLeave =>
      cases ht
      have hleft := h.leave reads hi rfl nofun nofun rfl
      simpa only [RwLock.leave, RwLock.put, hi] using hleft
    | wrWait =>
      obtain ⟨hfree, ht⟩ := ite_none_right_eq_some.mp ht
      cases ht
      have hwritten : Shared ⟨s.owner, s.numReaders, s.semaphore - 1,
          update s.thread i ⟨.idle, reads, true⟩⟩ := by
        have hnot : writes = false := by
          by_contra hset
          have hzero := h.semaphore_of_share (i := i) (.inl (by rw [hi]; simpa using hset))
          omega
        subst hnot
        apply h.putAway hi rfl
        · rfl
        · rfl
        · change s.semaphore - 1 + 1 = s.semaphore + 0
          omega
        · exact fun habs => absurd habs (by simp)
      simpa only [RwLock.put] using hwritten

end

/-! ### Calls -/

theorem goto (h : Shared s) (hidle : (s.thread i).pc = .idle)
    (hpc : pc = .rdEnter ∨ pc = .wrWait ∨ (pc = .unEnter ∧ 0 < (s.thread i).reads)) :
    Shared (s.goto i pc) := by
  apply h.putAway rfl
  · rw [hidle]
    rfl
  · rcases hpc with rfl | rfl | ⟨rfl, -⟩ <;> rfl
  · rfl
  · rfl
  · rcases hpc with rfl | rfl | ⟨rfl, hpos⟩
    · exact fun habs => absurd habs (by simp)
    · exact fun habs => absurd habs (by simp)
    · exact fun _ => hpos

theorem trywrlock (h : Shared s) (hidle : (s.thread i).pc = .idle) : Shared (s.trywrlock i) := by
  unfold RwLock.trywrlock
  split_ifs with hfree
  · have hnot : (s.thread i).writes = false := by
      by_contra hset
      have hzero := h.semaphore_of_share (.inl (eq_true_of_ne_false hset))
      omega
    apply h.putAway rfl
    · rw [hidle]
      rfl
    · change RwPc.inCs (s.thread i).pc = false
      rw [hidle]
      rfl
    · rfl
    · rw [writing, writing, hnot]
      change s.semaphore - 1 + 1 = s.semaphore + 0
      omega
    · intro habs
      change (s.thread i).pc = _ ∨ (s.thread i).pc = _ at habs
      rw [hidle] at habs
      simp at habs
  · exact h

theorem wrunlock (h : Shared s) (hidle : (s.thread i).pc = .idle)
    (hwrites : (s.thread i).writes = true) : ∃ t, s.wrunlock i = some t ∧ Shared t := by
  have hzero := h.semaphore_of_share (.inl hwrites)
  refine ⟨_, if_pos hzero, ?_⟩
  apply h.putAway rfl
  · rw [hidle]
    rfl
  · change RwPc.inCs (s.thread i).pc = false
    rw [hidle]
    rfl
  · rfl
  · rw [writing, writing, hwrites, hzero]
    rfl
  · intro habs
    change (s.thread i).pc = _ ∨ (s.thread i).pc = _ at habs
    rw [hidle] at habs
    simp at habs

theorem tryrdlock (h : Shared s) (hidle : (s.thread i).pc = .idle) : Shared (s.tryrdlock i) := by
  cases hi : s.thread i with
  | mk pc reads writes =>
    rw [hi] at hidle
    unfold RwLock.tryrdlock
    split_ifs with hfree
    · have hentered := h.enter .tryTest hi (by rw [show pc = .idle from hidle]; rfl)
        (.inr (.inl rfl)) hfree
      simpa only [RwLock.goto, RwLock.put, hi] using hentered
    · exact h

theorem next (h : Shared s) (henabled : s.Enabled e) (ht : s.next e = some t) : Shared t := by
  cases e with
  | rdlock i =>
    cases ht
    exact h.goto henabled (.inl rfl)
  | tryrdlock i =>
    cases ht
    exact h.tryrdlock henabled
  | rdunlock i =>
    cases ht
    exact h.goto henabled.1 (.inr (.inr ⟨rfl, henabled.2⟩))
  | wrlock i =>
    cases ht
    exact h.goto henabled (.inr (.inl rfl))
  | trywrlock i =>
    cases ht
    exact h.trywrlock henabled
  | wrunlock i =>
    obtain ⟨u, hu, hshared⟩ := h.wrunlock henabled.1 henabled.2
    cases hu.symm.trans ht
    exact hshared
  | turn i => exact h.turn ht

theorem init (h : Init s) : Shared s := by
  have hzero : ∀ g : RwThread → ℕ, g ⟨.idle, 0, false⟩ = 0 → total s.thread g = 0 :=
    fun g hg => total_eq_zero.mpr fun j => by rw [h.thread j, hg]
  constructor
  · intro j
    rw [h.owner]
    refine iff_of_false nofun fun habs => ?_
    change (s.thread j).InCs at habs
    rw [h.thread j] at habs
    cases habs
  · rw [h.numReaders, hzero _ rfl, hzero _ rfl]
  · rw [h.numReaders, h.semaphore, hzero _ rfl, hzero _ rfl, hzero _ rfl]
    rfl
  · intro j hj
    rw [h.thread j] at hj
    cases hj
  · intro j
    rw [h.thread j]
    exact fun habs => absurd habs (by simp)

theorem of_reachable (h : Reachable Init Step s) : Shared s := by
  apply h.invariant
  · exact fun s hs => init hs
  · rintro s e t - hs hst
    obtain ⟨henabled, ht⟩ := ite_none_right_eq_some.mp hst
    exact hs.next henabled ht

end Shared

/-! ### Waiting -/

/-- No call that waits is made by a thread that holds the lock, but for reading again. -/
def Careful (s : RwLock τ) : Event τ → Prop
  | .rdlock i => (s.thread i).writes = false
  | .wrlock i => (s.thread i).reads = 0 ∧ (s.thread i).writes = false
  | _ => True

structure Waits (x : RwThread) : Prop where
  read : x.pc.asks = true → x.writes = false
  write : x.pc = .wrWait → x.reads = 0 ∧ x.writes = false

theorem turn_thread (ht : s.turn i = some t) : ∃ x, t.thread = update s.thread i x ∧
    x.pc ≠ .wrWait ∧
    (x.pc.asks = true → (s.thread i).pc.asks = true ∧ x.writes = (s.thread i).writes) := by
  cases hi : s.thread i with
  | mk pc reads writes =>
    unfold turn at ht
    simp only [hi] at ht
    cases pc with
    | idle => cases ht
    | rdEnter =>
      obtain ⟨-, ht⟩ := ite_none_right_eq_some.mp ht
      cases ht
      exact ⟨_, rfl, nofun, fun _ => ⟨rfl, by rw [hi]⟩⟩
    | rdCount =>
      cases ht
      refine ⟨_, rfl, ?_, fun _ => ⟨rfl, by rw [hi]⟩⟩
      dsimp only
      split_ifs <;> exact nofun
    | rdWait =>
      obtain ⟨-, ht⟩ := ite_none_right_eq_some.mp ht
      cases ht
      exact ⟨_, rfl, nofun, nofun⟩
    | rdLeave =>
      cases ht
      exact ⟨_, rfl, nofun, nofun⟩
    | tryTest =>
      cases ht
      unfold tryRead
      split_ifs
      · exact ⟨_, rfl, nofun, nofun⟩
      · exact ⟨_, rfl, nofun, nofun⟩
      · exact ⟨_, rfl, nofun, nofun⟩
    | tryLeave ok =>
      cases ht
      exact ⟨_, rfl, nofun, nofun⟩
    | unEnter =>
      obtain ⟨-, ht⟩ := ite_none_right_eq_some.mp ht
      cases ht
      exact ⟨_, rfl, nofun, nofun⟩
    | unCount =>
      cases ht
      refine ⟨_, rfl, ?_, ?_⟩
      · dsimp only
        split_ifs <;> exact nofun
      · dsimp only
        split_ifs <;> exact nofun
    | unRelease =>
      obtain ⟨-, ht⟩ := ite_none_right_eq_some.mp ht
      cases ht
      exact ⟨_, rfl, nofun, nofun⟩
    | unLeave =>
      cases ht
      exact ⟨_, rfl, nofun, nofun⟩
    | wrWait =>
      obtain ⟨-, ht⟩ := ite_none_right_eq_some.mp ht
      cases ht
      exact ⟨_, rfl, nofun, nofun⟩

theorem waits_next (h : ∀ j, Waits (s.thread j)) (henabled : s.Enabled e) (hcareful : Careful s e)
    (ht : s.next e = some t) : ∀ j, Waits (t.thread j) := by
  have hmove : ∀ {i x}, Waits x → ∀ j, Waits (update s.thread i x j) :=
    fun hx => forall_update (P := fun _ => Waits) h hx
  have hback : ∀ {x : RwThread}, x.pc = .idle → Waits x := by
    intro x hx
    constructor
    · rw [hx]
      exact nofun
    · rw [hx]
      exact nofun
  cases e with
  | rdlock i =>
    cases ht
    exact hmove ⟨fun _ => hcareful, nofun⟩
  | tryrdlock i =>
    cases ht
    unfold tryrdlock
    split_ifs
    · exact hmove ⟨nofun, nofun⟩
    · exact h
  | rdunlock i =>
    cases ht
    exact hmove ⟨nofun, nofun⟩
  | wrlock i =>
    cases ht
    exact hmove ⟨nofun, fun _ => hcareful⟩
  | trywrlock i =>
    cases ht
    unfold trywrlock
    split_ifs
    · exact hmove (hback henabled)
    · exact h
  | wrunlock i =>
    obtain ⟨-, ht⟩ := ite_none_right_eq_some.mp ht
    cases ht
    exact hmove (hback henabled.1)
  | turn i =>
    obtain ⟨x, hthread, hne, hasks⟩ := turn_thread ht
    rw [hthread]
    refine hmove ⟨fun hx => ?_, fun habs => absurd habs hne⟩
    obtain ⟨hold, hwrites⟩ := hasks hx
    exact hwrites.trans ((h i).read hold)

theorem waits_of_reachable (h : Reachable Init (Guarded Careful Step) s) :
    ∀ j, Waits (s.thread j) := by
  apply h.invariant (P := fun s => ∀ j, Waits (s.thread j))
  · intro s hs j
    rw [hs.thread j]
    exact ⟨nofun, nofun⟩
  · rintro s e t - hs ⟨hcareful, hst⟩
    obtain ⟨henabled, ht⟩ := ite_none_right_eq_some.mp hst
    exact waits_next hs henabled hcareful ht

/-- Where the semaphore is not free, a thread that does not wait can have it released. -/
theorem Shared.released (h : Shared s) (hwaits : ∀ j, Waits (s.thread j))
    (hzero : s.semaphore = 0) : ∃ j, ¬s.Blocked j ∧ s.Holds j := by
  by_cases hwriter : ∃ j, (s.thread j).writes = true
  · obtain ⟨j, hj⟩ := hwriter
    refine ⟨j, ?_, .inr (.inr hj)⟩
    have hreads := total_eq_zero.mp (h.exclusive hj).2 j
    have hnot : ¬(s.thread j).pc.asks = true := fun hasks => by
      cases hj.symm.trans ((hwaits j).read hasks)
    rintro (⟨hpc, -⟩ | ⟨hpc, -⟩ | ⟨hpc, -⟩ | ⟨hpc, -⟩)
    · exact hnot (by rw [hpc]; rfl)
    · exact absurd hreads (h.unlocks j (.inl hpc)).ne'
    · exact hnot (by rw [hpc]; rfl)
    · cases hj.symm.trans ((hwaits j).write hpc).2
  · have hnone : total s.thread writing = 0 := by
      refine total_eq_zero.mpr fun j => ?_
      rw [writing, eq_false_of_ne_true fun hj => hwriter ⟨j, hj⟩]
      rfl
    have hsemaphore := h.semaphore
    cases howner : s.owner with
    | none =>
      -- The readers have it, and the critical section is free.
      have hguards := h.guards
      rw [howner] at hguards
      have hcount := h.count
      have hcounted := total_of_free hguards RwThread.counted_of_away
      have hreleasing := total_of_free hguards RwThread.releasing_of_away
      have hpos : 0 < total s.thread RwThread.reads := by
        by_contra hread
        have hnoReaders : s.numReaders = 0 := by omega
        rw [hnoReaders] at hsemaphore
        change _ + _ + 0 + _ = _ at hsemaphore
        omega
      obtain ⟨j, hj⟩ := exists_of_total_pos hpos
      refine ⟨j, ?_, .inr (.inl hj)⟩
      rintro (⟨-, habs⟩ | ⟨-, habs⟩ | ⟨hpc, -⟩ | ⟨hpc, -⟩)
      · exact habs howner
      · exact habs howner
      · have hin : (s.thread j).InCs := by
          rw [InCs, hpc]
          rfl
        cases howner.symm.trans ((h.guards j).mpr hin)
      · exact absurd ((hwaits j).write hpc).1 hj.ne'
    | some j =>
      have hin : (s.thread j).InCs := (h.guards j).mp howner
      refine ⟨j, ?_, .inl howner⟩
      rintro (⟨hpc, -⟩ | ⟨hpc, -⟩ | ⟨hpc, -⟩ | ⟨hpc, -⟩)
      · rw [InCs, hpc] at hin
        cases hin
      · rw [InCs, hpc] at hin
        cases hin
      · -- The first reader waits, though no one has the semaphore.
        obtain ⟨hwaiting, -, hreleasing⟩ := h.owner_sums hin
        rw [waiting, if_pos hpc] at hwaiting
        rw [releasing, if_neg (by simp [hpc])] at hreleasing
        rw [h.first j hpc] at hsemaphore
        change _ + _ + 1 + _ = _ at hsemaphore
        omega
      · rw [InCs, hpc] at hin
        cases hin

theorem Shared.not_stuck (h : Shared s) (hwaits : ∀ j, Waits (s.thread j)) (hi : s.Blocked i) :
    ∃ j, ¬s.Blocked j ∧ s.Holds j := by
  by_cases hzero : s.semaphore = 0
  · exact h.released hwaits hzero
  · have hbusy : s.owner ≠ none := by
      rcases hi with ⟨-, hbusy⟩ | ⟨-, hbusy⟩ | ⟨-, habs⟩ | ⟨-, habs⟩
      · exact hbusy
      · exact hbusy
      · exact absurd habs hzero
      · exact absurd habs hzero
    obtain ⟨j, howner⟩ := ne_none_iff_exists'.mp hbusy
    have hin : (s.thread j).InCs := (h.guards j).mp howner
    refine ⟨j, ?_, .inl howner⟩
    rintro (⟨hpc, -⟩ | ⟨hpc, -⟩ | ⟨-, habs⟩ | ⟨-, habs⟩)
    · rw [InCs, hpc] at hin
      cases hin
    · rw [InCs, hpc] at hin
      cases hin
    · exact hzero habs
    · exact hzero habs

theorem Shared.goes (h : Shared s) (henabled : s.Enabled e) :
    (∃ t, s.next e = some t) ∨ ∃ i, e = .turn i ∧ s.Blocked i := by
  cases e with
  | rdlock i | tryrdlock i | rdunlock i | wrlock i | trywrlock i => exact .inl ⟨_, rfl⟩
  | wrunlock i =>
    obtain ⟨t, ht, -⟩ := h.wrunlock henabled.1 henabled.2
    exact .inl ⟨t, ht⟩
  | turn i =>
    have hwait : ∀ {P : Prop} [Decidable P] {u : RwLock τ}, (¬P → s.Blocked i) →
        (∃ t, (if P then some u else none) = some t) ∨ ∃ j, Event.turn i = .turn j ∧ s.Blocked j := by
      intro P _ u hnot
      split_ifs with hP
      · exact .inl ⟨u, rfl⟩
      · exact .inr ⟨i, rfl, hnot hP⟩
    change (∃ t, s.turn i = some t) ∨ _
    unfold RwLock.turn
    dsimp only
    cases hpc : (s.thread i).pc with
    | idle => exact absurd hpc henabled
    | rdEnter => exact hwait fun hbusy => .inl ⟨hpc, hbusy⟩
    | rdCount => exact .inl ⟨_, rfl⟩
    | rdWait => exact hwait fun hzero => .inr (.inr (.inl ⟨hpc, Nat.eq_zero_of_not_pos hzero⟩))
    | rdLeave | tryTest | tryLeave ok => exact .inl ⟨_, rfl⟩
    | unEnter => exact hwait fun hbusy => .inr (.inl ⟨hpc, hbusy⟩)
    | unCount => exact .inl ⟨_, rfl⟩
    | unRelease => exact .inl ⟨_, if_pos (h.semaphore_of_share (.inr hpc))⟩
    | unLeave => exact .inl ⟨_, rfl⟩
    | wrWait => exact hwait fun hzero => .inr (.inr (.inr ⟨hpc, Nat.eq_zero_of_not_pos hzero⟩))

/-! ### Tries -/

inductive Refused (s : RwLock τ) (i : τ) : Event τ → Prop
  | busy : s.owner ≠ none → Refused s i (.tryrdlock i)
  | test : (s.thread i).pc = .tryTest → s.numReaders = 0 → s.semaphore = 0 → Refused s i (.turn i)
  | leave : (s.thread i).pc = .tryLeave false → Refused s i (.turn i)
  | write : s.semaphore = 0 → Refused s i (.trywrlock i)

def view (s : RwLock τ) : ℕ × ℕ × (τ → ℕ × Bool) :=
  (s.semaphore, s.numReaders, fun j => ((s.thread j).reads, (s.thread j).writes))

omit [Fintype τ] in
theorem view_put {x : RwThread} (hreads : x.reads = (s.thread i).reads)
    (hwrites : x.writes = (s.thread i).writes) : (s.put i x).view = s.view := by
  have hsame : ∀ j, (((s.put i x).thread j).reads, ((s.put i x).thread j).writes) =
      ((s.thread j).reads, (s.thread j).writes) := by
    intro j
    change ((update s.thread i x j).reads, (update s.thread i x j).writes) = _
    by_cases e : j = i
    · subst e
      rw [update_self, hreads, hwrites]
    · rw [update_of_ne e]
  exact congrArg (fun holds => (s.semaphore, s.numReaders, holds)) (funext hsame)

omit [Fintype τ] in
/-- A failed try changes nothing, and has left the critical section when it returns. -/
theorem Refused.unchanged (h : Refused s i e) (hst : Step s e t) :
    t.view = s.view ∧ (t = s ∨ (t.thread i).pc = .tryLeave false ∨ t.owner = none) := by
  obtain ⟨-, ht⟩ := ite_none_right_eq_some.mp hst
  cases h with
  | busy hbusy =>
    cases ht
    unfold tryrdlock
    rw [if_neg hbusy]
    exact ⟨rfl, .inl rfl⟩
  | test hpc hnone hzero =>
    change s.turn i = some t at ht
    unfold turn at ht
    simp only [hpc] at ht
    cases ht
    unfold tryRead
    rw [if_pos hnone, if_neg (by omega)]
    refine ⟨view_put rfl rfl, .inr (.inl ?_)⟩
    change (update s.thread i _ i).pc = _
    rw [update_self]
  | leave hpc =>
    change s.turn i = some t at ht
    unfold turn at ht
    simp only [hpc] at ht
    cases ht
    have hview := view_put (s := s) (i := i) (x := { s.thread i with pc := .idle }) rfl rfl
    exact ⟨hview, .inr (.inr rfl)⟩
  | write hzero =>
    cases ht
    unfold trywrlock
    rw [if_neg (by omega)]
    exact ⟨rfl, .inl rfl⟩

local instance : NeZero 2 := ⟨two_ne_zero⟩

def fresh : RwLock (Fin 2) := ⟨none, 0, 1, fun _ => ⟨.idle, 0, false⟩⟩

theorem fresh_init : Init fresh := ⟨rfl, rfl, rfl, fun _ => rfl⟩

def readers : List (Event (Fin 2)) :=
  [.rdlock 0, .turn 0, .turn 0, .turn 0, .turn 0, .rdlock 1, .turn 1, .turn 1, .turn 1]

def readersRun : Option (RwLock (Fin 2)) := readers.foldlM step fresh

theorem readersRun_isSome : readersRun.isSome = true := by
  rfl

def upgradeRun : Option (RwLock (Fin 2)) :=
  (readers ++ [Event.wrlock 0, .wrlock 1]).foldlM step fresh

theorem upgradeRun_isSome : upgradeRun.isSome = true := by
  rfl

def twiceRun : Option (RwLock (Fin 2)) :=
  [Event.rdlock 0, .turn 0, .turn 0, .turn 0, .turn 0, .rdlock 0, .turn 0, .turn 0,
    .turn 0].foldlM step fresh

theorem twiceRun_isSome : twiceRun.isSome = true := by
  rfl

end RwLock

end LibuvWorks.Win
