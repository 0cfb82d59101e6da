import Mathlib.Algebra.Group.Int.Defs
import Mathlib.Algebra.Group.Nat.Defs
import Mathlib.Tactic.Common

/-!
# The file times of `win/fs.c`

A `FILETIME` counts ticks of 100 nanoseconds from 1601, in 64 bits without a sign. `fs__stat_handle`
stores a time as seconds from 1970, in a `long` of 32 bits, and nanoseconds.
-/
namespace LibuvWorks.Win

/-- `uv_timespec_t` -/
structure UvTimespec where
  tvSec : Int32
  tvNsec : Int32
  deriving DecidableEq

/-- `FILETIME_TO_UINT`: the ticks from 1970, which wrap before -/
def filetimeToUint (filetime : UInt64) : UInt64 := filetime - 116444736000000000

def filetimeToTimeT (filetime : UInt64) : UInt64 := filetimeToUint filetime / 10000000

/-- A `long` becomes a `uint64_t` in the product. -/
def filetimeToTimeNs (filetime : UInt64) (secs : Int32) : UInt64 :=
  (filetimeToUint filetime - UInt64.ofInt secs.toInt * 10000000) * 100

/-- The cast `(long)` -/
def toLong (n : UInt64) : Int32 := Int32.ofNat n.toNat

def filetimeToTimespec (filetime : UInt64) : UvTimespec :=
  let tvSec := toLong (filetimeToTimeT filetime)
  { tvSec, tvNsec := toLong (filetimeToTimeNs filetime tvSec) }

/-! ### What a time stands for -/

def ticks (filetime : UInt64) : ℤ := filetime.toNat - 116444736000000000

/-- Its whole seconds fit in the type of `tv_sec`. -/
def SecondsFit (filetime : UInt64) : Prop :=
  -2 ^ 31 ≤ ticks filetime / 10000000 ∧ ticks filetime / 10000000 < 2 ^ 31

instance : DecidablePred SecondsFit := fun _ => inferInstanceAs (Decidable (_ ∧ _))

/-- The nanoseconds are less than a second, and when the seconds fit the two fields are the time. -/
structure Stands (filetime : UInt64) (ts : UvTimespec) : Prop where
  nsec_nonneg : 0 ≤ ts.tvNsec.toInt
  nsec_lt : ts.tvNsec.toInt < 1000000000
  time : SecondsFit filetime → ts.tvSec.toInt * 10000000 + ts.tvNsec.toInt / 100 = ticks filetime

variable (filetime : UInt64)

theorem toInt_toLong {n : UInt64} : (toLong n).toInt = (n.toNat : ℤ).bmod (2 ^ 32) :=
  Int32.toInt_ofNat'

theorem toNat_ofInt (n : ℤ) : ((UInt64.ofInt n).toNat : ℤ) = n % 2 ^ 64 := by
  have hsize : (UInt64.ofInt n).toNat = (n % 2 ^ 64).toNat % 2 ^ 64 := UInt64.toNat_ofNat'
  rw [hsize]
  omega

theorem ofInt_sub {m n : ℤ} : UInt64.ofInt (m - n) = UInt64.ofInt m - UInt64.ofInt n := by
  rw [Int.sub_eq_add_neg, UInt64.ofInt_add, UInt64.ofInt_neg, UInt64.sub_eq_add_neg]

theorem filetimeToUint_eq : filetimeToUint filetime = UInt64.ofInt (ticks filetime) := by
  have hself : UInt64.ofInt filetime.toNat = filetime := by
    apply UInt64.toNat_inj.mp
    have hlt := filetime.toNat_lt
    have hnat := toNat_ofInt (filetime.toNat : ℤ)
    omega
  rw [ticks, ofInt_sub, hself]
  rfl

theorem toInt_tvSec : (filetimeToTimespec filetime).tvSec.toInt =
    (ticks filetime % 2 ^ 64 / 10000000).bmod (2 ^ 32) := by
  have hquot : ((filetimeToTimeT filetime).toNat : ℤ) = ticks filetime % 2 ^ 64 / 10000000 := by
    rw [← toNat_ofInt, ← filetimeToUint_eq]
    exact congrArg _ (UInt64.toNat_div ..)
  exact toInt_toLong.trans (by rw [hquot])

/-- Whatever the seconds have become, they are a multiple of `2 ^ 32` away from those of the
ticks that have wrapped, and the nanoseconds are cut to 32 bits. -/
theorem toInt_tvNsec : (filetimeToTimespec filetime).tvNsec.toInt =
    ticks filetime % 2 ^ 64 % 10000000 * 100 := by
  obtain ⟨secs, hsecs⟩ : ∃ secs, secs = (filetimeToTimespec filetime).tvSec := ⟨_, rfl⟩
  have hns : filetimeToTimeNs filetime secs =
      UInt64.ofInt ((ticks filetime - secs.toInt * 10000000) * 100) := by
    rw [filetimeToTimeNs, filetimeToUint_eq, UInt64.ofInt_mul, ofInt_sub, UInt64.ofInt_mul]
    rfl
  have hnsec : (filetimeToTimespec filetime).tvNsec.toInt =
      ((ticks filetime - secs.toInt * 10000000) * 100 % 2 ^ 64).bmod (2 ^ 32) := by
    rw [← toNat_ofInt, ← hns, hsecs]
    exact toInt_toLong
  rw [hnsec, hsecs, toInt_tvSec, Int.bmod_def, Int.bmod_def]
  split_ifs <;> omega

/-- From 1970 on nothing wraps; before, `2 ^ 64` ticks are no whole seconds. -/
theorem filetimeToTimespec_stands :
    Stands filetime (filetimeToTimespec filetime) ↔
      116444736000000000 ≤ filetime.toNat ∨ ¬SecondsFit filetime := by
  have hnsec := toInt_tvNsec filetime
  constructor
  · intro h
    by_contra hnot
    push Not at hnot
    obtain ⟨hbefore, hfit⟩ := hnot
    have htime := h.time hfit
    have hwrap : ticks filetime % 2 ^ 64 = ticks filetime + 2 ^ 64 := by
      rw [ticks]
      omega
    rw [hnsec, hwrap] at htime
    generalize (filetimeToTimespec filetime).tvSec.toInt = secs at htime
    omega
  · intro h
    refine ⟨by omega, by omega, fun hfit => ?_⟩
    have hafter := h.resolve_right fun habs => habs hfit
    obtain ⟨hlow, hhigh⟩ := hfit
    have hwrap : ticks filetime % 2 ^ 64 = ticks filetime := by
      rw [ticks] at hhigh ⊢
      omega
    rw [hnsec, toInt_tvSec, hwrap, Int.bmod_eq_of_le_mul_two (by omega) (by omega)]
    omega

/-- A second before 1970 -/
theorem before1970 : SecondsFit 116444735990000000 ∧
    filetimeToTimespec 116444735990000000 = ⟨2133437385, 955161600⟩ ∧
    ¬Stands 116444735990000000 (filetimeToTimespec 116444735990000000) := by
  refine ⟨by decide, by decide, fun h => ?_⟩
  exact absurd (h.time (by decide)) (by decide)

end LibuvWorks.Win
