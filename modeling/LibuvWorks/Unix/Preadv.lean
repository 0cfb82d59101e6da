import LibuvWorks.Lib.Transfers

/-!
# Several buffers at an offset: `unix/fs.c`

The loops of `uv__fs_read` and `uv__fs_write` where the system has neither `preadv` nor `pwritev`:
the buffers are read or written one by one.
-/
namespace LibuvWorks.Unix

open Transfers List

inductive IoAnswer where
  | done (n : ℕ) : IoAnswer
  | failed (errno : ℕ) : IoAnswer
  deriving DecidableEq

/-- What a loop leaves: the last result, the running total, and the calls with what they moved -/
structure Emulation where
  result : ℤ
  moved : ℕ
  pieces : List Piece

/-- The loop over buffers of the lengths `lens`, the first of which is at `src` in all of them; the
system answers at most what it was asked for. Neither loop goes on after `-1`. -/
def emulate (goesOn : ℤ → Bool) (answers : ℕ → IoAnswer) (off : ℤ) :
    List ℕ → (src calls moved : ℕ) → (result : ℤ) → Emulation
  | [], _, _, moved, result => ⟨result, moved, []⟩
  | len :: lens, src, calls, moved, result =>
    if len > 0 then
      match answers calls with
      | .failed _ => ⟨-1, moved, []⟩
      | .done m =>
        let n := min m len
        let piece : Piece := ⟨src, off + moved, len, n⟩
        if goesOn n = true then
          let e := emulate goesOn answers off lens (src + len) (calls + 1) (moved + n) n
          { e with pieces := piece :: e.pieces }
        else ⟨n, moved + n, [piece]⟩
    else if goesOn result = true then emulate goesOn answers off lens src calls moved result
    else ⟨result, moved, []⟩

def Emulation.value (e : Emulation) : ℤ := if e.moved > 0 then e.moved else e.result

/-- The loop of `uv__fs_read` -/
def preadLoop (answers : ℕ → IoAnswer) (off : ℤ) (lens : List ℕ) : Emulation :=
  emulate (fun result => result > 0) answers off lens 0 0 0 1

/-- The loop of `uv__fs_write` -/
def pwriteLoop (answers : ℕ → IoAnswer) (off : ℤ) (lens : List ℕ) : Emulation :=
  emulate (fun r => r ≥ 0) answers off lens 0 0 0 0

/-- The result is the number of bytes that were moved, they are the first ones of the buffers and
they are in their places in the file; and an error means that nothing was moved. -/
structure Vectored (off : ℤ) (e : Emulation) : Prop where
  moved : 0 ≤ e.value → bytes e.pieces = straight 0 off e.value.toNat
  error : e.value < 0 → total e.pieces = 0

variable {goesOn : ℤ → Bool} {answers : ℕ → IoAnswer} {off : ℤ} {lens : List ℕ} {result : ℤ}
  {src calls moved : ℕ}

theorem emulate_inTurn (goesOn : ℤ → Bool) (answers : ℕ → IoAnswer) (off : ℤ) (lens : List ℕ)
    (src calls moved : ℕ) (result : ℤ) :
    InTurn src (off + moved) (emulate goesOn answers off lens src calls moved result).pieces ∧
      (emulate goesOn answers off lens src calls moved result).moved =
        moved + total (emulate goesOn answers off lens src calls moved result).pieces := by
  induction lens generalizing src calls moved result with
  | nil => exact ⟨trivial, rfl⟩
  | cons len lens ih =>
    rw [emulate]
    by_cases hlen : len > 0
    · rw [if_pos hlen]
      cases answers calls with
      | failed errno => exact ⟨trivial, rfl⟩
      | done m =>
        dsimp only
        split_ifs with hgoes
        · obtain ⟨hturn, hmoved⟩ := ih (src + len) (calls + 1) (moved + min m len) (min m len : ℕ)
          refine ⟨⟨rfl, rfl, Nat.min_le_right m len, ?_⟩, ?_⟩
          · have hdst : off + ((moved + min m len : ℕ) : ℤ) = off + moved + (min m len : ℕ) := by
              omega
            rwa [hdst] at hturn
          · rw [total_cons, ← Nat.add_assoc]
            exact hmoved
        · exact ⟨⟨rfl, rfl, Nat.min_le_right m len, trivial⟩, rfl⟩
    · rw [if_neg hlen]
      split_ifs with hgoes
      · exact ih src calls moved result
      · exact ⟨trivial, rfl⟩

theorem emulate_result (h : (emulate goesOn answers off lens src calls moved result).moved = 0) :
    ((emulate goesOn answers off lens src calls moved result).result = result ∧
      ((∀ len ∈ lens, len = 0) ∨ goesOn result = false)) ∨
      (emulate goesOn answers off lens src calls moved result).result = 0 ∨
        (emulate goesOn answers off lens src calls moved result).result = -1 := by
  induction lens generalizing src calls moved result with
  | nil => exact .inl ⟨rfl, .inl fun len habs => nomatch habs⟩
  | cons len lens ih =>
    rw [emulate] at h ⊢
    by_cases hlen : len > 0
    · rw [if_pos hlen] at h ⊢
      cases hanswer : answers calls with
      | failed errno => exact .inr (.inr rfl)
      | done m =>
        rw [hanswer] at h
        dsimp only at h ⊢
        by_cases hgoes : goesOn (min m len : ℕ) = true
        · rw [if_pos hgoes] at h ⊢
          have hzero : min m len = 0 := by
            obtain ⟨-, hmoved⟩ := emulate_inTurn goesOn answers off lens (src + len) (calls + 1)
              (moved + min m len) (min m len : ℕ)
            have hsum := hmoved.symm.trans h
            omega
          rw [hzero] at h ⊢
          obtain ⟨hresult, -⟩ | hresult := ih h
          · exact .inr (.inl hresult)
          · exact .inr hresult
        · rw [if_neg hgoes] at h ⊢
          have hzero : min m len = 0 := Nat.eq_zero_of_add_eq_zero_left h
          exact .inr (.inl (by rw [hzero]; rfl))
    · rw [if_neg hlen] at h ⊢
      by_cases hgoes : goesOn result = true
      · rw [if_pos hgoes] at h ⊢
        obtain ⟨hresult, hempty | hstops⟩ | hresult := ih h
        · exact .inl ⟨hresult, .inl (forall_mem_cons.mpr ⟨by omega, hempty⟩)⟩
        · exact .inl ⟨hresult, .inr hstops⟩
        · exact .inr hresult
      · rw [if_neg hgoes]
        exact .inl ⟨rfl, .inr (eq_false_of_ne_true hgoes)⟩

theorem emulate_of_empty (hlens : ∀ len ∈ lens, len = 0) :
    emulate goesOn answers off lens src calls moved result = ⟨result, moved, []⟩ := by
  induction lens with
  | nil => rfl
  | cons len lens ih =>
    obtain ⟨rfl, hrest⟩ := forall_mem_cons.mp hlens
    rw [emulate, if_neg (Nat.lt_irrefl 0), ih hrest, ite_self]

theorem vectored_iff {e : Emulation} (hturn : InTurn 0 off e.pieces)
    (hmoved : e.moved = total e.pieces) :
    Vectored off e ↔ NoGap e.pieces ∧ (e.moved = 0 → e.result ≤ 0) := by
  have hgap := bytes_eq_straight_total_iff hturn
  obtain hzero | hpos := Nat.eq_zero_or_pos e.moved
  · have hvalue : e.value = e.result := if_neg (by omega)
    have hnone : total e.pieces = 0 := hmoved.symm.trans hzero
    have hbytes : bytes e.pieces = [] := length_eq_zero_iff.mp (by rw [length_bytes, hnone])
    have hnogap : NoGap e.pieces := hgap.mp (by rw [hbytes, hnone, straight_zero])
    constructor
    · rintro ⟨hbytes', -⟩
      refine ⟨hnogap, fun _ => ?_⟩
      by_contra hlt
      have htotal := total_eq_of_bytes (hbytes' (by omega))
      omega
    · rintro ⟨-, hresult⟩
      refine ⟨fun hnonneg => ?_, fun _ => hnone⟩
      rw [hbytes, show e.value.toNat = 0 by omega, straight_zero]
  · have hvalue : e.value = total e.pieces := by
      rw [← hmoved]
      exact if_pos hpos
    rw [and_iff_left fun habs => absurd habs (by omega), ← hgap]
    constructor
    · rintro ⟨hbytes, -⟩
      have hall := hbytes (by omega)
      rwa [hvalue, Int.toNat_natCast] at hall
    · intro hbytes
      refine ⟨fun _ => ?_, fun habs => absurd habs (by omega)⟩
      rwa [hvalue, Int.toNat_natCast]

/-- The loops are right if and only if nothing is moved after a short transfer and, for the read,
a buffer is not empty. -/
theorem vectored_loops_iff (answers : ℕ → IoAnswer) (off : ℤ) (lens : List ℕ) :
    (Vectored off (preadLoop answers off lens) ↔
      NoGap (preadLoop answers off lens).pieces ∧ ∃ len ∈ lens, len > 0) ∧
    (Vectored off (pwriteLoop answers off lens) ↔ NoGap (pwriteLoop answers off lens).pieces) := by
  have hoff : off + ((0 : ℕ) : ℤ) = off := by omega
  constructor
  · obtain ⟨hturn, hmoved⟩ := emulate_inTurn (fun result => result > 0) answers off lens 0 0 0 1
    rw [hoff] at hturn
    rw [Nat.zero_add] at hmoved
    rw [preadLoop, vectored_iff hturn hmoved]
    apply and_congr_right
    intro _
    constructor
    · intro hresult
      by_contra hnone
      have hempty : ∀ len ∈ lens, len = 0 := by
        intro len hmem
        exact Nat.eq_zero_of_not_pos fun hpos => hnone ⟨len, hmem, hpos⟩
      rw [emulate_of_empty hempty] at hresult
      exact absurd (hresult rfl) (by decide)
    · rintro ⟨len, hmem, hpos⟩ hzero
      obtain ⟨-, hempty | habs⟩ | hresult | hresult := emulate_result hzero
      · exact absurd (hempty len hmem) (by omega)
      · exact absurd habs (by decide)
      · exact Int.le_of_eq hresult
      · rw [hresult]
        decide
  · obtain ⟨hturn, hmoved⟩ := emulate_inTurn (fun r => r ≥ 0) answers off lens 0 0 0 0
    rw [hoff] at hturn
    rw [Nat.zero_add] at hmoved
    rw [pwriteLoop, vectored_iff hturn hmoved]
    refine and_iff_left fun hzero => ?_
    obtain ⟨hresult, -⟩ | hresult | hresult := emulate_result hzero
    · exact Int.le_of_eq hresult
    · exact Int.le_of_eq hresult
    · rw [hresult]
      decide

/-- A read of two empty buffers, and a write of two buffers of ten bytes, the first of which is
written in part -/
theorem not_vectored : ¬Vectored 0 (preadLoop (fun _ => .done 0) 0 [0, 0]) ∧
    ¬Vectored 0 (pwriteLoop (fun i => .done (if i = 0 then 5 else 10)) 0 [10, 10]) := by
  refine ⟨fun h => ?_, fun h => ?_⟩
  · exact absurd (h.moved (by decide)) (by decide)
  · exact absurd (h.moved (by decide)) (by decide)

end LibuvWorks.Unix
