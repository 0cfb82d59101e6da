import Mathlib.Algebra.GroupWithZero.Nat
import Mathlib.Tactic.Common

/-!
# Transfers of bytes in turn

A request asks for some bytes that follow each other on one side to be moved to where they follow
each other on the other side, and fewer can be moved than were asked for. After a short transfer the
next request leaves a gap, unless nothing is moved by it.
-/
namespace Transfers

open List

/-- A request for `asked` bytes from `src` on to `dst`, of which the first `count` were moved -/
structure Piece where
  src : ℕ
  dst : ℤ
  asked : ℕ
  count : ℕ
  deriving DecidableEq

/-- Where `n` bytes come from and go to that follow each other on both sides -/
def straight (src : ℕ) (dst : ℤ) (n : ℕ) : List (ℕ × ℤ) :=
  (List.range n).map fun i => (src + i, dst + i)

/-- Where the bytes that were moved come from and went to, in the order in which they were -/
def bytes (ps : List Piece) : List (ℕ × ℤ) := ps.flatMap fun p => straight p.src p.dst p.count

def total (ps : List Piece) : ℕ := (ps.map Piece.count).sum

/-- Each request is for the bytes after those that the previous one asked for, to be moved after
those that were moved. -/
def InTurn : ℕ → ℤ → List Piece → Prop
  | _, _, [] => True
  | src, dst, p :: ps => p.src = src ∧ p.dst = dst ∧ p.count ≤ p.asked ∧
    InTurn (src + p.asked) (dst + p.count) ps

def NoGap (ps : List Piece) : Prop := ps.Pairwise fun p q => 0 < q.count → p.count = p.asked

variable {src src' n : ℕ} {dst : ℤ} {p : Piece} {ps qs : List Piece}

@[simp] theorem length_straight : (straight src dst n).length = n := by simp [straight]

theorem straight_zero (src : ℕ) (dst : ℤ) : straight src dst 0 = [] := rfl

theorem straight_succ (src : ℕ) (dst : ℤ) (n : ℕ) :
    straight src dst (n + 1) = (src, dst) :: straight (src + 1) (dst + 1) n := by
  unfold straight
  rw [range_succ_eq_map, map_cons, map_map]
  congr 1
  · simp
  · apply map_congr_left
    intro i _
    simp only [Function.comp, Prod.mk.injEq]
    omega

theorem straight_add (src : ℕ) (dst : ℤ) (m n : ℕ) :
    straight src dst (m + n) = straight src dst m ++ straight (src + m) (dst + m) n := by
  induction m generalizing src dst with
  | zero => simp [straight_zero]
  | succ m ih =>
    have hsrc : src + 1 + m = src + (m + 1) := by omega
    have hdst : dst + 1 + (m : ℤ) = dst + ((m + 1 : ℕ) : ℤ) := by omega
    rw [Nat.add_right_comm, straight_succ, straight_succ, ih, hsrc, hdst, cons_append]

theorem bytes_cons (p : Piece) (ps : List Piece) :
    bytes (p :: ps) = straight p.src p.dst p.count ++ bytes ps := flatMap_cons

theorem total_cons (p : Piece) (ps : List Piece) : total (p :: ps) = p.count + total ps := by
  simp [total]

theorem total_append (ps qs : List Piece) : total (ps ++ qs) = total ps + total qs := by
  simp [total]

@[simp] theorem length_bytes (ps : List Piece) : (bytes ps).length = total ps := by
  induction ps with
  | nil => rfl
  | cons p ps ih => rw [bytes_cons, total_cons, length_append, length_straight, ih]

theorem total_eq_zero_iff : total ps = 0 ↔ ∀ p ∈ ps, p.count = 0 := by
  induction ps with
  | nil => simp [total]
  | cons p ps ih => rw [total_cons, forall_mem_cons, ← ih, Nat.add_eq_zero_iff]

theorem total_eq_of_bytes (h : bytes ps = straight src dst n) : total ps = n := by
  rw [← length_bytes, h, length_straight]

theorem straight_inj_src (hn : 0 < n) (h : straight src dst n = straight src' dst n) :
    src = src' := by
  obtain ⟨m, rfl⟩ : ∃ m, n = m + 1 := ⟨n - 1, by omega⟩
  rw [straight_succ, straight_succ] at h
  exact congrArg Prod.fst (List.cons.inj h).1

/-- Where `src'` is behind what the requests ask for from `src` on, nothing may be moved. -/
theorem bytes_eq_straight_iff (hps : InTurn src dst ps) (hle : src' ≤ src) :
    bytes ps = straight src' dst (total ps) ↔ (src' = src ∨ total ps = 0) ∧ NoGap ps := by
  induction ps generalizing src src' dst with
  | nil => simp [bytes, total, straight_zero, NoGap]
  | cons p ps ih =>
    obtain ⟨rfl, rfl, hcount, hps⟩ := hps
    have hrest := ih hps (Nat.add_le_add hle hcount)
    have hsplit : bytes (p :: ps) = straight src' p.dst (total (p :: ps)) ↔
        straight p.src p.dst p.count = straight src' p.dst p.count ∧
          bytes ps = straight (src' + p.count) (p.dst + p.count) (total ps) := by
      rw [bytes_cons, total_cons, straight_add]
      refine ⟨fun h => append_inj h (by simp), ?_⟩
      rintro ⟨hfirst, hsecond⟩
      rw [hfirst, hsecond]
    have hzero : (∀ q ∈ ps, 0 < q.count → p.count = p.asked) ↔
        p.count = p.asked ∨ total ps = 0 := by
      rw [total_eq_zero_iff]
      by_cases hfull : p.count = p.asked
      · simp [hfull]
      · simp [hfull, Nat.pos_iff_ne_zero]
    rw [hsplit, hrest, total_cons]
    unfold NoGap
    rw [pairwise_cons, hzero, ← and_assoc, ← and_assoc]
    apply and_congr_left
    intro _
    constructor
    · rintro ⟨hfirst, hnext⟩
      obtain hcount' | hpos := Nat.eq_zero_or_pos p.count
      · omega
      · have hsrc := straight_inj_src hpos hfirst
        omega
    · rintro ⟨hsrc, hnext⟩
      refine ⟨?_, by omega⟩
      obtain rfl | hnone := hsrc
      · rfl
      · rw [show p.count = 0 by omega, straight_zero, straight_zero]

theorem bytes_eq_straight_total_iff (hps : InTurn src dst ps) :
    bytes ps = straight src dst (total ps) ↔ NoGap ps := by
  rw [bytes_eq_straight_iff hps (Nat.le_refl _)]
  exact and_iff_right (.inl rfl)

end Transfers
