import Mathlib.Data.Nat.Digits.Defs

/-!
# Little-endian words

A word of `w` bytes, its lowest byte first.
-/
open List Nat

namespace LittleEndian

variable {n w : ℕ} {bs : List UInt8}

def toBytes : ℕ → ℕ → List UInt8
  | 0, _ => []
  | w + 1, n => UInt8.ofNat n :: toBytes w (n / 256)

def ofBytes (bs : List UInt8) : ℕ := Nat.ofDigits 256 (bs.map UInt8.toNat)

@[simp] theorem length_toBytes : (toBytes w n).length = w := by
  induction w generalizing n with
  | zero => rfl
  | succ w ih => exact congrArg Nat.succ ih

@[simp] theorem ofBytes_cons (b : UInt8) : ofBytes (b :: bs) = b.toNat + 256 * ofBytes bs :=
  Nat.ofDigits_cons ..

theorem ofBytes_toBytes (h : n < 256 ^ w) : ofBytes (toBytes w n) = n := by
  induction w generalizing n with
  | zero =>
    rw [Nat.pow_zero, lt_one_iff] at h
    rw [h]
    rfl
  | succ w ih =>
    have hdiv : n / 256 < 256 ^ w := by
      apply Nat.div_lt_of_lt_mul
      rwa [Nat.mul_comm, ← Nat.pow_succ]
    have hbyte : (UInt8.ofNat n).toNat = n % 256 := UInt8.toNat_ofNat'
    rw [toBytes, ofBytes_cons, ih hdiv]
    exact mod_add_div n 256

theorem ofBytes_lt (bs : List UInt8) : ofBytes bs < 256 ^ bs.length := by
  induction bs with
  | nil => exact Nat.one_pos
  | cons b bs ih =>
    have hbyte := b.toNat_lt
    rw [ofBytes_cons, length_cons]
    omega

end LittleEndian

/-!
## Blocks of one size

Values that are written one after the other, each as a block of the same size. What is cut
between two blocks is what the values before and after the cut are written as.
-/

structure BlockFormat (α β : Type*) where
  size : ℕ
  pos : 0 < size
  encode : α → List β
  decode : List β → α
  length_encode : ∀ x : α, (encode x).length = size
  decode_encode : ∀ x : α, decode (encode x) = x

namespace BlockFormat

variable {α β : Type*} (F : BlockFormat α β) {k : ℕ} {x : α} {xs : List α}

def encodeAll (xs : List α) : List β := xs.flatMap F.encode

@[simp] theorem encodeAll_nil : F.encodeAll [] = [] := rfl

@[simp] theorem encodeAll_cons : F.encodeAll (x :: xs) = F.encode x ++ F.encodeAll xs :=
  List.flatMap_cons

@[simp] theorem encodeAll_append {ys : List α} :
    F.encodeAll (xs ++ ys) = F.encodeAll xs ++ F.encodeAll ys := List.flatMap_append

@[simp] theorem length_encodeAll : (F.encodeAll xs).length = xs.length * F.size := by
  induction xs with
  | nil => exact (Nat.zero_mul _).symm
  | cons x xs ih =>
    rw [encodeAll_cons, List.length_append, F.length_encode, ih, List.length_cons, Nat.succ_mul,
      Nat.add_comm]

theorem take_encodeAll : (F.encodeAll xs).take (k * F.size) = F.encodeAll (xs.take k) := by
  induction xs generalizing k with
  | nil => simp
  | cons x xs ih =>
    cases k with
    | zero => simp
    | succ k =>
      rw [succ_mul, Nat.add_comm, encodeAll_cons, ← F.length_encode x,
        take_length_add_append, F.length_encode x, ih, take_succ_cons, encodeAll_cons]

theorem drop_encodeAll : (F.encodeAll xs).drop (k * F.size) = F.encodeAll (xs.drop k) := by
  induction xs generalizing k with
  | nil => simp
  | cons x xs ih =>
    cases k with
    | zero => simp
    | succ k =>
      rw [succ_mul, Nat.add_comm, encodeAll_cons, ← F.length_encode x,
        drop_length_add_append, F.length_encode x, ih, drop_succ_cons]

theorem decode_take {bs : List β} : F.decode ((F.encode x ++ bs).take F.size) = x := by
  rw [← F.length_encode x, take_left, F.decode_encode]

end BlockFormat

/-!
## Fields of a block

What is read at a place of a block is what was written there last; a write at another place leaves
it alone.
-/
namespace Field

variable {β : Type*} {block bs : List β} {off off' len : ℕ}

def read (block : List β) (off len : ℕ) : List β := (block.drop off).take len

def write (block : List β) (off : ℕ) (bs : List β) : List β :=
  block.take off ++ bs ++ block.drop (off + bs.length)

section

variable (h : off + bs.length ≤ block.length)
include h

theorem length_write :
    (write block off bs).length = block.length := by
  simp only [write, length_append, length_take, length_drop]
  omega

theorem read_write_self :
    read (write block off bs) off bs.length = bs := by
  have htake : (block.take off).length = off := by
    rw [length_take]
    omega
  rw [read, write, append_assoc, drop_left' htake, take_left' rfl]

theorem read_write_of_le (hle : off' + len ≤ off) :
    read (write block off bs) off' len = read block off' len := by
  have htake : (block.take off).length = off := by
    rw [length_take]
    omega
  rw [read, write, append_assoc, drop_append_of_le_length (by omega),
    take_append_of_le_length (by rw [length_drop]; omega), drop_take, take_take,
    Nat.min_eq_left (by omega), read]

theorem read_write_of_ge (hge : off + bs.length ≤ off') :
    read (write block off bs) off' len = read block off' len := by
  have hfirst : (block.take off ++ bs).length = off + bs.length := by
    rw [length_append, length_take]
    omega
  rw [read, write, drop_append, drop_eq_nil_of_le (by omega), nil_append, hfirst,
    drop_drop, Nat.add_sub_cancel' hge, read]

end

end Field
