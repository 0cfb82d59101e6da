import Mathlib.Data.Nat.Count

/-!
# Descriptor tables

The open files of a process under their numbers. A descriptor is opened at the lowest number
that is free, so that which numbers a sequence of opens returns is determined by the table it
starts from.
-/

variable {φ ψ : Type*}

structure Descriptor (φ : Type*) where
  file : φ
  cloexec : Bool
  deriving DecidableEq

abbrev DescriptorTable (φ : Type*) := ℕ → Option (Descriptor φ)

namespace DescriptorTable

open Option Bool
open Function (update update_of_ne)
open Nat (count_succ count_injective le_induction lt_succ_self lt_succ_of_lt)

variable {t t' t'' : DescriptorTable φ} {d : Descriptor φ} {limit lo k m fd target : ℕ}

/-- The lowest number from `lo` on that is free, if it is below the limit. -/
def lowestFree (limit : ℕ) (t : DescriptorTable φ) (lo : ℕ) : Option ℕ :=
  (List.range limit).find? fun k => decide (lo ≤ k) && (t k).isNone

/-- Opens a file at the lowest free number from `lo` on. -/
def openFrom (limit lo : ℕ) (t : DescriptorTable φ) (d : Descriptor φ) :
    Option (ℕ × DescriptorTable φ) :=
  (lowestFree limit t lo).map fun k => (k, update t k (some d))

/-- `fcntl(fd, F_DUPFD, lo)`. -/
def dupFrom (limit lo : ℕ) (t : DescriptorTable φ) (fd : ℕ) : Option (ℕ × DescriptorTable φ) :=
  (t fd).bind fun d => openFrom limit lo t ⟨d.file, false⟩

/-- `dup2(fd, target)`. -/
def dup2 (limit : ℕ) (t : DescriptorTable φ) (fd target : ℕ) : Option (DescriptorTable φ) :=
  (t fd).bind fun d =>
    if limit ≤ target then none
    else if fd = target then some t
    else some (update t target (some ⟨d.file, false⟩))

def clearCloexec (t : DescriptorTable φ) (fd : ℕ) : DescriptorTable φ :=
  update t fd ((t fd).map fun d => ⟨d.file, false⟩)

def close (t : DescriptorTable φ) (fd : ℕ) : DescriptorTable φ := update t fd none

def file (t : DescriptorTable φ) (fd : ℕ) : Option φ := (t fd).map Descriptor.file

theorem file_eq_some {f : φ} : t.file fd = some f ↔ ∃ d, t fd = some d ∧ d.file = f := by
  simp [file]

theorem file_of_some (hfd : t fd = some d) : t.file fd = some d.file := by
  simp [file, hfd]

theorem lowestFree_eq_some :
    lowestFree limit t lo = some k ↔
      k < limit ∧ lo ≤ k ∧ t k = none ∧ ∀ j < k, lo ≤ j → t j ≠ none := by
  simp only [lowestFree, List.find?_range_eq_some, and_eq_true, decide_eq_true_eq,
    isNone_iff_eq_none, List.mem_range, not_eq_true', and_eq_false_iff,
    decide_eq_false_iff_not]
  constructor
  · rintro ⟨⟨hlo, hfree⟩, hlimit, hbelow⟩
    refine ⟨hlimit, hlo, hfree, ?_⟩
    intro j hj hloj hnone
    apply (hbelow j hj).elim
    · exact fun hnot => hnot hloj
    · simp [hnone]
  · rintro ⟨hlimit, hlo, hfree, hbelow⟩
    refine ⟨⟨hlo, hfree⟩, hlimit, ?_⟩
    intro j hj
    by_cases hloj : lo ≤ j
    · right
      exact isNone_eq_false_iff.mpr (isSome_iff_ne_none.mpr (hbelow j hj hloj))
    · exact .inl hloj

theorem openFrom_eq_some :
    openFrom limit lo t d = some (k, t') ↔
      lowestFree limit t lo = some k ∧ t' = update t k (some d) := by
  simp only [openFrom, map_eq_some_iff, Prod.mk.injEq]
  constructor
  · rintro ⟨j, hj, rfl, rfl⟩
    exact ⟨hj, rfl⟩
  · rintro ⟨hk, rfl⟩
    exact ⟨k, hk, rfl, rfl⟩

/-! ### What an open leaves in place -/

/-- Every descriptor of `t` is open in `t'`, for the same file. -/
def Extends (t t' : DescriptorTable φ) : Prop := ∀ k d, t k = some d → t' k = some d

theorem Extends.refl (t : DescriptorTable φ) : Extends t t := fun _ _ h => h

theorem Extends.trans (h : Extends t t') (h' : Extends t' t'') : Extends t t'' :=
  fun k d hk => h' k d (h k d hk)

theorem Extends.file {f : φ} (h : Extends t t') (hf : t.file fd = some f) :
    t'.file fd = some f := by
  obtain ⟨d, hd, rfl⟩ := file_eq_some.mp hf
  exact file_of_some (h fd d hd)

theorem Extends.update (hfree : t k = none) : Extends t (update t k (some d)) := by
  intro j e hj
  have hne : j ≠ k := by
    rintro rfl
    simp [hfree] at hj
  rwa [update_of_ne hne]

theorem openFrom_spec (hopen : openFrom limit lo t d = some (k, t')) :
    lo ≤ k ∧ t k = none ∧ t' k = some d ∧ Extends t t' := by
  obtain ⟨hk, rfl⟩ := openFrom_eq_some.mp hopen
  obtain ⟨-, hlo, hfree, -⟩ := lowestFree_eq_some.mp hk
  exact ⟨hlo, hfree, Function.update_self .., .update hfree⟩

theorem dupFrom_spec (hdup : dupFrom limit lo t fd = some (k, t')) :
    ∃ f, t.file fd = some f ∧ lo ≤ k ∧ t k = none ∧ t'.file k = some f ∧ Extends t t' := by
  simp only [dupFrom, bind_eq_some_iff] at hdup
  obtain ⟨d, hd, hopen⟩ := hdup
  obtain ⟨hlo, hfree, hk, hext⟩ := openFrom_spec hopen
  refine ⟨d.file, file_of_some hd, hlo, hfree, ?_, hext⟩
  simp [file, hk]

theorem dup2_spec (hdup : t.dup2 limit fd target = some t') (hne : fd ≠ target) :
    ∃ f, t.file fd = some f ∧ t' = update t target (some ⟨f, false⟩) := by
  simp only [dup2, bind_eq_some_iff] at hdup
  obtain ⟨d, hd, hdup⟩ := hdup
  split_ifs at hdup
  exact ⟨d.file, file_of_some hd, (Option.some.inj hdup).symm⟩

/-! ### The numbers that a sequence of opens returns -/

/-- How many numbers below `b` are free. -/
def freeBelow (t : DescriptorTable φ) (b : ℕ) : ℕ := Nat.count (fun k => (t k).isNone) b

theorem freeBelow_succ (hfree : t k = none) : t.freeBelow (k + 1) = t.freeBelow k + 1 := by
  simp [freeBelow, count_succ, hfree]

theorem freeBelow_injective {k' : ℕ} (hk : t k = none) (hk' : t k' = none)
    (h : t.freeBelow k = t.freeBelow k') : k = k' :=
  count_injective (by simp [hk]) (by simp [hk']) h

theorem freeBelow_of_taken {b : ℕ} (hbk : b ≤ k) (htaken : ∀ j < k, b ≤ j → t j ≠ none) :
    t.freeBelow k = t.freeBelow b := by
  induction k, hbk using le_induction with
  | base => rfl
  | succ k hbk ih =>
    have hk : (t k).isNone = false :=
      isNone_eq_false_iff.mpr
        (isSome_iff_ne_none.mpr (htaken k (lt_succ_self k) hbk))
    have hlower : t.freeBelow k = t.freeBelow b :=
      ih fun j hj hbj => htaken j (lt_succ_of_lt hj) hbj
    rw [← hlower, freeBelow, count_succ, hk]
    rfl

/-- Since the table was `t₀`, `m` descriptors were opened and none was closed: the free
numbers are those of `t₀` without the `m` lowest. -/
def Filled (t₀ : DescriptorTable φ) (m : ℕ) (t : DescriptorTable ψ) : Prop :=
  ∃ b, t₀.freeBelow b = m ∧ ∀ k, t k = none ↔ t₀ k = none ∧ b ≤ k

variable {t₀ : DescriptorTable φ}

theorem Filled.init {t : DescriptorTable ψ}
    (h : ∀ k, t k = none ↔ t₀ k = none) : Filled t₀ 0 t :=
  ⟨0, rfl, fun k => by simp [h k]⟩

/-- The next open from `0` on returns the free number of `t₀` with `m` free ones below it. -/
theorem Filled.openFrom {t t' : DescriptorTable ψ} {d : Descriptor ψ}
    (hfilled : Filled t₀ m t) (hopen : openFrom limit 0 t d = some (k, t')) :
    t₀ k = none ∧ t₀.freeBelow k = m ∧ Filled t₀ (m + 1) t' := by
  obtain ⟨b, rfl, hb⟩ := hfilled
  obtain ⟨hk, rfl⟩ := openFrom_eq_some.mp hopen
  obtain ⟨-, -, hfree, hbelow⟩ := lowestFree_eq_some.mp hk
  obtain ⟨hk₀, hbk⟩ := (hb k).mp hfree
  have htaken : ∀ j < k, b ≤ j → t₀ j ≠ none :=
    fun j hj hbj hnone => hbelow j hj (Nat.zero_le j) ((hb j).mpr ⟨hnone, hbj⟩)
  have hcount : t₀.freeBelow k = t₀.freeBelow b := freeBelow_of_taken hbk htaken
  refine ⟨hk₀, hcount, k + 1, ?_, ?_⟩
  · rw [freeBelow_succ hk₀, hcount]
  · intro j
    by_cases hj : j = k
    · subst hj
      simp
    · rw [update_of_ne hj, hb j]
      constructor
      · rintro ⟨hnone, hbj⟩
        refine ⟨hnone, ?_⟩
        by_contra hlt
        exact htaken j (by omega) hbj hnone
      · rintro ⟨hnone, hkj⟩
        exact ⟨hnone, by omega⟩

end DescriptorTable
