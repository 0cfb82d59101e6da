import LibuvWorks.Lib.Transition
import Mathlib.Data.List.Nodup
import Mathlib.Data.List.Perm.Basic
import Mathlib.Data.List.Range

/-!
# The table of all loops on Windows

A loop is entered in `uv__loops` when it has been initialised and removed when it is closed. A
detected wake-up of the system posts a packet to each of them.
-/
namespace LibuvWorks.Win

open Transition List Function

/-- The `iocp` of a loop: `NULL`, `INVALID_HANDLE_VALUE` or a completion port -/
inductive Iocp where
  | null : Iocp
  | invalid : Iocp
  | port : Iocp
  deriving DecidableEq

/-- `uv__loops`, whose length is what is allocated, its size and its capacity, the `iocp` of every
loop, and the loops that are registered -/
structure LoopTable (ι : Type*) where
  loops : List (Option ι)
  size : ℕ
  capacity : ℕ
  iocp : ι → Iocp
  registered : List ι

namespace LoopTable

variable {ι : Type*}

def uvLoopsChunkSize : ℕ := 8

def uvLoopsInit (iocp : ι → Iocp) : LoopTable ι where
  loops := List.replicate uvLoopsChunkSize none
  size := 0
  capacity := uvLoopsChunkSize
  iocp := iocp
  registered := []

/-- `uv__realloc` of a block to `n` entries; what is new in it is not set. -/
def realloc (block : List (Option ι)) (junk : ℕ → Option ι) (n : ℕ) : List (Option ι) :=
  block.take n ++ (List.range (n - block.length)).map junk

/-- The entries from `capacity` up to `newCapacity` are set to `NULL`. -/
def clear (block : List (Option ι)) (capacity newCapacity : ℕ) : List (Option ι) :=
  (List.range' capacity (newCapacity - capacity)).foldl (fun block i => block.set i none) block

variable [DecidableEq ι] (t : LoopTable ι)

/-- The end of `uv__loops_add` -/
def append (loop : ι) : LoopTable ι :=
  { t with
    loops := t.loops.set t.size (some loop)
    size := t.size + 1
    registered := t.registered ++ [loop] }

/-- `uv__loops_add`, and whether it succeeds; `junk` is what `uv__realloc` leaves in the new
entries, if it gives the memory. -/
def uvLoopsAdd (loop : ι) (junk : Option (ℕ → Option ι)) : LoopTable ι × Bool :=
  if t.size = t.capacity then
    match junk with
    | none => (t, false)
    | some junk =>
      let newCapacity := t.capacity + uvLoopsChunkSize
      let newLoops := realloc t.loops junk newCapacity
      ({ t with
        loops := clear newLoops t.capacity newCapacity
        capacity := newCapacity }.append loop, true)
  else (t.append loop, true)

/-- `uv__loops_remove`; `allocated` says that `uv__realloc` does not fail. -/
def uvLoopsRemove (loop : ι) (allocated : Bool) : LoopTable ι :=
  let loopIndex := (t.loops.take t.size).idxOf (some loop)
  if loopIndex = t.size then t
  else
    let last := (t.loops[t.size - 1]?).join
    let t := { t with
      loops := (t.loops.set loopIndex last).set (t.size - 1) none
      size := t.size - 1
      registered := t.registered.erase loop }
    if t.capacity < 4 * uvLoopsChunkSize then t
    else
      let smallerCapacity := t.capacity / 2
      if smallerCapacity ≤ t.size then t
      else if allocated then
        { t with loops := realloc t.loops (fun _ => none) smallerCapacity, capacity := smallerCapacity }
      else t

/-- `uv__wake_all_loops` and the loops it posts to; `none` is the assertion that fails. -/
def uvWakeAllLoops : Option (List ι) :=
  ((List.range t.size).mapM fun i => (t.loops[i]?).join).map
    (List.filter fun loop => t.iocp loop ≠ .invalid)

/-- What of `uv_loop_init` can fail, up to `uv__loops_add` -/
inductive InitStep where
  | createPort : InitStep
  | mutexInit : InitStep
  | asyncInit : InitStep

/-- `uv_loop_init`, where `fails` is the step that fails -/
def uvLoopInit (loop : ι) (fails : Option InitStep) (junk : Option (ℕ → Option ι)) : LoopTable ι :=
  match fails with
  | some .createPort => { t with iocp := Function.update t.iocp loop .null }
  | some _ => { t with iocp := Function.update t.iocp loop .invalid }
  | none =>
    let (t, added) := { t with iocp := Function.update t.iocp loop .port }.uvLoopsAdd loop junk
    if added then t else { t with iocp := Function.update t.iocp loop .invalid }

/-- What is done with a loop; `close` is `uv__loop_close`. -/
inductive Event (ι : Type*) where
  | init (loop : ι) (fails : Option InitStep) (junk : Option (ℕ → Option ι)) : Event ι
  | close (loop : ι) (allocated : Bool) : Event ι

inductive Step : LoopTable ι → Event ι → LoopTable ι → Prop
  | init {t : LoopTable ι} {loop : ι} (fails : Option InitStep) (junk : Option (ℕ → Option ι)) :
    loop ∉ t.registered → Step t (.init loop fails junk) (t.uvLoopInit loop fails junk)
  | close {t : LoopTable ι} (loop : ι) (allocated : Bool) :
    Step t (.close loop allocated) (t.uvLoopsRemove loop allocated)

def Init (t : LoopTable ι) : Prop := ∃ iocp, t = uvLoopsInit iocp

/-! ### The invariant -/

/-- The table holds the registered loops, each once, and they have a completion port. -/
structure Registry (t : LoopTable ι) : Prop where
  entries : ∃ loops : List ι, t.loops.take t.size = loops.map some ∧ loops.Perm t.registered
  nodup : t.registered.Nodup
  size_le : t.size ≤ t.capacity
  capacity_le : t.capacity ≤ t.loops.length
  port : ∀ loop ∈ t.registered, t.iocp loop = .port

variable {t} {t' : LoopTable ι} {loop : ι}

section

omit [DecidableEq ι]

theorem Registry.of_init (h : Init t) : Registry t := by
  obtain ⟨iocp, rfl⟩ := h
  exact ⟨⟨[], rfl, .nil⟩, nodup_nil,
    Nat.zero_le _, by simp [uvLoopsInit], by simp [uvLoopsInit]⟩

theorem length_clear (block : List (Option ι)) (m n : ℕ) :
    (clear block m n).length = block.length := by
  unfold clear
  induction range' m (n - m) generalizing block with
  | nil => rfl
  | cons i is ih => rw [foldl_cons, ih, length_set]

theorem take_clear (block : List (Option ι)) (m n : ℕ) :
    (clear block m n).take m = block.take m := by
  have hle : ∀ i ∈ range' m (n - m), m ≤ i := fun i hi => (mem_range'_1.mp hi).1
  unfold clear
  revert hle
  induction range' m (n - m) generalizing block with
  | nil => exact fun _ => rfl
  | cons i is ih =>
    intro hle
    rw [foldl_cons, ih _ fun j hj => hle j (.tail i hj),
      take_set_of_le (hle i (.head is))]

theorem length_realloc (block : List (Option ι)) (junk : ℕ → Option ι) (n : ℕ) :
    (realloc block junk n).length = n := by
  rw [realloc, length_append, length_take, length_map, length_range]
  omega

theorem take_realloc {block : List (Option ι)} {m n : ℕ} (hm : m ≤ block.length) (hn : m ≤ n)
    (junk : ℕ → Option ι) : (realloc block junk n).take m = block.take m := by
  rw [realloc, take_append_of_le_length, take_take, Nat.min_eq_left hn]
  rw [length_take]
  omega

end

/-! ### What the operations keep -/

theorem Registry.append (h : Registry t) (hsize : t.size < t.capacity) (hnew : loop ∉ t.registered)
    (hport : t.iocp loop = .port) : Registry (t.append loop) := by
  obtain ⟨loops, htake, hperm⟩ := h.entries
  refine ⟨⟨loops ++ [loop], ?_, hperm.append_right _⟩, ?_, hsize, ?_, fun l hl => ?_⟩
  · have hlt : t.size < t.loops.length := hsize.trans_le h.capacity_le
    have hlen : (t.loops.take t.size).length = t.size := by
      rw [length_take]
      omega
    change (t.loops.set t.size (some loop)).take (t.size + 1) = _
    rw [take_set, take_succ_eq_append_getElem hlt, set_append_right _ _ hlen.le,
      hlen, Nat.sub_self, set_cons_zero, htake, map_append]
    rfl
  · exact nodup_append.mpr ⟨h.nodup, nodup_singleton loop, fun x hx y hy heq =>
      hnew (mem_singleton.mp hy ▸ heq ▸ hx)⟩
  · change t.capacity ≤ (t.loops.set t.size (some loop)).length
    rw [length_set]
    exact h.capacity_le
  · obtain hl | hl := mem_append.mp hl
    · exact h.port l hl
    · rw [mem_singleton.mp hl]
      exact hport

theorem Registry.add (h : Registry t) {junk : Option (ℕ → Option ι)} {added : Bool}
    (hnew : loop ∉ t.registered) (hport : t.iocp loop = .port)
    (hadd : t.uvLoopsAdd loop junk = (t', added)) :
    Registry t' ∧ t'.iocp = t.iocp ∧ (added = true ∨ t' = t) := by
  unfold uvLoopsAdd at hadd
  split_ifs at hadd with hfull
  · cases junk with
    | none =>
      cases hadd
      exact ⟨h, rfl, .inr rfl⟩
    | some junk =>
      cases hadd
      obtain ⟨loops, htake, hperm⟩ := h.entries
      have hgrown : Registry { t with
          loops := clear (realloc t.loops junk (t.capacity + uvLoopsChunkSize)) t.capacity
            (t.capacity + uvLoopsChunkSize)
          capacity := t.capacity + uvLoopsChunkSize } := by
        refine ⟨⟨loops, ?_, hperm⟩, h.nodup, ?_, ?_, h.port⟩
        · rw [← htake]
          dsimp only
          rw [hfull, take_clear, take_realloc h.capacity_le (Nat.le_add_right _ _)]
        · exact h.size_le.trans (Nat.le_add_right _ _)
        · dsimp only
          rw [length_clear, length_realloc]
      refine ⟨hgrown.append ?_ hnew hport, rfl, .inl rfl⟩
      dsimp only
      rw [hfull]
      exact Nat.lt_add_of_pos_right (by decide)
  · cases hadd
    exact ⟨h.append (Nat.lt_of_le_of_ne h.size_le hfull) hnew hport, rfl, .inl rfl⟩

omit [DecidableEq ι] in
theorem swap_perm {ys : List ι} {z : ι} {i : ℕ} (hi : i < (ys ++ [z]).length) :
    (((ys ++ [z]).set i z).take ys.length).Perm ((ys ++ [z]).eraseIdx i) := by
  rw [length_append, length_singleton] at hi
  by_cases hlt : i < ys.length
  · have hlen : (ys.set i z).length = ys.length := length_set
    rw [set_append_left _ _ hlt, ← hlen, take_left, eraseIdx_append_of_lt_length hlt]
    exact (set_perm_cons_eraseIdx hlt z).trans (perm_append_singleton z _).symm
  · obtain rfl : i = ys.length := by omega
    rw [take_set_of_le le_rfl, take_left, eraseIdx_append_of_length_le le_rfl,
      Nat.sub_self, eraseIdx_cons_zero, append_nil]

theorem idxOf_map_some (loops : List ι) (loop : ι) :
    (loops.map some).idxOf (some loop) = loops.idxOf loop := by
  induction loops with
  | nil => rfl
  | cons l loops ih => simp [idxOf_cons, ih]

omit [DecidableEq ι] in
theorem Registry.shrink (h : Registry t) {n : ℕ} (hn : t.size ≤ n) (hle : n ≤ t.capacity) :
    Registry { t with loops := realloc t.loops (fun _ => none) n, capacity := n } := by
  obtain ⟨loops, htake, hperm⟩ := h.entries
  refine ⟨⟨loops, ?_, hperm⟩, h.nodup, hn, ?_, h.port⟩
  · dsimp only
    rw [take_realloc (h.size_le.trans h.capacity_le) hn, htake]
  · exact (length_realloc t.loops _ n).ge

theorem Registry.remove (h : Registry t) (loop : ι) (allocated : Bool) :
    Registry (t.uvLoopsRemove loop allocated) ∧
      (t.uvLoopsRemove loop allocated).registered = t.registered.erase loop ∧
      (t.uvLoopsRemove loop allocated).iocp = t.iocp := by
  obtain ⟨loops, htake, hperm⟩ := h.entries
  have hsize : t.size = loops.length := by
    have hlength := congrArg List.length htake
    rw [length_take, length_map] at hlength
    have := h.size_le.trans h.capacity_le
    omega
  have hindex : (t.loops.take t.size).idxOf (some loop) = loops.idxOf loop := by
    rw [htake, idxOf_map_some]
  unfold uvLoopsRemove
  dsimp only
  rw [hindex]
  by_cases hmem : loop ∈ loops
  · have hlt := idxOf_lt_length_iff.mpr hmem
    have hne : ¬loops.idxOf loop = t.size := by omega
    obtain rfl | ⟨ys, z, rfl⟩ := eq_nil_or_concat loops
    · cases hmem
    rw [concat_eq_append] at *
    have hsize' : t.size = ys.length + 1 := by simpa using hsize
    have hlast : (t.loops[t.size - 1]?).join = some z := by
      have hget := congrArg (·[ys.length]?) htake
      rw [hsize', List.getElem?_take_of_lt (Nat.lt_succ_self _), map_append,
        List.getElem?_append_right (by simp)] at hget
      rw [hsize', Nat.add_sub_cancel, hget]
      simp
    have hremoved : Registry { t with
        loops := (t.loops.set (((ys ++ [z]).idxOf loop)) (some z)).set (t.size - 1) none
        size := t.size - 1
        registered := t.registered.erase loop } := by
      refine ⟨⟨((ys ++ [z]).set ((ys ++ [z]).idxOf loop) z).take ys.length, ?_, ?_⟩,
        h.nodup.erase loop, ?_, ?_, fun l hl => h.port l (mem_of_mem_erase hl)⟩
      · rw [hsize', Nat.add_sub_cancel, take_set_of_le le_rfl, map_take, map_set,
          ← htake, hsize', ← take_set, take_take, Nat.min_eq_left (Nat.le_succ _)]
      · refine (swap_perm hlt).trans ?_
        rw [eraseIdx_idxOf_eq_erase]
        exact hperm.erase loop
      · exact (Nat.sub_le _ _).trans h.size_le
      · dsimp only
        rw [length_set, length_set]
        exact h.capacity_le
    rw [if_neg hne, hlast]
    split_ifs with hsmall hhalf hallocated
    · exact ⟨hremoved, rfl, rfl⟩
    · exact ⟨hremoved, rfl, rfl⟩
    · exact ⟨hremoved.shrink (Nat.le_of_not_le hhalf) (Nat.div_le_self _ _), rfl, rfl⟩
    · exact ⟨hremoved, rfl, rfl⟩
  · have hnot : loop ∉ t.registered := fun habs => hmem (hperm.mem_iff.mpr habs)
    rw [if_pos (by rw [idxOf_eq_length hmem, hsize]), erase_of_not_mem hnot]
    exact ⟨h, rfl, rfl⟩

theorem Registry.init (h : Registry t) (hnew : loop ∉ t.registered) (fails : Option InitStep)
    (junk : Option (ℕ → Option ι)) : Registry (t.uvLoopInit loop fails junk) := by
  have hother : ∀ iocp, Registry { t with iocp := Function.update t.iocp loop iocp } := by
    intro iocp
    refine { h with port := fun l hl => ?_ }
    exact (update_of_ne (ne_of_mem_of_not_mem hl hnew) ..).trans (h.port l hl)
  cases fails with
  | some fails =>
    cases fails with
    | createPort => exact hother .null
    | mutexInit | asyncInit => exact hother .invalid
  | none =>
    unfold uvLoopInit
    dsimp only
    cases hadd : LoopTable.uvLoopsAdd { t with iocp := Function.update t.iocp loop .port } loop junk
      with
    | mk u added =>
      obtain ⟨hu, hiocp, hwhich⟩ :=
        (hother .port).add hnew (update_self ..) hadd
      cases added with
      | true => exact hu
      | false =>
        obtain rfl := hwhich.resolve_left Bool.false_ne_true
        dsimp only
        rw [if_neg Bool.false_ne_true, update_idem]
        exact hother .invalid

theorem Registry.step {e : Event ι} (h : Registry t) (hstep : Step t e t') : Registry t' := by
  cases hstep with
  | init fails junk hnew => exact h.init hnew fails junk
  | close loop allocated => exact (h.remove loop allocated).1

theorem Registry.of_reachable (h : Reachable Init Step t) : Registry t :=
  h.invariant (fun _ => .of_init) fun _ _ _ _ hreg hstep => hreg.step hstep

/-! ### What is woken -/

theorem mapM_eq_some {α β : Type*} {f : α → Option β} {xs : List α} {ys : List β}
    (h : xs.map f = ys.map some) : xs.mapM f = some ys := by
  induction xs generalizing ys with
  | nil =>
    obtain rfl := map_eq_nil_iff.mp h.symm
    rfl
  | cons x xs ih =>
    cases ys with
    | nil => cases h
    | cons y ys =>
      rw [map_cons, map_cons, List.cons.injEq] at h
      rw [mapM_cons, h.1, ih h.2]
      rfl

omit [DecidableEq ι] in
theorem Registry.wake (h : Registry t) :
    ∃ posts, t.uvWakeAllLoops = some posts ∧ posts.Perm t.registered := by
  obtain ⟨loops, htake, hperm⟩ := h.entries
  have hsize : t.size ≤ t.loops.length := h.size_le.trans h.capacity_le
  have hmap : (range t.size).map (fun i => (t.loops[i]?).join) = loops.map some := by
    rw [← htake]
    apply ext_getElem
    · rw [length_map, length_range, length_take, Nat.min_eq_left hsize]
    · intro i hi hi'
      rw [length_map, length_range] at hi
      rw [getElem_map, getElem_range, getElem_take,
        List.getElem?_eq_getElem (hi.trans_le hsize)]
      rfl
  have hall : loops.filter (fun loop => t.iocp loop ≠ .invalid) = loops := by
    rw [filter_eq_self]
    intro l hl
    rw [h.port l (hperm.mem_iff.mp hl)]
    rfl
  refine ⟨loops, ?_, hperm⟩
  rw [uvWakeAllLoops, mapM_eq_some hmap, Option.map_some, hall]

/-- The used entries are the registered loops, each once; what is used is no more than the capacity
says, and this is no more than what is allocated. An entry that fails changes nothing, and every
registered loop is posted to once. -/
structure TableRight (t : LoopTable ι) : Prop where
  entries : (t.loops.take t.size).Perm (t.registered.map some)
  nodup : t.registered.Nodup
  size : t.size = t.registered.length
  size_le : t.size ≤ t.capacity
  capacity_le : t.capacity ≤ t.loops.length
  failed : ∀ loop junk t', t.uvLoopsAdd loop junk = (t', false) → t' = t
  woken : ∃ posts, t.uvWakeAllLoops = some posts ∧ posts.Perm t.registered

theorem table_right (h : Reachable Init Step t) : TableRight t := by
  have hreg := Registry.of_reachable h
  obtain ⟨loops, htake, hperm⟩ := hreg.entries
  have hentries := (hperm.map some).symm.trans (.of_eq htake.symm)
  refine ⟨hentries.symm, hreg.nodup, ?_, hreg.size_le, hreg.capacity_le, ?_, hreg.wake⟩
  · have hlength := hentries.length_eq
    rw [List.length_map, List.length_take] at hlength
    have := hreg.size_le.trans hreg.capacity_le
    omega
  · intro loop junk t' hadd
    unfold uvLoopsAdd at hadd
    split_ifs at hadd
    · cases junk with
      | none => exact (congrArg Prod.fst hadd).symm
      | some junk => cases hadd
    · cases hadd

def twoLoops : LoopTable ℕ :=
  ((uvLoopsInit fun _ => .null).uvLoopInit 0 none none).uvLoopInit 1 none none

theorem table_twoLoops : TableRight (twoLoops.uvLoopsRemove 0 true) :=
  table_right (.step _ (.step _ (.step _ (.init ⟨_, rfl⟩) (.init none none (by decide)))
    (.init none none (by decide))) (.close 0 true))

end LoopTable

end LibuvWorks.Win
