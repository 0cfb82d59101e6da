import LibuvWorks.Lib.Rings
import LibuvWorks.Lib.Transition
import LibuvWorks.Lib.Rounds
import Mathlib.Data.Set.Insert

/-!
# `uv_walk`

The handles of a loop are linked in `handle_queue`. A walk moves them all to a queue of its own and
takes them back one by one, with a call of `walk_cb` for each that is not internal. The callbacks
may initialise handles, finish closing them, and walk again. Each step below is one event: a call
by the user's code, a turn of the loop of the innermost walk, or the return of its callback.
-/

open Function
open List hiding beq_eq_decide

namespace LibuvWorks

open RingLinks Transition

variable {ι : Type*}

/-- What the links of a handle queue lead to: `loop->handle_queue`, the local queue of a walk,
or a handle. -/
inductive WalkNode (ι : Type*) where
  | loop : WalkNode ι
  | walk (k : ℕ) : WalkNode ι
  | handle (h : ι) : WalkNode ι
  deriving DecidableEq

def WalkNode.handle? : WalkNode ι → Option ι
  | .handle h => some h
  | _ => none

/-- A call of `uv_walk` that goes on. `current` is the handle whose callback runs. No step reads
the other fields: `calls` are the calls of the callback so far; `start` are the registered handles
that were not internal when it began, in the order of the queue; `gone` are those that were removed
before they were called; and it has taken `turns` of the `size` handles it moved. -/
structure HandleWalk (ι : Type*) where
  current : Option ι
  calls : List ι
  start : List ι
  gone : List ι
  turns : ℕ
  size : ℕ

/-- The handle queue of a loop. `registered` are the handles that have been initialised and not
removed since, and `walks` are the calls of `uv_walk` that go on, the innermost one first. -/
structure HandleQueue (ι : Type*) where
  links : RingLinks (WalkNode ι)
  isInternal : ι → Bool
  registered : List ι
  walks : List (HandleWalk ι)

/-- The handle is removed; a walk that has not called back for it will not do so any more. -/
def HandleWalk.drop [DecidableEq ι] (w : HandleWalk ι) (h : ι) : HandleWalk ι :=
  if h ∈ w.calls then w else { w with gone := h :: w.gone }

namespace HandleQueue

inductive Event (ι : Type*) where
  | handleInit (h : ι) (internal : Bool)
  | remove (h : ι)
  | walk
  | turn
  | returned

variable [DecidableEq ι] (s : HandleQueue ι)

def members (n : WalkNode ι) : List ι :=
  (s.links.toList n s.registered.length).filterMap WalkNode.handle?

/-- The handles that the `k` outermost walks have not taken yet. -/
def due : ℕ → List ι
  | 0 => []
  | k + 1 => s.members (.walk k) ++ due k

/-- `uv__handle_init`, which links the handle last; `UV__HANDLE_INTERNAL` is set right after it. -/
def uvHandleInit (h : ι) (internal : Bool) : HandleQueue ι :=
  { s with
    links := s.links.insertTail .loop (.handle h)
    isInternal := Function.update s.isInternal h internal
    registered := s.registered ++ [h] }

/-- `QUEUE_REMOVE`, when the handle has been closed. -/
def queueRemove (h : ι) : HandleQueue ι :=
  { s with
    links := s.links.remove (.handle h)
    registered := s.registered.erase h
    walks := s.walks.map (·.drop h) }

/-- `uv_walk`, up to its loop -/
def uvWalk : HandleQueue ι :=
  let w : HandleWalk ι :=
    { current := none
      calls := []
      start := (s.members .loop ++ s.due s.walks.length).filter fun h => !s.isInternal h
      gone := []
      turns := 0
      size := (s.members .loop).length }
  { s with links := s.links.move .loop (.walk s.walks.length), walks := w :: s.walks }

/-- A turn of the loop in `uv_walk`, for the innermost walk `w`; the walk returns when its queue is
empty. -/
def uvWalkTurn (w : HandleWalk ι) (ws : List (HandleWalk ι)) : Option (HandleQueue ι) :=
  let n := s.links.next (.walk ws.length)
  if n = .walk ws.length then some { s with walks := ws }
  else
    match n with
    | .handle h =>
      let links := (s.links.remove n).insertTail .loop n
      let w : HandleWalk ι := { w with turns := w.turns + 1 }
      if s.isInternal h then some { s with links := links, walks := w :: ws }
      else
        let w : HandleWalk ι := { w with current := some h, calls := w.calls ++ [h] }
        some { s with links := links, walks := w :: ws }
    | _ => none

def next : Event ι → Option (HandleQueue ι)
  | .handleInit h internal => some (s.uvHandleInit h internal)
  | .remove h => some (s.queueRemove h)
  | .walk => some s.uvWalk
  | .turn =>
    match s.walks with
    | w :: ws => s.uvWalkTurn w ws
    | [] => none
  | .returned =>
    match s.walks with
    | w :: ws => some { s with walks := { w with current := none } :: ws }
    | [] => none

/-- The user's code runs: no walk goes on, or the innermost one is in its callback. -/
def Callable : Prop := ∀ w ∈ s.walks.head?, w.current ≠ none

/-- Handles are initialised once before they are removed. -/
def Enabled : Event ι → Prop
  | .handleInit h _ => s.Callable ∧ h ∉ s.registered
  | .remove h => s.Callable ∧ h ∈ s.registered
  | .walk => s.Callable
  | .turn => ∃ w ∈ s.walks.head?, w.current = none
  | .returned => ∃ w ∈ s.walks.head?, w.current ≠ none

instance : Decidable s.Callable := inferInstanceAs (Decidable (∀ w ∈ s.walks.head?, _))

instance : DecidablePred s.Enabled := fun e => by
  cases e <;> unfold Enabled <;> infer_instance

def step (e : Event ι) : Option (HandleQueue ι) := if s.Enabled e then s.next e else none

/-- After `uv_loop_init`; the links of the handles are not set. -/
def init (junk : RingLinks (WalkNode ι)) : HandleQueue ι :=
  { links := junk.init .loop
    isInternal := fun _ => false
    registered := []
    walks := [] }

abbrev Step (s : HandleQueue ι) (e : Event ι) (t : HandleQueue ι) : Prop := s.step e = some t

end HandleQueue

end LibuvWorks

/-!
## What the walks call back for

While a walk goes on, the handles that it has not taken yet and those that the walks around it have
not taken yet are, but for the internal ones, what it still has to call back for. A nested walk
takes only its own, so it skips what the walks around it have left.
-/

namespace LibuvWorks

open RingLinks Transition

variable {ι : Type*} [DecidableEq ι]

namespace HandleQueue

variable {s t : HandleQueue ι} {xs ys : WalkNode ι → List ι} {h : ι} {w : HandleWalk ι}
  {ws : List (HandleWalk ι)} {k j : ℕ}

def heads (s : HandleQueue ι) : Set (WalkNode ι) :=
  {n | n = .loop ∨ ∃ k < s.walks.length, n = .walk k}

/-- What the `k` outermost walks have in their queues. -/
def dueIn (xs : WalkNode ι → List ι) : ℕ → List ι
  | 0 => []
  | k + 1 => xs (.walk k) ++ dueIn xs k

section

omit [DecidableEq ι]

theorem dueIn_congr (hsame : ∀ j < k, ys (.walk j) = xs (.walk j)) : dueIn ys k = dueIn xs k := by
  induction k with
  | zero => rfl
  | succ k ih =>
    rw [dueIn, dueIn, hsame k (Nat.lt_succ_self k), ih fun j hj => hsame j (Nat.lt_succ_of_lt hj)]

theorem mem_dueIn : h ∈ dueIn xs k ↔ ∃ j < k, h ∈ xs (.walk j) := by
  induction k with
  | zero => simp [dueIn]
  | succ k ih =>
    rw [dueIn, mem_append, ih]
    constructor
    · rintro (hk | ⟨j, hj, hmem⟩)
      · exact ⟨k, Nat.lt_succ_self k, hk⟩
      · exact ⟨j, Nat.lt_succ_of_lt hj, hmem⟩
    · rintro ⟨j, hj, hmem⟩
      rcases Nat.lt_succ_iff_lt_or_eq.mp hj with hj | rfl
      · exact .inr ⟨j, hj, hmem⟩
      · exact .inl hmem

theorem dueIn_filter (p : ι → Bool) (k : ℕ) :
    dueIn (fun n => (xs n).filter p) k = (dueIn xs k).filter p := by
  induction k with
  | zero => rfl
  | succ k ih => rw [dueIn, dueIn, filter_append, ih]

end

/-- What a walk has called back for and what is still due are what was there when it began, without
what was removed. -/
structure Fits (isInternal : ι → Bool) (xs : WalkNode ι → List ι) (w : HandleWalk ι) (k : ℕ) :
    Prop where
  nodup : w.start.Nodup
  visits : w.calls ++ (dueIn xs (k + 1)).filter (fun h => !isInternal h) =
    w.start.filter (· ∉ w.gone)
  bounded : w.turns + (xs (.walk k)).length ≤ w.size

/-- The handle queue and the queues of the walks are linked lists of all registered handles. -/
structure Holds (s : HandleQueue ι) (xs : WalkNode ι → List ι) : Prop where
  rings : Rings s.links s.heads fun n => (xs n).map .handle
  queue : (xs .loop ++ dueIn xs s.walks.length).Perm s.registered
  nodup : s.registered.Nodup
  fits : ∀ w ws, w :: ws <:+ s.walks → Fits s.isInternal xs w ws.length

section

omit [DecidableEq ι]

theorem loop_mem_heads : .loop ∈ s.heads := .inl rfl

theorem walk_mem_heads (hk : k < s.walks.length) : .walk k ∈ s.heads := .inr ⟨k, hk, rfl⟩

theorem handle_not_mem_heads : .handle h ∉ s.heads := by
  rintro (habs | ⟨k, -, habs⟩) <;> cases habs

theorem walk_ne_loop (k : ℕ) : WalkNode.walk k ≠ (.loop : WalkNode ι) := nofun

theorem handle_mem_map {ys : List ι} : WalkNode.handle h ∈ ys.map WalkNode.handle ↔ h ∈ ys :=
  mem_map_of_injective fun _ _ => WalkNode.handle.inj

end

theorem Holds.mem_registered (hs : Holds s xs) :
    h ∈ s.registered ↔ ∃ n ∈ s.heads, h ∈ xs n := by
  rw [← hs.queue.mem_iff, mem_append, mem_dueIn]
  constructor
  · rintro (hmem | ⟨j, hj, hmem⟩)
    · exact ⟨.loop, loop_mem_heads, hmem⟩
    · exact ⟨.walk j, walk_mem_heads hj, hmem⟩
  · rintro ⟨n, rfl | ⟨k, hk, rfl⟩, hmem⟩
    · exact .inl hmem
    · exact .inr ⟨k, hk, hmem⟩

omit [DecidableEq ι] in
theorem dueIn_length (hj : j < k) : (xs (.walk j)).length ≤ (dueIn xs k).length := by
  induction k with
  | zero => exact absurd hj (Nat.not_lt_zero j)
  | succ k ih =>
    rw [dueIn, length_append]
    rcases Nat.lt_succ_iff_lt_or_eq.mp hj with hj | rfl
    · exact Nat.le_trans (ih hj) (Nat.le_add_left ..)
    · exact Nat.le_add_right ..

theorem Holds.members_eq (hs : Holds s xs) {n : WalkNode ι} (hn : n ∈ s.heads) :
    s.members n = xs n := by
  have hlength : (xs n).length ≤ s.registered.length := by
    rw [← hs.queue.length_eq, length_append]
    rcases hn with rfl | ⟨k, hk, rfl⟩
    · exact Nat.le_add_right ..
    · exact Nat.le_trans (dueIn_length hk) (Nat.le_add_left ..)
  rw [members, (hs.rings.ring n hn).toList_eq (by rwa [length_map]), filterMap_map]
  exact filterMap_some

theorem Holds.due_eq (hs : Holds s xs) (hk : k ≤ s.walks.length) : s.due k = dueIn xs k := by
  induction k with
  | zero => rfl
  | succ k ih =>
    rw [due, dueIn, hs.members_eq (walk_mem_heads hk), ih (Nat.le_of_succ_le hk)]

theorem Holds.not_mem (hs : Holds s xs) (hh : h ∉ s.registered) :
    ∀ n ∈ s.heads, .handle h ∉ n :: (xs n).map WalkNode.handle := by
  intro n hn hmem
  rcases mem_cons.mp hmem with rfl | hmem
  · exact handle_not_mem_heads hn
  · exact hh (hs.mem_registered.mpr ⟨n, hn, handle_mem_map.mp hmem⟩)

/-! ### What each step keeps -/

theorem Holds.uvHandleInit (hs : Holds s xs) (hh : h ∉ s.registered) (internal : Bool) :
    Holds (s.uvHandleInit h internal) (Function.update xs .loop (xs .loop ++ [h])) := by
  have hdue : ∀ k, dueIn (Function.update xs .loop (xs .loop ++ [h])) k = dueIn xs k := by
    intro k
    apply dueIn_congr
    exact fun j _ => update_of_ne (walk_ne_loop j) ..
  constructor
  · apply (hs.rings.insertTail loop_mem_heads (hs.not_mem hh)).congr
    intro n _
    by_cases hn : n = .loop
    · subst hn
      simp only [update_self, map_append, map_cons, map_nil]
    · simp only [update_of_ne hn]
  · rw [hdue, update_self, append_assoc]
    apply (perm_append_comm.append_left _).trans
    rw [← append_assoc]
    exact hs.queue.append_right _
  · apply nodup_append.mpr
    refine ⟨hs.nodup, nodup_singleton h, fun x hx y hy hxy => ?_⟩
    rw [hxy, mem_singleton.mp hy] at hx
    exact hh hx
  · intro w ws hw
    have hfits := hs.fits w ws hw
    have hlength : ws.length < s.walks.length := hw.length_le
    have hsame : (dueIn xs (ws.length + 1)).filter
          (fun x => !Function.update s.isInternal h internal x) =
        (dueIn xs (ws.length + 1)).filter fun x => !s.isInternal x := by
      apply filter_congr
      intro x hx
      obtain ⟨j, hj, hx⟩ := mem_dueIn.mp hx
      have hxh : x ≠ h := by
        rintro rfl
        exact hh (hs.mem_registered.mpr
          ⟨.walk j, walk_mem_heads (Nat.lt_of_lt_of_le hj hlength), hx⟩)
      rw [update_of_ne hxh]
    constructor
    · exact hfits.nodup
    · rw [hdue]
      exact (congrArg _ hsame).trans hfits.visits
    · rw [update_of_ne (walk_ne_loop ws.length)]
      exact hfits.bounded

theorem Fits.round {isInternal : ι → Bool} (hfits : Fits isInternal xs w k) :
    Round w.start w.gone w.calls ((dueIn xs (k + 1)).filter fun h => !isInternal h) :=
  ⟨hfits.nodup, hfits.visits⟩

theorem Fits.drop {isInternal : ι → Bool} (hfits : Fits isInternal xs w k) (h : ι) :
    Fits isInternal (fun n => (xs n).filter (· ≠ h)) (w.drop h) k := by
  have hdue : (dueIn (fun n => (xs n).filter (· ≠ h)) (k + 1)).filter (fun x => !isInternal x) =
      ((dueIn xs (k + 1)).filter fun x => !isInternal x).filter (· ≠ h) := by
    rw [dueIn_filter, filter_comm]
  have hbounded : w.turns + ((xs (.walk k)).filter (· ≠ h)).length ≤ w.size :=
    Nat.le_trans (Nat.add_le_add_left (length_filter_le ..) _) hfits.bounded
  unfold HandleWalk.drop
  split
  · next hcalls =>
    have hround := hfits.round.drop_called hcalls
    exact ⟨hround.nodup, hdue ▸ hround.split, hbounded⟩
  · next hcalls =>
    have hround := hfits.round.drop hcalls
    exact ⟨hround.nodup, hdue ▸ hround.split, hbounded⟩

theorem Holds.queueRemove (hs : Holds s xs) (hh : h ∈ s.registered) :
    Holds (s.queueRemove h) fun n => (xs n).filter (· ≠ h) := by
  obtain ⟨m, hm, hmem⟩ := hs.mem_registered.mp hh
  have hring := hs.rings.remove hm (handle_mem_map.mpr hmem)
  have hheads : (s.queueRemove h).heads = s.heads := by
    simp only [heads, HandleQueue.queueRemove, length_map]
  have hnd : ∀ n ∈ s.heads, (xs n).Nodup := by
    intro n hn
    have hmap := (nodup_cons.mp (hs.rings.ring n hn).nodup).2
    exact hmap.of_map
  have herase : ∀ ys : List ι, ys.Nodup →
      (ys.map WalkNode.handle).erase (.handle h) = (ys.filter (· ≠ h)).map WalkNode.handle := by
    intro ys hys
    rw [← map_erase fun _ _ => WalkNode.handle.inj, hys.erase_eq_filter]
    simp only [bne, ne_eq, decide_not, beq_eq_decide]
  constructor
  · rw [hheads]
    apply hring.congr
    intro n hn
    by_cases hnm : n = m
    · subst hnm
      rw [update_self, herase _ (hnd n hn)]
    · rw [update_of_ne hnm]
      congr 1
      apply filter_eq_self.mpr
      intro x hx
      rw [decide_eq_true_iff]
      rintro rfl
      exact hs.rings.disjoint n hn m hm hnm _
        (mem_cons_of_mem _ (handle_mem_map.mpr hx))
        (mem_cons_of_mem _ (handle_mem_map.mpr hmem))
  · have hwalks : (s.queueRemove h).walks.length = s.walks.length := length_map ..
    rw [hwalks, dueIn_filter, ← filter_append]
    have herased : s.registered.erase h = s.registered.filter (· ≠ h) := by
      rw [hs.nodup.erase_eq_filter]
      simp only [bne, ne_eq, decide_not, beq_eq_decide]
    change List.Perm _ (s.registered.erase h)
    rw [herased]
    exact hs.queue.filter _
  · exact hs.nodup.erase h
  · rintro w ws ⟨us, hus⟩
    obtain ⟨us', rest, hsplit, -, hrest⟩ := map_eq_append_iff.mp hus.symm
    obtain ⟨w', ws', rfl, rfl, rfl⟩ := map_eq_cons_iff.mp hrest
    rw [length_map]
    exact (hs.fits w' ws' ⟨us', hsplit.symm⟩).drop h

theorem Holds.uvWalk (hs : Holds s xs) :
    Holds s.uvWalk
      (Function.update (Function.update xs (.walk s.walks.length) (xs .loop)) .loop []) := by
  have hnew : ∀ n ∈ s.heads, .walk s.walks.length ∉ n :: (xs n).map WalkNode.handle := by
    intro n hn hmem
    rcases mem_cons.mp hmem with rfl | hmem
    · obtain habs | ⟨k, hk, hwalk⟩ := hn
      · exact walk_ne_loop _ habs
      · cases hwalk
        exact Nat.lt_irrefl _ hk
    · obtain ⟨x, -, hx⟩ := mem_map.mp hmem
      cases hx
  have hheads : s.uvWalk.heads = insert (.walk s.walks.length) s.heads := by
    ext n
    simp only [heads, HandleQueue.uvWalk, length_cons, Set.mem_insert_iff, Set.mem_ofPred_eq,
      Nat.lt_succ_iff_lt_or_eq]
    constructor
    · rintro (hn | ⟨k, hk | rfl, hn⟩)
      · exact .inr (.inl hn)
      · exact .inr (.inr ⟨k, hk, hn⟩)
      · exact .inl hn
    · rintro (hn | hn | ⟨k, hk, hn⟩)
      · exact .inr ⟨_, .inr rfl, hn⟩
      · exact .inl hn
      · exact .inr ⟨k, .inl hk, hn⟩
  have hat : ∀ k ≤ s.walks.length, Function.update
      (Function.update xs (.walk s.walks.length) (xs .loop)) .loop [] (.walk k) =
        if k = s.walks.length then xs .loop else xs (.walk k) := by
    intro k hk
    rw [update_of_ne (walk_ne_loop k)]
    split
    · next heq => rw [heq, update_self]
    · next hne => exact update_of_ne (fun habs => hne (WalkNode.walk.inj habs)) ..
  have hold : ∀ k < s.walks.length, Function.update
      (Function.update xs (.walk s.walks.length) (xs .loop)) .loop [] (.walk k) = xs (.walk k) := by
    intro k hk
    rw [hat k hk.le, if_neg hk.ne]
  have hdue : ∀ k ≤ s.walks.length, dueIn (Function.update
      (Function.update xs (.walk s.walks.length) (xs .loop)) .loop []) k = dueIn xs k :=
    fun k hk => dueIn_congr fun j hj => hold j (Nat.lt_of_lt_of_le hj hk)
  have htop : dueIn (Function.update (Function.update xs (.walk s.walks.length) (xs .loop)) .loop [])
      (s.walks.length + 1) = xs .loop ++ dueIn xs s.walks.length := by
    rw [dueIn, hat _ le_rfl, if_pos rfl, hdue _ le_rfl]
  constructor
  · rw [hheads]
    apply (hs.rings.move loop_mem_heads hnew).congr
    intro n _
    by_cases hn : n = .loop
    · subst hn
      simp only [update_self, map_nil]
    · by_cases hwalk : n = .walk s.walks.length
      · subst hwalk
        simp only [update_of_ne (walk_ne_loop s.walks.length), update_self]
      · simp only [update_of_ne hn, update_of_ne hwalk]
  · rw [update_self, nil_append]
    change List.Perm (dueIn _ (s.walks.length + 1)) _
    rw [htop]
    exact hs.queue
  · exact hs.nodup
  · intro w ws hw
    rcases suffix_cons_iff.mp hw with heq | hw
    · obtain ⟨rfl, rfl⟩ := cons.inj heq
      constructor
      · apply List.Nodup.filter
        rw [hs.members_eq loop_mem_heads, hs.due_eq le_rfl]
        exact hs.queue.nodup_iff.mpr hs.nodup
      · change [] ++ (dueIn _ (s.walks.length + 1)).filter _ = filter (fun x => decide (x ∉ [])) _
        rw [htop, hs.members_eq loop_mem_heads, hs.due_eq le_rfl]
        exact (filter_eq_self.mpr fun _ _ => rfl).symm
      · change 0 + _ ≤ (s.members .loop).length
        rw [hat _ le_rfl, if_pos rfl, hs.members_eq loop_mem_heads, Nat.zero_add]
    · have hfits := hs.fits w ws hw
      have hlength : ws.length < s.walks.length := hw.length_le
      refine ⟨hfits.nodup, ?_, ?_⟩
      · rw [hdue _ hlength]
        exact hfits.visits
      · rw [hold _ hlength]
        exact hfits.bounded

theorem Holds.walks (hs : Holds s xs) {u : HandleWalk ι} (hwalks : s.walks = w :: ws)
    (hfits : Fits s.isInternal xs u ws.length) : Holds { s with walks := u :: ws } xs := by
  have hheads : ({ s with walks := u :: ws } : HandleQueue ι).heads = s.heads := by
    simp only [heads, hwalks, length_cons]
  refine ⟨hheads ▸ hs.rings, ?_, hs.nodup, fun v vs hv => ?_⟩
  · have hqueue := hs.queue
    rw [hwalks] at hqueue
    exact hqueue
  · rcases suffix_cons_iff.mp hv with heq | hv
    · obtain ⟨rfl, rfl⟩ := cons.inj heq
      exact hfits
    · exact hs.fits v vs (hwalks ▸ hv.trans (suffix_cons w ws))

theorem Holds.walkEnd (hs : Holds s xs) (hwalks : s.walks = w :: ws)
    (hend : s.links.next (.walk ws.length) = .walk ws.length) :
    Holds { s with walks := ws } xs := by
  have htop : .walk ws.length ∈ s.heads := walk_mem_heads (by simp [hwalks])
  have hempty : xs (.walk ws.length) = [] := by
    have hhead := (hs.rings.ring _ htop).next.head
    cases hxs : xs (.walk ws.length) with
    | nil => rfl
    | cons x _ =>
      rw [hend, hxs] at hhead
      cases hhead
  have hsub : ({ s with walks := ws } : HandleQueue ι).heads ⊆ s.heads := by
    rintro n (hn | ⟨k, hk, hn⟩)
    · exact .inl hn
    · exact .inr ⟨k, by rw [hwalks]; exact Nat.lt_succ_of_lt hk, hn⟩
  refine ⟨hs.rings.mono hsub, ?_, hs.nodup, fun v vs hv => ?_⟩
  · have hqueue := hs.queue
    rw [hwalks, length_cons, dueIn, hempty, nil_append] at hqueue
    exact hqueue
  · exact hs.fits v vs (hwalks ▸ hv.trans (suffix_cons w ws))

def retaken (xs : WalkNode ι → List ι) (k : ℕ) (h : ι) : WalkNode ι → List ι :=
  Function.update (Function.update xs (.walk k) ((xs (.walk k)).tail)) .loop (xs .loop ++ [h])

theorem retaken_loop (xs : WalkNode ι → List ι) (k : ℕ) (h : ι) :
    retaken xs k h .loop = xs .loop ++ [h] := update_self ..

theorem retaken_walk (xs : WalkNode ι → List ι) (k : ℕ) (h : ι) :
    retaken xs k h (.walk k) = (xs (.walk k)).tail := by
  rw [retaken, update_of_ne (walk_ne_loop k), update_self]

theorem retaken_other (xs : WalkNode ι → List ι) (h : ι) (hj : j < k) :
    retaken xs k h (.walk j) = xs (.walk j) := by
  rw [retaken, update_of_ne (walk_ne_loop j),
    update_of_ne fun habs => hj.ne (WalkNode.walk.inj habs)]

theorem dueIn_retaken (xs : WalkNode ι → List ι) (h : ι) (hj : j ≤ k) :
    dueIn (retaken xs k h) j = dueIn xs j :=
  dueIn_congr fun _ hi => retaken_other xs h (Nat.lt_of_lt_of_le hi hj)

/-- The first handle of the innermost walk goes back to the queue of the loop. -/
theorem Holds.retake (hs : Holds s xs) (hwalks : s.walks = w :: ws) {rest : List ι}
    (hxs : xs (.walk ws.length) = h :: rest) {u : HandleWalk ι}
    (hfits : Fits s.isInternal (retaken xs ws.length h) u ws.length) :
    Holds { s with
      links := (s.links.remove (.handle h)).insertTail .loop (.handle h)
      walks := u :: ws } (retaken xs ws.length h) := by
  have htop : .walk ws.length ∈ s.heads := walk_mem_heads (by simp [hwalks])
  have hmem : WalkNode.handle h ∈ (xs (.walk ws.length)).map WalkNode.handle := by
    rw [hxs]
    exact mem_cons_self
  have hremoved := hs.rings.remove htop hmem
  have hfree : ∀ n ∈ s.heads, WalkNode.handle h ∉ n :: Function.update
      (fun n => (xs n).map WalkNode.handle) (.walk ws.length)
      (((xs (.walk ws.length)).map WalkNode.handle).erase (.handle h)) n := by
    intro n hn
    by_cases hne : n = .walk ws.length
    · subst hne
      have hnd := (hs.rings.ring _ htop).nodup
      rw [hxs] at hnd
      rw [update_self, hxs, map_cons, erase_cons_head]
      intro habs
      rcases mem_cons.mp habs with habs | habs
      · cases habs
      · exact (nodup_cons.mp (nodup_cons.mp hnd).2).1 habs
    · rw [update_of_ne hne]
      exact hs.rings.disjoint _ htop n hn (Ne.symm hne) _ (mem_cons_of_mem _ hmem)
  have hring := hremoved.insertTail loop_mem_heads hfree
  have hlength : (u :: ws).length = s.walks.length := by rw [hwalks, length_cons,
    length_cons]
  constructor
  · have hheads : ({ s with
        links := (s.links.remove (.handle h)).insertTail .loop (.handle h)
        walks := u :: ws } : HandleQueue ι).heads = s.heads := by
      simp only [heads, hlength]
    rw [hheads]
    apply hring.congr
    intro n _
    by_cases hn : n = .loop
    · subst hn
      rw [update_self, retaken_loop, update_of_ne (walk_ne_loop _).symm,
        map_append]
      rfl
    · rw [update_of_ne hn, retaken, update_of_ne hn]
      by_cases hwalk : n = .walk ws.length
      · subst hwalk
        simp only [update_self, hxs, tail_cons, map_cons, erase_cons_head]
      · simp only [update_of_ne hwalk]
  · have hqueue := hs.queue
    rw [hwalks, length_cons, dueIn, hxs] at hqueue
    change List.Perm (_ ++ dueIn _ (ws.length + 1)) _
    rw [retaken_loop, dueIn, retaken_walk, dueIn_retaken xs h le_rfl, hxs, tail_cons,
      append_assoc]
    exact hqueue
  · exact hs.nodup
  · intro v vs hv
    rcases suffix_cons_iff.mp hv with heq | hv
    · obtain ⟨rfl, rfl⟩ := cons.inj heq
      exact hfits
    · have hold := hs.fits v vs (hwalks ▸ hv.trans (suffix_cons w ws))
      have hless : vs.length < ws.length := hv.length_le
      refine ⟨hold.nodup, ?_, ?_⟩
      · rw [dueIn_retaken xs h hless]
        exact hold.visits
      · rw [retaken_other xs h hless]
        exact hold.bounded

theorem Holds.uvWalkTurn (hs : Holds s xs) (hwalks : s.walks = w :: ws) :
    ∃ t, s.uvWalkTurn w ws = some t ∧ ∃ ys, Holds t ys := by
  have htop : .walk ws.length ∈ s.heads := walk_mem_heads (by simp [hwalks])
  have hhead := (hs.rings.ring _ htop).next.head
  have hfits := hs.fits w ws (hwalks ▸ suffix_rfl)
  unfold HandleQueue.uvWalkTurn
  cases hxs : xs (.walk ws.length) with
  | nil =>
    rw [hxs] at hhead
    have hend : s.links.next (.walk ws.length) = .walk ws.length := hhead
    rw [if_pos hend]
    exact ⟨_, rfl, xs, hs.walkEnd hwalks hend⟩
  | cons h rest =>
    rw [hxs] at hhead
    have hnext : s.links.next (.walk ws.length) = .handle h := hhead
    simp only [hnext, reduceCtorEq, if_false]
    have hvisits := hfits.visits
    have hbounded := hfits.bounded
    rw [dueIn, hxs, cons_append] at hvisits
    rw [hxs, length_cons] at hbounded
    have hdue : dueIn (retaken xs ws.length h) (ws.length + 1) = rest ++ dueIn xs ws.length := by
      rw [dueIn, retaken_walk, hxs, tail_cons, dueIn_retaken xs h le_rfl]
    have hlength : (retaken xs ws.length h (.walk ws.length)).length = rest.length := by
      rw [retaken_walk, hxs, tail_cons]
    split
    · next hinternal =>
      refine ⟨_, rfl, _, hs.retake hwalks hxs ⟨hfits.nodup, ?_, ?_⟩⟩
      · rw [hdue]
        rwa [filter_cons_of_neg (by simp [hinternal])] at hvisits
      · change w.turns + 1 + (retaken xs ws.length h (.walk ws.length)).length ≤ w.size
        omega
    · next hinternal =>
      refine ⟨_, rfl, _, hs.retake hwalks hxs ⟨hfits.nodup, ?_, ?_⟩⟩
      · rw [hdue]
        rw [filter_cons_of_pos (by simp [hinternal])] at hvisits
        simpa using hvisits
      · change w.turns + 1 + (retaken xs ws.length h (.walk ws.length)).length ≤ w.size
        omega

theorem holds_init (junk : RingLinks (WalkNode ι)) : Holds (init junk) fun _ => [] where
  rings := by
    constructor
    · rintro n (rfl | ⟨k, hk, -⟩)
      · exact ring_init
      · exact absurd hk (Nat.not_lt_zero k)
    · rintro n (rfl | ⟨k, hk, -⟩) m (rfl | ⟨j, hj, -⟩) hne
      · exact absurd rfl hne
      · exact absurd hj (Nat.not_lt_zero j)
      all_goals exact absurd hk (Nat.not_lt_zero k)
  queue := List.Perm.nil
  nodup := nodup_nil
  fits := fun w ws hw => by
    have habs := hw.length_le
    exact absurd habs (Nat.not_succ_le_zero _)

theorem Holds.next (hs : Holds s xs) {e : Event ι} (he : s.Enabled e) :
    ∃ t, s.next e = some t ∧ ∃ ys, Holds t ys := by
  cases e with
  | handleInit h internal => exact ⟨_, rfl, _, hs.uvHandleInit he.2 internal⟩
  | remove h => exact ⟨_, rfl, _, hs.queueRemove he.2⟩
  | walk => exact ⟨_, rfl, _, hs.uvWalk⟩
  | turn =>
    obtain ⟨w, hw, -⟩ := he
    obtain ⟨ws, hwalks⟩ := head?_eq_some_iff.mp hw
    obtain ⟨t, ht, hnext⟩ := hs.uvWalkTurn hwalks
    refine ⟨t, ?_, hnext⟩
    simp only [HandleQueue.next, hwalks]
    exact ht
  | returned =>
    obtain ⟨w, hw, -⟩ := he
    obtain ⟨ws, hwalks⟩ := head?_eq_some_iff.mp hw
    have hfits := hs.fits w ws (hwalks ▸ suffix_rfl)
    simp only [HandleQueue.next, hwalks]
    exact ⟨_, rfl, xs, hs.walks hwalks { hfits with }⟩

theorem Holds.of_reachable (h : Reachable (fun s => ∃ junk, s = init junk) Step s) :
    ∃ xs, Holds s xs := by
  apply h.invariant_of_next
  · rintro _ ⟨junk, rfl⟩
    exact ⟨_, holds_init junk⟩
  · rintro s e ⟨xs, hs⟩ he
    exact hs.next he

/-! ### What is called back for -/

/-- All walks call back for handles that were registered and not internal when they began, in the
order of the queue, at most once each and not after they are removed; what they still have to call
back for is with them and the walks around them. A walk that returns has called back for all of
them if and only if the walks around it have none but internal handles left, and the queue of the
loop has all registered handles if and only if the walks that go on have none left. -/
structure Visits (s : HandleQueue ι) : Prop where
  possible : ∀ e, s.Enabled e → (s.next e).isSome = true
  nodup : ∀ w ws, w :: ws <:+ s.walks → w.start.Nodup
  visits : ∀ w ws, w :: ws <:+ s.walks → w.calls ++
    (s.due (ws.length + 1)).filter (fun h => !s.isInternal h) = w.start.filter (· ∉ w.gone)
  bounded : ∀ w ws, w :: ws <:+ s.walks → w.turns + (s.members (.walk ws.length)).length ≤ w.size
  ends : ∀ w ws, s.walks = w :: ws → s.links.next (.walk ws.length) = .walk ws.length →
    (w.calls = w.start.filter (· ∉ w.gone) ↔ ∀ h ∈ s.due ws.length, s.isInternal h = true)
  queue : (s.members .loop ++ s.due s.walks.length).Perm s.registered
  back : (s.members .loop).Perm s.registered ↔ s.due s.walks.length = []

theorem uvWalk_visits (h : Reachable (fun s => ∃ junk, s = init junk) Step s) : s.Visits := by
  obtain ⟨xs, hs⟩ := Holds.of_reachable h
  have hloop := hs.members_eq loop_mem_heads
  have hdue := hs.due_eq (le_refl s.walks.length)
  have hqueue : (s.members .loop ++ s.due s.walks.length).Perm s.registered := by
    rw [hloop, hdue]
    exact hs.queue
  have hvisits : ∀ w ws, w :: ws <:+ s.walks → w.calls ++
      (s.due (ws.length + 1)).filter (fun h => !s.isInternal h) =
        w.start.filter (· ∉ w.gone) := by
    intro w ws hw
    have hlength : ws.length + 1 ≤ s.walks.length := hw.length_le
    rw [hs.due_eq hlength]
    exact (hs.fits w ws hw).visits
  constructor
  case possible =>
    intro e he
    obtain ⟨t, ht, -⟩ := hs.next he
    rw [ht]
    rfl
  case nodup => exact fun w ws hw => (hs.fits w ws hw).nodup
  case visits => exact hvisits
  case bounded =>
    intro w ws hw
    rw [hs.members_eq (walk_mem_heads hw.length_le)]
    exact (hs.fits w ws hw).bounded
  case ends =>
    intro w ws hwalks hend
    have hw : w :: ws <:+ s.walks := hwalks ▸ suffix_rfl
    have hempty : s.members (.walk ws.length) = [] := by
      have hring := hs.rings.ring _ (walk_mem_heads hw.length_le)
      have hhead := hring.next.head
      rw [hs.members_eq (walk_mem_heads hw.length_le)]
      cases hxs : xs (.walk ws.length) with
      | nil => rfl
      | cons x _ =>
        rw [hend, hxs] at hhead
        cases hhead
    have hall := hvisits w ws hw
    rw [due, hempty, nil_append] at hall
    rw [← hall, self_eq_append_right, filter_eq_nil_iff]
    simp only [Bool.not_eq_true', Bool.not_eq_false]
  case queue => exact hqueue
  case back =>
    constructor
    · intro hback
      have hlength := hqueue.length_eq.trans hback.length_eq.symm
      rw [length_append, Nat.add_eq_left] at hlength
      exact eq_nil_of_length_eq_zero hlength
    · intro hnil
      rwa [hnil, append_nil] at hqueue

def nestedRun : Option (HandleQueue ℕ) :=
  [Event.handleInit 0 false, .handleInit 1 false, .walk, .turn, .walk, .turn, .returned].foldlM step
    (init ⟨id, id⟩)

theorem nestedRun_isSome : nestedRun.isSome = true := by
  rfl

theorem uvWalk_visits_nested : ((nestedRun.get nestedRun_isSome).members .loop ++
    (nestedRun.get nestedRun_isSome).due 2).Perm [0, 1] :=
  (uvWalk_visits (.of_foldlM (.init ⟨_, rfl⟩) (Option.some_get nestedRun_isSome).symm)).queue

/-- The nested walk is about to return, and has not called back for the second handle; nor is that
handle in the queue of the loop. -/
theorem nested_walk_skips : ∃ w ∈ (nestedRun.get nestedRun_isSome).walks.head?,
    (nestedRun.get nestedRun_isSome).links.next (.walk 1) = .walk 1 ∧
      w.calls ≠ w.start.filter (· ∉ w.gone) ∧
        ¬((nestedRun.get nestedRun_isSome).members .loop).Perm
          (nestedRun.get nestedRun_isSome).registered := by
  decide

end HandleQueue

end LibuvWorks
