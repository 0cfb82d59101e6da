import LibuvWorks.Lib.Rounds
import LibuvWorks.Unix.Inotify

/-!
# Watcher lists and the deliveries of events

The lists in the tree are those that are not freed. The handles of a list are linked to it, but for
those that a delivery of it still has in its queue, and they are the ones that watch its descriptor.
-/

namespace LibuvWorks.Unix

open Option
open Function (update update_of_ne update_self)
open RingLinks Transition

variable {ι : Type*} [DecidableEq ι]

/-- A delivery calls once for each handle that watched the descriptor when it began and was not
stopped before its turn. -/
structure InotifyDelivery.Complete (d : InotifyDelivery ι) : Prop where
  nodup : d.start.Nodup
  calls : (d.calls.map (·.handle)).Perm (d.start.filter (· ∉ d.gone))

namespace InotifyDelivery

variable (d : InotifyDelivery ι) (h : ι)

theorem drop_list : (d.drop h).list = d.list := by
  unfold drop
  split <;> rfl

theorem drop_event : (d.drop h).event = d.event := by
  unfold drop
  split <;> rfl

theorem drop_start : (d.drop h).start = d.start := by
  unfold drop
  split <;> rfl

theorem drop_round {d : InotifyDelivery ι} {zs due : List ι}
    (hround : Round zs d.gone (d.calls.map (·.handle)) due) :
    Round zs (d.drop h).gone ((d.drop h).calls.map (·.handle)) (due.filter (· ≠ h)) := by
  unfold drop
  split
  · next hcalls => exact hround.drop_called hcalls
  · next hcalls => exact hround.drop hcalls

end InotifyDelivery

namespace InotifyLoop

variable {s t : InotifyLoop ι} {xs : WatchNode ι → List ι} {h : ι} {l : ℕ} {wd : ℤ}
  {d : InotifyDelivery ι}

def heads (s : InotifyLoop ι) : Set (WatchNode ι) :=
  {n | (∃ wd l, s.tree wd = some l ∧ n = .list l) ∨ (n = .queue ∧ s.delivery ≠ none)}

/-- The list that the handles of a ring belong to. -/
def listOf (s : InotifyLoop ι) : WatchNode ι → Option ℕ
  | .list l => some l
  | .queue => s.delivery.map (·.list)
  | .handle _ => none

structure Holds (s : InotifyLoop ι) (xs : WatchNode ι → List ι) : Prop where
  rings : Rings s.links s.heads fun n => (xs n).map .handle
  tree : ∀ wd l, s.tree wd = some l → l < s.created ∧ (s.lists l).wd = wd
  freed : ∀ l < s.created, (s.lists l).freed = if s.tree (s.lists l).wd = some l then 0 else 1
  iterating : ∀ wd l, s.tree wd = some l →
    ((s.lists l).iterating = true ↔ ∃ d ∈ s.delivery, d.list = l)
  listed : ∀ d ∈ s.delivery, s.tree d.event.wd = some d.list
  members : ∀ h wd, s.active h = true ∧ s.wd h = wd ↔
    ∃ n ∈ s.heads, h ∈ xs n ∧ s.tree wd = s.listOf n
  path : ∀ h, s.active h = true → s.path h = s.tree (s.wd h)
  nodup : s.watching.Nodup
  watching : ∀ h, h ∈ s.watching ↔ s.active h = true
  watches : ∀ wd, s.watches wd = true ↔ s.tree wd ≠ none
  round : ∀ d ∈ s.delivery, ∃ zs : List ι, zs.Perm d.start ∧
    Round zs d.gone (d.calls.map (·.handle)) (xs .queue)
  complete : ∀ d ∈ s.delivered, d.Complete

def KeptList (s : InotifyLoop ι) (xs : WatchNode ι → List ι) (l : ℕ) : Prop :=
  (∃ d ∈ s.delivery, d.list = l) ∨ xs (.list l) ≠ []

def Kept (s : InotifyLoop ι) (xs : WatchNode ι → List ι) : Prop :=
  ∀ wd l, s.tree wd = some l → s.KeptList xs l

section

omit [DecidableEq ι]

theorem queue_ne_list (l : ℕ) : (.queue : WatchNode ι) ≠ .list l := nofun

theorem handle_mem_map {ys : List ι} : WatchNode.handle h ∈ ys.map WatchNode.handle ↔ h ∈ ys :=
  List.mem_map_of_injective fun _ _ => WatchNode.handle.inj

theorem list_mem_heads (hl : s.tree wd = some l) : .list l ∈ s.heads := .inl ⟨wd, l, hl, rfl⟩

theorem handle_not_mem_heads : .handle h ∉ s.heads := by
  rintro (⟨_, _, -, habs⟩ | ⟨habs, -⟩) <;> cases habs

end

section

variable (hs : Holds s xs)
include hs

theorem Holds.listOf_tree {n : WatchNode ι} (hn : n ∈ s.heads) :
    ∃ wd l, s.tree wd = some l ∧ s.listOf n = some l := by
  rcases hn with ⟨wd, l, hl, rfl⟩ | ⟨rfl, hd⟩
  · exact ⟨wd, l, hl, rfl⟩
  · obtain ⟨d, hd⟩ := ne_none_iff_exists'.mp hd
    exact ⟨d.event.wd, d.list, hs.listed d hd, by rw [listOf, hd, map_some]⟩

theorem Holds.active_iff : s.active h = true ↔ ∃ n ∈ s.heads, h ∈ xs n := by
  constructor
  · intro hactive
    obtain ⟨n, hn, hmem, -⟩ := (hs.members h (s.wd h)).mp ⟨hactive, rfl⟩
    exact ⟨n, hn, hmem⟩
  · rintro ⟨n, hn, hmem⟩
    obtain ⟨wd, l, hl, hlist⟩ := hs.listOf_tree hn
    exact ((hs.members h wd).mpr ⟨n, hn, hmem, hl.trans hlist.symm⟩).1

theorem Holds.not_mem (hh : ¬ s.active h = true) :
    ∀ n ∈ s.heads, .handle h ∉ n :: (xs n).map WatchNode.handle := by
  intro n hn hmem
  rcases List.mem_cons.mp hmem with rfl | hmem
  · exact handle_not_mem_heads hn
  · exact hh (hs.active_iff.mpr ⟨n, hn, handle_mem_map.mp hmem⟩)

theorem Holds.readList_eq (hl : s.tree wd = some l) :
    s.readList l = some (s.lists l) := by
  obtain ⟨hcreated, hwd⟩ := hs.tree wd l hl
  apply if_pos
  refine ⟨hcreated, ?_⟩
  rw [hs.freed l hcreated, hwd, if_pos hl]

/-- A list is freed when it has no handle left and no delivery of it goes on. -/
theorem Holds.maybeFree (hl : s.tree wd = some l)
    (hkept : ∀ wd' l', s.tree wd' = some l' → l' ≠ l → s.KeptList xs l') :
    ∃ t, s.maybeFreeWatcherList l = some t ∧ Holds t xs ∧ t.Kept xs ∧
      t.delivery = s.delivery := by
  obtain ⟨hcreated, hwd⟩ := hs.tree wd l hl
  have hkeep : s.KeptList xs l → s.Kept xs := by
    intro hthis wd' l' hl'
    by_cases hll : l' = l
    · exact hll ▸ hthis
    · exact hkept wd' l' hl' hll
  have hhead := (hs.rings.ring _ (list_mem_heads hl)).next.head
  rw [maybeFreeWatcherList, hs.readList_eq hl, bind_some]
  split
  · next hfree =>
    obtain ⟨hiterating, hempty⟩ := hfree
    have hidle : ¬∃ d ∈ s.delivery, d.list = l := by
      rw [← hs.iterating wd l hl, hiterating]
      exact nofun
    have hnil : xs (.list l) = [] := by
      cases hxs : xs (.list l) with
      | nil => rfl
      | cons x _ =>
        rw [hempty, hxs] at hhead
        cases hhead
    rw [hwd, if_neg (not_not.mpr hl)]
    have hold : ∀ wd', update s.tree wd none wd' = if wd' = wd then none else s.tree wd' := by
      intro wd'
      split
      · next heq => rw [heq, update_self]
      · next hne => exact update_of_ne hne ..
    have hother : ∀ wd' l', update s.tree wd none wd' = some l' →
        s.tree wd' = some l' ∧ l' ≠ l := by
      intro wd' l' hl'
      rw [hold] at hl'
      split at hl'
      · cases hl'
      · next hne =>
        refine ⟨hl', ?_⟩
        rintro rfl
        exact hne ((hs.tree wd' l' hl').2.symm.trans hwd)
    have hlists : ∀ l' ≠ l, ∀ w : WatcherList, update s.lists l w l' = s.lists l' :=
      fun l' hne w => update_of_ne hne ..
    have hsub : ({ s.setList l { s.lists l with freed := (s.lists l).freed + 1 } with
        tree := update s.tree wd none
        watches := update s.watches wd false } : InotifyLoop ι).heads ⊆ s.heads := by
      rintro n (⟨wd', l', hl', rfl⟩ | hn)
      · exact list_mem_heads (hother wd' l' hl').1
      · exact .inr hn
    -- nobody watches the descriptor
    have hunwatched : ∀ i, s.active i = true → s.wd i ≠ wd := by
      intro i hactive heq
      obtain ⟨n, hn, hmem, hlist⟩ := (hs.members i wd).mp ⟨hactive, heq⟩
      rw [hl] at hlist
      rcases hn with ⟨_, l', -, rfl⟩ | ⟨rfl, -⟩
      · cases hlist
        rw [hnil] at hmem
        exact List.not_mem_nil hmem
      · obtain ⟨d, hd, hdl⟩ := map_eq_some_iff.mp hlist.symm
        exact hidle ⟨d, hd, hdl⟩
    refine ⟨_, rfl, ?_, ?_, rfl⟩
    · constructor
      · exact hs.rings.mono hsub
      · intro wd' l' hl'
        obtain ⟨hl', hne⟩ := hother wd' l' hl'
        simp only [setList, hlists l' hne]
        exact hs.tree wd' l' hl'
      · intro l' hcreated'
        by_cases hne : l' = l
        · subst hne
          simp only [setList, update_self]
          rw [hs.freed l' hcreated', hwd, if_pos hl]
          rfl
        · simp only [setList, hlists l' hne, hold]
          rw [hs.freed l' hcreated']
          by_cases hsame : (s.lists l').wd = wd
          · have hwrong : ¬ s.tree (s.lists l').wd = some l' := by
              rw [hsame, hl]
              exact fun habs => hne (Option.some.inj habs).symm
            rw [if_neg hwrong, if_pos hsame, if_neg nofun]
          · rw [if_neg hsame]
      · intro wd' l' hl'
        obtain ⟨hl', hne⟩ := hother wd' l' hl'
        simp only [setList, hlists l' hne]
        exact hs.iterating wd' l' hl'
      · intro d hd
        change update s.tree wd none d.event.wd = some d.list
        rw [hold]
        split
        · next heq =>
          have hlisted := hs.listed d hd
          rw [heq, hl] at hlisted
          exact absurd ⟨d, hd, (Option.some.inj hlisted).symm⟩ hidle
        · exact hs.listed d hd
      · intro i wd'
        constructor
        · rintro ⟨hactive, hwd'⟩
          have hne : wd' ≠ wd := fun habs => hunwatched i hactive (hwd'.trans habs)
          obtain ⟨n, hn, hmem, hlist⟩ := (hs.members i wd').mp ⟨hactive, hwd'⟩
          have hlist' : update s.tree wd none wd' = s.listOf n := by
            rw [hold, if_neg hne]
            exact hlist
          refine ⟨n, ?_, hmem, hlist'⟩
          rcases hn with ⟨wd₁, l₁, -, rfl⟩ | hqueue
          · exact .inl ⟨wd', l₁, hlist', rfl⟩
          · exact .inr hqueue
        · rintro ⟨n, hn, hmem, hlist⟩
          obtain ⟨_, l', -, hl'⟩ := hs.listOf_tree (hsub hn)
          have hlist' : update s.tree wd none wd' = some l' := hlist.trans hl'
          exact (hs.members i wd').mpr ⟨n, hsub hn, hmem, (hother wd' l' hlist').1.trans hl'.symm⟩
      · intro i hactive
        change s.path i = update s.tree wd none (s.wd i)
        rw [hold, if_neg (hunwatched i hactive)]
        exact hs.path i hactive
      · exact hs.nodup
      · exact hs.watching
      · intro wd'
        change update s.watches wd false wd' = true ↔ update s.tree wd none wd' ≠ none
        by_cases hne : wd' = wd
        · rw [hne, update_self]
          simp
        · rw [update_of_ne hne, update_of_ne hne]
          exact hs.watches wd'
      · exact hs.round
      · exact hs.complete
    · intro wd' l' hl'
      obtain ⟨hl', hne⟩ := hother wd' l' hl'
      exact hkept wd' l' hl' hne
  · next hfree =>
    refine ⟨s, rfl, hs, hkeep ?_, rfl⟩
    rw [not_and_or] at hfree
    rcases hfree with hiterating | hnonempty
    · exact .inl ((hs.iterating wd l hl).mp (eq_true_of_ne_false hiterating))
    · right
      intro hnil
      rw [hnil] at hhead
      exact hnonempty hhead

theorem Holds.noInsert (hh : ¬ s.active h = true) (hl : s.tree wd = some l)
    (cb : ℕ) :
    Holds (s.noInsert h cb wd l) (update xs (.list l) (xs (.list l) ++ [h])) := by
  have hqueue : update xs (.list l) (xs (.list l) ++ [h]) .queue = xs .queue :=
    update_of_ne (queue_ne_list _) ..
  have hmem : ∀ n i, i ∈ update xs (.list l) (xs (.list l) ++ [h]) n ↔
      i ∈ xs n ∨ (i = h ∧ n = .list l) := by
    intro n i
    by_cases hn : n = .list l
    · subst hn
      simp
    · simp [hn]
  have hnot : ∀ n ∈ s.heads, h ∉ xs n := fun n hn habs => hh (hs.active_iff.mpr ⟨n, hn, habs⟩)
  constructor
  · apply (hs.rings.insertTail (list_mem_heads hl) (hs.not_mem hh)).congr
    intro n _
    by_cases hn : n = .list l
    · subst hn
      simp only [InotifyLoop.noInsert, update_self, List.map_append, List.map_cons,
        List.map_nil]
    · simp only [InotifyLoop.noInsert, update_of_ne hn]
  · exact hs.tree
  · exact hs.freed
  · exact hs.iterating
  · exact hs.listed
  · intro i wd'
    by_cases hih : i = h
    · subst hih
      simp only [InotifyLoop.noInsert, update_self, true_and]
      constructor
      · rintro rfl
        exact ⟨.list l, list_mem_heads hl, (hmem _ i).mpr (.inr ⟨rfl, rfl⟩), hl⟩
      · rintro ⟨n, hn, hin, hlist⟩
        rcases (hmem n i).mp hin with hin | ⟨-, rfl⟩
        · exact absurd hin (hnot n hn)
        · have hsame : s.tree wd' = some l := hlist
          exact (hs.tree wd l hl).2.symm.trans (hs.tree wd' l hsame).2
    · simp only [InotifyLoop.noInsert, update_of_ne hih]
      rw [hs.members i wd']
      constructor
      · rintro ⟨n, hn, hin, hlist⟩
        exact ⟨n, hn, (hmem n i).mpr (.inl hin), hlist⟩
      · rintro ⟨n, hn, hin, hlist⟩
        rcases (hmem n i).mp hin with hin | ⟨habs, -⟩
        · exact ⟨n, hn, hin, hlist⟩
        · exact absurd habs hih
  · intro i hi
    by_cases hih : i = h
    · subst hih
      simp only [InotifyLoop.noInsert, update_self]
      exact hl.symm
    · simp only [InotifyLoop.noInsert, update_of_ne hih] at hi ⊢
      exact hs.path i hi
  · apply List.nodup_append.mpr
    refine ⟨hs.nodup, List.nodup_singleton h, fun x hx y hy hxy => ?_⟩
    rw [hxy, List.mem_singleton.mp hy, hs.watching] at hx
    exact hh hx
  · intro i
    by_cases hih : i = h
    · subst hih
      simp [InotifyLoop.noInsert]
    · simp only [InotifyLoop.noInsert, update_of_ne hih]
      rw [← hs.watching i]
      simp [hih]
  · exact hs.watches
  · intro d hd
    exact hs.round d hd
  · exact hs.complete

theorem Holds.addWatch (hl : s.tree wd = some l) :
    Holds (s.addWatch wd) xs := by
  refine { hs with watches := fun wd' => ?_ }
  by_cases hwd : wd' = wd
  · subst hwd
    simp [InotifyLoop.addWatch, hl]
  · simp only [InotifyLoop.addWatch, update_of_ne hwd]
    exact hs.watches wd'

theorem Holds.insertList (hnew : s.tree wd = none) (path : String) :
    Holds ((s.addWatch wd).insertList wd path) (update xs (.list s.created) []) := by
  have hold : ∀ l < s.created, ((s.addWatch wd).insertList wd path).lists l = s.lists l :=
    fun l hl => update_of_ne (Nat.ne_of_lt hl) ..
  have hself : ((s.addWatch wd).insertList wd path).lists s.created = ⟨wd, path, false, 0⟩ :=
    update_self ..
  have htree : ∀ wd' l', update s.tree wd (some s.created) wd' = some l' ↔
      s.tree wd' = some l' ∨ (wd' = wd ∧ l' = s.created) := by
    intro wd' l'
    by_cases hwd : wd' = wd
    · subst hwd
      rw [hnew]
      simp [eq_comm]
    · simp [hwd]
  have hfresh : .list s.created ∉ s.heads := by
    rintro (⟨wd', l', hl', habs⟩ | ⟨habs, -⟩)
    · cases habs
      exact Nat.lt_irrefl _ (hs.tree wd' _ hl').1
    · cases habs
  have hxs : ∀ n ∈ s.heads, update xs (.list s.created) [] n = xs n := by
    intro n hn
    apply update_of_ne
    rintro rfl
    exact hfresh hn
  have hqueue : update xs (.list s.created) [] .queue = xs .queue :=
    update_of_ne (queue_ne_list _) ..
  have hheads : ∀ n, n ∈ ((s.addWatch wd).insertList wd path).heads ↔
      n = .list s.created ∨ n ∈ s.heads := by
    intro n
    constructor
    · rintro (⟨wd', l', hl', rfl⟩ | hn)
      · rcases (htree wd' l').mp hl' with hl' | ⟨-, rfl⟩
        · exact .inr (list_mem_heads hl')
        · exact .inl rfl
      · exact .inr (.inr hn)
    · rintro (rfl | ⟨wd', l', hl', rfl⟩ | hn)
      · exact .inl ⟨wd, _, (htree wd _).mpr (.inr ⟨rfl, rfl⟩), rfl⟩
      · exact .inl ⟨wd', l', (htree wd' l').mpr (.inl hl'), rfl⟩
      · exact .inr hn
  constructor
  · have hset : ((s.addWatch wd).insertList wd path).heads = insert (.list s.created) s.heads := by
      ext n
      rw [hheads n, Set.mem_insert_iff]
    rw [hset]
    have hunlinked : ∀ n ∈ s.heads, .list s.created ∉ n :: (xs n).map WatchNode.handle := by
      intro n hn hmem
      rcases List.mem_cons.mp hmem with rfl | hmem
      · exact hfresh hn
      · obtain ⟨x, -, hx⟩ := List.mem_map.mp hmem
        cases hx
    apply (hs.rings.init hunlinked).congr
    intro n _
    by_cases hn : n = .list s.created
    · subst hn
      simp only [update_self, List.map_nil]
    · simp only [update_of_ne hn]
  · intro wd' l' hl'
    rcases (htree wd' l').mp hl' with hl' | ⟨rfl, rfl⟩
    · obtain ⟨hcreated, hwd⟩ := hs.tree wd' l' hl'
      refine ⟨Nat.lt_succ_of_lt hcreated, ?_⟩
      rw [hold l' hcreated]
      exact hwd
    · refine ⟨Nat.lt_succ_self _, ?_⟩
      rw [hself]
  · intro l' hl'
    rcases Nat.lt_succ_iff_lt_or_eq.mp hl' with hl' | rfl
    · have hcreated : l' < s.created := hl'
      have hiff : ((s.addWatch wd).insertList wd path).tree (s.lists l').wd = some l' ↔
          s.tree (s.lists l').wd = some l' := by
        apply (htree _ l').trans
        simp [Nat.ne_of_lt hcreated]
      rw [hold l' hcreated, hs.freed l' hcreated]
      simp only [hiff]
    · have hzero : (((s.addWatch wd).insertList wd path).lists s.created).freed = 0 := by
        rw [hself]
      have hfound : ((s.addWatch wd).insertList wd path).tree
          (((s.addWatch wd).insertList wd path).lists s.created).wd = some s.created := by
        rw [hself]
        exact update_self ..
      exact hzero.trans (if_pos hfound).symm
  · intro wd' l' hl'
    rcases (htree wd' l').mp hl' with hl' | ⟨rfl, rfl⟩
    · rw [hold l' (hs.tree wd' l' hl').1]
      exact hs.iterating wd' l' hl'
    · rw [hself]
      constructor
      · exact nofun
      · rintro ⟨d, hd, hdl⟩
        have hcreated := (hs.tree _ _ (hs.listed d hd)).1
        exact absurd (hdl ▸ hcreated) (Nat.lt_irrefl _)
  · exact fun d hd => (htree _ _).mpr (.inl (hs.listed d hd))
  · intro i wd'
    constructor
    · intro hi
      obtain ⟨n, hn, hmem, hlist⟩ := (hs.members i wd').mp hi
      refine ⟨n, (hheads n).mpr (.inr hn), (hxs n hn).symm ▸ hmem, ?_⟩
      obtain ⟨_, l', -, hl'⟩ := hs.listOf_tree hn
      exact ((htree wd' l').mpr (.inl (hlist.trans hl'))).trans hl'.symm
    · rintro ⟨n, hn, hmem, hlist⟩
      rcases (hheads n).mp hn with rfl | hn
      · rw [update_self] at hmem
        exact absurd hmem List.not_mem_nil
      · rw [hxs n hn] at hmem
        obtain ⟨_, l', hl'', hl'⟩ := hs.listOf_tree hn
        apply (hs.members i wd').mpr
        refine ⟨n, hn, hmem, ?_⟩
        rcases (htree wd' l').mp (hlist.trans hl') with hsame | ⟨-, rfl⟩
        · exact hsame.trans hl'.symm
        · exact absurd (hs.tree _ _ hl'').1 (Nat.lt_irrefl _)
  · intro i hi
    obtain ⟨n, hn, -, hlist⟩ := (hs.members i (s.wd i)).mp ⟨hi, rfl⟩
    obtain ⟨_, l', -, hl'⟩ := hs.listOf_tree hn
    have hold' := hlist.trans hl'
    exact (hs.path i hi).trans (hold'.trans ((htree _ _).mpr (.inl hold')).symm)
  · exact hs.nodup
  · exact hs.watching
  · intro wd'
    change update s.watches wd true wd' = true ↔
      update s.tree wd (some s.created) wd' ≠ none
    by_cases hwd : wd' = wd
    · subst hwd
      simp
    · rw [update_of_ne hwd, update_of_ne hwd]
      exact hs.watches wd'
  · intro d hd
    exact hs.round d hd
  · exact hs.complete

theorem Holds.uvFsEventStart (hk : s.Kept xs) (cb : ℕ) (path : String) :
    ∃ t, s.uvFsEventStart h cb path wd = some t ∧ ∃ ys, Holds t ys ∧ t.Kept ys := by
  unfold InotifyLoop.uvFsEventStart
  split
  · exact ⟨s, rfl, xs, hs, hk⟩
  next hactive =>
  split
  · exact ⟨s, rfl, xs, hs, hk⟩
  cases hl : s.tree wd with
  | some l =>
    have hadded := hs.addWatch hl
    have htree : (s.addWatch wd).tree wd = some l := hl
    simp only [htree, hadded.readList_eq htree, bind_some]
    refine ⟨_, rfl, _, hadded.noInsert hactive hl cb, fun wd' l' hl' => ?_⟩
    by_cases hll : l' = l
    · subst hll
      exact .inr (by simp)
    · rcases hk wd' l' hl' with hd | hne
      · exact .inl hd
      · right
        rwa [update_of_ne (fun habs => hll (WatchNode.list.inj habs))]
  | none =>
    have hmade := hs.insertList hl path
    have htree : (s.addWatch wd).tree wd = none := hl
    have hself : ((s.addWatch wd).insertList wd path).tree wd = some s.created :=
      update_self ..
    simp only [htree]
    refine ⟨_, rfl, _, hmade.noInsert hactive hself cb, fun wd' l' hl' => ?_⟩
    by_cases hll : l' = s.created
    · subst hll
      exact .inr (by simp)
    · have hold : s.tree wd' = some l' := by
        have hcases : update s.tree wd (some s.created) wd' = some l' := hl'
        by_cases hwd : wd' = wd
        · subst hwd
          rw [update_self] at hcases
          exact absurd (Option.some.inj hcases).symm hll
        · rwa [update_of_ne hwd] at hcases
      rcases hk wd' l' hold with hd | hne
      · exact .inl hd
      · right
        have hnot : WatchNode.list l' ≠ (.list s.created : WatchNode ι) :=
          fun habs => hll (WatchNode.list.inj habs)
        rwa [update_of_ne hnot, update_of_ne hnot]

end

theorem listOf_unlink (n : WatchNode ι) : (s.unlink h).listOf n = s.listOf n := by
  cases n with
  | list l => rfl
  | queue =>
    change (s.delivery.map _).map _ = s.delivery.map _
    rw [map_map]
    congr 1
    exact funext fun d => d.drop_list h
  | handle => rfl

theorem heads_unlink : (s.unlink h).heads = s.heads := by
  have hdelivery : (s.unlink h).delivery ≠ none ↔ s.delivery ≠ none := by
    rw [not_iff_not]
    exact map_eq_none_iff
  simp only [heads, hdelivery]
  rfl

theorem Holds.unlink (hs : Holds s xs) (hactive : s.active h = true) :
    Holds (s.unlink h) fun n => (xs n).filter (· ≠ h) := by
  obtain ⟨m, hm, hmem⟩ := hs.active_iff.mp hactive
  have hnd : ∀ n ∈ s.heads, (xs n).Nodup :=
    fun n hn => (List.nodup_cons.mp (hs.rings.ring n hn).nodup).2.of_map
  have herase : ∀ ys : List ι, ys.Nodup →
      (ys.map WatchNode.handle).erase (.handle h) = (ys.filter (· ≠ h)).map WatchNode.handle := by
    intro ys hys
    rw [← List.map_erase fun _ _ => WatchNode.handle.inj, hys.erase_eq_filter]
    simp only [bne, ne_eq, decide_not, beq_eq_decide]
  have hdelivery : ∀ d ∈ (s.unlink h).delivery, ∃ e ∈ s.delivery, e.drop h = d :=
    fun d hd => map_eq_some_iff.mp hd
  constructor
  · rw [heads_unlink]
    apply (hs.rings.remove hm (handle_mem_map.mpr hmem)).congr
    intro n hn
    by_cases hnm : n = m
    · subst hnm
      rw [update_self, herase _ (hnd n hn)]
    · rw [update_of_ne hnm]
      congr 1
      apply List.filter_eq_self.mpr
      intro x hx
      rw [decide_eq_true_iff]
      rintro rfl
      exact hs.rings.disjoint n hn m hm hnm _ (List.mem_cons_of_mem _ (handle_mem_map.mpr hx))
        (List.mem_cons_of_mem _ (handle_mem_map.mpr hmem))
  · exact hs.tree
  · exact hs.freed
  · intro wd' l' hl'
    apply (hs.iterating wd' l' hl').trans
    constructor
    · rintro ⟨d, hd, hdl⟩
      exact ⟨d.drop h, map_eq_some_iff.mpr ⟨d, hd, rfl⟩, (d.drop_list h).trans hdl⟩
    · rintro ⟨d, hd, hdl⟩
      obtain ⟨e, he, rfl⟩ := hdelivery d hd
      exact ⟨e, he, (e.drop_list h).symm.trans hdl⟩
  · intro d hd
    obtain ⟨e, he, rfl⟩ := hdelivery d hd
    rw [e.drop_event, e.drop_list]
    exact hs.listed e he
  · intro i wd'
    simp only [listOf_unlink, heads_unlink, List.mem_filter, decide_eq_true_iff]
    by_cases hih : i = h
    · subst hih
      have hoff : (s.unlink i).active i = false := update_self ..
      rw [hoff]
      simp
    · have hact : (s.unlink h).active i = s.active i := update_of_ne hih ..
      have hwd : (s.unlink h).wd i = s.wd i := update_of_ne hih ..
      rw [hact, hwd, hs.members i wd']
      simp [hih, InotifyLoop.unlink]
  · intro i hi
    have hih : i ≠ h := by
      rintro rfl
      have hoff : (s.unlink i).active i = false := update_self ..
      cases hoff.symm.trans hi
    have hact : (s.unlink h).active i = s.active i := update_of_ne hih ..
    have hwd : (s.unlink h).wd i = s.wd i := update_of_ne hih ..
    have hpath : (s.unlink h).path i = s.path i := update_of_ne hih ..
    rw [hpath, hwd]
    exact hs.path i (hact ▸ hi)
  · exact hs.nodup.erase h
  · intro i
    change i ∈ s.watching.erase h ↔ _
    rw [hs.nodup.mem_erase_iff, hs.watching]
    by_cases hih : i = h
    · subst hih
      have hoff : (s.unlink i).active i = false := update_self ..
      simp [hoff]
    · have hact : (s.unlink h).active i = s.active i := update_of_ne hih ..
      simp [hih, hact]
  · exact hs.watches
  · intro d hd
    obtain ⟨e, he, rfl⟩ := hdelivery d hd
    obtain ⟨zs, hperm, hround⟩ := hs.round e he
    rw [e.drop_start]
    exact ⟨zs, hperm, InotifyDelivery.drop_round h hround⟩
  · exact hs.complete

theorem Holds.uvFsEventStop (hs : Holds s xs) (hk : s.Kept xs) :
    ∃ t, s.uvFsEventStop h = some t ∧ ∃ ys, Holds t ys ∧ t.Kept ys := by
  unfold InotifyLoop.uvFsEventStop
  split
  · exact ⟨s, rfl, xs, hs, hk⟩
  next hactive =>
  rw [Bool.not_eq_false] at hactive
  obtain ⟨m, hm, hmem, hlist⟩ := (hs.members h (s.wd h)).mp ⟨hactive, rfl⟩
  obtain ⟨wd₁, l, hl₁, hml⟩ := hs.listOf_tree hm
  have hl : s.tree (s.wd h) = some l := hlist.trans hml
  rw [hl, bind_some, hs.readList_eq hl]
  have hunlinked := hs.unlink hactive
  -- the handle was in no other list
  have hkept : ∀ wd' l', (s.unlink h).tree wd' = some l' → l' ≠ l →
      (s.unlink h).KeptList (fun n => (xs n).filter (· ≠ h)) l' := by
    intro wd' l' hl' hne
    rcases hk wd' l' hl' with ⟨d, hd, hdl⟩ | hne'
    · left
      exact ⟨d.drop h, map_eq_some_iff.mpr ⟨d, hd, rfl⟩, (d.drop_list h).trans hdl⟩
    · right
      have hsame : (xs (.list l')).filter (· ≠ h) = xs (.list l') := by
        apply List.filter_eq_self.mpr
        intro x hx
        rw [decide_eq_true_iff]
        rintro rfl
        obtain ⟨-, hwd'⟩ := (hs.members x wd').mpr ⟨.list l', list_mem_heads hl', hx, hl'⟩
        rw [hwd'] at hl
        exact hne (Option.some.inj (hl'.symm.trans hl))
      change (xs (.list l')).filter (· ≠ h) ≠ []
      rwa [hsame]
  obtain ⟨t, ht, hholds, hkt, -⟩ := hunlinked.maybeFree hl hkept
  exact ⟨t, ht, _, hholds, hkt⟩

theorem Holds.stale (hs : Holds s xs) {e : InotifyEvent} (hl : s.tree e.wd = none) :
    InotifyDelivery.Complete
      ⟨0, e, "", none, s.watching.filter fun h => s.wd h = e.wd, [],
        ([] : List (FsEventCall ι))⟩ := by
  have hnobody : s.watching.filter (fun h => s.wd h = e.wd) = [] := by
    apply List.filter_eq_nil_iff.mpr
    intro i hi
    rw [decide_eq_true_iff]
    intro hwd
    obtain ⟨n, hn, -, hlist⟩ := (hs.members i e.wd).mp ⟨(hs.watching i).mp hi, hwd⟩
    obtain ⟨_, _, -, hsome⟩ := hs.listOf_tree hn
    cases hl.symm.trans (hlist.trans hsome)
  rw [hnobody]
  exact ⟨List.nodup_nil, List.Perm.nil⟩

theorem setIterating_wd (b : Bool) (l l' : ℕ) :
    ((s.setIterating l b).lists l').wd = (s.lists l').wd := by
  by_cases hll : l' = l
  · subst hll
    simp [setIterating, setList]
  · simp [setIterating, setList, update_of_ne hll]

theorem setIterating_freed (b : Bool) (l l' : ℕ) :
    ((s.setIterating l b).lists l').freed = (s.lists l').freed := by
  by_cases hll : l' = l
  · subst hll
    simp [setIterating, setList]
  · simp [setIterating, setList, update_of_ne hll]

theorem setIterating_iterating (b : Bool) (l l' : ℕ) :
    ((s.setIterating l b).lists l').iterating = if l' = l then b else (s.lists l').iterating := by
  by_cases hll : l' = l
  · subst hll
    simp [setIterating, setList]
  · simp [setIterating, setList, update_of_ne hll, hll]

theorem Holds.freed_setIterating (hs : Holds s xs) (b : Bool) (l : ℕ) {l' : ℕ}
    (hl' : l' < s.created) : ((s.setIterating l b).lists l').freed =
      if s.tree ((s.setIterating l b).lists l').wd = some l' then 0 else 1 := by
  rw [setIterating_freed, setIterating_wd]
  exact hs.freed l' hl'

def moved (xs : WatchNode ι → List ι) (l : ℕ) : WatchNode ι → List ι :=
  update (update xs .queue (xs (.list l))) (.list l) []

theorem moved_queue (xs : WatchNode ι → List ι) (l : ℕ) : moved xs l .queue = xs (.list l) := by
  rw [moved, update_of_ne (queue_ne_list l), update_self]

theorem moved_list (xs : WatchNode ι → List ι) (l : ℕ) : moved xs l (.list l) = [] :=
  update_self ..

theorem moved_other (xs : WatchNode ι → List ι) {l l' : ℕ} (hne : l' ≠ l) :
    moved xs l (.list l') = xs (.list l') := by
  rw [moved, update_of_ne fun habs => hne (WatchNode.list.inj habs),
    update_of_ne (queue_ne_list l').symm]

theorem heads_moveToQueue (s : InotifyLoop ι) (e : InotifyEvent) (l : ℕ) :
    (s.moveToQueue e l).heads = insert .queue s.heads := by
  ext n
  constructor
  · rintro (hlist | ⟨rfl, -⟩)
    · exact .inr (.inl hlist)
    · exact .inl rfl
  · rintro (rfl | hlist | ⟨rfl, -⟩)
    · exact .inr ⟨rfl, nofun⟩
    · exact .inl hlist
    · exact .inr ⟨rfl, nofun⟩

theorem Holds.moveToQueue (hs : Holds s xs) (hidle : s.delivery = none) {e : InotifyEvent}
    (hl : s.tree e.wd = some l) : Holds (s.moveToQueue e l) (moved xs l) := by
  have hnew : ∀ n ∈ s.heads, .queue ∉ n :: (xs n).map WatchNode.handle := by
    rintro n (⟨wd', l', -, rfl⟩ | ⟨-, habs⟩) hmem
    · rcases List.mem_cons.mp hmem with habs | hmem
      · cases habs
      · obtain ⟨x, -, hx⟩ := List.mem_map.mp hmem
        cases hx
    · exact absurd hidle habs
  -- the handles of the list are those that watch its descriptor
  have hwatch : ∀ i, s.active i = true ∧ s.wd i = e.wd ↔ i ∈ xs (.list l) := by
    intro i
    rw [hs.members i e.wd, hl]
    constructor
    · rintro ⟨n, ⟨_, l', -, rfl⟩ | ⟨-, habs⟩, hmem, hlist⟩
      · cases hlist
        exact hmem
      · exact absurd hidle habs
    · exact fun hmem => ⟨_, list_mem_heads hl, hmem, rfl⟩
  have hnd : (xs (.list l)).Nodup :=
    (List.nodup_cons.mp (hs.rings.ring _ (list_mem_heads hl)).nodup).2.of_map
  constructor
  · rw [heads_moveToQueue]
    apply (hs.rings.move (list_mem_heads hl) hnew).congr
    intro n _
    by_cases hn : n = .list l
    · subst hn
      rw [moved_list, update_self]
      rfl
    · rw [moved, update_of_ne hn, update_of_ne hn]
      by_cases hqueue : n = .queue
      · subst hqueue
        rw [update_self, update_self]
      · rw [update_of_ne hqueue, update_of_ne hqueue]
  · intro wd' l' hl'
    obtain ⟨hcreated, hwd⟩ := hs.tree wd' l' hl'
    exact ⟨hcreated, (setIterating_wd true l l').trans hwd⟩
  · exact fun l' hl' => hs.freed_setIterating true l hl'
  · intro wd' l' hl'
    change ((s.setIterating l true).lists l').iterating = true ↔ _
    rw [setIterating_iterating]
    split_ifs with hll
    · exact ⟨fun _ => ⟨_, rfl, hll.symm⟩, fun _ => rfl⟩
    · rw [hs.iterating wd' l' hl', hidle]
      constructor
      · rintro ⟨d, habs, -⟩
        cases habs
      · rintro ⟨d, hd, hdl⟩
        cases hd
        exact absurd hdl.symm hll
  · rintro d hd
    cases hd
    exact hl
  · intro i wd'
    apply (hs.members i wd').trans
    constructor
    · rintro ⟨n, ⟨wd₁, l', hl', rfl⟩ | ⟨-, habs⟩, hmem, hlist⟩
      · by_cases hll : l' = l
        · subst hll
          refine ⟨.queue, .inr ⟨rfl, nofun⟩, ?_, hlist⟩
          rwa [moved_queue]
        · refine ⟨.list l', .inl ⟨wd₁, l', hl', rfl⟩, ?_, hlist⟩
          rwa [moved_other xs hll]
      · exact absurd hidle habs
    · rintro ⟨n, ⟨wd₁, l', hl', rfl⟩ | ⟨rfl, -⟩, hmem, hlist⟩
      · by_cases hll : l' = l
        · subst hll
          rw [moved_list] at hmem
          exact absurd hmem List.not_mem_nil
        · rw [moved_other xs hll] at hmem
          exact ⟨.list l', list_mem_heads hl', hmem, hlist⟩
      · exact ⟨.list l, list_mem_heads hl, hmem, hlist⟩
  · exact hs.path
  · exact hs.nodup
  · exact hs.watching
  · exact hs.watches
  · rintro d hd
    cases hd
    refine ⟨xs (.list l), ?_, ?_⟩
    · apply (List.perm_ext_iff_of_nodup hnd (hs.nodup.filter _)).mpr
      intro i
      rw [List.mem_filter, decide_eq_true_iff, hs.watching, ← hwatch]
    · exact Round.begin hnd
  · exact hs.complete

theorem Holds.beginDelivery (hs : Holds s xs) (hk : s.Kept xs) (hidle : s.delivery = none)
    (e : InotifyEvent) : ∃ t, s.beginDelivery e = some t ∧ ∃ ys, Holds t ys ∧ t.Kept ys := by
  unfold InotifyLoop.beginDelivery
  cases hl : s.tree e.wd with
  | none =>
    refine ⟨_, rfl, xs, { hs with complete := ?_ }, hk⟩
    intro d hd
    rcases List.mem_append.mp hd with hd | hd
    · exact hs.complete d hd
    · rw [List.mem_singleton.mp hd]
      exact hs.stale hl
  | some l =>
    simp only [hs.readList_eq hl, bind_some]
    refine ⟨_, rfl, _, hs.moveToQueue hidle hl, fun wd' l' hl' => ?_⟩
    by_cases hll : l' = l
    · exact .inl ⟨_, rfl, hll.symm⟩
    · rcases hk wd' l' hl' with ⟨d, hd, -⟩ | hne
      · rw [hidle] at hd
        cases hd
      · right
        rwa [moved_other xs hll]

/-- The rings when the first handle of the local queue is back in its list. -/
def calledBack (xs : WatchNode ι → List ι) (l : ℕ) (h : ι) : WatchNode ι → List ι :=
  update (update xs .queue (xs .queue).tail) (.list l) (xs (.list l) ++ [h])

theorem calledBack_queue (xs : WatchNode ι → List ι) (l : ℕ) (h : ι) :
    calledBack xs l h .queue = (xs .queue).tail := by
  rw [calledBack, update_of_ne (queue_ne_list l), update_self]

theorem calledBack_list (xs : WatchNode ι → List ι) (l : ℕ) (h : ι) :
    calledBack xs l h (.list l) = xs (.list l) ++ [h] := update_self ..

theorem calledBack_other (xs : WatchNode ι → List ι) (h : ι) {l l' : ℕ} (hne : l' ≠ l) :
    calledBack xs l h (.list l') = xs (.list l') := by
  rw [calledBack, update_of_ne fun habs => hne (WatchNode.list.inj habs),
    update_of_ne (queue_ne_list l').symm]

theorem heads_call (hd : s.delivery = some d) : (s.call d h).heads = s.heads := by
  ext n
  simp [heads, InotifyLoop.call, hd]

theorem listOf_call (hd : s.delivery = some d) (n : WatchNode ι) :
    (s.call d h).listOf n = s.listOf n := by
  cases n with
  | list l => rfl
  | queue =>
    change some d.list = s.delivery.map _
    rw [hd, map_some]
  | handle => rfl

theorem Holds.call (hs : Holds s xs) (hd : s.delivery = some d) {rest : List ι}
    (hxs : xs .queue = h :: rest) : Holds (s.call d h) (calledBack xs d.list h) := by
  have hqueue : .queue ∈ s.heads := .inr ⟨rfl, by rw [hd]; exact nofun⟩
  have hlist := list_mem_heads (hs.listed d hd)
  have hmem : WatchNode.handle h ∈ (xs .queue).map WatchNode.handle := by
    rw [hxs]
    exact List.mem_cons_self
  have hfree : ∀ n ∈ s.heads, WatchNode.handle h ∉ n :: update
      (fun n => (xs n).map WatchNode.handle) .queue
      (((xs .queue).map WatchNode.handle).erase (.handle h)) n := by
    intro n hn
    by_cases hne : n = .queue
    · subst hne
      have hnd := (hs.rings.ring _ hqueue).nodup
      rw [hxs] at hnd
      rw [hxs, List.map_cons, List.erase_cons_head]
      intro habs
      rcases List.mem_cons.mp habs with habs | habs
      · cases habs
      · exact (List.nodup_cons.mp (List.nodup_cons.mp hnd).2).1 habs
    · rw [update_of_ne hne]
      exact hs.rings.disjoint _ hqueue n hn (Ne.symm hne) _ (List.mem_cons_of_mem _ hmem)
  have hofq : s.listOf .queue = some d.list := by rw [listOf, hd, map_some]
  have hring := (hs.rings.remove hqueue hmem).insertTail hlist hfree
  constructor
  · rw [heads_call hd]
    apply hring.congr
    intro n _
    by_cases hn : n = .list d.list
    · subst hn
      rw [update_self, calledBack_list, update_of_ne (queue_ne_list _).symm,
        List.map_append]
      rfl
    · rw [update_of_ne hn, calledBack, update_of_ne hn]
      by_cases hnq : n = .queue
      · subst hnq
        rw [update_self, update_self, hxs, List.tail_cons, List.map_cons,
          List.erase_cons_head]
      · rw [update_of_ne hnq, update_of_ne hnq]
  · exact hs.tree
  · exact hs.freed
  · intro wd' l' hl'
    apply (hs.iterating wd' l' hl').trans
    rw [hd]
    constructor
    · rintro ⟨e, he, hdl⟩
      cases he
      exact ⟨_, rfl, hdl⟩
    · rintro ⟨e, he, hdl⟩
      cases he
      exact ⟨d, rfl, hdl⟩
  · intro e he
    cases he
    exact hs.listed d hd
  · intro i wd'
    simp only [heads_call hd, listOf_call hd]
    apply (hs.members i wd').trans
    constructor
    · rintro ⟨n, hn, hin, hof⟩
      rcases hn with ⟨wd₁, l', hl', rfl⟩ | ⟨rfl, hne⟩
      · by_cases hll : l' = d.list
        · subst hll
          refine ⟨_, hlist, ?_, hof⟩
          rw [calledBack_list]
          exact List.mem_append_left _ hin
        · refine ⟨_, list_mem_heads hl', ?_, hof⟩
          rwa [calledBack_other xs h hll]
      · rw [hxs] at hin
        rcases List.mem_cons.mp hin with rfl | hin
        · refine ⟨_, hlist, ?_, ?_⟩
          · rw [calledBack_list]
            exact List.mem_append_right _ (List.mem_singleton_self i)
          · exact hof.trans hofq
        · refine ⟨_, hqueue, ?_, hof⟩
          rwa [calledBack_queue, hxs, List.tail_cons]
    · rintro ⟨n, hn, hin, hof⟩
      rcases hn with ⟨wd₁, l', hl', rfl⟩ | ⟨rfl, hne⟩
      · by_cases hll : l' = d.list
        · subst hll
          rw [calledBack_list] at hin
          rcases List.mem_append.mp hin with hin | hin
          · exact ⟨_, hlist, hin, hof⟩
          · rw [List.mem_singleton.mp hin]
            refine ⟨_, hqueue, ?_, ?_⟩
            · rw [hxs]
              exact List.mem_cons_self
            · exact hof.trans hofq.symm
        · rw [calledBack_other xs h hll] at hin
          exact ⟨_, list_mem_heads hl', hin, hof⟩
      · rw [calledBack_queue, hxs] at hin
        refine ⟨_, hqueue, ?_, hof⟩
        rw [hxs]
        exact List.mem_cons_of_mem h hin
  · exact hs.path
  · exact hs.nodup
  · exact hs.watching
  · exact hs.watches
  · intro e he
    cases he
    obtain ⟨zs, hperm, hround⟩ := hs.round d hd
    rw [hxs] at hround
    refine ⟨zs, hperm, ?_⟩
    rw [calledBack_queue, hxs, List.map_append]
    exact hround.call
  · exact hs.complete

theorem Holds.endDelivery (hs : Holds s xs) (hd : s.delivery = some d) (hxs : xs .queue = []) :
    Holds (s.endDelivery d) xs := by
  have hsub : (s.endDelivery d).heads ⊆ s.heads := by
    rintro n (hlist | ⟨-, habs⟩)
    · exact .inl hlist
    · exact absurd rfl habs
  constructor
  · exact hs.rings.mono hsub
  · intro wd' l' hl'
    obtain ⟨hcreated, hwd⟩ := hs.tree wd' l' hl'
    exact ⟨hcreated, (setIterating_wd false d.list l').trans hwd⟩
  · exact fun l' hl' => hs.freed_setIterating false d.list hl'
  · intro wd' l' hl'
    change ((s.setIterating d.list false).lists l').iterating = true ↔ _
    rw [setIterating_iterating]
    split_ifs with hll
    · exact ⟨nofun, fun ⟨_, habs, _⟩ => nomatch habs⟩
    · rw [hs.iterating wd' l' hl', hd]
      constructor
      · rintro ⟨e, he, hdl⟩
        cases he
        exact absurd hdl.symm hll
      · exact fun ⟨_, habs, _⟩ => nomatch habs
  · exact nofun
  · intro i wd'
    apply (hs.members i wd').trans
    constructor
    · rintro ⟨n, hn, hin, hof⟩
      rcases hn with ⟨wd₁, l', hl', rfl⟩ | ⟨rfl, -⟩
      · exact ⟨_, .inl ⟨wd₁, l', hl', rfl⟩, hin, hof⟩
      · rw [hxs] at hin
        exact absurd hin List.not_mem_nil
    · rintro ⟨n, hn, hin, hof⟩
      rcases hn with ⟨wd₁, l', hl', rfl⟩ | ⟨-, habs⟩
      · exact ⟨_, .inl ⟨wd₁, l', hl', rfl⟩, hin, hof⟩
      · exact absurd rfl habs
  · exact hs.path
  · exact hs.nodup
  · exact hs.watching
  · exact hs.watches
  · exact nofun
  · intro e he
    rcases List.mem_append.mp he with he | he
    · exact hs.complete e he
    · rw [List.mem_singleton.mp he]
      obtain ⟨zs, hperm, hround⟩ := hs.round d hd
      rw [hxs] at hround
      refine ⟨hperm.nodup_iff.mp hround.nodup, ?_⟩
      rw [hround.done]
      exact hperm.filter _

theorem Holds.deliver (hs : Holds s xs) (hk : s.Kept xs) (hd : s.delivery = some d) :
    ∃ t, s.deliver d = some t ∧ ∃ ys, Holds t ys ∧ t.Kept ys := by
  have hqueue : .queue ∈ s.heads := .inr ⟨rfl, by rw [hd]; exact nofun⟩
  have hlist := hs.listed d hd
  have hhead := (hs.rings.ring _ hqueue).next.head
  rw [InotifyLoop.deliver, hs.readList_eq hlist]
  cases hxs : xs .queue with
  | nil =>
    rw [hxs] at hhead
    have hend : s.links.next .queue = .queue := hhead
    have hkept : ∀ wd' l', (s.endDelivery d).tree wd' = some l' → l' ≠ d.list →
        (s.endDelivery d).KeptList xs l' := by
      intro wd' l' hl' hne
      rcases hk wd' l' hl' with ⟨e, he, hel⟩ | hne'
      · cases hd.symm.trans he
        exact absurd hel.symm hne
      · exact .inr hne'
    obtain ⟨t, ht, hholds, hkt, -⟩ := (hs.endDelivery hd hxs).maybeFree hlist hkept
    simp only [hend, if_true]
    exact ⟨t, ht, xs, hholds, hkt⟩
  | cons h rest =>
    rw [hxs] at hhead
    have hnext : s.links.next .queue = .handle h := hhead
    simp only [hnext, reduceCtorEq, if_false]
    refine ⟨_, rfl, _, hs.call hd hxs, fun wd' l' hl' => ?_⟩
    by_cases hll : l' = d.list
    · exact .inl ⟨_, rfl, hll.symm⟩
    · rcases hk wd' l' hl' with ⟨e, he, hel⟩ | hne
      · cases hd.symm.trans he
        exact absurd hel.symm hll
      · right
        rwa [calledBack_other xs h hll]

end InotifyLoop

end LibuvWorks.Unix
