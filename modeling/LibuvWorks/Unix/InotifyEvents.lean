import LibuvWorks.Unix.InotifyLists

/-!
# Every event is delivered

The events that are read are delivered in order, each to the handles that watch its descriptor when
its turn comes, and no list is used after it was freed.
-/

namespace LibuvWorks.Unix

open RingLinks Transition List Option

variable {ι : Type*} [DecidableEq ι]

namespace InotifyLoop

variable {s t : InotifyLoop ι} {xs : WatchNode ι → List ι} {h : ι} {l : ℕ} {wd : ℤ}
  {d : InotifyDelivery ι}

/-! ### What happens to the events -/

/-- The events that were delivered, that which is, and those that are left. -/
def events (s : InotifyLoop ι) : List InotifyEvent :=
  s.delivered.map (·.event) ++ (s.delivery.map (·.event)).toList ++ s.batch.getD []

def SameEvents (s t : InotifyLoop ι) : Prop := t.events = s.events ∧ t.received = s.received

omit [DecidableEq ι] in
theorem SameEvents.refl (s : InotifyLoop ι) : SameEvents s s := ⟨rfl, rfl⟩

theorem sameEvents_maybeFree (ht : s.maybeFreeWatcherList l = some t) : SameEvents s t := by
  obtain ⟨w, -, ht⟩ := bind_eq_some_iff.mp ht
  split at ht
  · obtain ⟨-, ht⟩ := ite_none_left_eq_some.mp ht
    cases ht
    exact ⟨rfl, rfl⟩
  · cases ht
    exact .refl s

theorem sameEvents_start {cb : ℕ} {path : String} (ht : s.uvFsEventStart h cb path wd = some t) :
    SameEvents s t := by
  unfold InotifyLoop.uvFsEventStart at ht
  split at ht
  · cases ht
    exact .refl s
  split at ht
  · cases ht
    exact .refl s
  dsimp only at ht
  split at ht
  · obtain ⟨w, -, ht⟩ := bind_eq_some_iff.mp ht
    cases ht
    exact ⟨rfl, rfl⟩
  · cases ht
    exact ⟨rfl, rfl⟩

theorem sameEvents_stop (ht : s.uvFsEventStop h = some t) : SameEvents s t := by
  unfold InotifyLoop.uvFsEventStop at ht
  split at ht
  · cases ht
    exact .refl s
  · obtain ⟨l, -, ht⟩ := bind_eq_some_iff.mp ht
    obtain ⟨w, -, ht⟩ := bind_eq_some_iff.mp ht
    obtain ⟨hevents, hreceived⟩ := sameEvents_maybeFree ht
    refine ⟨hevents.trans ?_, hreceived⟩
    have hevent : (s.unlink h).delivery.map (·.event) = s.delivery.map (·.event) := by
      change (s.delivery.map _).map _ = _
      rw [Option.map_map]
      congr 1
      exact funext fun d => d.drop_event h
    simp only [events, hevent]
    rfl

theorem events_beginDelivery {e : InotifyEvent} {es : List InotifyEvent}
    (hidle : s.delivery = none) (hbatch : s.batch = some es)
    (ht : s.beginDelivery e = some t) :
    t.events = s.delivered.map (·.event) ++ e :: es ∧ t.received = s.received := by
  unfold InotifyLoop.beginDelivery at ht
  split at ht
  · cases ht
    simp [events, hidle, hbatch]
  · obtain ⟨w, -, ht⟩ := bind_eq_some_iff.mp ht
    cases ht
    refine ⟨?_, rfl⟩
    change s.delivered.map (·.event) ++ [e] ++ s.batch.getD [] = _
    rw [hbatch, append_assoc]
    rfl

theorem sameEvents_deliver (hd : s.delivery = some d) (ht : s.deliver d = some t) :
    SameEvents s t := by
  obtain ⟨w, -, ht⟩ := bind_eq_some_iff.mp ht
  dsimp only at ht
  split at ht
  · obtain ⟨hevents, hreceived⟩ := sameEvents_maybeFree ht
    refine ⟨hevents.trans ?_, hreceived⟩
    change (s.delivered ++ [d]).map (·.event) ++ [] ++ s.batch.getD [] = _
    simp [events, hd]
  · split at ht
    · cases ht
      refine ⟨?_, rfl⟩
      simp only [events, hd]
      rfl
    · cases ht

/-! ### All runs -/

structure Sound (s : InotifyLoop ι) : Prop where
  holds : ∃ xs, Holds s xs ∧ s.Kept xs
  received : s.received = s.events

theorem Sound.of_sameEvents (hs : Sound s) (hsame : SameEvents s t)
    (hholds : ∃ xs, Holds t xs ∧ t.Kept xs) : Sound t :=
  ⟨hholds, hsame.2.trans (hs.received.trans hsame.1.symm)⟩

theorem sound_init (junk : RingLinks (WatchNode ι)) : Sound (init junk) where
  holds := by
    refine ⟨fun _ => [], ?_, fun _ _ => nofun⟩
    constructor
    · exact ⟨nofun, nofun⟩
    · exact fun _ _ => nofun
    · exact fun l hl => absurd hl (Nat.not_lt_zero l)
    · exact fun _ _ => nofun
    · exact fun _ => nofun
    · intro i wd
      exact ⟨nofun, nofun⟩
    · exact fun _ => nofun
    · exact nodup_nil
    · exact fun _ => ⟨nofun, nofun⟩
    · exact fun _ => ⟨nofun, fun habs => absurd rfl habs⟩
    · exact fun _ => nofun
    · exact fun d hd => absurd hd not_mem_nil
  received := rfl

def return_ (s : InotifyLoop ι) : InotifyLoop ι :=
  { s with delivery := s.delivery.map fun d => { d with current := none } }

theorem sameEvents_return : SameEvents s s.return_ := by
  refine ⟨?_, rfl⟩
  have hevent : s.return_.delivery.map (·.event) = s.delivery.map (·.event) := Option.map_map ..
  simp only [events, hevent]
  rfl

theorem Kept.return_ (hk : s.Kept xs) : s.return_.Kept xs := by
  intro wd l hl
  rcases hk wd l hl with ⟨d, hd, hdl⟩ | hne
  · exact .inl ⟨_, map_eq_some_iff.mpr ⟨d, hd, rfl⟩, hdl⟩
  · exact .inr hne

theorem Holds.return_ (hs : Holds s xs) : Holds s.return_ xs := by
  have hdelivery : ∀ d ∈ s.return_.delivery, ∃ e ∈ s.delivery,
      ({ e with current := none } : InotifyDelivery ι) = d :=
    fun d hd => map_eq_some_iff.mp hd
  have hheads : s.return_.heads = s.heads := by
    have hsome : s.return_.delivery ≠ none ↔ s.delivery ≠ none := by
      rw [not_iff_not]
      exact map_eq_none_iff
    simp only [heads, hsome]
    rfl
  have hlistOf : ∀ n, s.return_.listOf n = s.listOf n := by
    intro n
    cases n with
    | list l => rfl
    | queue => exact Option.map_map ..
    | handle => rfl
  refine { hs with
    rings := hheads ▸ hs.rings
    iterating := ?_
    listed := ?_
    members := ?_
    round := ?_ }
  · intro wd l hl
    apply (hs.iterating wd l hl).trans
    constructor
    · rintro ⟨d, hd, hdl⟩
      exact ⟨_, map_eq_some_iff.mpr ⟨d, hd, rfl⟩, hdl⟩
    · rintro ⟨d, hd, hdl⟩
      obtain ⟨e, he, rfl⟩ := hdelivery d hd
      exact ⟨e, he, hdl⟩
  · intro d hd
    obtain ⟨e, he, rfl⟩ := hdelivery d hd
    exact hs.listed e he
  · intro i wd
    simp only [hheads, hlistOf]
    exact hs.members i wd
  · intro d hd
    obtain ⟨e, he, rfl⟩ := hdelivery d hd
    exact hs.round e he

theorem Sound.next (hs : Sound s) {e : Event ι} (he : s.Enabled e) :
    ∃ t, s.next e = some t ∧ Sound t := by
  obtain ⟨xs, hholds, hk⟩ := hs.holds
  have hbatch : ∀ b r, Holds { s with batch := b, received := r } xs := fun b r =>
    { hholds with }
  cases e with
  | start h cb path wd =>
    have hstart : ∃ t, s.uvFsEventStart h cb path wd = some t ∧ ∃ ys, Holds t ys ∧ t.Kept ys :=
      hholds.uvFsEventStart hk cb path
    obtain ⟨t, ht, hsound⟩ := hstart
    exact ⟨t, ht, hs.of_sameEvents (sameEvents_start ht) hsound⟩
  | stop h =>
    obtain ⟨t, ht, hsound⟩ := hholds.uvFsEventStop (h := h) hk
    exact ⟨t, ht, hs.of_sameEvents (sameEvents_stop ht) hsound⟩
  | getpath h =>
    refine ⟨s, ?_, hs⟩
    change s.uvFsEventGetpath h = some s
    unfold InotifyLoop.uvFsEventGetpath
    split
    · rfl
    · next hactive =>
      rw [Bool.not_eq_false] at hactive
      obtain ⟨n, hn, -, hlist⟩ := (hholds.members h (s.wd h)).mp ⟨hactive, rfl⟩
      obtain ⟨_, l, -, hl⟩ := hholds.listOf_tree hn
      rw [hholds.path h hactive, hlist.trans hl, bind_some,
        hholds.readList_eq (hlist.trans hl), bind_some]
  | poll =>
    refine ⟨_, rfl, ⟨xs, hbatch (some []) s.received, hk⟩, ?_⟩
    rw [hs.received, events, he.1, he.2]
    rfl
  | read es =>
    refine ⟨_, rfl, ⟨xs, hbatch (some es) _, hk⟩, ?_⟩
    have hreceived := hs.received
    rw [events, he.2, getD_some, append_nil] at hreceived
    simp only [hreceived, he.1]
    rfl
  | again =>
    refine ⟨_, rfl, ⟨xs, hbatch none s.received, hk⟩, ?_⟩
    rw [hs.received, events, he.1, he.2]
    rfl
  | turn =>
    have hbusy : s.Busy := he
    unfold Busy at hbusy
    cases hd : s.delivery with
    | some d =>
      obtain ⟨t, ht, hsound⟩ := hholds.deliver hk hd
      refine ⟨t, ?_, hs.of_sameEvents (sameEvents_deliver hd ht) hsound⟩
      simp only [InotifyLoop.next, hd]
      exact ht
    | none =>
      rw [hd] at hbusy
      cases hb : s.batch with
      | none => exact absurd hb hbusy.1
      | some es =>
        cases es with
        | nil => exact absurd hb hbusy.2
        | cons e es =>
          have hrest := hbatch (some es) s.received
          obtain ⟨t, ht, hsound⟩ := hrest.beginDelivery hk hd e
          refine ⟨t, ?_, hsound, ?_⟩
          · simp only [InotifyLoop.next, hd, hb]
            rw [← ht, hd]
          · obtain ⟨hevents, hreceived⟩ :=
              events_beginDelivery (s := { s with batch := some es }) hd rfl ht
            rw [hevents, hreceived, hs.received, events, hd, hb]
            simp
  | returned => exact ⟨_, rfl, hs.of_sameEvents sameEvents_return ⟨xs, hholds.return_, hk.return_⟩⟩

theorem Sound.of_reachable (h : Reachable (fun s => ∃ junk, s = init junk) Step s) : Sound s := by
  apply h.invariant_of_next
  · rintro _ ⟨junk, rfl⟩
    exact sound_init junk
  · exact fun s e hs he => hs.next he

/-! ## What is promised -/

/-- Every event that is enabled is possible, so no list is used after it is freed. The events that
were read are those that were delivered, that which is being delivered, and those still to come, in
order; each was delivered once to all that watched its descriptor and were not stopped before their
turn. The tree has the lists with a handle, and that of the delivery; a list is freed when it leaves
the tree, and its descriptor removed. -/
structure Delivers (s : InotifyLoop ι) : Prop where
  possible : ∀ e, s.Enabled e → (s.next e).isSome = true
  received : s.received = s.events
  complete : ∀ d ∈ s.delivered, d.Complete
  ongoing : ∀ d ∈ s.delivery, d.start.Nodup ∧
    ∃ due, (d.calls.map (·.handle) ++ due).Perm (d.start.filter (· ∉ d.gone))
  kept : ∀ wd l, s.tree wd = some l →
    (∃ d ∈ s.delivery, d.list = l) ∨ ∃ h, s.active h = true ∧ s.wd h = wd
  watched : ∀ h, s.active h = true → s.tree (s.wd h) ≠ none
  listed : ∀ wd l, s.tree wd = some l → l < s.created ∧ (s.lists l).wd = wd
  freed : ∀ l < s.created, (s.lists l).freed = if s.tree (s.lists l).wd = some l then 0 else 1
  watches : ∀ wd, s.watches wd = true ↔ s.tree wd ≠ none

theorem uvInotifyRead_delivers (h : Reachable (fun s => ∃ junk, s = init junk) Step s) :
    s.Delivers := by
  have hs := Sound.of_reachable h
  obtain ⟨xs, hholds, hk⟩ := hs.holds
  constructor
  case possible =>
    intro e he
    obtain ⟨t, ht, -⟩ := hs.next he
    rw [ht]
    rfl
  case received => exact hs.received
  case complete => exact hholds.complete
  case ongoing =>
    intro d hd
    obtain ⟨zs, hperm, hround⟩ := hholds.round d hd
    refine ⟨hperm.nodup_iff.mp hround.nodup, xs .queue, ?_⟩
    rw [hround.split]
    exact hperm.filter _
  case kept =>
    intro wd l hl
    rcases hk wd l hl with hd | hne
    · exact .inl hd
    · right
      obtain ⟨i, hi⟩ := List.exists_mem_of_ne_nil _ hne
      exact ⟨i, (hholds.members i wd).mpr ⟨.list l, list_mem_heads hl, hi, hl⟩⟩
  case watched =>
    intro i hi habs
    obtain ⟨n, hn, -, hlist⟩ := (hholds.members i (s.wd i)).mp ⟨hi, rfl⟩
    obtain ⟨_, _, -, hsome⟩ := hholds.listOf_tree hn
    cases habs.symm.trans (hlist.trans hsome)
  case listed => exact hholds.tree
  case freed => exact hholds.freed
  case watches => exact hholds.watches

/-- Two handles watch a descriptor; the callback of the first stops both, so that the list is freed
after the delivery, and a second event is stale. -/
def stoppedRun : Option (InotifyLoop ℕ) :=
  [Event.start 0 7 "/tmp/file" 1, .start 1 7 "/tmp/file" 1, .poll,
    .read [⟨1, uvInModify, none⟩, ⟨1, uvInAttrib, none⟩], .turn, .turn, .stop 0, .stop 1, .returned,
    .turn, .turn, .again].foldlM step (init ⟨id, id⟩)

theorem stoppedRun_isSome : stoppedRun.isSome = true := by
  rfl

theorem uvInotifyRead_delivers_stopped : ((stoppedRun.get stoppedRun_isSome).lists 0).freed =
    if (stoppedRun.get stoppedRun_isSome).tree ((stoppedRun.get stoppedRun_isSome).lists 0).wd =
      some 0 then 0 else 1 := by
  have hrun : Reachable (fun s => ∃ junk, s = init junk) Step (stoppedRun.get stoppedRun_isSome) :=
    .of_foldlM (.init ⟨_, rfl⟩) (Option.some_get stoppedRun_isSome).symm
  exact (uvInotifyRead_delivers hrun).freed 0 (by decide)

end InotifyLoop

end LibuvWorks.Unix
