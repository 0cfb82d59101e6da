import LibuvWorks.Unix.Process
import Mathlib.Data.Set.Insert

/-!
# Exit callbacks

As long as no exit callback closes the handle whose node `uv__chld` has already fetched, the
queues are what they are meant to be, and every process that was reaped is reported once
unless its handle is closed before its turn.
-/
namespace LibuvWorks.Unix

open List Function
open List (map_append map_cons mem_append mem_cons mem_map mem_singleton nodup_cons nodup_middle)
open Transition RingLinks

variable {ι γ : Type*} {L : RingLinks (ProcNode ι)} {hs ps ys zs : List ι} {S : Set ι} {h : ι}

/-! ### The queues -/

/-- The rings of the links: the processes, the local queue while `uv__chld` runs, and the other
handles of `S`, which are linked to themselves. -/
structure Rings (L : RingLinks (ProcNode ι)) (hs ps : List ι) (busy : Prop) (S : Set ι) : Prop where
  handles : L.Ring .handles (hs.map .proc)
  pending : busy → L.Ring .pending (ps.map .proc)
  self : ∀ h ∈ S, h ∉ hs → h ∉ ps → L.Ring (.proc h) []
  disjoint : ∀ h ∈ hs, h ∉ ps

theorem proc_notMem {q : ProcNode ι} {xs : List ι} (hne : ProcNode.proc h ≠ q)
    (hxs : h ∉ xs) : ProcNode.proc h ∉ q :: xs.map .proc := by
  simp only [mem_cons, hne, mem_map, ProcNode.proc.injEq, exists_eq_right, hxs, or_self,
    not_false_eq_true]

theorem Rings.mono {busy : Prop} {T : Set ι} (hL : Rings L hs ps busy S) (hsub : T ⊆ S) :
    Rings L hs ps busy T :=
  { hL with self := fun h hh => hL.self h (hsub hh) }

variable [DecidableEq ι] {busy : Prop}

theorem Rings.init (hL : Rings L hs ps busy S) (hhs : h ∉ hs) (hps : h ∉ ps) :
    Rings (L.init (.proc h)) hs ps busy (insert h S) where
  handles := hL.handles.init (by simpa using hhs)
  pending hbusy := (hL.pending hbusy).init (by simpa using hps)
  self := by
    intro k hk hkhs hkps
    by_cases hkh : k = h
    · rw [hkh]
      exact ring_init
    · have hmem := Set.mem_of_mem_insert_of_ne hk hkh
      exact (hL.self k hmem hkhs hkps).init (by simpa using Ne.symm hkh)
  disjoint := hL.disjoint

theorem Rings.insert (hL : Rings L hs ps busy S) (hhs : h ∉ hs) (hps : h ∉ ps) :
    Rings (L.insertTail .handles (.proc h)) (hs ++ [h]) ps busy S where
  handles := by
    rw [map_append]
    exact hL.handles.insertTail (by simpa using hhs)
  pending hbusy := by
    apply hL.handles.insertTail_of_disjoint (hL.pending hbusy)
    intro x hx
    rcases mem_cons.mp hx with rfl | hx
    · simp
    · obtain ⟨k, hk, rfl⟩ := mem_map.mp hx
      have hne : k ≠ h := ne_of_mem_of_not_mem hk hps
      simpa [hne] using fun habs => hL.disjoint k habs hk
  self := by
    intro k hk hkhs hkps
    rw [mem_append, not_or] at hkhs
    apply hL.handles.insertTail_of_disjoint (hL.self k hk hkhs.1 hkps)
    intro x hx
    rw [mem_singleton.mp hx]
    exact ⟨by simpa using hkhs.2, proc_notMem (by simp) hkhs.1⟩
  disjoint := by
    intro k hk
    rcases mem_append.mp hk with hk | hk
    · exact hL.disjoint k hk
    · rw [mem_singleton.mp hk]
      exact hps

theorem Rings.removeHandles (hL : Rings L (ys ++ h :: zs) ps busy S) :
    Rings (L.remove (.proc h)) (ys ++ zs) ps busy (S \ {h}) where
  handles := by
    have hring := hL.handles
    rw [map_append] at hring
    rw [map_append]
    exact hring.remove
  pending hbusy := by
    have hring := hL.handles
    rw [map_append] at hring
    apply hring.remove_of_disjoint (hL.pending hbusy)
    intro x hx
    rcases mem_cons.mp hx with rfl | hx
    · simp
    · obtain ⟨k, hk, rfl⟩ := mem_map.mp hx
      have hdisj := fun habs => hL.disjoint k habs hk
      simpa using hdisj
  self := by
    intro k hk hkhs hkps
    have hne : k ≠ h := hk.2
    have hkhs' : k ∉ ys ++ h :: zs := by simpa [hne] using hkhs
    have hnot := proc_notMem (q := .handles) (by simp) hkhs'
    have hring := hL.handles
    rw [map_append, map_cons] at hring hnot
    apply hring.remove_of_disjoint (hL.self k hk.1 hkhs' hkps)
    intro x hx
    rwa [mem_singleton.mp hx]
  disjoint := by
    intro k hk
    apply hL.disjoint k
    simp only [mem_append, mem_cons] at hk ⊢
    tauto

theorem Rings.removePending (hL : Rings L hs (ys ++ h :: zs) busy S) (hbusy : busy) :
    Rings (L.remove (.proc h)) hs (ys ++ zs) busy (S \ {h}) where
  handles := by
    have hring := hL.pending hbusy
    rw [map_append] at hring
    apply hring.remove_of_disjoint hL.handles
    intro x hx
    rcases mem_cons.mp hx with rfl | hx
    · simp
    · obtain ⟨k, hk, rfl⟩ := mem_map.mp hx
      simpa using hL.disjoint k hk
  pending _ := by
    have hring := hL.pending hbusy
    rw [map_append] at hring
    rw [map_append]
    exact hring.remove
  self := by
    intro k hk hkhs hkps
    have hne : k ≠ h := hk.2
    have hkps' : k ∉ ys ++ h :: zs := by simpa [hne] using hkps
    have hnot := proc_notMem (q := .pending) (by simp) hkps'
    have hring := hL.pending hbusy
    rw [map_append, map_cons] at hring hnot
    apply hring.remove_of_disjoint (hL.self k hk.1 hkhs hkps')
    intro x hx
    rwa [mem_singleton.mp hx]
  disjoint := by
    intro k hk habs
    apply hL.disjoint k hk
    simp only [mem_append, mem_cons] at habs ⊢
    tauto

theorem Rings.move (hL : Rings L (ys ++ h :: zs) ps busy S) (hbusy : busy) :
    Rings ((L.remove (.proc h)).insertTail .pending (.proc h)) (ys ++ zs) (ps ++ [h]) busy S := by
  have hrest := hL.removeHandles
  have hhs : h ∉ ys ++ zs := by
    have hnd : (ys ++ h :: zs).Nodup :=
      List.Nodup.of_map _ (nodup_cons.mp hL.handles.nodup).2
    exact (nodup_middle.mp hnd).notMem
  have hps : h ∉ ps := hL.disjoint h (by simp)
  have hring := hrest.pending hbusy
  constructor
  · apply hring.insertTail_of_disjoint hrest.handles
    intro x hx
    rcases mem_cons.mp hx with rfl | hx
    · simp
    · obtain ⟨k, hk, rfl⟩ := mem_map.mp hx
      have hne : k ≠ h := ne_of_mem_of_not_mem hk hhs
      simpa [hne] using hrest.disjoint k hk
  · intro _
    rw [map_append]
    exact hring.insertTail (by simpa using hps)
  · intro k hk hkhs hkps
    rw [mem_append, not_or, mem_singleton] at hkps
    apply hring.insertTail_of_disjoint (hrest.self k ⟨hk, hkps.2⟩ hkhs hkps.1)
    intro x hx
    rw [mem_singleton.mp hx]
    exact ⟨by simpa using hkps.2, proc_notMem (by simp) hkps.1⟩
  · intro k hk habs
    rcases mem_append.mp habs with habs | habs
    · exact hrest.disjoint k hk habs
    · rw [mem_singleton.mp habs] at hk
      exact hhs hk

namespace Processes

variable {s t : Processes ι γ} {v : UvProcess γ}

/-! ### The invariant -/

def Waiting (p : UvProcess γ) : Prop :=
  p.live = true ∧ p.closing = false ∧ p.started = true ∧ p.reaped = none

def Unreported (p : UvProcess γ) : Prop :=
  p.live = true ∧ p.closing = false ∧ p.reaped ≠ none ∧ p.turned = false

/-- The exit callback was called when the turn of the handle came, with the status it was
reaped with. -/
structure Told (p : UvProcess γ) : Prop where
  status : ∀ status, p.reaped = some status → p.status = status
  turned : p.turned = true → p.reaped ≠ none
  calls : p.calls = if p.turned = true ∧ p.exitCb.isSome then [exitArgs p.status] else []

/-- Where the walks are. -/
def At (thread : ChldThread ι) (hs ps : List ι) : Prop :=
  match thread with
  | .user => ps = []
  | .reap q => ∃ done rest, hs = done ++ rest ∧ q = (rest.map .proc).headD .handles
  | .deliver q => q = (ps.map .proc).headD .pending
  | .callback _ q => q = (ps.map .proc).headD .pending

/-- The children of the processes that wait are there, and are different. -/
structure Pids (s : Processes ι γ) (hs : List ι) : Prop where
  known : ∀ h ∈ hs, s.child (s.proc h).pid ≠ .gone
  inj : ∀ h ∈ hs, ∀ k ∈ hs, (s.proc h).pid = (s.proc k).pid → h = k

def usable (s : Processes ι γ) : Set ι := {h | (s.proc h).live = true ∧ (s.proc h).closing = false}

/-- The members of the two queues, and what every handle has been told. -/
structure Chld (s : Processes ι γ) (hs ps : List ι) : Prop where
  rings : Rings s.links hs ps (s.thread ≠ .user) s.usable
  mem_handles : ∀ h, h ∈ hs ↔ Waiting (s.proc h)
  mem_pending : ∀ h, h ∈ ps ↔ Unreported (s.proc h)
  pos : At s.thread hs ps
  told : ∀ h, (s.proc h).live = true → Told (s.proc h)
  pids : Pids s hs

theorem Chld.update {hs' ps' : List ι} (hc : Chld s hs ps)
    (hproc : t.proc = Function.update s.proc h v)
    (hrings : Rings t.links hs' ps' (t.thread ≠ .user) t.usable)
    (hmem : ∀ k, k ≠ h → (k ∈ hs' ↔ k ∈ hs) ∧ (k ∈ ps' ↔ k ∈ ps))
    (hwaiting : h ∈ hs' ↔ Waiting v) (hunreported : h ∈ ps' ↔ Unreported v)
    (hpos : At t.thread hs' ps') (htold : v.live = true → Told v) (hpids : Pids t hs') :
    Chld t hs' ps' := by
  have hself : t.proc h = v := by rw [hproc, update_self]
  have hother : ∀ k, k ≠ h → t.proc k = s.proc k := fun k hk => by
    rw [hproc, update_of_ne hk]
  refine ⟨hrings, fun k => ?_, fun k => ?_, hpos, fun k => ?_, hpids⟩
  · by_cases hk : k = h
    · rw [hk, hself]
      exact hwaiting
    · rw [hother k hk, (hmem k hk).1]
      exact hc.mem_handles k
  · by_cases hk : k = h
    · rw [hk, hself]
      exact hunreported
    · rw [hother k hk, (hmem k hk).2]
      exact hc.mem_pending k
  · by_cases hk : k = h
    · rw [hk, hself]
      exact htold
    · rw [hother k hk]
      exact hc.told k

omit [DecidableEq ι] in
theorem Chld.moved (hc : Chld s hs ps) (hproc : t.proc = s.proc) (hlinks : t.links = s.links)
    (hchild : t.child = s.child) (hbusy : t.thread ≠ .user → s.thread ≠ .user)
    (hpos : At t.thread hs ps) : Chld t hs ps := by
  refine ⟨?_, ?_, ?_, hpos, ?_, ?_⟩
  · have husable : t.usable = s.usable := by rw [usable, usable, hproc]
    rw [hlinks, husable]
    exact { hc.rings with pending := fun hb => hc.rings.pending (hbusy hb) }
  · rw [hproc]
    exact hc.mem_handles
  · rw [hproc]
    exact hc.mem_pending
  · rw [hproc]
    exact hc.told
  · refine ⟨fun h hh => ?_, fun h hh k hk => ?_⟩
    · rw [hproc, hchild]
      exact hc.pids.known h hh
    · rw [hproc]
      exact hc.pids.inj h hh k hk

/-! ### Calls of the program -/

theorem told_fresh {exitCb : Option γ} {pid : ℕ} {active started : Bool} :
    Told { freshProc exitCb with pid := pid, active := active, started := started } where
  status := by
    rintro _ ⟨⟩
  turned := by
    rintro ⟨⟩
  calls := rfl

omit [DecidableEq ι] in
theorem Chld.notMem (hc : Chld s hs ps) (hlive : (s.proc h).live = false) : h ∉ hs ∧ h ∉ ps := by
  rw [hc.mem_handles, hc.mem_pending]
  constructor
  · rintro ⟨habs, -⟩
    rw [hlive] at habs
    cases habs
  · rintro ⟨habs, -⟩
    rw [hlive] at habs
    cases habs

theorem usable_update (hproc : t.proc = Function.update s.proc h v) :
    t.usable ⊆ insert h s.usable := by
  intro k hk
  by_cases hkh : k = h
  · exact .inl hkh
  · right
    have hkeep : t.proc k = s.proc k := by rw [hproc, update_of_ne hkh]
    simpa [usable, hkeep] using hk

theorem Pids.update {xs : List ι} (hp : Pids s hs) (hsub : ∀ k ∈ xs, k ∈ hs ∧ k ≠ h)
    (hproc : t.proc = Function.update s.proc h v)
    (hchild : ∀ k ∈ xs, t.child (s.proc k).pid ≠ .gone) : Pids t xs := by
  have hother : ∀ k ∈ xs, t.proc k = s.proc k := fun k hk => by
    rw [hproc, update_of_ne (hsub k hk).2]
  refine ⟨fun k hk => ?_, fun k hk j hj => ?_⟩
  · rw [hother k hk]
    exact hchild k hk
  · rw [hother k hk, hother j hj]
    exact hp.inj k (hsub k hk).1 j (hsub j hj).1

omit [DecidableEq ι] in
theorem at_of_mayCall {hs' : List ι} (hcall : s.mayCall = true) (hpos : At s.thread hs ps) :
    At s.thread hs' ps := by
  unfold mayCall at hcall
  split at hcall
  next hthread =>
    rw [hthread] at hpos ⊢
    exact hpos
  next hthread =>
    rw [hthread] at hpos ⊢
    exact hpos
  next => cases hcall

theorem Pids.started {L : RingLinks (ProcNode ι)} (hp : Pids s hs) (hhs : h ∉ hs)
    (hgone : s.child v.pid = .gone) : Pids { s.setProc h v with
      links := L
      child := Function.update s.child v.pid .running } (hs ++ [h]) := by
  have hne : ∀ k ∈ hs, k ≠ h := fun k hk => ne_of_mem_of_not_mem hk hhs
  have hpid : ∀ k ∈ hs, (s.proc k).pid ≠ v.pid := by
    intro k hk habs
    exact hp.known k hk (habs ▸ hgone)
  constructor
  · intro k hk
    rcases mem_append.mp hk with hk | hk
    · simp only [setProc_proc, update_of_ne (hne k hk), update_of_ne (hpid k hk)]
      exact hp.known k hk
    · rw [mem_singleton.mp hk]
      simp
  · intro k hk j hj hkj
    rcases mem_append.mp hk with hk | hk <;> rcases mem_append.mp hj with hj | hj
    · simp only [setProc_proc, update_of_ne (hne k hk),
        update_of_ne (hne j hj)] at hkj
      exact hp.inj k hk j hj hkj
    · rw [mem_singleton.mp hj] at hkj
      simp only [setProc_proc, update_of_ne (hne k hk), update_self] at hkj
      exact absurd hkj (hpid k hk)
    · rw [mem_singleton.mp hk] at hkj
      simp only [setProc_proc, update_of_ne (hne j hj), update_self] at hkj
      exact absurd hkj.symm (hpid j hj)
    · rw [mem_singleton.mp hk, mem_singleton.mp hj]

theorem Chld.uvSpawn {exitCb : Option γ} {r : Spawned} (hc : Chld s hs ps)
    (hstep : s.uvSpawn h exitCb r = some t) : ∃ hs', Chld t hs' ps := by
  unfold Processes.uvSpawn at hstep
  split_ifs at hstep with hguard
  simp only [not_or, Bool.not_eq_true, Bool.not_eq_false'] at hguard
  obtain ⟨hcall, hlive⟩ := hguard
  obtain ⟨hhs, hps⟩ := hc.notMem hlive
  have hinit := hc.rings.init hhs hps
  have hne : ∀ k ∈ hs, k ≠ h := fun k hk => ne_of_mem_of_not_mem hk hhs
  have hidle : ∀ {v : UvProcess γ}, v.started = false → v.reaped = none → Told v →
      Chld { s.setProc h v with links := s.links.init (.proc h) } hs ps := by
    intro v hstarted hreaped htold
    refine hc.update rfl (hinit.mono (usable_update rfl)) (fun _ _ => ⟨Iff.rfl, Iff.rfl⟩) ?_ ?_
      hc.pos (fun _ => htold) ?_
    · simp [hhs, Waiting, hstarted]
    · simp [hps, Unreported, hreaped]
    · exact hc.pids.update (fun k hk => ⟨hk, hne k hk⟩) rfl hc.pids.known
  cases r with
  | failed =>
    cases hstep
    exact ⟨hs, hidle rfl rfl ⟨fun _ => (by rintro ⟨⟩), fun habs => (by cases habs), rfl⟩⟩
  | execFailed pid =>
    cases hstep
    exact ⟨hs, hidle rfl rfl told_fresh⟩
  | started pid =>
    simp only [Option.ite_none_right_eq_some] at hstep
    obtain ⟨hgone, hstep⟩ := hstep
    cases hstep
    refine ⟨hs ++ [h], hc.update rfl ((hinit.insert hhs hps).mono (usable_update rfl)) ?_ ?_ ?_ ?_
      (fun _ => told_fresh) ?_⟩
    · intro k hk
      simp [hk]
    · simp [Waiting, freshProc]
    · simp [hps, Unreported, freshProc]
    · exact at_of_mayCall hcall hc.pos
    · exact hc.pids.started hhs hgone

section

omit [DecidableEq ι]

theorem Chld.nodup (hc : Chld s hs ps) : hs.Nodup :=
  List.Nodup.of_map _ (nodup_cons.mp hc.rings.handles.nodup).2

theorem Chld.nodup_pending (hc : Chld s hs ps) (hbusy : s.thread ≠ .user) : ps.Nodup :=
  List.Nodup.of_map _ (nodup_cons.mp (hc.rings.pending hbusy).nodup).2

theorem mem_rest {k : ι} (hk : k ∈ ys ++ zs) : k ∈ ys ++ h :: zs := by
  simp only [mem_append, mem_cons] at hk ⊢
  tauto

/-- The node that was fetched stays the first one when another handle is closed. -/
theorem at_closed (hcall : s.mayCall = true) (hcareful : s.fetched ≠ some (.proc h))
    (hpos : At s.thread hs (ys ++ h :: zs)) : At s.thread hs (ys ++ zs) := by
  unfold mayCall at hcall
  split at hcall
  next hthread =>
    rw [hthread] at hpos
    exact absurd hpos (by simp [At])
  next k q hthread =>
    rw [hthread] at hpos ⊢
    cases ys with
    | nil =>
      refine absurd ?_ hcareful
      rw [fetched, hthread]
      exact congrArg some hpos
    | cons y ys => exact hpos
  next => cases hcall

end

theorem usable_closed (hproc : t.proc = Function.update s.proc h v)
    (hclosing : v.closing = true) : t.usable ⊆ s.usable \ {h} := by
  intro k hk
  by_cases hkh : k = h
  · subst hkh
    have habs : (t.proc k).closing = false := hk.2
    rw [hproc, update_self, hclosing] at habs
    cases habs
  · refine ⟨?_, hkh⟩
    have hkeep : t.proc k = s.proc k := by rw [hproc, update_of_ne hkh]
    simpa [usable, hkeep] using hk

theorem Chld.uvClose (hc : Chld s hs ps) (hcareful : s.fetched ≠ some (.proc h))
    (hstep : s.uvClose h = some t) :
    ∃ hs' ps', Chld t hs' ps' := by
  unfold Processes.uvClose at hstep
  split_ifs at hstep with hguard
  simp only [not_or, Bool.not_eq_true, Bool.not_eq_false'] at hguard
  obtain ⟨hcall, hlive, hopen⟩ := hguard
  cases hstep
  have husable : h ∈ s.usable := ⟨hlive, hopen⟩
  have htold : Told { s.proc h with closing := true, active := false } :=
    ⟨(hc.told h hlive).status, (hc.told h hlive).turned, (hc.told h hlive).calls⟩
  have hnowaiting : ¬ Waiting { s.proc h with closing := true, active := false } :=
    fun habs => Bool.noConfusion habs.2.1
  have hnopending : ¬ Unreported { s.proc h with closing := true, active := false } :=
    fun habs => Bool.noConfusion habs.2.1
  by_cases hhs : h ∈ hs
  · obtain ⟨ys, zs, rfl⟩ := append_of_mem hhs
    have hnot : h ∉ ys ++ zs := (nodup_middle.mp hc.nodup).notMem
    have hps : h ∉ ps := hc.rings.disjoint h hhs
    refine ⟨ys ++ zs, ps,
      hc.update rfl (hc.rings.removeHandles.mono (usable_closed rfl rfl)) ?_ ?_ ?_
      (at_of_mayCall hcall hc.pos) (fun _ => htold) ?_⟩
    · intro k hk
      simp [hk]
    · exact iff_of_false hnot hnowaiting
    · exact iff_of_false hps hnopending
    · exact hc.pids.update (fun k hk => ⟨mem_rest hk, ne_of_mem_of_not_mem hk hnot⟩) rfl
        fun k hk => hc.pids.known k (mem_rest hk)
  · have hpids : ∀ {L : RingLinks (ProcNode ι)}, Pids { s.setProc h
        { s.proc h with closing := true, active := false } with links := L } hs :=
      hc.pids.update (fun k hk => ⟨hk, ne_of_mem_of_not_mem hk hhs⟩) rfl hc.pids.known
    by_cases hps : h ∈ ps
    · have hbusy : s.thread ≠ .user := by
        intro habs
        have hnil := hc.pos
        rw [habs] at hnil
        rw [show ps = [] from hnil] at hps
        cases hps
      obtain ⟨ys, zs, rfl⟩ := append_of_mem hps
      have hnot : h ∉ ys ++ zs := (nodup_middle.mp (hc.nodup_pending hbusy)).notMem
      refine ⟨hs, ys ++ zs, hc.update rfl
        ((hc.rings.removePending hbusy).mono (usable_closed rfl rfl)) ?_ ?_ ?_ ?_ (fun _ => htold)
        hpids⟩
      · intro k hk
        simp [hk]
      · exact iff_of_false hhs hnowaiting
      · exact iff_of_false hnot hnopending
      · exact at_closed hcall hcareful hc.pos
    · have hself : s.links.remove (.proc h) = s.links :=
        (hc.rings.self h husable hhs hps).remove_self
      refine ⟨hs, ps, hc.update rfl ?_ (fun _ _ => ⟨Iff.rfl, Iff.rfl⟩) ?_ ?_ hc.pos
        (fun _ => htold) hpids⟩
      · rw [hself]
        apply hc.rings.mono
        intro k hk
        exact (usable_closed rfl rfl hk).1
      · exact iff_of_false hhs hnowaiting
      · exact iff_of_false hps hnopending

theorem Chld.uvFinishClose (hc : Chld s hs ps) (hstep : s.uvFinishClose h = some t) :
    Chld t hs ps := by
  simp only [Processes.uvFinishClose, Option.ite_none_right_eq_some] at hstep
  obtain ⟨⟨hthread, hlive, hclosing⟩, hstep⟩ := hstep
  cases hstep
  have hhs : h ∉ hs := by
    rw [hc.mem_handles]
    rintro ⟨-, habs, -⟩
    rw [hclosing] at habs
    cases habs
  have hps : h ∉ ps := by
    rw [hc.mem_pending]
    rintro ⟨-, habs, -⟩
    rw [hclosing] at habs
    cases habs
  refine hc.update rfl ?_ (fun _ _ => ⟨Iff.rfl, Iff.rfl⟩) ?_ ?_ hc.pos ?_ ?_
  · apply hc.rings.mono
    intro k hk
    have hsub := usable_update rfl hk
    apply Set.mem_of_mem_insert_of_ne hsub
    rintro rfl
    have habs : (Function.update s.proc k { s.proc k with live := false } k).live = true := hk.1
    simp at habs
  · exact iff_of_false hhs fun habs => Bool.noConfusion habs.1
  · exact iff_of_false hps fun habs => Bool.noConfusion habs.1
  · exact fun habs => Bool.noConfusion habs
  · exact hc.pids.update (fun k hk => ⟨hk, ne_of_mem_of_not_mem hk hhs⟩) rfl hc.pids.known

omit [DecidableEq ι] in
theorem Chld.childExits {pid status : ℕ} (hc : Chld s hs ps)
    (hstep : s.childExits pid status = some t) : Chld t hs ps := by
  simp only [Processes.childExits, Option.ite_none_right_eq_some] at hstep
  obtain ⟨-, hstep⟩ := hstep
  cases hstep
  refine ⟨hc.rings, hc.mem_handles, hc.mem_pending, hc.pos, hc.told, fun k hk => ?_, hc.pids.inj⟩
  change Function.update s.child pid (.zombie status) (s.proc k).pid ≠ .gone
  by_cases hpid : (s.proc k).pid = pid
  · rw [hpid]
    simp
  · rw [update_of_ne hpid]
    exact hc.pids.known k hk

/-! ### The walks of `uv__chld` -/

theorem Chld.uvChld (hc : Chld s hs ps) (hstep : s.uvChld = some t) : Chld t hs ps := by
  simp only [Processes.uvChld, Option.ite_none_right_eq_some] at hstep
  obtain ⟨hthread, hstep⟩ := hstep
  cases hstep
  have hnil : ps = [] := by
    have hpos := hc.pos
    rwa [hthread] at hpos
  subst hnil
  have hring := hc.rings
  refine ⟨⟨?_, ?_, ?_, hring.disjoint⟩, hc.mem_handles, hc.mem_pending, ?_, hc.told, hc.pids.known,
    hc.pids.inj⟩
  · exact hring.handles.init (by simp)
  · exact fun _ => ring_init
  · exact fun k hk hkhs hkps => (hring.self k hk hkhs hkps).init (by simp)
  · refine ⟨[], hs, rfl, ?_⟩
    exact hring.handles.next.head

theorem Chld.reapStep (hc : Chld s hs ps) (hstep : s.reapStep = some t) :
    ∃ hs' ps', Chld t hs' ps' := by
  unfold Processes.reapStep at hstep
  split at hstep
  next hthread =>
    cases hstep
    have hbusy : s.thread ≠ .user := by simp [hthread]
    exact ⟨hs, ps, hc.moved rfl rfl rfl (fun _ => hbusy) (hc.rings.pending hbusy).next.head⟩
  next h hthread =>
    have hbusy : s.thread ≠ .user := by simp [hthread]
    have hpos := hc.pos
    rw [hthread] at hpos
    obtain ⟨done, rest, rfl, hq⟩ := hpos
    cases rest with
    | nil => cases hq
    | cons k rest =>
      cases hq
      have hnext : s.links.next (.proc h) = (rest.map .proc).headD .handles := by
        have hring := hc.rings.handles
        rw [map_append, map_cons] at hring
        exact hring.next_member
      have hmem : h ∈ done ++ h :: rest := by simp
      obtain ⟨hlive, hopen, hstarted, hreaped⟩ := (hc.mem_handles h).mp hmem
      have husable : h ∈ s.usable := ⟨hlive, hopen⟩
      dsimp only at hstep
      split at hstep
      next status hzombie =>
        cases hstep
        have hnot : h ∉ done ++ rest := (nodup_middle.mp hc.nodup).notMem
        have hturned : (s.proc h).turned = false := by
          rw [← Bool.not_eq_true]
          exact fun habs => (hc.told h hlive).turned habs hreaped
        refine ⟨done ++ rest, ps ++ [h], hc.update rfl ?_ ?_ ?_ ?_ ?_ (fun _ => ?_) ?_⟩
        · have hmove := hc.rings.move hbusy
          refine { hmove with pending := fun _ => hmove.pending hbusy, self := ?_ }
          intro k hk
          apply hmove.self k
          exact Set.insert_subset husable (Set.Subset.refl _) (usable_update rfl hk)
        · intro k hk
          simp [hk]
        · exact iff_of_false hnot fun habs => Option.some_ne_none _ habs.2.2.2
        · simp [Unreported, hlive, hopen, hturned]
        · exact ⟨done, rest, rfl, hnext⟩
        · refine ⟨?_, fun _ => Option.some_ne_none _, ?_⟩
          · rintro _ ⟨⟩
            rfl
          · have hcalls := (hc.told h hlive).calls
            rw [hturned] at hcalls
            simpa [hturned] using hcalls
        · refine hc.pids.update (fun k hk => ⟨mem_rest hk, ne_of_mem_of_not_mem hk hnot⟩) rfl ?_
          intro k hk
          have hne : (s.proc k).pid ≠ (s.proc h).pid := by
            intro habs
            rw [hc.pids.inj k (mem_rest hk) h hmem habs] at hk
            exact hnot hk
          change Function.update s.child (s.proc h).pid .gone (s.proc k).pid ≠ .gone
          rw [update_of_ne hne]
          exact hc.pids.known k (mem_rest hk)
      next =>
        cases hstep
        refine ⟨done ++ h :: rest, ps, hc.moved rfl rfl rfl (fun _ => hbusy) ?_⟩
        exact ⟨done ++ [h], rest, by simp, hnext⟩
  next => cases hstep

theorem Chld.deliverStep (hc : Chld s hs ps) (hstep : s.deliverStep = some t) :
    ∃ ps', Chld t hs ps' := by
  unfold Processes.deliverStep at hstep
  split at hstep
  next hthread =>
    have hbusy : s.thread ≠ .user := by simp [hthread]
    rw [Option.ite_none_right_eq_some] at hstep
    obtain ⟨-, hstep⟩ := hstep
    cases hstep
    have hpos := hc.pos
    rw [hthread] at hpos
    cases ps with
    | nil => exact ⟨[], hc.moved rfl rfl rfl (fun _ => hbusy) rfl⟩
    | cons k ps => cases hpos
  next h hthread =>
    have hbusy : s.thread ≠ .user := by simp [hthread]
    have hpos := hc.pos
    rw [hthread] at hpos
    cases ps with
    | nil => cases hpos
    | cons k ps =>
      cases hpos
      have hrings : Rings s.links hs ([] ++ h :: ps) (s.thread ≠ .user) s.usable := hc.rings
      have hring : Ring s.links .pending ([] ++ .proc h :: ps.map .proc) := hrings.pending hbusy
      have hnext : s.links.next (.proc h) = (ps.map .proc).headD .pending := hring.next_member
      have hmem : h ∈ h :: ps := mem_cons_self
      have hps : h ∉ ps := (nodup_cons.mp (hc.nodup_pending hbusy)).1
      have hhs : h ∉ hs := fun habs => hc.rings.disjoint h habs hmem
      obtain ⟨hlive, hopen, hreaped, hturned⟩ := (hc.mem_pending h).mp hmem
      have husable : h ∈ s.usable := ⟨hlive, hopen⟩
      have htold := hc.told h hlive
      have hlinks : Rings ((s.links.remove (.proc h)).init (.proc h)) hs ps (s.thread ≠ .user)
          s.usable := by
        apply ((hrings.removePending hbusy).init hhs hps).mono
        intro k hk
        by_cases hkh : k = h
        · exact .inl hkh
        · exact .inr ⟨hk, hkh⟩
      have hdone : ∀ {v : UvProcess γ} {q : ChldThread ι}, v.live = true → v.closing = false →
          v.turned = true → v.reaped = (s.proc h).reaped → Told v → At q hs ps → q ≠ .user →
          Chld { s.setProc h v with
            links := (s.links.remove (.proc h)).init (.proc h), thread := q } hs ps := by
        intro v q hvlive hvopen hvturned hvreaped hvtold hq hquser
        refine hc.update rfl ?_ (fun k hk => ⟨Iff.rfl, by simp [hk]⟩) ?_ ?_ hq (fun _ => hvtold) ?_
        · refine ⟨hlinks.handles, fun _ => hlinks.pending hbusy, fun k hk => ?_, hlinks.disjoint⟩
          apply hlinks.self k
          exact Set.insert_subset husable (Set.Subset.refl _) (usable_update rfl hk)
        · refine iff_of_false hhs fun habs => hreaped ?_
          rw [← hvreaped]
          exact habs.2.2.2
        · apply iff_of_false hps
          intro habs
          rw [Unreported, hvturned] at habs
          exact Bool.noConfusion habs.2.2.2
        · exact hc.pids.update (fun k hk => ⟨hk, ne_of_mem_of_not_mem hk hhs⟩) rfl hc.pids.known
      have hcalls : (s.proc h).calls = [] := by
        rw [htold.calls, hturned]
        simp
      dsimp only at hstep
      split at hstep
      next hcb =>
        cases hstep
        refine ⟨ps, hdone hlive hopen rfl rfl ⟨htold.status, fun _ => hreaped, ?_⟩ hnext (by simp)⟩
        simp [hcb, hcalls]
      next hcb =>
        cases hstep
        refine ⟨ps, hdone hlive hopen rfl rfl ⟨htold.status, fun _ => hreaped, ?_⟩ hnext (by simp)⟩
        simp [hcb, hcalls]
  next => cases hstep

omit [DecidableEq ι] in
theorem Chld.callbackReturned (hc : Chld s hs ps) (hstep : s.callbackReturned = some t) :
    Chld t hs ps := by
  unfold Processes.callbackReturned at hstep
  split at hstep
  next k q hthread =>
    cases hstep
    have hpos := hc.pos
    rw [hthread] at hpos
    exact hc.moved rfl rfl rfl (fun _ => by simp [hthread]) hpos
  next => cases hstep

/-! ### Every careful run -/

omit [DecidableEq ι] in
theorem Init.chld (hs : Init s) : Chld s [] [] := by
  obtain ⟨hring, hthread, hlive⟩ := hs
  have hnot : ∀ h, (s.proc h).live ≠ true := fun h => by simp [hlive h]
  refine ⟨⟨hring, fun habs => absurd hthread habs, fun h hh => absurd hh.1 (hnot h), fun h habs => ?_⟩,
    fun h => ?_, fun h => ?_, ?_, fun h hh => absurd hh (hnot h), fun h habs => ?_,
      fun h habs => ?_⟩
  · cases habs
  · exact iff_of_false (by simp) fun habs => hnot h habs.1
  · exact iff_of_false (by simp) fun habs => hnot h habs.1
  · rw [hthread]
    rfl
  · cases habs
  · cases habs

theorem Chld.step {e : Event ι γ} (hc : Chld s hs ps) (hcareful : Careful s e)
    (hstep : Step s e t) : ∃ hs' ps', Chld t hs' ps' := by
  cases e with
  | spawn h exitCb r =>
    obtain ⟨hs', h'⟩ := hc.uvSpawn hstep
    exact ⟨hs', ps, h'⟩
  | close h => exact hc.uvClose hcareful hstep
  | finishClose h => exact ⟨hs, ps, hc.uvFinishClose hstep⟩
  | exits pid status => exact ⟨hs, ps, hc.childExits hstep⟩
  | sigchld => exact ⟨hs, ps, hc.uvChld hstep⟩
  | reap => exact hc.reapStep hstep
  | deliver =>
    obtain ⟨ps', h'⟩ := hc.deliverStep hstep
    exact ⟨hs, ps', h'⟩
  | returned => exact ⟨hs, ps, hc.callbackReturned hstep⟩

theorem chld_of_reachable (hs : Reachable Init (Guarded Careful Step) s) :
    ∃ hs ps, Chld s hs ps := by
  apply hs.invariant (P := fun s => ∃ hs ps, Chld s hs ps)
  · exact fun s hs => ⟨[], [], hs.chld⟩
  · rintro s e t - ⟨hs', ps', hc⟩ ⟨hcareful, hstep⟩
    exact hc.step hcareful hstep

/-- The handles that a walk over `process_handles` visits. -/
def ProcessHandles (s : Processes ι γ) (xs : List ι) : Prop := s.links.Ring .handles (xs.map .proc)

theorem deliverStep_callback {q : ProcNode ι} (hstep : s.deliverStep = some t)
    (hthread : t.thread = .callback h q) : s.thread = .deliver (.proc h) ∧
      (t.proc h).calls = (s.proc h).calls ++ [exitArgs (s.proc h).status] := by
  unfold deliverStep at hstep
  split at hstep
  · rw [Option.ite_none_right_eq_some] at hstep
    obtain ⟨-, hstep⟩ := hstep
    cases hstep
    cases hthread
  next k hk =>
    dsimp only at hstep
    split at hstep
    · cases hstep
      cases hthread
    · cases hstep
      cases hthread
      exact ⟨hk, by simp⟩
  · cases hstep

/-- In every state of a careful run, `process_handles` holds exactly the processes that were
started, not reaped and not closed, each with a child of its own. A callback begins only for a
handle that is not closed, with the status its process was reaped with. A handle had one callback if
its turn has come, and none before; once `uv__chld` has returned, every process that was reaped has
had its turn unless its handle was closed before. -/
theorem exits_reported (hs : Reachable Init (Guarded Careful Step) s) :
    (∃ xs, ProcessHandles s xs ∧ (∀ h, h ∈ xs ↔ Waiting (s.proc h)) ∧
      ∀ h ∈ xs, ∀ k ∈ xs, (s.proc h).pid = (s.proc k).pid → h = k) ∧
    (∀ h q t, Step s .deliver t → t.thread = .callback h q → (s.proc h).closing = false ∧
      ∃ status, (s.proc h).reaped = some status ∧
        (t.proc h).calls = (s.proc h).calls ++ [exitArgs status]) ∧
    (∀ h, (s.proc h).live = true → (s.proc h).calls =
      if (s.proc h).turned = true ∧ (s.proc h).exitCb.isSome then [exitArgs (s.proc h).status]
      else []) ∧
    (s.thread = .user → ∀ h, (s.proc h).live = true → (s.proc h).closing = false →
      (s.proc h).reaped ≠ none → (s.proc h).turned = true) := by
  obtain ⟨xs, ps, hc⟩ := chld_of_reachable hs
  refine ⟨⟨xs, hc.rings.handles, hc.mem_handles, hc.pids.inj⟩, fun h q t hstep hthread => ?_,
    fun h hlive => (hc.told h hlive).calls, fun hthread h hlive hopen hreaped => ?_⟩
  · obtain ⟨hdeliver, hcalls⟩ := deliverStep_callback hstep hthread
    have hpos := hc.pos
    rw [hdeliver] at hpos
    have hmem : h ∈ ps := by
      cases ps with
      | nil => cases hpos
      | cons k ps =>
        cases hpos
        exact List.mem_cons_self
    obtain ⟨hlive, hopen, hreaped, -⟩ := (hc.mem_pending h).mp hmem
    obtain ⟨status, hstatus⟩ := Option.ne_none_iff_exists'.mp hreaped
    refine ⟨hopen, status, hstatus, ?_⟩
    rw [hcalls, (hc.told h hlive).status status hstatus]
  · rw [← Bool.not_eq_false]
    intro habs
    have hmem := (hc.mem_pending h).mpr ⟨hlive, hopen, hreaped, habs⟩
    have hpos := hc.pos
    rw [hthread] at hpos
    rw [show ps = [] from hpos] at hmem
    cases hmem

/-! ### Concrete runs -/

/-- A loop without processes. -/
def fresh : Processes ℕ Unit where
  links := ⟨id, id⟩
  proc _ := { freshProc none with live := false }
  child _ := .gone
  thread := .user

theorem init_fresh : Init fresh :=
  ⟨⟨nodup_singleton _, rfl, rfl⟩, rfl, fun _ => rfl⟩

/-- Two processes with the numbers 7 and 8 have exited, the first with code 3 and the second by
signal 9. -/
def twoExited : List (Event ℕ Unit) :=
  [.spawn 0 (some ()) (.started 7), .spawn 1 (some ()) (.started 8), .exits 7 768, .exits 8 9,
    .sigchld, .reap, .reap, .reap, .deliver]

/-- The first callback closes its own handle; both callbacks run. -/
theorem exits_reported_two : ∃ s : Processes ℕ Unit, (s.proc 0).calls = [(3, 0)] ∧
    (s.proc 1).calls = [(0, 9)] ∧ ∃ xs, ProcessHandles s xs ∧ ∀ h, h ∈ xs ↔ Waiting (s.proc h) := by
  have hsome : ((twoExited ++ [Event.close 0, .returned, .deliver, .returned, .deliver]).foldlM
      (fun s e => if Careful s e then step s e else none) fresh).isSome = true := by rfl
  obtain ⟨⟨xs, hring, hmem, -⟩, -⟩ := exits_reported
    (.of_foldlM_if (.init init_fresh) (Option.some_get hsome).symm)
  exact ⟨_, by rfl, by rfl, xs, hring, hmem⟩

/-- The first callback closes the other handle, whose callback runs all the same. -/
theorem fetched_reported : ∃ s t : Processes ℕ Unit, Reachable Init Step s ∧
    Step s .deliver t ∧ t.thread = .callback 1 .pending ∧ (s.proc 1).closing = true ∧
      (t.proc 1).calls = [(0, 9)] := by
  have hsome : ((twoExited ++ [Event.close 1, .returned]).foldlM step fresh).isSome = true := by rfl
  have hnext : (((twoExited ++ [Event.close 1, .returned]).foldlM step fresh).get hsome).deliverStep.isSome =
      true := by rfl
  exact ⟨_, _, .of_foldlM (.init init_fresh) (Option.some_get hsome).symm,
    (Option.some_get hnext).symm, by rfl, by rfl, by rfl⟩

end Processes

end LibuvWorks.Unix
