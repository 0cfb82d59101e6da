import LibuvWorks.Win.FsEvent

/-!
# Callbacks that change what is watched

While a watch goes on, either its request is in flight or the callback runs for its records. The
callback may close the handle, and then the loop over the records ends; what else it can do with
the watch is not noticed when it returns.
-/

namespace LibuvWorks.Win

open Transition List Option Nat Bool

theorem WName.free_eq {n : WName} (h : n ≠ .dangling) : n.free = some .null := by
  cases n with
  | null | live chars => rfl
  | dangling => exact absurd rfl h

namespace FsEvent

variable {lower : ℕ → ℕ} {s t : FsEvent} {batch : ℕ} {records : List FileNotify}

theorem flags_and_recursive (s : FsEvent) : s.flags &&& uvFsEventRecursive = 0 := by
  unfold flags uvFsEventRecursive
  cases s.closing <;> cases s.closed <;> cases s.endgameQueued <;> cases s.ref <;>
    cases s.active <;> decide

theorem queueReaddirchanges_eq (hdir : s.dirOpen = true) (hpending : s.reqPending = false) :
    s.uvFsEventQueueReaddirchanges = some (s.submit false) := by
  unfold uvFsEventQueueReaddirchanges
  rw [hdir, hpending, flags_and_recursive]
  rfl

/-! ## Records -/

/-- The handle is fired for everything in a directory, or has both names of a file. -/
inductive Named (s : FsEvent) : Prop
  | dir (pathw : List ℕ) : s.dirw = .live pathw → Named s
  | file (filew shortFilew : List ℕ) :
    s.dirw = .null → s.filew = .live filew → s.shortFilew = .live shortFilew → Named s

theorem Named.fires (h : Named s) (lower : ℕ → ℕ) (record : FileNotify) :
    ∃ fired, s.fires lower record = some fired := by
  unfold FsEvent.fires
  cases h with
  | dir pathw hdirw => exact ⟨true, if_neg (by simp [hdirw])⟩
  | file filew shortFilew hdirw hfilew hshort =>
    simp only [hdirw, hfilew, hshort, WName.read, if_true, bind_eq_bind, bind_some]
    by_cases hsame : fileInfoCmp lower filew record.fileName = true
    · exact ⟨true, if_pos hsame⟩
    · exact ⟨_, if_neg hsame⟩

theorem Named.filenameOf (h : Named s) (record : FileNotify) :
    ∃ filename, s.filenameOf record = some filename := by
  unfold FsEvent.filenameOf
  cases h with
  | dir pathw hdirw =>
    have hne : s.dirw ≠ .null := by simp [hdirw]
    rw [if_neg hne, hdirw]
    cases record.action <;> cases record.longPath <;> exact ⟨_, rfl⟩
  | file filew shortFilew hdirw hfilew _ =>
    rw [if_pos hdirw, hfilew]
    exact ⟨filew, rfl⟩

theorem Named.of_names (h : Named s) (hfilew : t.filew = s.filew)
    (hshort : t.shortFilew = s.shortFilew) (hdirw : t.dirw = s.dirw) : Named t := by
  cases h with
  | dir pathw hdir => exact .dir pathw (hdirw.trans hdir)
  | file filew shortFilew hnull hlong hs =>
    exact .file filew shortFilew (hdirw.trans hnull) (hfilew.trans hlong) (hshort.trans hs)

def misses (lower : ℕ → ℕ) (s : FsEvent) (records : List FileNotify) : Bool :=
  records.all fun record => s.fires lower record == some false

/-- The loop comes to a record that the callback is called for, or to its end. -/
theorem Named.scan (h : Named s) (hclosing : s.closing = false) (lower : ℕ → ℕ) (batch : ℕ) :
    ∀ records, (s.misses lower records = true ∧ s.scan lower batch records = s.finish) ∨
      ∃ rest filename events, s.scan lower batch records =
        some (s.callback ⟨batch, s.buffer, rest⟩ (some filename) events 0)
  | [] => .inl ⟨rfl, rfl⟩
  | record :: rest => by
    obtain ⟨fired, hfired⟩ := h.fires lower record
    obtain ⟨filename, hname⟩ := h.filenameOf record
    cases fired with
    | true =>
      right
      refine ⟨rest, filename, record.action.events, ?_⟩
      simp [FsEvent.scan, hfired, hname]
    | false =>
      have hstep : s.scan lower batch (record :: rest) = s.scan lower batch rest := by
        simp [FsEvent.scan, hfired, hclosing]
      rw [hstep]
      rcases h.scan hclosing lower batch rest with ⟨hmisses, hfinish⟩ | hcall
      · left
        refine ⟨?_, hfinish⟩
        simpa [misses, hfired] using hmisses
      · exact .inr hcall

/-! ## The state of a handle -/

structure Watches (s : FsEvent) : Prop where
  active : s.active = true
  closing : s.closing = false
  dirOpen : s.dirOpen = true
  buffer : s.buffer ≠ none
  named : Named s
  request : s.inFlight = [s.watch] ∨
    s.inFlight = [] ∧ ∃ frame, s.running = some frame ∧ frame.batch = s.watch

structure Runs (s : FsEvent) (frame : EventFrame) : Prop where
  batch : frame.batch ≤ s.watch
  closed : s.closed = false
  request : s.watching = true → frame.batch = s.watch → s.inFlight = []
  buffer : s.watching = true → frame.batch = s.watch → frame.buffer = none ∨ frame.buffer = s.buffer

structure Sound (s : FsEvent) : Prop where
  pending : s.reqPending = true ↔ s.inFlight ≠ []
  single : s.inFlight.length ≤ 1
  filew : s.filew ≠ .dangling
  shortFilew : s.shortFilew ≠ .dangling
  inactive : s.active = false →
    s.filew = .null ∧ s.shortFilew = .null ∧ s.dirw = .null ∧ s.watching = false
  watches : s.watching = true → s.Watches
  running : ∀ frame, s.running = some frame → s.Runs frame
  closing : s.closing = true → s.active = false
  endgameQueued : s.endgameQueued = true ↔
    s.closing = true ∧ s.reqPending = false ∧ s.closed = false
  closed : s.closed = true → s.closing = true ∧ s.reqPending = false
  endgames : s.endgames = if s.closing = true ∧ s.reqPending = false then [false] else []
  calls : ∀ call ∈ s.calls, call.current = some call.batch
  submissions : ∀ x ∈ s.submissions, x.recursive = x.asked ∧ x.pending = false

theorem sound_init : Sound init where
  pending := ⟨nofun, fun habs => absurd rfl habs⟩
  single := Nat.zero_le 1
  filew := nofun
  shortFilew := nofun
  inactive _ := ⟨rfl, rfl, rfl, rfl⟩
  watches := nofun
  running _ := nofun
  closing := nofun
  endgameQueued := ⟨nofun, fun habs => absurd habs.1 nofun⟩
  closed := nofun
  endgames := rfl
  calls _ := nofun
  submissions _ := nofun

theorem Watches.not_closing (hw : s.Watches) : s.closing ≠ true := by
  rw [hw.closing]
  nofun

theorem Sound.closed_eq (hs : Sound s) (hclosing : s.closing = false) : s.closed = false := by
  cases hclosed : s.closed with
  | false => rfl
  | true => exact absurd (hclosing.symm.trans (hs.closed hclosed).1) nofun

theorem Sound.endgames_eq (hs : Sound s) (hclosing : s.closing = false) : s.endgames = [] := by
  have hif : ¬(s.closing = true ∧ s.reqPending = false) :=
    fun habs => absurd (hclosing.symm.trans habs.1) nofun
  rw [hs.endgames, if_neg hif]

def taken (s : FsEvent) : FsEvent :=
  { s with inFlight := [], reqPending := false, running := none }

theorem Sound.callback (hs : Sound s) (hwatching : s.watching = true) {buffer : Option ℕ}
    (hbuffer : buffer = none ∨ buffer = s.buffer) (rest : List FileNotify)
    (filename : Option (List ℕ)) (events : ℕ) (status : ℤ) :
    Sound (s.taken.callback ⟨s.watch, buffer, rest⟩ filename events status) := by
  have hw := hs.watches hwatching
  have hclosed := hs.closed_eq hw.closing
  constructor
  · exact ⟨nofun, fun habs => absurd rfl habs⟩
  · exact Nat.zero_le 1
  · exact hs.filew
  · exact hs.shortFilew
  · exact hs.inactive
  · intro _
    refine { hw with named := ?_, request := .inr ⟨rfl, _, rfl, rfl⟩ }
    exact hw.named.of_names rfl rfl rfl
  · rintro _ ⟨rfl⟩
    exact ⟨Nat.le_refl _, hclosed, fun _ _ => rfl, fun _ _ => hbuffer⟩
  · exact hs.closing
  · refine ⟨fun hqueued => ?_, fun hclosing => ?_⟩
    · exact absurd (hs.endgameQueued.mp hqueued).1 hw.not_closing
    · exact absurd hclosing.1 hw.not_closing
  · exact fun habs => absurd (hclosed.symm.trans habs) nofun
  · exact (hs.endgames_eq hw.closing).trans (if_neg fun habs => hw.not_closing habs.1).symm
  · intro call hcall
    rcases mem_append.mp hcall with hcall | hcall
    · exact hs.calls call hcall
    · rw [mem_singleton.mp hcall]
      exact if_pos hwatching
  · exact hs.submissions

theorem Sound.rearm (hs : Sound s) (hwatching : s.watching = true) (hasked : s.asked = false) :
    ∃ t, s.taken.finish = some t ∧ Sound t := by
  have hw := hs.watches hwatching
  have hfinish : s.taken.finish = some (s.taken.submit false) := by
    unfold finish
    rw [if_pos (show s.taken.closing = false from hw.closing)]
    exact queueReaddirchanges_eq hw.dirOpen rfl
  refine ⟨_, hfinish, ?_⟩
  exact { hs with
    pending := ⟨fun _ => nofun, fun _ => rfl⟩
    single := Nat.le_refl 1
    watches := by
      intro _
      exact { hw with named := hw.named.of_names rfl rfl rfl, request := .inl rfl }
    running := fun _ => nofun
    endgameQueued := by
      refine ⟨fun hqueued => ?_, fun hclosing => ?_⟩
      · exact absurd (hs.endgameQueued.mp hqueued).1 hw.not_closing
      · exact absurd hclosing.1 hw.not_closing
    closed := fun habs => absurd (hs.closed habs).1 hw.not_closing
    endgames := (hs.endgames_eq hw.closing).trans (if_neg fun habs => hw.not_closing habs.1).symm
    submissions := by
      intro x hx
      rcases mem_append.mp hx with hx | hx
      · exact hs.submissions x hx
      · rw [mem_singleton.mp hx]
        exact ⟨hasked.symm, rfl⟩ }

theorem Sound.scan (hs : Sound s) (hwatching : s.watching = true)
    (hasked : s.asked = true → s.misses lower records = false) :
    ∃ t, s.taken.scan lower s.watch records = some t ∧ Sound t := by
  have hw := hs.watches hwatching
  have hnamed : Named s.taken := hw.named.of_names rfl rfl rfl
  rcases hnamed.scan hw.closing lower s.watch records with
    ⟨hmisses, hfinish⟩ | ⟨rest, filename, events, hcall⟩
  · rw [hfinish]
    apply hs.rearm hwatching
    cases h : s.asked with
    | false => rfl
    | true => exact absurd ((hasked h).symm.trans hmisses) nofun
  · exact ⟨_, hcall, hs.callback hwatching (.inr rfl) rest (some filename) events 0⟩

/-! ## Calls by the user -/

theorem Sound.uvFsEventStop (hs : Sound s) (hdirw : s.active = true → s.dirw ≠ .dangling) :
    ∃ t, s.uvFsEventStop = some t ∧ Sound t ∧ t.active = false ∧ t.closing = s.closing := by
  unfold FsEvent.uvFsEventStop
  cases hactive : s.active with
  | false => exact ⟨s, rfl, hs, hactive, rfl⟩
  | true =>
    rw [if_neg nofun, WName.free_eq hs.filew, WName.free_eq hs.shortFilew,
      WName.free_eq (hdirw hactive)]
    refine ⟨_, rfl, ?_, rfl, rfl⟩
    exact { hs with
      filew := nofun
      shortFilew := nofun
      inactive := fun _ => ⟨rfl, rfl, rfl, rfl⟩
      watches := nofun
      running := by
        intro frame hframe
        have hruns := hs.running frame hframe
        exact ⟨hruns.batch, hruns.closed, nofun, nofun⟩
      closing := fun _ => rfl }

def ended (s : FsEvent) : FsEvent :=
  { s with closing := true, active := false, inFlight := [], reqPending := false }

theorem Sound.ended (hs : Sound s) (hactive : s.active = false) (hqueued : s.endgameQueued = false)
    (hclosed : s.closed = false) (hendgames : s.endgames = []) : Sound s.ended.uvWantEndgame := by
  obtain ⟨hfilew, hshort, hdirw, hwatching⟩ := hs.inactive hactive
  have hwant : s.ended.uvWantEndgame =
      { s.ended with endgameQueued := true, endgames := s.endgames ++ [false] } :=
    if_neg (by rw [show s.ended.endgameQueued = false from hqueued]; nofun)
  rw [hwant]
  exact { hs with
    pending := ⟨nofun, fun habs => absurd rfl habs⟩
    single := Nat.zero_le 1
    inactive := fun _ => ⟨hfilew, hshort, hdirw, hwatching⟩
    watches := fun habs => absurd (hwatching.symm.trans habs) nofun
    running := by
      intro frame hframe
      have hruns := hs.running frame hframe
      exact { hruns with request := fun _ _ => rfl }
    closing := fun _ => rfl
    endgameQueued := ⟨fun _ => ⟨rfl, rfl, hclosed⟩, fun _ => rfl⟩
    closed := fun habs => absurd (hclosed.symm.trans habs) nofun
    endgames := by
      change s.endgames ++ [false] = [false]
      rw [hendgames]
      rfl }

theorem Sound.postponed (hs : Sound s) (hactive : s.active = false) (hclosing : s.closing = false)
    (hpending : s.reqPending = true) : Sound { s with closing := true, active := false } := by
  obtain ⟨hfilew, hshort, hdirw, hwatching⟩ := hs.inactive hactive
  have hclosed := hs.closed_eq hclosing
  exact { hs with
    inactive := fun _ => ⟨hfilew, hshort, hdirw, hwatching⟩
    watches := fun habs => absurd (hwatching.symm.trans habs) nofun
    running := by
      intro frame hframe
      have hruns := hs.running frame hframe
      exact { hruns with }
    closing := fun _ => rfl
    endgameQueued := by
      refine ⟨fun hqueued => ?_, fun habs => ?_⟩
      · exact absurd (hclosing.symm.trans (hs.endgameQueued.mp hqueued).1) nofun
      · exact absurd (hpending.symm.trans habs.2.1) nofun
    closed := fun habs => absurd (hclosed.symm.trans habs) nofun
    endgames := by
      apply (hs.endgames_eq hclosing).trans
      have hif : ¬(true = true ∧ s.reqPending = false) :=
        fun habs => absurd (hpending.symm.trans habs.2) nofun
      exact (if_neg hif).symm }

theorem Sound.inFlight_eq (hs : Sound s) (hpending : s.reqPending = false) : s.inFlight = [] := by
  by_contra hne
  exact absurd (hpending.symm.trans (hs.pending.mpr hne)) nofun

theorem Sound.endgameQueued_eq (hs : Sound s) (hclosing : s.closing = false) :
    s.endgameQueued = false := by
  cases hqueued : s.endgameQueued with
  | false => rfl
  | true => exact absurd (hclosing.symm.trans (hs.endgameQueued.mp hqueued).1) nofun

theorem Sound.uvFsEventClose (hs : Sound s) (hclosing : s.closing = false)
    (hdirw : s.active = true → s.dirw ≠ .dangling) :
    ∃ t, s.uvFsEventClose = some t ∧ Sound t := by
  obtain ⟨t, ht, hsound, hactive, hkeeps⟩ := hs.uvFsEventStop hdirw
  rw [hclosing] at hkeeps
  unfold FsEvent.uvFsEventClose
  rw [ht]
  refine ⟨_, rfl, ?_⟩
  by_cases hpending : t.reqPending = true
  · rw [if_pos hpending]
    exact hsound.postponed hactive hkeeps hpending
  · rw [if_neg hpending]
    have hfalse := eq_false_iff.mpr hpending
    have hended : ({ t with closing := true, active := false } : FsEvent) = t.ended := by
      simp only [FsEvent.ended, hfalse, hsound.inFlight_eq hfalse]
    rw [hended]
    exact hsound.ended hactive (hsound.endgameQueued_eq hkeeps) (hsound.closed_eq hkeeps)
      (hsound.endgames_eq hkeeps)

variable {filew shortFilew dirw : WName}

/-- A start that fails leaves the handle active, and for a directory with a string that is freed. -/
theorem Sound.failed (hs : Sound s) (hactive : s.active = false) (hclosing : s.closing = false)
    {dirOpen : Bool} {buffer : Option ℕ} {buffers : ℕ}
    {submissions : List Submission} (hfilew : filew ≠ .dangling) (hshort : shortFilew ≠ .dangling)
    (hsubmissions : ∀ x ∈ submissions, x.recursive = x.asked ∧ x.pending = false) :
    Sound { s with
      active := true
      filew := filew
      shortFilew := shortFilew
      dirw := dirw
      dirOpen := dirOpen
      buffer := buffer
      buffers := buffers
      submissions := submissions } := by
  have hwatching := (hs.inactive hactive).2.2.2
  exact { hs with
    filew := hfilew
    shortFilew := hshort
    inactive := nofun
    watches := fun habs => absurd (hwatching.symm.trans habs) nofun
    running := by
      intro frame hframe
      have hruns := hs.running frame hframe
      refine { hruns with buffer := fun habs => ?_ }
      exact absurd (hwatching.symm.trans habs) nofun
    closing := fun habs => absurd (hclosing.symm.trans habs) nofun
    submissions := hsubmissions }

theorem setNames_eq (s : FsEvent) (o : WatchTarget) : ∃ filew shortFilew dirw,
    s.setNames o = { s with filew := filew, shortFilew := shortFilew, dirw := dirw } ∧
      (s.filew ≠ .dangling → filew ≠ .dangling) ∧
      (s.shortFilew ≠ .dangling → shortFilew ≠ .dangling) ∧
      (s.dirw = .null → ∀ t : FsEvent, t.filew = filew → t.shortFilew = shortFilew →
        t.dirw = dirw → Named t) := by
  cases o with
  | dir pathw =>
    refine ⟨s.filew, s.shortFilew, .live pathw, rfl, id, id, ?_⟩
    exact fun _ t _ _ hdirw => .dir pathw hdirw
  | file filew shortFilew =>
    refine ⟨.live filew, .live shortFilew, s.dirw, rfl, fun _ => nofun, fun _ => nofun, ?_⟩
    exact fun hnull t hfilew hshort hdirw => .file filew shortFilew (hdirw.trans hnull) hfilew hshort

theorem Sound.started (hs : Sound s) (hactive : s.active = false) (hclosing : s.closing = false)
    (hpending : s.reqPending = false) (recursive : Bool)
    {buffer buffers : ℕ} (hfilew : filew ≠ .dangling) (hshort : shortFilew ≠ .dangling)
    (hnamed : ∀ t : FsEvent, t.filew = filew → t.shortFilew = shortFilew → t.dirw = dirw → Named t) :
    Sound ({ s with
      active := true
      dirOpen := true
      filew := filew
      shortFilew := shortFilew
      dirw := dirw
      buffer := some buffer
      buffers := buffers
      watch := s.watch + 1
      asked := recursive
      watching := true }.submit recursive) := by
  have hrequest : s.inFlight ++ [s.watch + 1] = [s.watch + 1] := by
    rw [hs.inFlight_eq hpending]
    rfl
  constructor
  · exact ⟨fun _ => append_ne_nil_of_right_ne_nil _ nofun, fun _ => rfl⟩
  · change (s.inFlight ++ [s.watch + 1]).length ≤ 1
    rw [hrequest]
    exact Nat.le_refl 1
  · exact hfilew
  · exact hshort
  · exact nofun
  · exact fun _ => ⟨rfl, hclosing, rfl, nofun, hnamed _ rfl rfl rfl, .inl hrequest⟩
  · intro frame hframe
    have hruns := hs.running frame hframe
    have hne : frame.batch ≠ s.watch + 1 := Nat.ne_of_lt (lt_succ_of_le hruns.batch)
    exact ⟨le_succ_of_le hruns.batch, hruns.closed, fun _ habs => absurd habs hne,
      fun _ habs => absurd habs hne⟩
  · exact fun habs => absurd (hclosing.symm.trans habs) nofun
  · refine ⟨fun habs => ?_, fun habs => ?_⟩
    · exact absurd ((hs.endgameQueued_eq hclosing).symm.trans habs) nofun
    · exact absurd (hclosing.symm.trans habs.1) nofun
  · exact fun habs => absurd ((hs.closed_eq hclosing).symm.trans habs) nofun
  · have hif : ¬(s.closing = true ∧ true = false) := fun habs => nomatch habs.2
    exact (hs.endgames_eq hclosing).trans (if_neg hif).symm
  · exact hs.calls
  · intro x hx
    rcases mem_append.mp hx with hx | hx
    · exact hs.submissions x hx
    · rw [mem_singleton.mp hx]
      exact ⟨rfl, hpending⟩

def StartOutcome.submits : StartOutcome → Bool
  | .unread _ | .watching _ => true
  | _ => false

theorem Sound.uvFsEventStart (hs : Sound s) (hclosing : s.closing = false) (recursive : Bool)
    (o : StartOutcome)
    (hsubmits : s.active = false → StartOutcome.submits o = true → s.reqPending = false) :
    Sound (s.uvFsEventStart recursive o) := by
  unfold FsEvent.uvFsEventStart
  cases hactive : s.active with
  | true => exact hs
  | false =>
    rw [if_neg nofun]
    cases o with
    | unconverted => exact hs.failed hactive hclosing hs.filew hs.shortFilew hs.submissions
    | unknown => exact hs.failed hactive hclosing nofun nofun hs.submissions
    | unopened o | unbound o =>
      obtain ⟨filew, shortFilew, dirw, hnames, -⟩ := setNames_eq { s with active := true } o
      simp only [hnames]
      exact hs.failed hactive hclosing nofun nofun hs.submissions
    | unread o =>
      obtain ⟨filew, shortFilew, dirw, hnames, -⟩ := setNames_eq { s with active := true } o
      simp only [startBuffer, hnames]
      refine hs.failed hactive hclosing nofun nofun fun x hx => ?_
      rcases mem_append.mp hx with hx | hx
      · exact hs.submissions x hx
      · rw [mem_singleton.mp hx]
        exact ⟨rfl, hsubmits hactive rfl⟩
    | watching o =>
      obtain ⟨filew, shortFilew, dirw, hnames, hfilew, hshort, hnamed⟩ :=
        setNames_eq { s with active := true } o
      simp only [startBuffer, hnames]
      exact hs.started hactive hclosing (hsubmits hactive rfl) recursive (hfilew hs.filew)
        (hshort hs.shortFilew) (hnamed (hs.inactive hactive).2.2.1)

/-! ## Steps of the loop -/

def Changes.missed (lower : ℕ → ℕ) (s : FsEvent) : Changes → Bool
  | .found (record :: rest) => s.misses lower (record :: rest)
  | _ => false

/-- When the request of an active handle is completed, it was made for the watch that goes on. When
the callback returns, its watch goes on, or the handle is closed and makes no request; the loop
keeps its buffer. A watch that is to be recursive does not get to its end. No request is made while
one is pending, and no handle stopped that has lost its directory. -/
def Careful (lower : ℕ → ℕ) (s : FsEvent) : Event → Prop
  | .start _ o => s.active = false → StartOutcome.submits o = true → s.reqPending = false
  | .stop | .close => s.active = true → s.dirw ≠ .dangling
  | .complete r => s.active = true → s.watching = true ∧ s.inFlight = [s.watch] ∧
    (s.asked = true → Changes.missed lower s r = false)
  | .returned => ∀ frame ∈ s.running,
    (s.closing = true ∧ s.reqPending = false ∧ (frame.buffer = none ∨ frame.buffer = s.buffer)) ∨
    (s.watching = true ∧ frame.batch = s.watch ∧ (s.asked = true → s.misses lower frame.rest = false))
  | .setRef _ | .endgame => True

instance : DecidablePred (Careful lower s) := fun e => by
  induction e using Event.casesOn <;> dsimp only [Careful] <;> infer_instance

theorem Sound.ignored (hs : Sound s) (hactive : s.active = false) (hclosing : s.closing = false) :
    Sound s.taken := by
  obtain ⟨hfilew, hshort, hdirw, hwatching⟩ := hs.inactive hactive
  exact { hs with
    pending := ⟨nofun, fun habs => absurd rfl habs⟩
    single := Nat.zero_le 1
    watches := fun habs => absurd (hwatching.symm.trans habs) nofun
    running := fun _ => nofun
    endgameQueued := by
      refine ⟨fun habs => ?_, fun habs => ?_⟩
      · exact absurd ((hs.endgameQueued_eq hclosing).symm.trans habs) nofun
      · exact absurd (hclosing.symm.trans habs.1) nofun
    closed := fun habs => absurd ((hs.closed_eq hclosing).symm.trans habs) nofun
    endgames := by
      have hif : ¬(s.closing = true ∧ false = false) :=
        fun habs => absurd (hclosing.symm.trans habs.1) nofun
      exact (hs.endgames_eq hclosing).trans (if_neg hif).symm }

theorem Sound.processChanges (hs : Sound s) (hrun : s.running = none)
    (hpending : s.reqPending = true) (hflight : s.inFlight = [batch]) (r : Changes)
    (hcareful : Careful lower s (.complete r)) :
    ∃ t, s.taken.processChanges lower batch r = some t ∧ Sound t := by
  unfold FsEvent.processChanges
  by_cases hactive : s.active = false
  · rw [if_pos (show s.taken.active = false from hactive)]
    refine ⟨_, rfl, ?_⟩
    by_cases hclosing : s.closing = true
    · rw [if_pos (show s.taken.closing = true from hclosing)]
      have hqueued : s.endgameQueued = false := by
        rw [eq_false_iff]
        exact fun habs => absurd (hpending.symm.trans (hs.endgameQueued.mp habs).2.1) nofun
      have hclosed : s.closed = false := by
        rw [eq_false_iff]
        exact fun habs => absurd (hpending.symm.trans (hs.closed habs).2) nofun
      have hendgames : s.endgames = [] := by
        have hif : ¬(s.closing = true ∧ s.reqPending = false) :=
          fun habs => absurd (hpending.symm.trans habs.2) nofun
        rw [hs.endgames, if_neg hif]
      have hended : s.taken = s.ended := by
        simp only [taken, FsEvent.ended, hactive, hclosing, hrun]
      rw [hended]
      exact hs.ended hactive hqueued hclosed hendgames
    · rw [if_neg (show ¬s.taken.closing = true from hclosing)]
      exact hs.ignored hactive (eq_false_iff.mpr hclosing)
  · rw [if_neg (show ¬s.taken.active = false from hactive)]
    obtain ⟨hwatching, hwatch, hasked⟩ := hcareful (by simpa using hactive)
    obtain rfl : batch = s.watch := (List.cons.inj (hflight.symm.trans hwatch)).1
    cases r with
    | failed error => exact ⟨_, rfl, hs.callback hwatching (.inl rfl) [] none 0 error⟩
    | found records =>
      cases records with
      | nil => exact ⟨_, rfl, hs.callback hwatching (.inl rfl) [] none _ 0⟩
      | cons record rest =>
        obtain ⟨buffer, hbuffer⟩ := ne_none_iff_exists'.mp (hs.watches hwatching).buffer
        change ∃ t, s.buffer.bind (fun _ => s.taken.scan lower s.watch (record :: rest)) = some t ∧ _
        rw [hbuffer]
        exact hs.scan hwatching hasked

theorem Sound.uvProcessFsEventReq (hs : Sound s) (hrun : s.running = none) (hreq : s.inFlight ≠ [])
    (r : Changes) (hcareful : Careful lower s (.complete r)) :
    ∃ t, s.uvProcessFsEventReq lower r = some t ∧ Sound t := by
  have hpending := hs.pending.mpr hreq
  unfold FsEvent.uvProcessFsEventReq
  cases hflight : s.inFlight with
  | nil => exact absurd hflight hreq
  | cons batch inFlight =>
    have hsingle := hs.single
    rw [hflight] at hsingle
    obtain rfl : inFlight = [] := eq_nil_of_length_eq_zero
      (eq_zero_of_le_zero (le_of_succ_le_succ hsingle))
    have htaken : { s with inFlight := [], reqPending := false } = s.taken := by
      simp only [taken, hrun]
    change ∃ t, (if s.reqPending = false then none
      else { s with inFlight := [], reqPending := false }.processChanges lower batch r) = some t ∧ _
    rw [if_neg (by rw [hpending]; nofun), htaken]
    exact hs.processChanges hrun hpending hflight r hcareful

theorem Sound.callbackReturn (hs : Sound s) (hrun : s.running ≠ none)
    (hcareful : Careful lower s .returned) :
    ∃ t, s.callbackReturn lower = some t ∧ Sound t := by
  obtain ⟨frame, hframe⟩ := ne_none_iff_exists'.mp hrun
  have hruns := hs.running frame hframe
  unfold FsEvent.callbackReturn
  rw [hframe]
  have hreturns : ∀ {o : Option FsEvent}, (frame.buffer = none ∨ frame.buffer = s.buffer) →
      (∃ t, o = some t ∧ Sound t) →
      ∃ t, (if frame.buffer ≠ none ∧ frame.buffer ≠ s.buffer then none else o) = some t ∧
        Sound t := by
    rintro o hbuffer ⟨t, ht⟩
    rw [if_neg fun habs => hbuffer.elim habs.1 habs.2]
    exact ⟨t, ht⟩
  rcases hcareful frame hframe with ⟨hclosing, hpending, hbuffer⟩ | ⟨hwatching, hbatch, hasked⟩
  · -- the handle is closed, and its endgame is queued already
    have hqueued := hs.endgameQueued.mpr ⟨hclosing, hpending, hruns.closed⟩
    apply hreturns hbuffer
    change ∃ t, (if s.closing = true then ({ s with running := none } : FsEvent).finish else _) =
      some t ∧ _
    rw [if_pos hclosing]
    have hfinish : ({ s with running := none } : FsEvent).finish =
        some { s with running := none } := by
      simp [finish, hclosing, uvWantEndgame, hqueued]
    refine ⟨_, hfinish, ?_⟩
    obtain ⟨hfilew, hshort, hdirw, hnot⟩ := hs.inactive (hs.closing hclosing)
    exact { hs with
      watches := fun habs => absurd (hnot.symm.trans habs) nofun
      running := fun _ => nofun }
  · -- the watch goes on
    have hw := hs.watches hwatching
    have hflight := hruns.request hwatching hbatch
    have hpending : s.reqPending = false := by
      rw [eq_false_iff]
      exact fun habs => hs.pending.mp habs hflight
    apply hreturns (hruns.buffer hwatching hbatch)
    have htaken : { s with running := none } = s.taken := by
      simp only [taken, hflight, hpending]
    change ∃ t, (if s.closing = true then _ else
      { s with running := none }.scan lower frame.batch frame.rest) = some t ∧ _
    rw [if_neg hw.not_closing, htaken, hbatch]
    exact hs.scan hwatching hasked

theorem Sound.uvFsEventEndgame (hs : Sound s) (hrun : s.running = none)
    (hqueued : s.endgameQueued = true) : ∃ t, s.uvFsEventEndgame = some t ∧ Sound t := by
  obtain ⟨hclosing, hpending, hclosed⟩ := hs.endgameQueued.mp hqueued
  obtain ⟨hfilew, hshort, hdirw, hwatching⟩ := hs.inactive (hs.closing hclosing)
  have hend : s.uvFsEventEndgame =
      some { s with endgameQueued := false, buffer := none, closed := true } := by
    simp [FsEvent.uvFsEventEndgame, hclosing, hpending, hclosed]
  refine ⟨_, hend, ?_⟩
  exact { hs with
    watches := fun habs => absurd (hwatching.symm.trans habs) nofun
    running := fun frame hframe => absurd (hrun.symm.trans hframe) nofun
    endgameQueued := ⟨nofun, fun habs => absurd habs.2.2 nofun⟩
    closed := fun _ => ⟨hclosing, hpending⟩ }

theorem Sound.next (hs : Sound s) {e : Event} (he : s.Enabled e) (hcareful : Careful lower s e) :
    ∃ t, s.next lower e = some t ∧ Sound t := by
  cases e with
  | start recursive o => exact ⟨_, rfl, hs.uvFsEventStart he recursive o hcareful⟩
  | stop =>
    obtain ⟨t, ht, hsound, -, -⟩ := hs.uvFsEventStop hcareful
    exact ⟨t, ht, hsound⟩
  | close => exact hs.uvFsEventClose he hcareful
  | setRef ref =>
    refine ⟨_, rfl, ?_⟩
    refine { hs with watches := fun hwatching => ?_, running := fun frame hframe => ?_ }
    · have hw := hs.watches hwatching
      refine { hw with named := ?_ }
      exact hw.named.of_names rfl rfl rfl
    · have hruns := hs.running frame hframe
      exact { hruns with }
  | complete r => exact hs.uvProcessFsEventReq he.1 he.2 r hcareful
  | returned => exact hs.callbackReturn he hcareful
  | endgame => exact hs.uvFsEventEndgame he.1 he.2

theorem Sound.of_reachable
    (h : Reachable (· = init) (Guarded (Careful lower) (Step lower)) s) : Sound s := by
  apply h.invariant_of_guarded
  · rintro _ rfl
    exact sound_init
  · exact fun s e hs he hcareful => hs.next he hcareful

/-! ## Whole runs -/

/-- No assertion fails and nothing that was freed is used. A callback is called for a watch that
goes on. A request is made as the caller of `uv_fs_event_start` asked for, and not while it is
pending. The endgame is queued once when the handle is closed, and not while its request is
pending. -/
structure Orderly (lower : ℕ → ℕ) (s : FsEvent) : Prop where
  possible : ∀ e, s.Enabled e → Careful lower s e → (s.next lower e).isSome = true
  calls : ∀ call ∈ s.calls, call.current = some call.batch
  submissions : ∀ x ∈ s.submissions, x.recursive = x.asked ∧ x.pending = false
  endgames : s.endgames = if s.closing = true ∧ s.reqPending = false then [false] else []

theorem uvFsEvent_orderly
    (h : Reachable (· = init) (Guarded (Careful lower) (Step lower)) s) : s.Orderly lower := by
  have hs := Sound.of_reachable h
  refine { hs with possible := fun e he hcareful => ?_ }
  obtain ⟨t, ht, -⟩ := hs.next he hcareful
  rw [ht]
  rfl

/-- A directory is watched, and the handle closed when the first of two changes is told. -/
def closedRun : Option FsEvent :=
  [Event.start false (.watching (.dir [46])), .complete (.found [⟨.added, [97], none⟩]), .returned,
    .complete (.found [⟨.added, [97], none⟩, ⟨.removed, [98], none⟩]), .close, .returned,
    .endgame].foldlM (fun s e => if Careful id s e then s.step id e else none) init

theorem closedRun_isSome : closedRun.isSome = true := by
  rfl

theorem uvFsEvent_orderly_closed : (closedRun.get closedRun_isSome).endgames =
    if (closedRun.get closedRun_isSome).closing = true ∧
      (closedRun.get closedRun_isSome).reqPending = false then [false] else [] := by
  have hrun : Reachable (· = init) (Guarded (Careful id) (Step id))
      (closedRun.get closedRun_isSome) :=
    .of_foldlM_if (.init rfl) (Option.some_get closedRun_isSome).symm
  exact (uvFsEvent_orderly hrun).endgames

def recursiveRun : Option FsEvent :=
  [Event.start true (.watching (.dir [46])), .complete (.found [⟨.added, [97], none⟩]),
    .returned].foldlM (step id) init

theorem recursiveRun_isSome : recursiveRun.isSome = true := by
  rfl

/-- A file is watched, and the callback stops the handle at the first of two records. -/
def stoppedRun : Option FsEvent :=
  [Event.start false (.watching (.file [97] [97])),
    .complete (.found [⟨.added, [97], none⟩, ⟨.removed, [97], none⟩]), .stop].foldlM (step id) init

theorem stoppedRun_isSome : stoppedRun.isSome = true := by
  rfl

/-- After the first change the subdirectories are not watched any more, and the return of a
callback that stopped the handle is not possible. -/
theorem rearm_not_recursive :
    (∃ x ∈ (recursiveRun.get recursiveRun_isSome).submissions, x.recursive ≠ x.asked) ∧
      (stoppedRun.get stoppedRun_isSome).Enabled .returned ∧
      (stoppedRun.get stoppedRun_isSome).next id .returned = none := by
  decide

end FsEvent

end LibuvWorks.Win
