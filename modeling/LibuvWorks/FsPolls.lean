import LibuvWorks.FsPoll

/-!
# The contexts of polling handles

A context that is not freed has either one stat request in flight, or its callback running, or its
timer armed, or its timer closing; only one whose timer is armed needs a handle. From its results it
remembers what the next one is compared with.
-/

namespace LibuvWorks

open List Option Nat
open Function (update update_of_ne update_self)
open Transition

/-! ## What is reported -/

/-- A result differs from the one before it; the first one does if it is an error. -/
def StatResult.differs : Option StatResult → StatResult → Bool
  | none, .failed _ => true
  | none, .found _ => false
  | some (.failed old), .failed error => old ≠ error
  | some (.failed _), .found _ => true
  | some (.found _), .failed _ => true
  | some (.found old), .found statbuf => !statbufEq old statbuf

/-- What is said of a result, when `prev` was the last status found. -/
def StatResult.toReport (prev : UvStat) : StatResult → PollReport
  | .failed error => ⟨error, prev, zeroStatbuf⟩
  | .found statbuf => ⟨0, prev, statbuf⟩

/-- The last status found, where the last result comes first. -/
def lastFound : List StatResult → UvStat
  | [] => zeroStatbuf
  | .failed _ :: past => lastFound past
  | .found statbuf :: _ => statbuf

/-- The reports on results, of which the last one comes first: one on each that differs from the
one before it. -/
def reportsOf : List StatResult → List PollReport
  | [] => []
  | r :: past =>
    reportsOf past ++ if StatResult.differs past.head? r then [r.toReport (lastFound past)] else []

namespace PollCtx

variable {ι : Type*} {x : PollCtx ι} {past : List StatResult} {r : StatResult}

/-- `busy_polling` tells the last result. -/
def Matches : Option StatResult → ℤ → Prop
  | none, busy => busy = 0
  | some (.failed error), busy => busy = error ∧ error < 0
  | some (.found _), busy => busy = 1

structure Knows (x : PollCtx ι) (past : List StatResult) : Prop where
  busy : Matches past.head? x.busyPolling
  statbuf : x.statbuf = lastFound past

theorem Knows.report_eq (h : x.Knows past) (hr : r.Legit) :
    x.report r =
      if StatResult.differs past.head? r then some (r.toReport (lastFound past)) else none := by
  have hbusy := h.busy
  rw [← h.statbuf]
  cases past with
  | nil =>
    have hzero : x.busyPolling = 0 := hbusy
    cases r with
    | failed error =>
      have hneg : error < 0 := hr
      have herror : (0 : ℤ) ≠ error := by omega
      simp only [report, hzero, if_pos herror]
      rfl
    | found statbuf =>
      simp only [report, hzero]
      rfl
  | cons old past =>
    cases old with
    | failed old =>
      obtain ⟨hold, hneg⟩ := hbusy
      cases r with
      | failed error => simp [report, hold, StatResult.differs, StatResult.toReport]
      | found statbuf =>
        have hne : old ≠ 0 := by omega
        simp [report, hold, StatResult.differs, StatResult.toReport, hne, hneg]
    | found old =>
      have hone : x.busyPolling = 1 := hbusy
      have hstatbuf : x.statbuf = old := h.statbuf
      cases r with
      | failed error =>
        have hne : (1 : ℤ) ≠ error := by
          have hneg : error < 0 := hr
          omega
        simp [report, hone, StatResult.differs, StatResult.toReport, hne]
      | found statbuf =>
        simp [report, hone, hstatbuf, StatResult.differs, StatResult.toReport]

theorem Knows.keep (h : x.Knows past) (hr : r.Legit) : (x.keep r).Knows (r :: past) := by
  cases r with
  | failed error => exact ⟨⟨rfl, hr⟩, h.statbuf⟩
  | found statbuf => exact ⟨rfl, rfl⟩

@[simp] theorem keep_parentHandle (x : PollCtx ι) (r : StatResult) :
    (x.keep r).parentHandle = x.parentHandle := by cases r <;> rfl

@[simp] theorem keep_interval (x : PollCtx ι) (r : StatResult) :
    (x.keep r).interval = x.interval := by cases r <;> rfl

@[simp] theorem keep_timer (x : PollCtx ι) (r : StatResult) : (x.keep r).timer = x.timer := by
  cases r <;> rfl

@[simp] theorem keep_stats (x : PollCtx ι) (r : StatResult) : (x.keep r).stats = x.stats := by
  cases r <;> rfl

@[simp] theorem keep_freed (x : PollCtx ι) (r : StatResult) : (x.keep r).freed = x.freed := by
  cases r <;> rfl

@[simp] theorem keep_seen (x : PollCtx ι) (r : StatResult) : (x.keep r).seen = x.seen := by
  cases r <;> rfl

@[simp] theorem keep_reports (x : PollCtx ι) (r : StatResult) :
    (x.keep r).reports = x.reports := by cases r <;> rfl

/-- A context knows the results that it has dealt with; `answer` is the one that its callback runs
for. -/
structure Remembers (x : PollCtx ι) (answer : Option StatResult) (past : List StatResult) :
    Prop where
  seen : x.seen = answer.toList ++ past
  legit : ∀ r ∈ x.seen, r.Legit
  knows : x.Knows past
  reports : x.reports = reportsOf x.seen

inductive Stage (x : PollCtx ι) : Option StatResult → Prop
  | asking : x.stats = 1 → x.timer = .inactive → x.freed = 0 → Stage x none
  | calling (r : StatResult) :
    x.stats = 0 → x.timer = .inactive → x.freed = 0 → Stage x (some r)
  | waiting (delay : ℕ) : x.stats = 0 → x.timer = .armed delay → x.freed = 0 →
    x.parentHandle ≠ none → 1 ≤ delay → delay ≤ x.interval → Stage x none
  | closing : x.stats = 0 → x.timer = .closing → x.freed = 0 → x.parentHandle = none → Stage x none
  | closed : x.stats = 0 → x.timer = .closed → x.freed = 1 → x.parentHandle = none → Stage x none

namespace Stage

variable {answer : Option StatResult}

theorem freed_eq (h : Stage x answer) (hparent : x.parentHandle ≠ none) : x.freed = 0 := by
  cases h with
  | asking _ _ hfreed | calling _ _ _ hfreed | waiting _ _ _ hfreed | closing _ _ hfreed =>
    exact hfreed
  | closed _ _ _ hnone => exact absurd hnone hparent

theorem closeArmed (h : Stage x answer) (harmed : x.timer.isArmed = true) :
    ({ x with parentHandle := none, timer := .closing } : PollCtx ι).Stage answer ∧
      ∃ delay, x.timer = .armed delay := by
  cases h with
  | waiting delay hstats htimer hfreed =>
    exact ⟨.closing hstats rfl hfreed rfl, delay, htimer⟩
  | asking _ htimer | calling _ _ htimer | closing _ htimer | closed _ htimer =>
    simp [htimer, PollTimer.isArmed] at harmed

theorem letGo (h : Stage x answer) (harmed : ¬ x.timer.isArmed = true) :
    ({ x with parentHandle := none } : PollCtx ι).Stage answer := by
  cases h with
  | asking hstats htimer hfreed => exact .asking hstats htimer hfreed
  | calling r hstats htimer hfreed => exact .calling r hstats htimer hfreed
  | waiting _ _ htimer => simp [htimer, PollTimer.isArmed] at harmed
  | closing hstats htimer hfreed => exact .closing hstats htimer hfreed rfl
  | closed hstats htimer hfreed => exact .closed hstats htimer hfreed rfl

end Stage

end PollCtx

namespace FsPoll

variable {ι : Type*} [DecidableEq ι] {s t : FsPoll ι} {c : ℕ} {h : ι} {r : StatResult}
  {x : PollCtx ι}

def answerOf (running : Option (ℕ × StatResult)) (c : ℕ) : Option StatResult :=
  running.bind fun p => if p.1 = c then some p.2 else none

theorem answerOf_self (c : ℕ) (r : StatResult) : answerOf (some (c, r)) c = some r := if_pos rfl

theorem answerOf_other {c d : ℕ} (r : StatResult) (hne : c ≠ d) : answerOf (some (c, r)) d = none :=
  if_neg hne

end FsPoll

def PollNote.concerns {ι : Type*} [DecidableEq ι] (h : ι) : PollNote ι → Bool
  | .started i _ | .ended i => i = h
  | .called _ _ => false

/-- When a callback was called, the last start or end of its handle was the start of its context. -/
def Timely {ι : Type*} [DecidableEq ι] (log : List (PollNote ι)) : Prop :=
  ∀ h c rest, PollNote.called h c :: rest <:+ log →
    rest.find? (PollNote.concerns h) = some (.started h c)

theorem Timely.called {ι : Type*} [DecidableEq ι] {log : List (PollNote ι)} {h : ι} {c : ℕ}
    (hlog : Timely log) (hcur : log.find? (PollNote.concerns h) = some (.started h c)) :
    Timely (.called h c :: log) := by
  intro i d rest hsuffix
  rcases suffix_cons_iff.mp hsuffix with heq | hsuffix
  · cases heq
    exact hcur
  · exact hlog i d rest hsuffix

theorem Timely.cons {ι : Type*} [DecidableEq ι] {log : List (PollNote ι)} {n : PollNote ι}
    (hlog : Timely log) (hn : ∀ h c, n ≠ .called h c) : Timely (n :: log) := by
  intro i d rest hsuffix
  rcases suffix_cons_iff.mp hsuffix with heq | hsuffix
  · exact absurd (List.cons.inj heq).1.symm (hn i d)
  · exact hlog i d rest hsuffix

namespace FsPoll

variable {ι : Type*} [DecidableEq ι] {s t : FsPoll ι} {c : ℕ} {h : ι} {r : StatResult}
  {x : PollCtx ι}

structure Sound (s : FsPoll ι) : Prop where
  positive : ∀ c < s.created, 0 < (s.ctx c).interval
  stages : ∀ c < s.created, (s.ctx c).Stage (answerOf s.running c)
  remembers : ∀ c < s.created, ∃ past, (s.ctx c).Remembers (answerOf s.running c) past
  running : ∀ c r, answerOf s.running c = some r → c < s.created
  owner : ∀ c < s.created, ∀ h, (s.ctx c).parentHandle = some h ↔ s.pollCtx h = some c
  bound : ∀ h c, s.pollCtx h = some c → c < s.created
  active : ∀ h, s.active h = true ↔ s.pollCtx h ≠ none
  current : ∀ h c, s.pollCtx h = some c ↔
    s.log.find? (PollNote.concerns h) = some (.started h c)
  timely : Timely s.log

omit [DecidableEq ι] in
theorem read_eq (hc : c < s.created) (hfreed : (s.ctx c).freed = 0) : s.read c = some (s.ctx c) :=
  if_pos ⟨hc, hfreed⟩

theorem Sound.put (hs : Sound s) (hc : c < s.created) (running : Option (ℕ × StatResult))
    (log : List (PollNote ι)) (past : List StatResult)
    (hinterval : x.interval = (s.ctx c).interval)
    (hparent : x.parentHandle = (s.ctx c).parentHandle)
    (hothers : ∀ d ≠ c, answerOf running d = answerOf s.running d)
    (hstage : x.Stage (answerOf running c)) (hpast : x.Remembers (answerOf running c) past)
    (hlog : ∀ h, log.find? (PollNote.concerns h) = s.log.find? (PollNote.concerns h))
    (htimely : Timely log) :
    Sound { s.setCtx c x with running := running, log := log } := by
  have hself : update s.ctx c x c = x := update_self ..
  have hother : ∀ d, d ≠ c → update s.ctx c x d = s.ctx d :=
    fun d hd => update_of_ne hd ..
  constructor
  · intro d hd
    by_cases hdc : d = c
    · subst hdc
      simp only [setCtx, hself, hinterval]
      exact hs.positive d hd
    · simp only [setCtx, hother d hdc]
      exact hs.positive d hd
  · intro d hd
    by_cases hdc : d = c
    · subst hdc
      simpa only [setCtx, hself] using hstage
    · simp only [setCtx, hother d hdc, hothers d hdc]
      exact hs.stages d hd
  · intro d hd
    by_cases hdc : d = c
    · subst hdc
      simp only [setCtx, hself]
      exact ⟨past, hpast⟩
    · simp only [setCtx, hother d hdc, hothers d hdc]
      exact hs.remembers d hd
  · intro d r hanswer
    by_cases hdc : d = c
    · exact hdc ▸ hc
    · exact hs.running d r ((hothers d hdc).symm.trans hanswer)
  · intro d hd i
    by_cases hdc : d = c
    · subst hdc
      simp only [setCtx, hself, hparent]
      exact hs.owner d hd i
    · simp only [setCtx, hother d hdc]
      exact hs.owner d hd i
  · exact hs.bound
  · exact hs.active
  · intro i d
    rw [hlog i]
    exact hs.current i d
  · exact htimely

/-- The timer of a context that goes on, or its close; the context is not running any more. -/
theorem Sound.out (hs : Sound s) (hc : c < s.created) (past : List StatResult)
    (hothers : ∀ d ≠ c, answerOf s.running d = none)
    (hinterval : x.interval = (s.ctx c).interval)
    (hparent : x.parentHandle = (s.ctx c).parentHandle) (hstats : x.stats = 0)
    (htimer : x.timer = .inactive) (hfreed : x.freed = 0) (hpast : x.Remembers none past) :
    ∃ t, { s with running := none }.out c x = some t ∧ Sound t := by
  have hpos := hs.positive c hc
  rw [← hinterval] at hpos
  unfold FsPoll.out
  split_ifs with hnone
  · rw [closeTimer, htimer]
    refine ⟨_, rfl, ?_⟩
    apply hs.put hc none s.log past
    · exact hinterval
    · exact hparent
    · exact fun d hd => (hothers d hd).symm
    · exact .closing hstats rfl hfreed hnone
    · exact { hpast with knows := { hpast.knows with } }
    · exact fun _ => rfl
    · exact hs.timely
  · rw [htimer]
    refine ⟨_, rfl, ?_⟩
    have hmod := mod_lt ((s.now + 2 ^ 64 - x.startTime) % 2 ^ 64) hpos
    apply hs.put hc none s.log past
    · exact hinterval
    · exact hparent
    · exact fun d hd => (hothers d hd).symm
    · exact .waiting _ hstats rfl hfreed hnone (Nat.sub_pos_of_lt hmod) (sub_le ..)
    · exact { hpast with knows := { hpast.knows with } }
    · exact fun _ => rfl
    · exact hs.timely

theorem Sound.pollCb (hs : Sound s) (hrun : s.running = none) (hc : c < s.created)
    (hstats : 0 < (s.ctx c).stats) (hr : r.Legit) : ∃ t, s.pollCb c r = some t ∧ Sound t := by
  have hnone : ∀ d, answerOf s.running d = none := by
    intro d
    rw [hrun]
    rfl
  have hstage := hs.stages c hc
  obtain ⟨past, hpast⟩ := hs.remembers c hc
  rw [hnone] at hstage hpast
  cases hstage with
  | asking hone htimer hfreed =>
    unfold FsPoll.pollCb
    rw [read_eq hc hfreed]
    dsimp only [bind_eq_bind, bind_some]
    have hzero : (s.ctx c).stats - 1 = 0 := by rw [hone]
    cases hparent : (s.ctx c).parentHandle with
    | none =>
      simp only [closeTimer, htimer]
      refine ⟨_, rfl, ?_⟩
      apply hs.put hc s.running s.log past
      · rfl
      · exact hparent.symm
      · exact fun _ _ => rfl
      · rw [hnone]
        exact .closing hzero rfl hfreed rfl
      · rw [hnone]
        exact { hpast with knows := { hpast.knows with } }
      · exact fun _ => rfl
      · exact hs.timely
    | some h =>
      have hreport := hpast.knows.report_eq hr
      have hseen : (s.ctx c).seen = past := hpast.seen
      have hlegit : ∀ q ∈ r :: past, q.Legit := by
        rintro q (_ | ⟨_, hq⟩)
        · exact hr
        · exact hpast.legit q (hseen ▸ hq)
      have hreports := hpast.reports
      have hothers : ∀ d ≠ c, answerOf (some (c, r)) d = answerOf s.running d := by
        intro d hd
        rw [hnone, answerOf_other r hd.symm]
      unfold PollCtx.report at hreport ⊢
      rw [hreport]
      by_cases hdiffers : StatResult.differs past.head? r = true
      · -- the callback is called
        rw [if_pos hdiffers]
        refine ⟨_, rfl, ?_⟩
        apply hs.put hc (some (c, r)) (.called h c :: s.log) past
        · rfl
        · exact hparent.symm
        · exact hothers
        · rw [answerOf_self]
          exact .calling r hzero htimer hfreed
        · rw [answerOf_self]
          refine ⟨?_, ?_, { hpast.knows with }, ?_⟩
          · exact congrArg (r :: ·) hseen
          · rw [← hseen] at hlegit
            exact hlegit
          · rw [hreports, hseen, reportsOf, if_pos hdiffers]
        · exact fun _ => rfl
        · exact hs.timely.called ((hs.current h c).mp ((hs.owner c hc h).mp hparent))
      · -- nothing is said
        rw [if_neg hdiffers]
        have hidle : { s with running := none } = s := by rw [← hrun]
        rw [← hidle]
        apply hs.out hc (r :: past)
        · exact fun d _ => hnone d
        · rw [PollCtx.keep_interval]
        · rw [PollCtx.keep_parentHandle]
          exact hparent.symm
        · rw [PollCtx.keep_stats]
          exact hzero
        · rw [PollCtx.keep_timer]
          exact htimer
        · rw [PollCtx.keep_freed]
          exact hfreed
        · refine ⟨?_, ?_, PollCtx.Knows.keep { hpast.knows with } hr, ?_⟩
          · rw [PollCtx.keep_seen]
            exact congrArg (r :: ·) hseen
          · rw [PollCtx.keep_seen]
            rw [← hseen] at hlegit
            exact hlegit
          · rw [PollCtx.keep_seen, PollCtx.keep_reports]
            rw [hreports, hseen, reportsOf, if_neg hdiffers, append_nil]
  | waiting _ hzero | closing hzero | closed hzero => omega

theorem Sound.pollCbReturn (hs : Sound s) (hrun : s.running ≠ none) :
    ∃ t, s.pollCbReturn = some t ∧ Sound t := by
  obtain ⟨⟨c, r⟩, hrun⟩ := ne_none_iff_exists'.mp hrun
  have hanswer : answerOf s.running c = some r := by rw [hrun, answerOf_self]
  have hc := hs.running c r hanswer
  have hstage := hs.stages c hc
  obtain ⟨past, hpast⟩ := hs.remembers c hc
  rw [hanswer] at hstage hpast
  cases hstage with
  | calling _ hstats htimer hfreed =>
    have hseen : (s.ctx c).seen = r :: past := hpast.seen
    rw [FsPoll.pollCbReturn, hrun]
    change ∃ t, (s.read c).bind _ = some t ∧ Sound t
    rw [read_eq hc hfreed]
    apply hs.out hc (r :: past)
    · intro d hd
      rw [hrun, answerOf_other r hd.symm]
    · rw [PollCtx.keep_interval]
    · rw [PollCtx.keep_parentHandle]
    · rwa [PollCtx.keep_stats]
    · rwa [PollCtx.keep_timer]
    · rwa [PollCtx.keep_freed]
    · constructor
      · rw [PollCtx.keep_seen]
        exact hseen
      · rw [PollCtx.keep_seen]
        exact hpast.legit
      · apply hpast.knows.keep
        apply hpast.legit
        rw [hseen]
        exact mem_cons_self
      · rw [PollCtx.keep_seen, PollCtx.keep_reports]
        exact hpast.reports

theorem Sound.timerCb (hs : Sound s) (hrun : s.running = none) (hc : c < s.created)
    (harmed : (s.ctx c).timer.isArmed = true) : ∃ t, s.timerCb c = some t ∧ Sound t := by
  have hnone : answerOf s.running c = none := by
    rw [hrun]
    rfl
  have hstage := hs.stages c hc
  obtain ⟨past, hpast⟩ := hs.remembers c hc
  rw [hnone] at hstage hpast
  cases hstage with
  | waiting delay hstats _ hfreed hparent =>
    obtain ⟨h, hparent⟩ := ne_none_iff_exists'.mp hparent
    have howner := (hs.owner c hc h).mp hparent
    unfold FsPoll.timerCb
    rw [read_eq hc hfreed]
    change ∃ t, (s.ctx c).parentHandle.bind _ = some t ∧ Sound t
    rw [hparent, bind_some, if_neg (not_not.mpr howner)]
    refine ⟨_, rfl, ?_⟩
    apply hs.put hc s.running s.log past
    · rfl
    · exact hparent.symm
    · exact fun _ _ => rfl
    · rw [hnone]
      exact .asking (congrArg (· + 1) hstats) rfl hfreed
    · rw [hnone]
      exact { hpast with knows := { hpast.knows with } }
    · exact fun _ => rfl
    · exact hs.timely
  | asking _ htimer | closing _ htimer | closed _ htimer =>
    simp [htimer, PollTimer.isArmed] at harmed

theorem Sound.timerCloseCb (hs : Sound s) (hrun : s.running = none) (hc : c < s.created)
    (hclosing : (s.ctx c).timer = .closing) : ∃ t, s.timerCloseCb c = some t ∧ Sound t := by
  have hnone : answerOf s.running c = none := by
    rw [hrun]
    rfl
  have hstage := hs.stages c hc
  obtain ⟨past, hpast⟩ := hs.remembers c hc
  rw [hnone] at hstage hpast
  cases hstage with
  | closing hstats _ hfreed hparent =>
    unfold FsPoll.timerCloseCb
    rw [read_eq hc hfreed]
    change ∃ t, (if (s.ctx c).timer = .closing then _ else _) = some t ∧ Sound t
    rw [if_pos hclosing]
    refine ⟨_, rfl, ?_⟩
    apply hs.put hc s.running s.log past
    · rfl
    · rfl
    · exact fun _ _ => rfl
    · rw [hnone]
      exact .closed hstats rfl (congrArg (· + 1) hfreed) hparent
    · rw [hnone]
      exact { hpast with knows := { hpast.knows with } }
    · exact fun _ => rfl
    · exact hs.timely
  | asking _ htimer | waiting _ _ htimer | closed _ htimer => cases hclosing.symm.trans htimer

theorem Sound.letGo (hs : Sound s) (howner : s.pollCtx h = some c) (past : List StatResult)
    (hinterval : x.interval = (s.ctx c).interval) (hparent : x.parentHandle = none)
    (hstage : x.Stage (answerOf s.running c)) (hpast : x.Remembers (answerOf s.running c) past) :
    Sound { s.setCtx c x with
      pollCtx := update s.pollCtx h none
      active := update s.active h false
      log := .ended h :: s.log } := by
  have hself : update s.ctx c x c = x := update_self ..
  have hother : ∀ d, d ≠ c → update s.ctx c x d = s.ctx d :=
    fun d hd => update_of_ne hd ..
  constructor
  · intro d hd
    by_cases hdc : d = c
    · subst hdc
      simp only [setCtx, hself, hinterval]
      exact hs.positive d hd
    · simp only [setCtx, hother d hdc]
      exact hs.positive d hd
  · intro d hd
    by_cases hdc : d = c
    · subst hdc
      simpa only [setCtx, hself] using hstage
    · simp only [setCtx, hother d hdc]
      exact hs.stages d hd
  · intro d hd
    by_cases hdc : d = c
    · subst hdc
      simp only [setCtx, hself]
      exact ⟨past, hpast⟩
    · simp only [setCtx, hother d hdc]
      exact hs.remembers d hd
  · exact hs.running
  · intro d hd i
    by_cases hih : i = h
    · subst hih
      simp only [setCtx, update_self, reduceCtorEq, iff_false]
      by_cases hdc : d = c
      · rw [hdc, hself, hparent]
        exact nofun
      · rw [hother d hdc, hs.owner d hd i, howner]
        exact fun habs => hdc (Option.some.inj habs).symm
    · simp only [setCtx, update_of_ne hih]
      by_cases hdc : d = c
      · subst hdc
        rw [hself, hparent, ← hs.owner d hd i, (hs.owner d hd h).mpr howner]
        constructor
        · exact nofun
        · exact fun habs => absurd (Option.some.inj habs).symm hih
      · rw [hother d hdc]
        exact hs.owner d hd i
  · intro i d hd
    by_cases hih : i = h
    · subst hih
      simp only [update_self, reduceCtorEq] at hd
    · simp only [update_of_ne hih] at hd
      exact hs.bound i d hd
  · intro i
    by_cases hih : i = h
    · subst hih
      simp only [update_self, reduceCtorEq, ne_eq, not_true_eq_false]
    · simp only [update_of_ne hih]
      exact hs.active i
  · intro i d
    by_cases hih : i = h
    · subst hih
      have hconcerns : PollNote.concerns i (.ended i) = true := decide_eq_true rfl
      simp only [update_self, List.find?_cons_of_pos hconcerns, Option.some.injEq,
        reduceCtorEq]
    · have hconcerns : PollNote.concerns i (.ended h) ≠ true := by
        simpa [PollNote.concerns] using Ne.symm hih
      simp only [update_of_ne hih, List.find?_cons_of_neg hconcerns]
      exact hs.current i d
  · exact hs.timely.cons nofun

theorem Sound.ended (hs : Sound s) (hidle : s.pollCtx h = none) :
    Sound { s with log := .ended h :: s.log } := by
  refine { hs with current := ?_, timely := hs.timely.cons nofun }
  intro i d
  by_cases hih : i = h
  · subst hih
    have hconcerns : PollNote.concerns i (.ended i) = true := decide_eq_true rfl
    simp only [hidle, List.find?_cons_of_pos hconcerns, Option.some.injEq, reduceCtorEq]
  · have hconcerns : PollNote.concerns i (.ended h) ≠ true := by
      simpa [PollNote.concerns] using Ne.symm hih
    rw [List.find?_cons_of_neg hconcerns]
    exact hs.current i d

theorem Sound.uvFsPollStop (hs : Sound s) (h : ι) : ∃ t, s.uvFsPollStop h = some t ∧ Sound t := by
  unfold FsPoll.uvFsPollStop
  cases hpoll : s.pollCtx h with
  | none =>
    have hidle : s.active h = false := by
      apply eq_false_of_ne_true
      exact fun habs => (hs.active h).mp habs hpoll
    rw [if_pos hidle]
    exact ⟨_, rfl, hs.ended hpoll⟩
  | some c =>
    have hactive : ¬ s.active h = false := by
      rw [(hs.active h).mpr (by rw [hpoll]; exact nofun)]
      exact nofun
    have hc := hs.bound h c hpoll
    have hparent := (hs.owner c hc h).mpr hpoll
    obtain ⟨past, hpast⟩ := hs.remembers c hc
    have hstage := hs.stages c hc
    have hsome : ¬ (s.ctx c).parentHandle = none := by
      rw [hparent]
      exact nofun
    have hread : ({ s with log := .ended h :: s.log } : FsPoll ι).read c = some (s.ctx c) :=
      read_eq hc (hstage.freed_eq hsome)
    rw [if_neg hactive]
    simp only [hpoll, bind_some, hread, if_neg hsome]
    split
    · next harmed =>
      obtain ⟨hclosing, delay, htimer⟩ := hstage.closeArmed harmed
      simp only [closeTimer, htimer]
      refine ⟨_, rfl, ?_⟩
      let x : PollCtx ι := { s.ctx c with parentHandle := none, timer := .closing }
      have hremembers : x.Remembers (answerOf s.running c) past :=
        { hpast with knows := { hpast.knows with } }
      have hgone := hs.letGo (x := x) hpoll past rfl rfl hclosing hremembers
      simpa only [setCtx, Function.update_idem] using hgone
    · next harmed =>
      let x : PollCtx ι := { s.ctx c with parentHandle := none }
      have hremembers : x.Remembers (answerOf s.running c) past :=
        { hpast with knows := { hpast.knows with } }
      exact ⟨_, rfl, hs.letGo (x := x) hpoll past rfl rfl (hstage.letGo harmed) hremembers⟩

theorem Sound.uvFsPollStart (hs : Sound s) (cb interval : ℕ) {allocated : Bool} {err : ℤ}
    (herr : s.active h = false → allocated = true → 0 ≤ err) :
    Sound (s.uvFsPollStart h cb interval allocated err) := by
  unfold FsPoll.uvFsPollStart
  split
  · exact hs
  next hidle =>
  split
  · exact hs
  next hallocated =>
  rw [Bool.not_eq_true] at hidle
  rw [Bool.not_eq_false] at hallocated
  have hpoll : s.pollCtx h = none := by
    by_contra hne
    rw [(hs.active h).mpr hne] at hidle
    cases hidle
  have hnot : ¬ err < 0 := by
    have hpos := herr hidle hallocated
    omega
  simp only [if_neg hnot]
  have hold : ∀ d < s.created, ∀ x : PollCtx ι,
      update s.ctx s.created x d = s.ctx d :=
    fun d hd x => update_of_ne (Nat.ne_of_lt hd) ..
  have hquiet : answerOf s.running s.created = none := by
    cases hanswer : answerOf s.running s.created with
    | none => rfl
    | some r => exact absurd (hs.running _ r hanswer) (Nat.lt_irrefl _)
  have hcases : ∀ d < s.created + 1, d < s.created ∨ d = s.created :=
    fun d hd => Nat.lt_succ_iff_lt_or_eq.mp hd
  constructor
  · intro d hd
    rcases hcases d hd with hd | rfl
    · simp only [setCtx, hold d hd]
      exact hs.positive d hd
    · simp only [setCtx, update_self]
      split <;> omega
  · intro d hd
    rcases hcases d hd with hd | rfl
    · simp only [setCtx, hold d hd]
      exact hs.stages d hd
    · simp only [setCtx, update_self, hquiet]
      exact .asking rfl rfl rfl
  · intro d hd
    rcases hcases d hd with hd | rfl
    · simp only [setCtx, hold d hd]
      exact hs.remembers d hd
    · simp only [setCtx, update_self, hquiet]
      exact ⟨[], rfl, fun _ habs => absurd habs not_mem_nil, ⟨rfl, rfl⟩, rfl⟩
  · exact fun d r hanswer => lt_succ_of_lt (hs.running d r hanswer)
  · intro d hlt i
    rcases hcases d hlt with hd | rfl
    · simp only [setCtx, hold d hd]
      by_cases hih : i = h
      · subst hih
        rw [hs.owner d hd i, hpoll]
        simp [(Nat.ne_of_lt hd).symm]
      · rw [update_of_ne hih]
        exact hs.owner d hd i
    · simp only [setCtx, update_self]
      by_cases hih : i = h
      · subst hih
        simp only [update_self]
      · rw [update_of_ne hih]
        constructor
        · exact fun habs => absurd (Option.some.inj habs).symm hih
        · exact fun habs => absurd (hs.bound i _ habs) (Nat.lt_irrefl _)
  · intro i d hd
    by_cases hih : i = h
    · subst hih
      simp only [update_self, Option.some.injEq] at hd
      exact hd ▸ lt_succ_self _
    · simp only [update_of_ne hih] at hd
      exact lt_succ_of_lt (hs.bound i d hd)
  · intro i
    by_cases hih : i = h
    · subst hih
      simp
    · simp only [update_of_ne hih]
      exact hs.active i
  · intro i d
    by_cases hih : i = h
    · subst hih
      have hconcerns : PollNote.concerns i (.started i s.created) = true := decide_eq_true rfl
      simp only [update_self, List.find?_cons_of_pos hconcerns, Option.some.injEq,
        PollNote.started.injEq, true_and]
    · have hconcerns : PollNote.concerns i (.started h s.created) ≠ true := by
        simpa [PollNote.concerns] using Ne.symm hih
      simp only [update_of_ne hih, List.find?_cons_of_neg hconcerns]
      exact hs.current i d
  · exact hs.timely.cons nofun

theorem sound_init (junk : ℕ → PollCtx ι) : Sound (init junk) where
  positive c hc := absurd hc (Nat.not_lt_zero c)
  stages c hc := absurd hc (Nat.not_lt_zero c)
  remembers c hc := absurd hc (Nat.not_lt_zero c)
  running := fun _ _ => nofun
  owner c hc := absurd hc (Nat.not_lt_zero c)
  bound := fun _ _ => nofun
  active := fun _ => ⟨nofun, fun habs => absurd rfl habs⟩
  current := fun _ _ => ⟨nofun, nofun⟩
  timely := by
    intro h c rest hsuffix
    cases suffix_nil.mp hsuffix

def Careful (s : FsPoll ι) : Event ι → Prop
  | .start h _ _ allocated err => s.active h = false → allocated = true → 0 ≤ err
  | _ => True

instance : DecidablePred s.Careful := fun e => by
  induction e using Event.casesOn <;> dsimp only [Careful] <;> infer_instance

theorem Sound.next (hs : Sound s) {e : Event ι} (he : s.Enabled e) :
    ∃ t, s.next e = some t ∧ (s.Careful e → Sound t) := by
  have hall : ∀ {o : Option (FsPoll ι)}, (∃ t, o = some t ∧ Sound t) →
      ∃ t, o = some t ∧ (s.Careful e → Sound t) := by
    rintro o ⟨t, ht, hsound⟩
    exact ⟨t, ht, fun _ => hsound⟩
  cases e with
  | updateTime now =>
    exact ⟨_, rfl, fun _ => { hs with }⟩
  | start h cb interval allocated err => exact ⟨_, rfl, hs.uvFsPollStart cb interval⟩
  | stop h => exact hall (hs.uvFsPollStop h)
  | close h =>
    have hclosing : Sound { s with closing := update s.closing h true } :=
      { hs with }
    exact hall (hclosing.uvFsPollStop h)
  | timer c => exact hall (hs.timerCb he.1 he.2.1 he.2.2)
  | complete c r => exact hall (hs.pollCb he.1 he.2.1 he.2.2.1 he.2.2.2)
  | returned => exact hall (hs.pollCbReturn he)
  | timerClosed c => exact hall (hs.timerCloseCb he.1 he.2.1 he.2.2)

theorem Sound.of_reachable
    (h : Reachable (fun s => ∃ junk, s = init junk) (Guarded Careful Step) s) : Sound s := by
  apply h.invariant_of_guarded
  · rintro _ ⟨junk, rfl⟩
    exact sound_init junk
  · intro s e hs he hcareful
    obtain ⟨t, ht, hsound⟩ := hs.next he
    exact ⟨t, ht, hsound hcareful⟩

/-! ## The life of a context -/

/-- Every event that is enabled is possible, so no assertion fails and nothing that was freed is
used. A context is freed once, by the close callback of its timer, and has no request in flight
then; it has at most one request in flight, and none while its timer is armed or closing. Without
a handle it is freed, or about to be. Timers are armed with a delay from 1 to the interval. A
callback is called only while its handle polls for that start, for every result that differs from
the one before it. -/
structure Lifecycle (s : FsPoll ι) : Prop where
  possible : ∀ e, s.Enabled e → (s.next e).isSome = true
  freed : ∀ c < s.created, (s.ctx c).freed = if (s.ctx c).timer = .closed then 1 else 0
  alone : ∀ c < s.created, (s.ctx c).stats ≤ 1 ∧
    ((s.ctx c).timer ≠ .inactive → (s.ctx c).stats = 0)
  cleanup : ∀ c < s.created, (s.ctx c).parentHandle = none → (s.ctx c).stats = 1 ∨
    (∃ r, s.running = some (c, r)) ∨ (s.ctx c).timer = .closing ∨ (s.ctx c).timer = .closed
  delay : ∀ c < s.created, ∀ d, (s.ctx c).timer = .armed d → 1 ≤ d ∧ d ≤ (s.ctx c).interval
  timely : Timely s.log
  reports : ∀ c < s.created, (s.ctx c).reports = reportsOf (s.ctx c).seen

omit [DecidableEq ι] in
theorem answerOf_eq_some {running : Option (ℕ × StatResult)} (h : answerOf running c = some r) :
    running = some (c, r) := by
  obtain ⟨⟨d, q⟩, hrunning, hif⟩ := bind_eq_some_iff.mp h
  obtain ⟨hd, hq⟩ := ite_none_right_eq_some.mp hif
  rw [hrunning, ← hd, ← Option.some.inj hq]

/-- Where the requests of all starts can be made, every context lives as it should. -/
theorem uvFsPoll_lifecycle
    (h : Reachable (fun s => ∃ junk, s = init junk) (Guarded Careful Step) s) : s.Lifecycle := by
  have hs := Sound.of_reachable h
  constructor
  · intro e he
    obtain ⟨t, ht, -⟩ := hs.next he
    rw [ht]
    rfl
  · intro c hc
    have hstage := hs.stages c hc
    generalize answerOf s.running c = answer at hstage
    cases hstage with
    | asking _ htimer hfreed | calling _ _ htimer hfreed | waiting _ _ htimer hfreed
    | closing _ htimer hfreed => rw [htimer, hfreed, if_neg nofun]
    | closed _ htimer hfreed => rw [htimer, hfreed, if_pos rfl]
  · intro c hc
    have hstage := hs.stages c hc
    generalize answerOf s.running c = answer at hstage
    cases hstage with
    | asking hstats htimer => exact ⟨Nat.le_of_eq hstats, fun habs => absurd htimer habs⟩
    | calling _ hstats => exact ⟨Nat.le_trans (Nat.le_of_eq hstats) (Nat.zero_le 1),
      fun _ => hstats⟩
    | waiting _ hstats => exact ⟨Nat.le_trans (Nat.le_of_eq hstats) (Nat.zero_le 1),
      fun _ => hstats⟩
    | closing hstats | closed hstats =>
      exact ⟨Nat.le_trans (Nat.le_of_eq hstats) (Nat.zero_le 1), fun _ => hstats⟩
  · intro c hc hparent
    cases hanswer : answerOf s.running c with
    | some r => exact .inr (.inl ⟨r, answerOf_eq_some hanswer⟩)
    | none =>
      have hstage := hs.stages c hc
      rw [hanswer] at hstage
      cases hstage with
      | asking hstats => exact .inl hstats
      | waiting _ _ _ _ hsome => exact absurd hparent hsome
      | closing _ htimer => exact .inr (.inr (.inl htimer))
      | closed _ htimer => exact .inr (.inr (.inr htimer))
  · intro c hc d hd
    have hstage := hs.stages c hc
    generalize answerOf s.running c = answer at hstage
    cases hstage with
    | waiting delay _ htimer _ _ hone hle =>
      cases htimer.symm.trans hd
      exact ⟨hone, hle⟩
    | asking _ htimer | calling _ _ htimer | closing _ htimer | closed _ htimer =>
      cases htimer.symm.trans hd
  · exact hs.timely
  · intro c hc
    obtain ⟨past, hpast⟩ := hs.remembers c hc
    exact hpast.reports

/-- A handle polls, an error is reported, and from the callback it is stopped and started again. -/
def restartRun : Option (FsPoll ℕ) :=
  [Event.start 0 7 100 true 0, .complete 0 (.found zeroStatbuf), .updateTime 100, .timer 0,
    .complete 0 (.failed (-2)), .stop 0, .start 0 7 100 true 0, .returned, .timerClosed 0].foldlM
      (fun s e => if s.Careful e then s.step e else none) (init fun _ =>
        ⟨none, 0, 0, 0, 0, zeroStatbuf, .inactive, 0, 0, [], []⟩)

theorem restartRun_isSome : restartRun.isSome = true := by
  rfl

theorem uvFsPoll_lifecycle_restart : ((restartRun.get restartRun_isSome).ctx 0).freed =
    if ((restartRun.get restartRun_isSome).ctx 0).timer = .closed then 1 else 0 := by
  have hrun : Reachable (fun s => ∃ junk, s = init junk) (Guarded Careful Step)
      (restartRun.get restartRun_isSome) :=
    .of_foldlM_if (.init ⟨_, rfl⟩) (Option.some_get restartRun_isSome).symm
  exact (uvFsPoll_lifecycle hrun).freed 0 (by decide)

def failedStartRun : Option (FsPoll ℕ) :=
  [Event.start 0 7 100 true (-12)].foldlM step (init fun _ =>
    ⟨none, 0, 0, 0, 0, zeroStatbuf, .inactive, 0, 0, [], []⟩)

theorem failedStartRun_isSome : failedStartRun.isSome = true := by
  rfl

/-- The context is freed, but its timer was initialised and is not closed. -/
theorem failed_start_frees : ¬(failedStartRun.get failedStartRun_isSome).Lifecycle :=
  fun h => absurd (h.freed 0 (by decide)) (by decide)

end FsPoll

end LibuvWorks
