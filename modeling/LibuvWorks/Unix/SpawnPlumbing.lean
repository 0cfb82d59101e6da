import LibuvWorks.Unix.Spawn

/-!
# What the child of `uv_spawn` holds at `execvp`

Every slot below `stdio_count` refers to the file that its container named. The descriptor
`error_fd` is not protected: it is the second lowest number that was free when the signal
pipe was opened, and the slot of that number overwrites it.
-/
namespace LibuvWorks.Unix.Spawn

open DescriptorTable List Function

variable {φ : Type*} {parent : DescriptorTable φ} {containers : List StdioContainer}
  {t t' T : Table φ} {limit count i m : ℕ} {ps ps' : List Pipe} {p : Pipe} {f : OpenFile φ}
  {c : StdioContainer} {C : ℕ → StdioContainer} {ready : Bool}

def containerAt (containers : List StdioContainer) (i : ℕ) : StdioContainer :=
  containers[i]?.getD .ignore

/-- The open file that slot `i` is to refer to, if any. -/
def wanted (parent : DescriptorTable φ) (i : ℕ) : StdioContainer → Option (OpenFile φ)
  | .ignore => if i < 3 then some (.devNull (i ≠ 0)) else none
  | .createPipe _ => some (.socket i true)
  | .inheritFd fd | .inheritStream fd => (parent.file fd.toNat).map .inherited
  | .unexpected => none

def Inheritable (parent : DescriptorTable φ) : StdioContainer → Prop
  | .inheritFd fd | .inheritStream fd => 0 ≤ fd ∧ ∃ d, parent fd.toNat = some d
  | _ => True

/-- Every slot refers to its file, and keeps it over `execvp`. -/
def Connected (parent : DescriptorTable φ) (containers : List StdioContainer) (t : Table φ) :
    Prop :=
  ∀ i < max containers.length 3, ∀ f, wanted parent i (containerAt containers i) = some f →
    t i = some ⟨f, false⟩

def StdioContainer.makesPair : StdioContainer → Bool
  | .createPipe _ => true
  | _ => false

/-- The second number that is free once the socket pairs are open has an ignored slot from `3`
on, or no slot. -/
def SignalPipeClear (parent : DescriptorTable φ) (containers : List StdioContainer) : Prop :=
  ∀ e, parent e = none → parent.freeBelow e = 2 * containers.countP (·.makesPair) + 1 →
    3 ≤ e ∧ containerAt containers e = .ignore

theorem wanted_ne (hwanted : wanted parent i c = some f) :
    (∀ j, f ≠ .socket j false) ∧ ∀ b, f ≠ .signal b := by
  cases c with
  | ignore =>
    simp only [wanted, Option.ite_none_right_eq_some, Option.some.injEq] at hwanted
    obtain ⟨-, rfl⟩ := hwanted
    simp
  | createPipe namedPipe =>
    simp only [wanted, Option.some.injEq] at hwanted
    subst hwanted
    simp
  | inheritFd fd | inheritStream fd =>
    obtain ⟨x, -, rfl⟩ := Option.map_eq_some_iff.mp hwanted
    simp
  | unexpected => simp [wanted] at hwanted

/-- The entries of a slot: one that names a descriptor names one that stands for the wanted
file. -/
structure Sourced (parent : DescriptorTable φ) (c : StdioContainer) (t : Table φ) (p : Pipe) :
    Prop where
  ignored : p.child = none → c = .ignore
  source : ∀ u, p.child = some u → ∃ f, t.file u = some f ∧ wanted parent p.fd c = some f

def ParentEnd (t : Table φ) (p : Pipe) : Prop :=
  ∀ k, p.parent = some k → t.file k = some (.socket p.fd false)

theorem Sourced.mono (hp : Sourced parent c t p) (hext : Extends t t') :
    Sourced parent c t' p where
  ignored := hp.ignored
  source := by
    intro u hu
    obtain ⟨f, hf, hwanted⟩ := hp.source u hu
    exact ⟨f, hext.file hf, hwanted⟩

theorem ParentEnd.mono (hp : ParentEnd t p) (hext : Extends t t') : ParentEnd t' p :=
  fun k hk => hext.file (hp k hk)

/-! ### The table at the fork -/

variable {first second : OpenFile φ}

theorem openPair_spec {a b : ℕ}
    (hopen : openPair limit t first second = some (a, b, t')) :
    Extends t t' ∧ t'.file a = some first ∧ t' b = some ⟨second, true⟩ := by
  simp only [openPair, Option.bind_eq_bind, Option.bind_eq_some_iff, Prod.exists,
    Option.pure_def, Option.some.injEq, Prod.mk.injEq] at hopen
  obtain ⟨a', t₁, ha, b', t₂, hb, rfl, rfl, rfl⟩ := hopen
  obtain ⟨-, -, hfirst, hext₁⟩ := openFrom_spec ha
  obtain ⟨-, -, hsecond, hext₂⟩ := openFrom_spec hb
  exact ⟨hext₁.trans hext₂, hext₂.file (file_of_some hfirst), hsecond⟩

theorem openPair_filled {a b : ℕ}
    (hopen : openPair limit t first second = some (a, b, t')) (hfilled : Filled parent m t) :
    parent b = none ∧ parent.freeBelow b = m + 1 ∧ Filled parent (m + 2) t' := by
  simp only [openPair, Option.bind_eq_bind, Option.bind_eq_some_iff, Prod.exists,
    Option.pure_def, Option.some.injEq, Prod.mk.injEq] at hopen
  obtain ⟨a', t₁, ha, b', t₂, hb, rfl, rfl, rfl⟩ := hopen
  exact (hfilled.openFrom ha).2.2.openFrom hb

theorem forkTable_file (fd : ℕ) :
    (forkTable parent).file fd = (parent.file fd).map .inherited := by
  simp only [DescriptorTable.file, forkTable, Option.map_map]
  rfl

theorem inheritEntry_sourced {fd : ℤ} {entry : Option ℕ} (hext : Extends (forkTable parent) t)
    (hinherit : 0 ≤ fd ∧ ∃ d, parent fd.toNat = some d)
    (hwanted : wanted parent i c = (parent.file fd.toNat).map .inherited)
    (hentry : inheritEntry fd = some entry) :
    Sourced parent c t ⟨i, none, entry⟩ ∧ ParentEnd t ⟨i, none, entry⟩ := by
  obtain ⟨hfd, d, hd⟩ := hinherit
  have hentry : entry = some fd.toNat := by
    have hne : fd ≠ -1 := by omega
    have hlt : ¬ fd < 0 := by omega
    simpa [inheritEntry, hne, hlt, eq_comm] using hentry
  subst hentry
  have hfile : parent.file fd.toNat = some d.file := file_of_some hd
  refine ⟨⟨by simp, ?_⟩, by simp [ParentEnd]⟩
  intro u hu
  cases hu
  refine ⟨.inherited d.file, hext.file ?_, ?_⟩
  · rw [forkTable_file, hfile]
    rfl
  · rw [hwanted, hfile]
    rfl

theorem uvProcessInitStdio_spec (hext : Extends (forkTable parent) t)
    (hinherit : Inheritable parent c)
    (hinit : uvProcessInitStdio limit i t c = some (p, t')) :
    p.fd = i ∧ Extends t t' ∧ Sourced parent c t' p ∧ ParentEnd t' p := by
  cases c with
  | ignore =>
    obtain ⟨rfl, rfl⟩ := hinit
    exact ⟨rfl, .refl t, ⟨fun _ => rfl, by simp⟩, by simp [ParentEnd]⟩
  | createPipe namedPipe =>
    simp only [uvProcessInitStdio, Option.ite_none_right_eq_some, Option.map_eq_some_iff,
      Prod.mk.injEq, Prod.exists] at hinit
    obtain ⟨-, a, b, t₁, hopen, rfl, rfl⟩ := hinit
    obtain ⟨hext', ha, hb⟩ := openPair_spec hopen
    refine ⟨rfl, hext', ⟨by simp, ?_⟩, ?_⟩
    · intro u hu
      cases hu
      exact ⟨.socket i true, file_of_some hb, rfl⟩
    · intro k hk
      cases hk
      exact ha
  | inheritFd fd | inheritStream fd =>
    simp only [uvProcessInitStdio, Option.map_eq_some_iff, Prod.mk.injEq] at hinit
    obtain ⟨entry, hentry, rfl, rfl⟩ := hinit
    exact ⟨rfl, .refl t, inheritEntry_sourced hext hinherit rfl hentry⟩
  | unexpected => simp [uvProcessInitStdio] at hinit

theorem uvProcessInitStdio_filled (hinit : uvProcessInitStdio limit i t c = some (p, t'))
    (hfilled : Filled parent m t) : Filled parent (m + if c.makesPair then 2 else 0) t' := by
  cases c with
  | ignore =>
    obtain ⟨-, rfl⟩ := hinit
    exact hfilled
  | createPipe namedPipe =>
    simp only [uvProcessInitStdio, Option.ite_none_right_eq_some, Option.map_eq_some_iff,
      Prod.mk.injEq, Prod.exists] at hinit
    obtain ⟨-, a, b, t₁, hopen, -, rfl⟩ := hinit
    exact (openPair_filled hopen hfilled).2.2
  | inheritFd fd | inheritStream fd =>
    simp only [uvProcessInitStdio, Option.map_eq_some_iff, Prod.mk.injEq] at hinit
    obtain ⟨entry, -, -, rfl⟩ := hinit
    exact hfilled
  | unexpected => simp [uvProcessInitStdio] at hinit

theorem initPipes_cons (hinit : initPipes limit i (c :: containers) t = some (ps, t')) :
    ∃ p t₁ ps₁, uvProcessInitStdio limit i t c = some (p, t₁) ∧
      initPipes limit (i + 1) containers t₁ = some (ps₁, t') ∧ ps = p :: ps₁ := by
  simp only [initPipes, Option.bind_eq_bind, Option.bind_eq_some_iff, Prod.exists,
    Option.pure_def, Option.some.injEq, Prod.mk.injEq] at hinit
  obtain ⟨p, t₁, hp, ps₁, t₂, hps, rfl, rfl⟩ := hinit
  exact ⟨p, t₁, ps₁, hp, hps, rfl⟩

theorem initPipes_spec (hext : Extends (forkTable parent) t)
    (hinherit : ∀ c ∈ containers, Inheritable parent c)
    (hinit : initPipes limit i containers t = some (ps, t')) :
    Extends t t' ∧ ps.map Pipe.fd = List.range' i containers.length ∧
      ∀ p ∈ ps, ∃ j c, containers[j]? = some c ∧ p.fd = i + j ∧ Sourced parent c t' p ∧
        ParentEnd t' p := by
  induction containers generalizing i t ps with
  | nil =>
    simp only [initPipes, Option.some.injEq, Prod.mk.injEq] at hinit
    obtain ⟨rfl, rfl⟩ := hinit
    exact ⟨.refl t, rfl, by simp⟩
  | cons c containers ih =>
    obtain ⟨p, t₁, ps₁, hp, hps, rfl⟩ := initPipes_cons hinit
    obtain ⟨hfd, hext₁, hsourced, hend⟩ :=
      uvProcessInitStdio_spec hext (hinherit c (by simp)) hp
    obtain ⟨hext₂, hmap, hall⟩ :=
      ih (hext.trans hext₁) (fun c hc => hinherit c (by simp [hc])) hps
    refine ⟨hext₁.trans hext₂, ?_, ?_⟩
    · rw [map_cons, hfd, hmap, length_cons, range'_succ]
    · intro q hq
      cases hq with
      | head => exact ⟨0, c, rfl, by omega, hsourced.mono hext₂, hend.mono hext₂⟩
      | tail _ hq =>
        obtain ⟨j, c', hj, hqfd, hq⟩ := hall q hq
        exact ⟨j + 1, c', hj, by omega, hq⟩

theorem initPipes_filled (hinit : initPipes limit i containers t = some (ps, t'))
    (hfilled : Filled parent m t) :
    Filled parent (m + 2 * containers.countP (·.makesPair)) t' := by
  induction containers generalizing i t ps m with
  | nil =>
    obtain ⟨-, rfl⟩ := hinit
    exact hfilled
  | cons c containers ih =>
    obtain ⟨p, t₁, ps₁, hp, hps, rfl⟩ := initPipes_cons hinit
    have htail := ih hps (uvProcessInitStdio_filled hp hfilled)
    rw [countP_cons]
    convert htail using 1
    split_ifs <;> omega

/-! ### The loops of the child -/

theorem dupLowFd_spec {q : Pipe} (hsourced : Sourced parent c t p) (hend : ParentEnd t p)
    (hcount : p.fd < count) (hdup : dupLowFd limit count p t = .ok (q, t')) :
    Extends t t' ∧ q.fd = p.fd ∧ Sourced parent c t' q ∧ ParentEnd t' q ∧
      ∀ u, q.child = some u → q.fd ≤ u := by
  rw [dupLowFd] at hdup
  cases hchild : p.child with
  | none =>
    rw [hchild] at hdup
    obtain ⟨rfl, rfl⟩ := Prod.mk.inj (Except.ok.inj hdup)
    exact ⟨.refl t, rfl, hsourced, hend, by simp [hchild]⟩
  | some useFd =>
    rw [hchild] at hdup
    dsimp only at hdup
    split_ifs at hdup with hle
    · obtain ⟨rfl, rfl⟩ := Prod.mk.inj (Except.ok.inj hdup)
      refine ⟨.refl t, rfl, hsourced, hend, ?_⟩
      intro u hu
      rw [hchild] at hu
      rwa [← Option.some.inj hu]
    · cases hmove : t.dupFrom limit count useFd with
      | none => simp [hmove] at hdup
      | some kt =>
        rw [hmove] at hdup
        obtain ⟨rfl, rfl⟩ := Prod.mk.inj (Except.ok.inj hdup)
        obtain ⟨f, hf, hk, -, hkf, hext⟩ := dupFrom_spec hmove
        obtain ⟨f', hf', hwanted⟩ := hsourced.source useFd hchild
        obtain rfl : f = f' := Option.some.inj (hf.symm.trans hf')
        refine ⟨hext, rfl, ⟨by simp, ?_⟩, hend.mono hext, ?_⟩
        · intro u hu
          obtain rfl := Option.some.inj hu
          exact ⟨f, hkf, hwanted⟩
        · intro u hu
          obtain rfl := Option.some.inj hu
          exact hcount.le.trans hk

theorem dupLow_spec (hsourced : ∀ p ∈ ps, Sourced parent (C p.fd) t p)
    (hend : ∀ p ∈ ps, ParentEnd t p) (hcount : ∀ p ∈ ps, p.fd < count)
    (hdup : dupLow limit count ps t = .ok (ps', t')) :
    Extends t t' ∧ ps'.map Pipe.fd = ps.map Pipe.fd ∧
      ∀ p ∈ ps', Sourced parent (C p.fd) t' p ∧ ParentEnd t' p ∧
        ∀ u, p.child = some u → p.fd ≤ u := by
  induction ps generalizing t ps' with
  | nil =>
    simp only [dupLow, Except.ok.injEq, Prod.mk.injEq] at hdup
    obtain ⟨rfl, rfl⟩ := hdup
    exact ⟨.refl t, rfl, by simp⟩
  | cons p ps ih =>
    rw [dupLow] at hdup
    cases hone : dupLowFd limit count p t with
    | error t₁ => simp [hone] at hdup
    | ok r =>
      obtain ⟨q, t₁⟩ := r
      obtain ⟨hext, hfd, hq, hqend, hle⟩ := dupLowFd_spec (hsourced p (by simp))
        (hend p (by simp)) (hcount p (by simp)) hone
      cases hrest : dupLow limit count ps t₁ with
      | error t₂ => simp [hone, hrest] at hdup
      | ok r =>
        simp only [hone, hrest, Except.ok.injEq, Prod.mk.injEq] at hdup
        obtain ⟨rfl, rfl⟩ := hdup
        obtain ⟨hext', hmap, hall⟩ := ih (fun s hs => (hsourced s (by simp [hs])).mono hext)
          (fun s hs => (hend s (by simp [hs])).mono hext) (fun s hs => hcount s (by simp [hs]))
          hrest
        refine ⟨hext.trans hext', ?_, ?_⟩
        · rw [map_cons, map_cons, hfd, hmap]
        · intro s hs
          cases hs with
          | head =>
            refine ⟨?_, hqend.mono hext', hle⟩
            rw [hfd]
            exact hq.mono hext'
          | tail _ hs => exact hall s hs

theorem closeHigh_frame {closeFd : Option ℕ} {k : ℕ} (hk : closeFd = some k → k < count) :
    closeHigh count closeFd t k = t k := by
  cases closeFd with
  | none => rfl
  | some fd =>
    simp only [closeHigh]
    split_ifs with hfd
    · rfl
    · apply update_of_ne
      rintro rfl
      exact hfd (hk rfl)

/-- A slot is connected to the file of `useFd`; no other descriptor changes but the one that
is closed. -/
theorem connect_spec {fd useFd : ℕ} {closeFd : Option ℕ} (hfd : fd < count)
    (hconnect : connect limit count fd useFd closeFd t = .ok t') :
    (∀ f, t.file useFd = some f → t' fd = some ⟨f, false⟩) ∧
      ∀ k, k ≠ fd → (closeFd = some k → k < count) → t' k = t k := by
  have hdup : ∃ t₁, (∀ f, t.file useFd = some f → t₁ fd = some ⟨f, false⟩) ∧
      (∀ k, k ≠ fd → t₁ k = t k) ∧ t' = closeHigh count closeFd t₁ := by
    rw [connect] at hconnect
    split_ifs at hconnect with heq
    · subst heq
      refine ⟨t.clearCloexec fd, ?_, ?_, (Except.ok.inj hconnect).symm⟩
      · intro f hf
        obtain ⟨d, hd, rfl⟩ := file_eq_some.mp hf
        simp [clearCloexec, hd]
      · intro k hk
        exact update_of_ne hk _ _
    · cases hdup : t.dup2 limit useFd fd with
      | none => simp [hdup] at hconnect
      | some t₁ =>
        rw [hdup] at hconnect
        obtain ⟨f, hf, rfl⟩ := dup2_spec hdup (Ne.symm heq)
        refine ⟨_, ?_, ?_, (Except.ok.inj hconnect).symm⟩
        · intro f' hf'
          rw [update_self, Option.some.inj (hf'.symm.trans hf)]
        · intro k hk
          exact update_of_ne hk _ _
  obtain ⟨t₁, hset, hkeep, rfl⟩ := hdup
  constructor
  · intro f hf
    rw [closeHigh_frame (fun _ => hfd)]
    exact hset f hf
  · intro k hk hclosed
    rw [closeHigh_frame hclosed]
    exact hkeep k hk

/-- The slot is skipped: its container is ignored, and it is not one of the first three. -/
def Pipe.Skipped (p : Pipe) : Prop := p.child = none ∧ 3 ≤ p.fd

theorem plumb_spec (hfd : p.fd < count) (hsourced : Sourced parent c t p)
    (hplumb : plumb limit count p t = .ok t') :
    (∀ f, wanted parent p.fd c = some f → t' p.fd = some ⟨f, false⟩) ∧
      ∀ k d, t k = some d → (p.fd = k → p.Skipped) → (p.parent = some k → k < count) →
        t' k = some d := by
  rw [plumb] at hplumb
  cases hchild : p.child with
  | some useFd =>
    rw [hchild] at hplumb
    obtain ⟨hset, hkeep⟩ := connect_spec hfd hplumb
    obtain ⟨f, hf, hwanted⟩ := hsourced.source useFd hchild
    constructor
    · intro f' hf'
      rw [Option.some.inj (hf'.symm.trans hwanted)]
      exact hset f hf
    · intro k d hk hskip hparent
      have hne : k ≠ p.fd := by
        intro heq
        simp [Pipe.Skipped, hchild] at hskip
        exact hskip heq.symm
      rw [hkeep k hne hparent, hk]
  | none =>
    rw [hchild] at hplumb
    have hignored := hsourced.ignored hchild
    subst hignored
    dsimp only at hplumb
    split_ifs at hplumb with hthree
    · obtain rfl := Except.ok.inj hplumb
      constructor
      · simp [wanted, Nat.not_lt.mpr hthree]
      · exact fun k d hk _ _ => hk
    · cases hopen : t.openFrom limit 0 ⟨.devNull (p.fd ≠ 0), false⟩ with
      | none =>
        rw [hopen] at hplumb
        cases hplumb
      | some r =>
        obtain ⟨useFd, t₁⟩ := r
        rw [hopen] at hplumb
        obtain ⟨-, hfree, huse, hext⟩ := openFrom_spec hopen
        obtain ⟨hset, hkeep⟩ := connect_spec hfd hplumb
        constructor
        · intro f hf
          obtain rfl : OpenFile.devNull (p.fd ≠ 0) = f := by
            simpa [wanted, Nat.lt_of_not_le hthree] using hf
          exact hset _ (file_of_some huse)
        · intro k d hk hskip _
          have hne : k ≠ p.fd := by
            intro heq
            exact hthree (hskip heq.symm).2
          have hlt : some useFd = some k → k < count := by
            rintro heq
            simp [← Option.some.inj heq, hfree] at hk
          rw [hkeep k hne hlt]
          exact hext k d hk

/-- The second loop: every slot refers to its file, and a descriptor that is no slot and is
not closed stays. -/
theorem plumbAll_spec (hpairwise : ps.Pairwise fun p q => p.fd < q.fd)
    (hcount : ∀ p ∈ ps, p.fd < count)
    (hsourced : ∀ p ∈ ps, Sourced parent (C p.fd) t p)
    (hle : ∀ p ∈ ps, ∀ u, p.child = some u → p.fd ≤ u)
    (happart : ∀ p ∈ ps, ∀ q ∈ ps, ∀ u, q.child = some u → p.parent ≠ some u)
    (hplumb : plumbAll limit count ps t = .ok T) :
    (∀ p ∈ ps, ∀ f, wanted parent p.fd (C p.fd) = some f → T p.fd = some ⟨f, false⟩) ∧
      ∀ k d, t k = some d → (∀ p ∈ ps, p.fd = k → p.Skipped) →
        (∀ p ∈ ps, p.parent = some k → k < count) → T k = some d := by
  induction ps generalizing t with
  | nil =>
    obtain rfl := Except.ok.inj hplumb
    exact ⟨by simp, fun k d hk _ _ => hk⟩
  | cons p ps ih =>
    rw [plumbAll] at hplumb
    cases hone : plumb limit count p t with
    | error t₁ => simp [hone] at hplumb
    | ok t₁ =>
      rw [hone] at hplumb
      obtain ⟨hset, hkeep⟩ := plumb_spec (hcount p (by simp)) (hsourced p (by simp)) hone
      obtain ⟨hbelow, hpairwise⟩ := pairwise_cons.mp hpairwise
      -- the sources of the later slots are above this slot, and are not what it closes
      have hsourced₁ : ∀ q ∈ ps, Sourced parent (C q.fd) t₁ q := by
        intro q hq
        have hsource := hsourced q (by simp [hq])
        refine ⟨hsource.ignored, ?_⟩
        intro u hu
        obtain ⟨f, hf, hwanted⟩ := hsource.source u hu
        obtain ⟨d, hd, rfl⟩ := file_eq_some.mp hf
        refine ⟨d.file, file_of_some (hkeep u d hd ?_ ?_), hwanted⟩
        · intro heq
          have hlt := hbelow q hq
          have hqu := hle q (by simp [hq]) u hu
          omega
        · intro hparent
          exact absurd hparent (happart p (by simp) q (by simp [hq]) u hu)
      obtain ⟨hslots, hframe⟩ := ih hpairwise (fun q hq => hcount q (by simp [hq])) hsourced₁
        (fun q hq => hle q (by simp [hq]))
        (fun q hq r hr => happart q (by simp [hq]) r (by simp [hr])) hplumb
      constructor
      · intro q hq f hf
        cases hq with
        | head =>
          apply hframe p.fd _ (hset f hf)
          · intro q hq heq
            exact absurd heq (hbelow q hq).ne'
          · exact fun q _ _ => hcount p (by simp)
        | tail _ hq => exact hslots q hq f hf
      · intro k d hk hskip hparent
        exact hframe k d (hkeep k d hk (hskip p (by simp)) (hparent p (by simp)))
          (fun q hq => hskip q (by simp [hq])) (fun q hq => hparent q (by simp [hq]))

theorem closeUsed_frame {k : ℕ} (hk : ∀ p ∈ ps, p.child = some k → k < count) :
    closeUsed count ps t k = t k := by
  induction ps generalizing t with
  | nil => rfl
  | cons p ps ih =>
    have hhead : closeHigh count p.child t k = t k := closeHigh_frame (hk p (by simp))
    rw [← hhead]
    exact ih fun q hq => hk q (by simp [hq])

theorem uvProcessChildInit_spec (hfds : ps.map Pipe.fd = List.range count)
    (hsourced : ∀ p ∈ ps, Sourced parent (C p.fd) t p) (hend : ∀ p ∈ ps, ParentEnd t p)
    (hinit : uvProcessChildInit limit count ps ready t = .ok T) :
    (∀ i < count, ∀ f, wanted parent i (C i) = some f → T i = some ⟨f, false⟩) ∧
      ∀ e b, t e = some ⟨.signal b, true⟩ → 3 ≤ e → C e = .ignore →
        T e = some ⟨.signal b, true⟩ := by
  have hmem : ∀ {qs : List Pipe}, qs.map Pipe.fd = range count →
      ∀ q ∈ qs, q.fd < count := by
    intro qs hqs q hq
    rw [← mem_range, ← hqs]
    exact mem_map_of_mem hq
  rw [uvProcessChildInit] at hinit
  cases hdup : dupLow limit count ps t with
  | error t₁ => simp [hdup] at hinit
  | ok r =>
    obtain ⟨ps', t₁⟩ := r
    obtain ⟨hext, hmap, hall⟩ := dupLow_spec hsourced hend (hmem hfds) hdup
    have hfds' : ps'.map Pipe.fd = range count := hmap.trans hfds
    cases hplumb : plumbAll limit count ps' t₁ with
    | error t₂ => simp [hdup, hplumb] at hinit
    | ok t₂ =>
      simp only [hdup, hplumb] at hinit
      split_ifs at hinit
      obtain rfl := Except.ok.inj hinit
      have hpairwise : ps'.Pairwise fun p q => p.fd < q.fd := by
        rw [← pairwise_map (f := Pipe.fd) (R := (· < ·)), hfds']
        exact pairwise_lt_range
      obtain ⟨hslots, hframe⟩ := plumbAll_spec hpairwise (hmem hfds')
        (fun p hp => (hall p hp).1) (fun p hp => (hall p hp).2.2) (by
          intro p hp q hq u hu hparent
          obtain ⟨f, hf, hwanted⟩ := (hall q hq).1.source u hu
          have hsocket := (hall p hp).2.1 u hparent
          exact (wanted_ne hwanted).1 p.fd (Option.some.inj (hf.symm.trans hsocket))) hplumb
      constructor
      · intro i hi f hf
        obtain ⟨p, hp, rfl⟩ : ∃ p ∈ ps', p.fd = i := by
          rw [← mem_map, hfds', mem_range]
          exact hi
        rw [closeUsed_frame fun _ _ _ => hi]
        exact hslots p hp f hf
      · intro e b he hthree hignore
        have he₁ := hext e _ he
        have hne : ∀ p ∈ ps', p.child ≠ some e := by
          intro p hp hchild
          obtain ⟨f, hf, hwanted⟩ := (hall p hp).1.source e hchild
          rw [file_of_some he₁] at hf
          exact (wanted_ne hwanted).2 b (Option.some.inj hf).symm
        rw [closeUsed_frame fun p hp hchild => absurd hchild (hne p hp)]
        apply hframe e _ he₁
        · rintro p hp rfl
          refine ⟨?_, hthree⟩
          cases hchild : p.child with
          | none => rfl
          | some u =>
            obtain ⟨f, -, hwanted⟩ := (hall p hp).1.source u hchild
            simp [hignore, wanted, Nat.not_lt.mpr hthree] at hwanted
        · intro p hp hparent
          have hsocket := (hall p hp).2.1 e hparent
          rw [file_of_some he₁] at hsocket
          simp at hsocket

/-! ### The fork -/

theorem padPipes_fds (hfds : ps.map Pipe.fd = List.range' 0 containers.length) :
    (padPipes ps).map Pipe.fd = List.range (max containers.length 3) := by
  have hlength : ps.length = containers.length := by
    simpa using congrArg List.length hfds
  have hmap : ((range' ps.length (3 - ps.length)).map
      fun fd => (⟨fd, none, none⟩ : Pipe)).map Pipe.fd = range' ps.length (3 - ps.length) := by
    rw [map_map]
    exact map_id _
  rw [padPipes, map_append, hfds, hmap, hlength]
  have happend := range'_append_1 (s := 0) (m := containers.length)
    (n := 3 - containers.length)
  rw [Nat.zero_add] at happend
  rw [happend, range_eq_range']
  congr 1
  omega

theorem uvSpawn_spec {r : Forked φ} (hinherit : ∀ c ∈ containers, Inheritable parent c)
    (hspawn : uvSpawn limit parent containers ready = some r) :
    parent r.errorFd = none ∧
      parent.freeBelow r.errorFd = 2 * containers.countP (·.makesPair) + 1 ∧
      ∃ ps t, t r.errorFd = some ⟨.signal true, true⟩ ∧
        ps.map Pipe.fd = List.range (max containers.length 3) ∧
        (∀ p ∈ ps, Sourced parent (containerAt containers p.fd) t p) ∧
        (∀ p ∈ ps, ParentEnd t p) ∧
        r.child = uvProcessChildInit limit (max containers.length 3) ps ready t := by
  simp only [uvSpawn, Option.bind_eq_bind, Option.bind_eq_some_iff, Prod.exists,
    Option.pure_def, Option.some.injEq] at hspawn
  obtain ⟨ps, t₁, hinit, rd, errorFd, t, hopen, rfl⟩ := hspawn
  have hfork : Filled parent 0 (forkTable parent) := .init (by simp [forkTable])
  obtain ⟨hfree, hbelow, -⟩ := openPair_filled hopen (initPipes_filled hinit hfork)
  obtain ⟨-, hmap, hall⟩ := initPipes_spec (.refl _) hinherit hinit
  obtain ⟨hext, -, hsignal⟩ := openPair_spec hopen
  refine ⟨hfree, by simpa using hbelow, padPipes ps, t, hsignal, padPipes_fds hmap, ?_, ?_, rfl⟩
  · intro p hp
    obtain hp | hp := mem_append.mp hp
    · obtain ⟨j, c, hj, hfd, hsourced, -⟩ := hall p hp
      have hat : containerAt containers p.fd = c := by
        rw [containerAt, hfd, Nat.zero_add, hj]
        rfl
      rw [hat]
      exact hsourced.mono hext
    · obtain ⟨fd, hfd, rfl⟩ := mem_map.mp hp
      have hlength : containers.length ≤ fd := by
        have hps : ps.length = containers.length := by simpa using congrArg List.length hmap
        have hfd := (mem_range'_1.mp hfd).1
        omega
      refine ⟨fun _ => ?_, by simp⟩
      rw [containerAt, List.getElem?_eq_none hlength]
      rfl
  · intro p hp
    obtain hp | hp := mem_append.mp hp
    · obtain ⟨j, c, -, -, -, hend⟩ := hall p hp
      exact hend.mono hext
    · obtain ⟨fd, -, rfl⟩ := mem_map.mp hp
      simp [ParentEnd]

theorem slots_connected {e : ℕ} (hinherit : ∀ c ∈ containers, Inheritable parent c)
    (hspawn : uvSpawn limit parent containers ready = some ⟨e, .ok T⟩) :
    Connected parent containers T := by
  obtain ⟨-, -, ps, t, -, hfds, hsourced, hend, hchild⟩ := uvSpawn_spec hinherit hspawn
  exact (uvProcessChildInit_spec hfds hsourced hend hchild.symm).1

theorem wanted_isSome {e : ℕ} (hfds : ps.map Pipe.fd = List.range (max containers.length 3))
    (hsourced : ∀ p ∈ ps, Sourced parent (containerAt containers p.fd) t p)
    (hslot : ¬ (3 ≤ e ∧ containerAt containers e = .ignore)) :
    e < max containers.length 3 ∧ ∃ f, wanted parent e (containerAt containers e) = some f := by
  have hlt : e < max containers.length 3 := by
    by_contra hge
    apply hslot
    refine ⟨by omega, ?_⟩
    rw [containerAt, List.getElem?_eq_none (by omega)]
    rfl
  refine ⟨hlt, ?_⟩
  obtain ⟨p, hp, rfl⟩ : ∃ p ∈ ps, p.fd = e := by
    rw [← mem_map, hfds, mem_range]
    exact hlt
  cases hchild : p.child with
  | none =>
    have hignore := (hsourced p hp).ignored hchild
    have hthree : p.fd < 3 := by
      by_contra hge
      exact hslot ⟨by omega, hignore⟩
    exact ⟨_, by rw [hignore, wanted, if_pos hthree]⟩
  | some u =>
    obtain ⟨f, -, hwanted⟩ := (hsourced p hp).source u hchild
    exact ⟨f, hwanted⟩

/-- When the child calls `execvp`, every slot refers to its file; the signal pipe can report
that `execvp` failed just if no slot has its number. -/
theorem execvp_connected {limit : ℕ} {parent : DescriptorTable φ}
    {containers : List StdioContainer} {ready : Bool} {e : ℕ} {T : Table φ}
    (hinherit : ∀ c ∈ containers, Inheritable parent c)
    (hspawn : uvSpawn limit parent containers ready = some ⟨e, .ok T⟩) :
    (Connected parent containers T ∧ T e = some ⟨.signal true, true⟩ ∧
        ∀ errno, execErrno T e errno = some errno) ↔ SignalPipeClear parent containers := by
  have hconnected := slots_connected hinherit hspawn
  obtain ⟨hfree, hbelow, ps, t, hsignal, hfds, hsourced, hend, hchild⟩ :=
    uvSpawn_spec hinherit hspawn
  obtain ⟨-, hkeep⟩ := uvProcessChildInit_spec hfds hsourced hend hchild.symm
  constructor
  · rintro ⟨-, hwrite, -⟩ e' hfree' hbelow'
    obtain rfl : e = e' := freeBelow_injective hfree hfree' (hbelow.trans hbelow'.symm)
    by_contra hslot
    obtain ⟨hlt, f, hf⟩ := wanted_isSome hfds hsourced hslot
    have hover := hconnected e hlt f hf
    rw [hwrite] at hover
    simp at hover
  · intro hclear
    obtain ⟨hthree, hignore⟩ := hclear e hfree hbelow
    have hwrite := hkeep e true hsignal hthree hignore
    refine ⟨hconnected, hwrite, ?_⟩
    intro errno
    simp [execErrno, DescriptorTable.file, hwrite]

/-- The descriptors of a process with a loop: the standard ones, and five of the loop. -/
def shell : DescriptorTable ℕ := fun k => if k < 8 then some ⟨k, decide (3 ≤ k)⟩ else none

/-- Standard input and output are swapped, and standard error is a pipe. -/
theorem execvp_connected_swap :
    ∃ T, uvSpawn 64 shell [.inheritFd 1, .inheritFd 0, .createPipe true] true =
        some ⟨11, .ok T⟩ ∧
      Connected shell [.inheritFd 1, .inheritFd 0, .createPipe true] T ∧
      T 11 = some ⟨.signal true, true⟩ ∧ ∀ errno, execErrno T 11 errno = some errno := by
  have hclear : SignalPipeClear shell [.inheritFd 1, .inheritFd 0, .createPipe true] := by
    intro e hfree hbelow
    obtain rfl : e = 11 := freeBelow_injective hfree (by rfl) hbelow
    exact ⟨by decide, rfl⟩
  have hinherit : ∀ c ∈ [.inheritFd 1, .inheritFd 0, .createPipe true], Inheritable shell c := by
    simp [Inheritable, shell]
  obtain ⟨T, hspawn⟩ : ∃ T, uvSpawn 64 shell [.inheritFd 1, .inheritFd 0, .createPipe true] true =
      some ⟨11, .ok T⟩ := ⟨_, by rfl⟩
  exact ⟨T, hspawn, (execvp_connected hinherit hspawn).mpr hclear⟩

/-- With ten slots and eight descriptors open, the slot of the tenth overwrites the write end
of the signal pipe: a failed `execvp` is not reported. -/
theorem signalPipe_overwritten :
    ∃ T, uvSpawn 64 shell ([0, 1, 2, 0, 1, 2, 0, 1, 2, 0].map .inheritFd) true =
        some ⟨9, .ok T⟩ ∧
      T 9 = some ⟨.inherited 0, false⟩ ∧ execErrno T 9 2 = none :=
  ⟨_, by rfl, by rfl, by rfl⟩

end LibuvWorks.Unix.Spawn
