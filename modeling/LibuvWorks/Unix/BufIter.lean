import LibuvWorks.Unix.Preadv
import LibuvWorks.Unix.Stream

/-!
# Reads and writes of many buffers: `uv__fs_buf_iter`

The buffers are given to the system in groups of at most `iovmax`. `uv__fs_work` calls the function
again where its first call was interrupted.
-/
namespace LibuvWorks.Unix

open Transfers List

/-- What `uv__fs_buf_iter` leaves: `total`, `errno`, what was moved, what the system will answer to
the next calls, and the request. Its buffers begin at `src` in all of them. -/
structure BufIter where
  total : ℤ
  errno : ℕ
  pieces : List Piece
  answers : List IoAnswer
  src : ℕ
  lens : List ℕ
  off : ℤ
  pos : ℤ

/-- Where in the file the next byte is read or written, where `pos` is the file's own position -/
def start (off pos : ℤ) : ℤ := if off ≥ 0 then off else pos

/-- `uv__fs_buf_iter`, with the buffers and the total of the iterations so far. Once there are no
answers left, the system is at the end of the file. -/
def uvFsBufIter (iovmax : ℕ) :
    List IoAnswer → (src : ℕ) → List ℕ → (off pos : ℤ) → (total : ℕ) → BufIter
  | answers, src, [], off, pos, total => ⟨total, 0, [], answers, src, [], off, pos⟩
  | [], src, len :: lens, off, pos, total =>
    ⟨total, 0, [], [], src, (len :: lens).take iovmax, off, pos⟩
  | .failed errno :: answers, src, len :: lens, off, pos, total =>
    ⟨if total = 0 then -1 else total, errno, [], answers, src, (len :: lens).take iovmax, off, pos⟩
  | .done m :: answers, src, len :: lens, off, pos, total =>
    let asked := ((len :: lens).take iovmax).sum
    let n := min m asked
    if n = 0 then ⟨total, 0, [], answers, src, (len :: lens).take iovmax, off, pos⟩
    else
      let r := uvFsBufIter iovmax answers (src + asked) ((len :: lens).drop iovmax)
        (if off ≥ 0 then off + n else off) (if off ≥ 0 then pos else pos + n) (total + n)
      { r with pieces := ⟨src, start off pos, asked, n⟩ :: r.pieces }

structure FsRun where
  result : ℤ
  pieces : List Piece

def BufIter.Interrupted (r : BufIter) : Prop := r.total = -1 ∧ r.errno = eintr

instance (r : BufIter) : Decidable r.Interrupted := inferInstanceAs (Decidable (_ ∧ _))

def BufIter.run (r : BufIter) : FsRun := ⟨if r.total = -1 then -r.errno else r.total, r.pieces⟩

variable {iovmax m src total errno : ℕ} {answers : List IoAnswer} {lens : List ℕ} {off pos : ℤ}

/-- The groups of which some bytes are moved: how many bytes they have, and how many are moved -/
def groupsMoved (iovmax : ℕ) : List IoAnswer → List ℕ → List (ℕ × ℕ)
  | .done m :: answers, lens =>
    let asked := (lens.take iovmax).sum
    if min m asked = 0 then []
    else (asked, min m asked) :: groupsMoved iovmax answers (lens.drop iovmax)
  | _, _ => []

theorem start_next (off pos : ℤ) (n : ℕ) :
    start (if off ≥ 0 then off + n else off) (if off ≥ 0 then pos else pos + n) =
      start off pos + n := by
  unfold start
  by_cases hoff : off ≥ 0
  · rw [if_pos hoff, if_pos hoff, if_pos hoff, if_pos (by omega)]
  · rw [if_neg hoff, if_neg hoff, if_neg hoff, if_neg hoff]

theorem uvFsBufIter_inTurn (iovmax : ℕ) (answers : List IoAnswer) (src : ℕ) (lens : List ℕ)
    (off pos : ℤ) (total : ℕ) :
    InTurn src (start off pos) (uvFsBufIter iovmax answers src lens off pos total).pieces := by
  fun_induction uvFsBufIter iovmax answers src lens off pos total with
  | case1 | case2 | case3 | case4 => trivial
  | case5 m answers src len lens off pos total asked n hn r ih =>
    rw [start_next] at ih
    exact ⟨rfl, rfl, Nat.min_le_right m asked, ih⟩

theorem uvFsBufIter_pieces (iovmax : ℕ) (answers : List IoAnswer) (src : ℕ) (lens : List ℕ)
    (off pos : ℤ) (total : ℕ) :
    (uvFsBufIter iovmax answers src lens off pos total).pieces.map (fun p => (p.asked, p.count)) =
      groupsMoved iovmax answers lens := by
  fun_induction uvFsBufIter iovmax answers src lens off pos total with
  | case1 answers =>
    cases answers with
    | nil => rfl
    | cons answer answers =>
      cases answer with
      | failed errno => rfl
      | done m =>
        rw [groupsMoved, take_nil]
        exact (if_pos (Nat.min_zero m)).symm
  | case2 | case3 => rfl
  | case4 m answers src len lens off pos total asked n hn =>
    exact (if_pos hn).symm
  | case5 m answers src len lens off pos total asked n hn r ih =>
    rw [groupsMoved, ← ih]
    exact (if_neg hn).symm

theorem uvFsBufIter_total (iovmax : ℕ) (answers : List IoAnswer) (src : ℕ) (lens : List ℕ)
    (off pos : ℤ) (total : ℕ) :
    (uvFsBufIter iovmax answers src lens off pos total).total =
        (total + Transfers.total (uvFsBufIter iovmax answers src lens off pos total).pieces : ℕ) ∨
      (uvFsBufIter iovmax answers src lens off pos total).total = -1 ∧ total = 0 ∧
        (uvFsBufIter iovmax answers src lens off pos total).pieces = [] := by
  fun_induction uvFsBufIter iovmax answers src lens off pos total with
  | case1 | case2 => exact .inl rfl
  | case3 errno answers src len lens off pos total =>
    by_cases hzero : total = 0
    · exact .inr ⟨if_pos hzero, hzero, rfl⟩
    · exact .inl (if_neg hzero)
  | case4 => exact .inl rfl
  | case5 m answers src len lens off pos total asked n hn r ih =>
    obtain htotal | ⟨-, habs, -⟩ := ih
    · left
      rw [total_cons, ← Nat.add_assoc]
      exact htotal
    · omega

/-- Only the first call of all can be interrupted such that it is made again. -/
theorem uvFsBufIter_interrupted
    (h : (uvFsBufIter iovmax answers src lens off pos total).Interrupted) :
    ∃ rest, answers = .failed eintr :: rest ∧ uvFsBufIter iovmax answers src lens off pos total =
      ⟨-1, eintr, [], rest, src, lens.take iovmax, off, pos⟩ := by
  obtain ⟨htotal, herrno⟩ := h
  obtain hsum | ⟨-, hzero, hnone⟩ := uvFsBufIter_total iovmax answers src lens off pos total
  · omega
  · revert htotal herrno hnone
    fun_cases uvFsBufIter iovmax answers src lens off pos total with
    | case1 | case2 | case4 =>
      intro htotal
      change (total : ℤ) = -1 at htotal
      omega
    | case3 errno answers src len lens =>
      intro _ herrno _
      obtain rfl : errno = eintr := herrno
      refine ⟨answers, rfl, ?_⟩
      rw [if_pos hzero]
    | case5 =>
      intro _ _ hnone
      exact absurd hnone (cons_ne_nil _ _)

/-- `uv__fs_work` for a read or a write, of which the function is `uv__fs_buf_iter` -/
def uvFsWork (iovmax : ℕ) (answers : List IoAnswer) (src : ℕ) (lens : List ℕ) (off pos : ℤ) :
    FsRun :=
  let r := uvFsBufIter iovmax answers src lens off pos 0
  if h : r.Interrupted then
    let t := uvFsWork iovmax r.answers r.src r.lens r.off r.pos
    { t with pieces := r.pieces ++ t.pieces }
  else r.run
termination_by answers.length
decreasing_by
  obtain ⟨rest, hanswers, hiter⟩ := uvFsBufIter_interrupted h
  rw [hiter, hanswers]
  exact Nat.lt_succ_self rest.length

def calm (answers : List IoAnswer) : List IoAnswer := answers.filter (· ≠ .failed eintr)

/-- The result is the number of bytes that were moved, they are the first ones of the buffers and
they are in their places in the file; and the interruptions make no difference. -/
structure Iterates (iovmax : ℕ) (answers : List IoAnswer) (lens : List ℕ) (off pos : ℤ) :
    Prop where
  exact : 0 ≤ (uvFsWork iovmax answers 0 lens off pos).result →
    bytes (uvFsWork iovmax answers 0 lens off pos).pieces =
      straight 0 (start off pos) (uvFsWork iovmax answers 0 lens off pos).result.toNat
  result : (uvFsWork iovmax answers 0 lens off pos).result =
    (uvFsWork iovmax (calm answers) 0 lens off pos).result
  moved : bytes (uvFsWork iovmax answers 0 lens off pos).pieces =
    bytes (uvFsWork iovmax (calm answers) 0 lens off pos).pieces

theorem uvFsBufIter_run (iovmax : ℕ) (answers : List IoAnswer) (src : ℕ) (lens : List ℕ)
    (off pos : ℤ) (h : (uvFsBufIter iovmax answers src lens off pos 0).pieces ≠ []) :
    (uvFsBufIter iovmax answers src lens off pos 0).run.result =
      Transfers.total (uvFsBufIter iovmax answers src lens off pos 0).pieces := by
  obtain htotal | ⟨-, -, hnone⟩ := uvFsBufIter_total iovmax answers src lens off pos 0
  · rw [Nat.zero_add] at htotal
    have hne :
        (Transfers.total (uvFsBufIter iovmax answers src lens off pos 0).pieces : ℤ) ≠ -1 := by
      omega
    rw [BufIter.run]
    rw [htotal, if_neg hne]
  · exact absurd hnone h

theorem uvFsBufIter_run_nonpos (h : (uvFsBufIter iovmax answers src lens off pos 0).pieces = []) :
    (uvFsBufIter iovmax answers src lens off pos 0).run.result ≤ 0 := by
  rw [BufIter.run]
  dsimp only
  obtain htotal | ⟨htotal, -, -⟩ := uvFsBufIter_total iovmax answers src lens off pos 0
  · rw [h] at htotal
    rw [htotal]
    exact Int.le_of_eq ((if_neg (by decide)).trans rfl)
  · omega

theorem mem_calm {answer : IoAnswer} :
    answer ∈ calm answers ↔ answer ∈ answers ∧ answer ≠ .failed eintr := by
  rw [calm, mem_filter, decide_eq_true_iff]

theorem calm_cons_of_ne {answer : IoAnswer} (h : answer ≠ .failed eintr) :
    calm (answer :: answers) = answer :: calm answers := filter_cons_of_pos (decide_eq_true h)

theorem calm_cons_eintr : calm (.failed eintr :: answers) = calm answers :=
  filter_cons_of_neg (by simp)

theorem uvFsBufIter_calm (iovmax : ℕ) (answers : List IoAnswer) (src : ℕ) (lens : List ℕ)
    (off pos : ℤ) (total : ℕ) :
    (uvFsBufIter iovmax answers src lens off pos total).pieces <+:
        (uvFsBufIter iovmax (calm answers) src lens off pos total).pieces ∧
      ((uvFsBufIter iovmax answers src lens off pos total).pieces =
          (uvFsBufIter iovmax (calm answers) src lens off pos total).pieces ↔
        .failed eintr ∉ answers.take
          (uvFsBufIter iovmax (calm answers) src lens off pos total).pieces.length) := by
  fun_induction uvFsBufIter iovmax answers src lens off pos total with
  | case1 answers =>
    rw [uvFsBufIter]
    simp
  | case2 => simp [calm, uvFsBufIter]
  | case3 errno answers src len lens off pos total =>
    by_cases heintr : errno = eintr
    · subst heintr
      rw [calm_cons_eintr]
      generalize (uvFsBufIter iovmax (calm answers) src (len :: lens) off pos total).pieces = ps
      cases ps <;> simp
    · rw [calm_cons_of_ne (by simpa using heintr), uvFsBufIter]
      simp
  | case4 m answers src len lens off pos total asked n hn =>
    have hcalm : (uvFsBufIter iovmax (calm (.done m :: answers)) src (len :: lens) off pos
        total).pieces = [] := by
      exact congrArg BufIter.pieces (if_pos hn)
    rw [hcalm]
    simp
  | case5 m answers src len lens off pos total asked n hn r ih =>
    let t := uvFsBufIter iovmax (calm answers) (src + asked) ((len :: lens).drop iovmax)
      (if off ≥ 0 then off + n else off) (if off ≥ 0 then pos else pos + n) (total + n)
    have hcalm : (uvFsBufIter iovmax (calm (.done m :: answers)) src (len :: lens) off pos
        total).pieces = ⟨src, start off pos, asked, n⟩ :: t.pieces := by
      exact congrArg BufIter.pieces (if_neg hn)
    obtain ⟨hpre, hsame⟩ := ih
    rw [hcalm, length_cons, take_succ_cons, mem_cons, cons_prefix_cons,
      List.cons.injEq, hsame]
    exact ⟨⟨rfl, hpre⟩, by simp [t]⟩

/-! ### Rounds -/

theorem uvFsWork_nil (iovmax : ℕ) (answers : List IoAnswer) (src : ℕ) (off pos : ℤ) :
    uvFsWork iovmax answers src [] off pos = ⟨0, []⟩ := by
  rw [uvFsWork, uvFsBufIter]
  rfl

theorem uvFsWork_eintr (hlens : lens ≠ []) :
    uvFsWork iovmax (.failed eintr :: answers) src lens off pos =
      uvFsWork iovmax answers src (lens.take iovmax) off pos := by
  obtain ⟨len, lens, rfl⟩ := exists_cons_of_ne_nil hlens
  rw [uvFsWork, uvFsBufIter]
  rfl

theorem uvFsWork_of_head (iovmax src : ℕ) (lens : List ℕ) (off pos : ℤ)
    (h : answers.head? ≠ some (.failed eintr)) :
    uvFsWork iovmax answers src lens off pos =
      (uvFsBufIter iovmax answers src lens off pos 0).run := by
  rw [uvFsWork, dif_neg]
  intro hinterrupted
  obtain ⟨rest, rfl, -⟩ := uvFsBufIter_interrupted hinterrupted
  exact h rfl

theorem head?_calm_ne (answers : List IoAnswer) : (calm answers).head? ≠ some (.failed eintr) := by
  intro h
  exact (mem_calm.mp (List.mem_of_head? h)).2 rfl

theorem uvFsBufIter_done (answers : List IoAnswer) (src : ℕ) (lens : List ℕ) (off pos : ℤ)
    (total : ℕ) (hn : min m (lens.take iovmax).sum ≠ 0) :
    ∃ off' pos', uvFsBufIter iovmax (.done m :: answers) src lens off pos total =
      let r := uvFsBufIter iovmax answers (src + (lens.take iovmax).sum) (lens.drop iovmax) off'
        pos' (total + min m (lens.take iovmax).sum)
      { r with pieces := ⟨src, start off pos, (lens.take iovmax).sum,
          min m (lens.take iovmax).sum⟩ :: r.pieces } := by
  cases lens with
  | nil => simp at hn
  | cons len lens =>
    exact ⟨_, _, if_neg hn⟩

theorem uvFsBufIter_done_zero (answers : List IoAnswer) (src : ℕ) (lens : List ℕ) (off pos : ℤ)
    (total : ℕ) (hn : min m (lens.take iovmax).sum = 0) :
    (uvFsBufIter iovmax (.done m :: answers) src lens off pos total).run = ⟨total, []⟩ := by
  have hne : (total : ℤ) ≠ -1 := by omega
  cases lens with
  | nil =>
    exact congrArg (FsRun.mk · []) (if_neg hne)
  | cons len lens =>
    rw [uvFsBufIter]
    rw [if_pos hn]
    exact congrArg (FsRun.mk · []) (if_neg hne)

theorem uvFsBufIter_done_last (answers : List IoAnswer) (src : ℕ) (off pos : ℤ) (total : ℕ)
    (hn : min m (lens.take iovmax).sum ≠ 0) (hlens : lens.length ≤ iovmax) :
    (uvFsBufIter iovmax (.done m :: answers) src lens off pos total).run =
      ⟨(total + min m (lens.take iovmax).sum : ℕ), [⟨src, start off pos, (lens.take iovmax).sum,
        min m (lens.take iovmax).sum⟩]⟩ := by
  obtain ⟨off', pos', hiter⟩ := uvFsBufIter_done answers src lens off pos total hn
  have hne : ((total + min m (lens.take iovmax).sum : ℕ) : ℤ) ≠ -1 := by omega
  rw [hiter, drop_eq_nil_of_le hlens, uvFsBufIter]
  exact congrArg (FsRun.mk · _) (if_neg hne)

theorem uvFsWork_of_length_le (hlens : lens.length ≤ iovmax) :
    uvFsWork iovmax answers src lens off pos = uvFsWork iovmax (calm answers) src lens off pos := by
  obtain rfl | hne := eq_or_ne lens []
  · rw [uvFsWork_nil, uvFsWork_nil]
  induction answers with
  | nil => rfl
  | cons answer answers ih =>
    by_cases heintr : answer = .failed eintr
    · subst heintr
      rw [uvFsWork_eintr hne, calm_cons_eintr, take_of_length_le hlens, ih]
    · rw [calm_cons_of_ne heintr, uvFsWork_of_head _ _ _ _ _ (by simpa using heintr),
        uvFsWork_of_head _ _ _ _ _ (by simpa using heintr)]
      cases answer with
      | failed errno =>
        obtain ⟨len, lens, rfl⟩ := exists_cons_of_ne_nil hne
        rfl
      | done m =>
        by_cases hn : min m (lens.take iovmax).sum = 0
        · rw [uvFsBufIter_done_zero _ _ _ _ _ _ hn, uvFsBufIter_done_zero _ _ _ _ _ _ hn]
        · rw [uvFsBufIter_done_last _ _ _ _ _ hn hlens, uvFsBufIter_done_last _ _ _ _ _ hn hlens]

theorem uvFsWork_take (src : ℕ) (lens : List ℕ) (off pos : ℤ) (hiovmax : 0 < iovmax)
    (h : answers.head? ≠ some (.failed eintr)) :
    (uvFsWork iovmax answers src (lens.take iovmax) off pos).pieces =
        (uvFsWork iovmax answers src lens off pos).pieces.take 1 ∧
      ((uvFsWork iovmax answers src lens off pos).pieces.length ≤ 1 →
        (uvFsWork iovmax answers src (lens.take iovmax) off pos).result =
          (uvFsWork iovmax answers src lens off pos).result) := by
  obtain rfl | hne := eq_or_ne lens []
  · rw [take_nil, uvFsWork_nil]
    exact ⟨rfl, fun _ => rfl⟩
  rw [uvFsWork_of_head _ _ _ _ _ h, uvFsWork_of_head _ _ _ _ _ h]
  obtain ⟨len, lens, rfl⟩ := exists_cons_of_ne_nil hne
  obtain ⟨k, rfl⟩ : ∃ k, iovmax = k + 1 := ⟨iovmax - 1, by omega⟩
  cases answers with
  | nil => exact ⟨rfl, fun _ => rfl⟩
  | cons answer answers =>
    cases answer with
    | failed errno => exact ⟨rfl, fun _ => rfl⟩
    | done m =>
      have htake : ((len :: lens).take (k + 1)).take (k + 1) = (len :: lens).take (k + 1) := by
        rw [take_take, Nat.min_self]
      by_cases hn : min m ((len :: lens).take (k + 1)).sum = 0
      · rw [uvFsBufIter_done_zero _ _ _ _ _ _ hn,
            uvFsBufIter_done_zero _ _ _ _ _ _ (by rwa [htake])]
        exact ⟨rfl, fun _ => rfl⟩
      · rw [uvFsBufIter_done_last _ _ _ _ _ (by rwa [htake]) (length_take_le _ _), htake]
        obtain ⟨off', pos', hiter⟩ :=
          uvFsBufIter_done answers src (len :: lens) off pos 0 hn
        have hresult := uvFsBufIter_run (k + 1) (.done m :: answers) src (len :: lens) off pos
        rw [hiter] at hresult ⊢
        refine ⟨rfl, fun hlength => ?_⟩
        rw [hresult (cons_ne_nil _ _)]
        have hnil := eq_nil_of_length_eq_zero (Nat.le_zero.mp (Nat.le_of_succ_le_succ hlength))
        rw [total_cons, hnil]
        simp [Transfers.total]

theorem uvFsBufIter_run_calm (iovmax src : ℕ) (lens : List ℕ) (off pos : ℤ)
    (h : answers.head? ≠ some (.failed eintr))
    (hpieces : (uvFsBufIter iovmax answers src lens off pos 0).pieces =
      (uvFsBufIter iovmax (calm answers) src lens off pos 0).pieces) :
    (uvFsBufIter iovmax answers src lens off pos 0).run.result =
      (uvFsBufIter iovmax (calm answers) src lens off pos 0).run.result := by
  by_cases hnone : (uvFsBufIter iovmax answers src lens off pos 0).pieces = []
  · cases lens with
    | nil => rw [uvFsBufIter, uvFsBufIter]; rfl
    | cons len lens =>
      cases answers with
      | nil => rfl
      | cons answer answers =>
        have hne : answer ≠ .failed eintr := by simpa using h
        rw [calm_cons_of_ne hne]
        cases answer with
        | failed errno => rfl
        | done m =>
          by_cases hn : min m ((len :: lens).take iovmax).sum = 0
          · rw [uvFsBufIter_done_zero _ _ _ _ _ _ hn, uvFsBufIter_done_zero _ _ _ _ _ _ hn]
          · obtain ⟨off', pos', hiter⟩ := uvFsBufIter_done answers src (len :: lens) off pos 0 hn
            rw [hiter] at hnone
            exact absurd hnone (cons_ne_nil _ _)
  · rw [uvFsBufIter_run _ _ _ _ _ _ hnone, uvFsBufIter_run _ _ _ _ _ _ (by rwa [← hpieces]),
        hpieces]

theorem uvFsWork_calm (hiovmax : 0 < iovmax) (answers : List IoAnswer) (src : ℕ) (lens : List ℕ)
    (off pos : ℤ) :
    (uvFsWork iovmax answers src lens off pos).pieces <+:
        (uvFsWork iovmax (calm answers) src lens off pos).pieces ∧
      ((uvFsWork iovmax answers src lens off pos).pieces =
          (uvFsWork iovmax (calm answers) src lens off pos).pieces →
        (uvFsWork iovmax answers src lens off pos).result =
          (uvFsWork iovmax (calm answers) src lens off pos).result) ∧
      ((uvFsWork iovmax answers src lens off pos).pieces =
          (uvFsWork iovmax (calm answers) src lens off pos).pieces ↔
        (uvFsWork iovmax (calm answers) src lens off pos).pieces.length ≤ 1 ∨
          .failed eintr ∉ answers.take
            (uvFsWork iovmax (calm answers) src lens off pos).pieces.length) := by
  obtain rfl | hne := eq_or_ne lens []
  · rw [uvFsWork_nil, uvFsWork_nil]
    simp
  by_cases hhead : answers.head? = some (.failed eintr)
  · obtain ⟨rest, rfl⟩ : ∃ rest, answers = .failed eintr :: rest := by
      exact ⟨answers.tail, (List.cons_head?_tail hhead).symm⟩
    obtain ⟨hpieces, hresult⟩ := uvFsWork_take src lens off pos hiovmax (head?_calm_ne rest)
    rw [uvFsWork_eintr hne, calm_cons_eintr, uvFsWork_of_length_le (length_take_le _ _),
      hpieces]
    generalize uvFsWork iovmax (calm rest) src lens off pos = p at hresult ⊢
    rw [take_eq_self_iff]
    constructor
    · exact take_prefix _ _
    refine ⟨hresult, .inl, ?_⟩
    rintro (hle | hnot)
    · exact hle
    · by_contra hlt
      obtain ⟨k, hk⟩ : ∃ k, p.pieces.length = k + 1 := ⟨p.pieces.length - 1, by omega⟩
      rw [hk] at hnot
      exact hnot mem_cons_self
  · have hpieces := uvFsBufIter_calm iovmax answers src lens off pos 0
    have hresult := uvFsBufIter_run_calm iovmax src lens off pos hhead
    rw [uvFsWork_of_head _ _ _ _ _ hhead, uvFsWork_of_head _ _ _ _ _ (head?_calm_ne answers)]
    refine ⟨hpieces.1, hresult, ?_⟩
    refine hpieces.2.trans ⟨.inr, ?_⟩
    rintro (hle | hnot)
    · intro hmem
      have hfirst := take_subset_take_left answers hle hmem
      rw [take_one, Option.mem_toList] at hfirst
      exact hhead hfirst
    · exact hnot

theorem groupsMoved_pos (iovmax : ℕ) (answers : List IoAnswer) (lens : List ℕ) :
    ∀ g ∈ groupsMoved iovmax answers lens, 0 < g.2 := by
  fun_induction groupsMoved iovmax answers lens with
  | case1 => simp
  | case2 m answers lens asked hn ih => exact forall_mem_cons.mpr ⟨Nat.pos_of_ne_zero hn, ih⟩
  | case3 => simp

theorem noGap_iff {ps : List Piece} {gs : List (ℕ × ℕ)}
    (hgs : ps.map (fun p => (p.asked, p.count)) = gs) (hpos : ∀ g ∈ gs, 0 < g.2) :
    NoGap ps ↔ gs.Pairwise fun g _ => g.2 = g.1 := by
  subst hgs
  rw [pairwise_map]
  apply List.Pairwise.iff_of_mem
  intro p q _ hq
  exact ⟨fun h => h (hpos _ (mem_map_of_mem hq)), fun h _ => h⟩

theorem eq_of_bytes_eq {ps qs : List Piece} (hpre : qs <+: ps) (hpos : ∀ p ∈ ps, 0 < p.count)
    (h : bytes qs = bytes ps) : qs = ps := by
  obtain ⟨rest, rfl⟩ := hpre
  have hzero : Transfers.total rest = 0 := by
    have hlength := congrArg List.length h
    rw [length_bytes, length_bytes, total_append] at hlength
    omega
  cases rest with
  | nil => exact (append_nil qs).symm
  | cons p rest =>
    have hlt := hpos p (mem_append_right qs mem_cons_self)
    rw [total_cons] at hzero
    omega

theorem uvFsBufIter_exact_iff (iovmax : ℕ) (answers : List IoAnswer) (src : ℕ) (lens : List ℕ)
    (off pos : ℤ) :
    (0 ≤ (uvFsBufIter iovmax answers src lens off pos 0).run.result →
      bytes (uvFsBufIter iovmax answers src lens off pos 0).pieces = straight src (start off pos)
        (uvFsBufIter iovmax answers src lens off pos 0).run.result.toNat) ↔
      NoGap (uvFsBufIter iovmax answers src lens off pos 0).pieces := by
  by_cases hnone : (uvFsBufIter iovmax answers src lens off pos 0).pieces = []
  · rw [Int.toNat_of_nonpos (uvFsBufIter_run_nonpos hnone), hnone]
    exact iff_of_true (fun _ => rfl) List.Pairwise.nil
  · rw [uvFsBufIter_run _ _ _ _ _ _ hnone, Int.toNat_natCast,
      ← bytes_eq_straight_total_iff (uvFsBufIter_inTurn iovmax answers src lens off pos 0)]
    exact ⟨fun h => h (Int.natCast_nonneg _), fun h _ => h⟩

theorem bufIterates_iff (hiovmax : 0 < iovmax) (answers : List IoAnswer) (lens : List ℕ)
    (off pos : ℤ) :
    Iterates iovmax answers lens off pos ↔
      ((groupsMoved iovmax (calm answers) lens).Pairwise fun g _ => g.2 = g.1) ∧
        ((groupsMoved iovmax (calm answers) lens).length ≤ 1 ∨
          .failed eintr ∉ answers.take (groupsMoved iovmax (calm answers) lens).length) := by
  obtain ⟨hpre, hresult, hsame⟩ := uvFsWork_calm hiovmax answers 0 lens off pos
  have hrun := uvFsWork_of_head iovmax 0 lens off pos (head?_calm_ne answers)
  have hgroups := uvFsBufIter_pieces iovmax (calm answers) 0 lens off pos 0
  have hpos := groupsMoved_pos iovmax (calm answers) lens
  have hlength : (groupsMoved iovmax (calm answers) lens).length =
      (uvFsWork iovmax (calm answers) 0 lens off pos).pieces.length := by
    rw [← hgroups, List.length_map, hrun]
    rfl
  have hexact := uvFsBufIter_exact_iff iovmax (calm answers) 0 lens off pos
  rw [← noGap_iff hgroups hpos, ← hexact, hlength, ← hsame]
  constructor
  · rintro ⟨hbytes, hres, hmoved⟩
    have hcount : ∀ p ∈ (uvFsWork iovmax (calm answers) 0 lens off pos).pieces, 0 < p.count := by
      intro p hp
      rw [hrun] at hp
      refine hpos (p.asked, p.count) ?_
      rw [← hgroups]
      exact List.mem_map_of_mem hp
    have hpieces := eq_of_bytes_eq hpre hcount hmoved
    rw [hres, hpieces, hrun] at hbytes
    exact ⟨hbytes, hpieces⟩
  · rintro ⟨hbytes, hpieces⟩
    have hres := hresult hpieces
    refine ⟨?_, hres, congrArg bytes hpieces⟩
    rw [hres, hpieces, hrun]
    exact hbytes

/-- Seventeen bytes in groups of sixteen, each in a buffer of its own: where sixteen are read and
then one, the request is right, and it stays right with an interruption at the end. -/
theorem bufIterates_seventeen :
    Iterates 16 [.done 16, .done 1, .failed eintr] (List.replicate 17 1) 0 0 :=
  (bufIterates_iff (by decide) [.done 16, .done 1, .failed eintr] (List.replicate 17 1) 0 0).mpr
    (by decide)

/-- Five bytes of the first group are read, and one of the second; and the first call is
interrupted, after which the second group is not read. -/
theorem not_bufIterates : ¬Iterates 16 [.done 5, .done 1] (List.replicate 17 1) 0 0 ∧
    ¬Iterates 16 [.failed eintr, .done 16, .done 1] (List.replicate 17 1) 0 0 := by
  constructor
  · rintro ⟨hexact, -, -⟩
    rw [uvFsWork_of_head _ _ _ _ _ (by decide)] at hexact
    exact absurd (hexact (by decide)) (by decide)
  · rintro ⟨-, hresult, -⟩
    rw [uvFsWork_eintr (by decide), uvFsWork_of_head _ _ _ _ _ (by decide),
        uvFsWork_of_head _ _ _ _ _ (by decide)]
      at hresult
    exact absurd hresult (by decide)

end LibuvWorks.Unix
