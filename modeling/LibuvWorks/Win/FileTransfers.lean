import LibuvWorks.Lib.Transfers

/-!
# Reads, writes and copies of files: `win/fs.c`

`fs__read` and `fs__write` give the buffers to the system one by one and count the bytes in a
`DWORD`; `fs__sendfile` reads blocks from one file, writes them to another one and counts the bytes
in an `int`.
-/
namespace LibuvWorks.Win

open Transfers List Nat Int

def errorInvalidHandle : ℕ := 6

def errorHandleEof : ℕ := 38

inductive FileAnswer where
  | done (n : ℕ) : FileAnswer
  | failed (error : ℕ) : FileAnswer

/-- `req->result`, or the error that it is translated from -/
inductive FileResult where
  | count (n : ℤ) : FileResult
  | error (error : ℕ) : FileResult

/-- The result of a request, what was moved for it, and the errors that the system returned -/
structure FileRun where
  result : FileResult
  pieces : List Piece
  errors : List ℕ

/-! ### Reads and writes -/

structure FileLoop where
  error : Option ℕ
  bytes : ℕ
  pieces : List Piece

/-- The loop over buffers of the lengths `lens`, the first of which is at `src` in all of them,
where `pos` is the file's own position; the system answers at most what it was asked for. -/
def fileLoop (answers : ℕ → FileAnswer) (offset : ℤ) :
    List ℕ → (index src : ℕ) → (pos : ℤ) → (bytes : ℕ) → FileLoop
  | [], _, _, _, bytes => ⟨none, bytes, []⟩
  | len :: lens, index, src, pos, bytes =>
    match answers index with
    | .failed error => ⟨some error, bytes, []⟩
    | .done m =>
      let n := min m len
      let r := fileLoop answers offset lens (index + 1) (src + len) (pos + n)
        ((bytes + n) % 2 ^ 32)
      { r with pieces := ⟨src, if offset ≠ -1 then offset + bytes else pos, len, n⟩ :: r.pieces }

/-- What a request does, where `handle` is what belongs to its file descriptor; a failure with no
byte moved can still be the end of the file. -/
def fileRequest (isEof : ℕ → Bool) (fd : ℤ) (handle : Option ℕ) (answers : ℕ → FileAnswer)
    (offset pos : ℤ) (lens : List ℕ) : FileRun :=
  if fd = -1 ∨ handle = none then ⟨.error errorInvalidHandle, [], []⟩
  else
    let r := fileLoop answers offset lens 0 0 pos 0
    match r.error with
    | none => ⟨.count r.bytes, r.pieces, []⟩
    | some error =>
      if r.bytes > 0 ∨ isEof error = true then ⟨.count r.bytes, r.pieces, [error]⟩
      else ⟨.error error, r.pieces, [error]⟩

def fsRead : ℤ → Option ℕ → (ℕ → FileAnswer) → ℤ → ℤ → List ℕ → FileRun :=
  fileRequest (fun error => error = errorHandleEof)

def fsWrite : ℤ → Option ℕ → (ℕ → FileAnswer) → ℤ → ℤ → List ℕ → FileRun :=
  fileRequest (fun _ => false)

/-! ### Copies -/

/-- What the loop of `fs__sendfile` leaves. -/
structure SendLoop where
  result : ℤ
  pieces : List Piece
  errors : List ℕ

/-- The loop of `fs__sendfile`, with the answers to each read and to the write after it. Once there
are no answers left, the file that is read is at its end. -/
def sendLoop (bufSize : ℕ) :
    List (FileAnswer × FileAnswer) → (src : ℕ) → (dst : ℤ) → (length : ℕ) → (result : ℤ) → SendLoop
  | [], _, _, _, result => ⟨result, [], []⟩
  | (read, write) :: answers, src, dst, length, result =>
    if length = 0 then ⟨result, [], []⟩
    else
      match read with
      | .failed error => ⟨-1, [], [error]⟩
      | .done m =>
        let n := min m (min length bufSize)
        if n = 0 then ⟨result, [], []⟩
        else
          match write with
          | .failed error => ⟨-1, [], [error]⟩
          | .done k =>
            let w := min k n
            let r := sendLoop bufSize answers (src + n) (dst + w) (length - n)
              ((result + w).bmod (2 ^ 32))
            { r with pieces := ⟨src, dst, n, w⟩ :: r.pieces }

def maxBufSize : ℕ := 65536

/-- `fs__sendfile`, where `seek` is the error of `_lseeki64`, if it fails, `pos` is the position of
the file that is written, and `doserrno` is what the last error was before -/
def fsSendfile (seek : Option ℕ) (answers : List (FileAnswer × FileAnswer)) (offset pos : ℤ)
    (length doserrno : ℕ) : FileRun :=
  let r : SendLoop := match if offset ≠ -1 then seek else none with
    | some error => ⟨-1, [], [error]⟩
    | none => sendLoop (min length maxBufSize) answers 0 pos length 0
  ⟨if r.result = -1 then .error (r.errors.headD doserrno) else .count r.result, r.pieces, r.errors⟩

/-! ### What is right -/

/-- The result is the number of bytes that were moved, they are the first ones and they are in their
places; and an error is one that the system returned, where there is a file. -/
structure Transferred (isFile : Prop) (dst : ℤ) (r : FileRun) : Prop where
  exact : ∀ n, r.result = .count n → 0 ≤ n ∧ bytes r.pieces = straight 0 dst n.toNat
  error : isFile → ∀ error, r.result = .error error → error ∈ r.errors

structure Sent (dst : ℤ) (r : FileRun) : Prop extends Transferred True dst r where
  kept : ∀ n, r.result = .count n → ∀ p ∈ r.pieces, p.count = p.asked

/-- The buffers before the first failure: how long they are, and how much of them is moved -/
def transfers (answers : ℕ → FileAnswer) : List ℕ → (index : ℕ) → List (ℕ × ℕ)
  | [], _ => []
  | len :: lens, index =>
    match answers index with
    | .failed _ => []
    | .done m => (len, min m len) :: transfers answers lens (index + 1)

/-- The first failure -/
def failure (answers : ℕ → FileAnswer) : List ℕ → (index : ℕ) → Option ℕ
  | [], _ => none
  | _ :: lens, index =>
    match answers index with
    | .failed error => some error
    | .done _ => failure answers lens (index + 1)

/-- The blocks that are read and written: how long they are, and how much of them is written -/
def blocks (bufSize : ℕ) : List (FileAnswer × FileAnswer) → (length : ℕ) → List (ℕ × ℕ)
  | (.done m, .done k) :: answers, length =>
    let n := min m (min length bufSize)
    if n = 0 then [] else (n, min k n) :: blocks bufSize answers (length - n)
  | _, _ => []

/-- The first failure of a read or a write -/
def sendFailure (bufSize : ℕ) : List (FileAnswer × FileAnswer) → (length : ℕ) → Option ℕ
  | [], _ => none
  | (read, write) :: answers, length =>
    if length = 0 then none
    else
      match read with
      | .failed error => some error
      | .done m =>
        let n := min m (min length bufSize)
        if n = 0 then none
        else
          match write with
          | .failed error => some error
          | .done _ => sendFailure bufSize answers (length - n)

variable {isEof : ℕ → Bool} {fd : ℤ} {handle : Option ℕ} {answers : ℕ → FileAnswer}
  {offset pos : ℤ} {lens : List ℕ} {index src sent : ℕ} {ps : List Piece} {error : ℕ}
  {write : FileAnswer}

theorem fileLoop_pieces (answers : ℕ → FileAnswer) (offset : ℤ) (lens : List ℕ) (index src : ℕ)
    (pos : ℤ) (sent : ℕ) :
    (fileLoop answers offset lens index src pos sent).pieces.map (fun p => (p.asked, p.count)) =
        transfers answers lens index ∧
      (fileLoop answers offset lens index src pos sent).error = failure answers lens index := by
  induction lens generalizing index src pos sent with
  | nil => exact ⟨rfl, rfl⟩
  | cons len lens ih =>
    rw [fileLoop, transfers, failure]
    cases answers index with
    | failed error => exact ⟨rfl, rfl⟩
    | done m =>
      obtain ⟨hpieces, herror⟩ := ih (index + 1) (src + len) (pos + (min m len : ℕ))
        ((sent + min m len) % 2 ^ 32)
      refine ⟨?_, herror⟩
      rw [← hpieces]
      rfl

theorem fileLoop_bytes (answers : ℕ → FileAnswer) (offset : ℤ) (lens : List ℕ) (index src : ℕ)
    (pos : ℤ) (hsent : sent < 2 ^ 32) :
    (fileLoop answers offset lens index src pos sent).bytes =
      (sent + total (fileLoop answers offset lens index src pos sent).pieces) % 2 ^ 32 := by
  induction lens generalizing index src pos sent with
  | nil => exact (mod_eq_of_lt hsent).symm
  | cons len lens ih =>
    rw [fileLoop]
    cases answers index with
    | failed error => exact (mod_eq_of_lt hsent).symm
    | done m =>
      dsimp only
      rw [ih _ _ _ (mod_lt _ (by decide)), total_cons]
      dsimp only
      omega

theorem fileLoop_inTurn (answers : ℕ → FileAnswer) (offset : ℤ) (lens : List ℕ) (index src : ℕ)
    (pos : ℤ) (sent : ℕ)
    (hsum : sent + total (fileLoop answers offset lens index src pos sent).pieces < 2 ^ 32) :
    InTurn src (if offset ≠ -1 then offset + sent else pos)
      (fileLoop answers offset lens index src pos sent).pieces := by
  induction lens generalizing index src pos sent with
  | nil => trivial
  | cons len lens ih =>
    rw [fileLoop] at hsum ⊢
    cases hanswer : answers index with
    | failed error => trivial
    | done m =>
      rw [hanswer] at hsum
      dsimp only at hsum ⊢
      rw [total_cons] at hsum
      dsimp only at hsum
      have hmod : (sent + min m len) % 2 ^ 32 = sent + min m len := mod_eq_of_lt (by omega)
      have hnext : (if offset ≠ -1 then offset + ((sent + min m len : ℕ) : ℤ) else
          pos + (min m len : ℕ)) =
          (if offset ≠ -1 then offset + (sent : ℤ) else pos) + (min m len : ℕ) := by
        by_cases hoffset : offset ≠ -1
        · rw [if_pos hoffset, if_pos hoffset]
          omega
        · rw [if_neg hoffset, if_neg hoffset]
      rw [hmod] at hsum ⊢
      have hrest := ih (index + 1) (src + len) (pos + (min m len : ℕ)) (sent + min m len)
        (by omega)
      rw [hnext] at hrest
      exact ⟨rfl, rfl, Nat.min_le_right m len, hrest⟩

theorem fileLoop_exact_iff {r : FileLoop} {start : ℤ} (hbytes : r.bytes = total r.pieces % 2 ^ 32)
    (hturn : total r.pieces < 2 ^ 32 → InTurn 0 start r.pieces) :
    bytes r.pieces = straight 0 start r.bytes ↔ total r.pieces < 2 ^ 32 ∧ NoGap r.pieces := by
  constructor
  · intro h
    have htotal := total_eq_of_bytes h
    have hlt : total r.pieces < 2 ^ 32 := by omega
    refine ⟨hlt, (bytes_eq_straight_total_iff (hturn hlt)).mp ?_⟩
    rw [htotal]
    exact h
  · rintro ⟨hlt, hgap⟩
    rw [hbytes, mod_eq_of_lt hlt]
    exact (bytes_eq_straight_total_iff (hturn hlt)).mpr hgap

/-- The condition for a request: the counts of the buffers and the first failure -/
def FileFits (isEof : ℕ → Bool) (fd : ℤ) (handle : Option ℕ) (answers : ℕ → FileAnswer)
    (lens : List ℕ) : Prop :=
  (fd = -1 ∨ handle = none) ∨
    (((transfers answers lens 0).map Prod.snd).sum < 2 ^ 32 ∧
      (transfers answers lens 0).Pairwise fun t u => 0 < u.2 → t.2 = t.1) ∨
    (∃ error, failure answers lens 0 = some error ∧ isEof error = false) ∧
      ((transfers answers lens 0).map Prod.snd).sum % 2 ^ 32 = 0

theorem transferred_count_iff {isFile : Prop} {dst : ℤ} {b : ℕ} {errors : List ℕ} :
    Transferred isFile dst ⟨.count b, ps, errors⟩ ↔ bytes ps = straight 0 dst b := by
  constructor
  · intro h
    exact (h.exact b rfl).2
  · intro h
    refine ⟨fun n hn => ?_, fun _ error habs => (nomatch habs)⟩
    obtain rfl := FileResult.count.inj hn
    exact ⟨natCast_nonneg b, h⟩

theorem fileRequest_iff (isEof : ℕ → Bool) (fd : ℤ) (handle : Option ℕ)
    (answers : ℕ → FileAnswer) (offset pos : ℤ) (lens : List ℕ) :
    Transferred (fd ≠ -1 ∧ handle ≠ none) (if offset ≠ -1 then offset else pos)
        (fileRequest isEof fd handle answers offset pos lens) ↔
      FileFits isEof fd handle answers lens := by
  by_cases hfile : fd = -1 ∨ handle = none
  · rw [fileRequest, if_pos hfile]
    refine iff_of_true ⟨fun n habs => (nomatch habs), ?_⟩ (.inl hfile)
    rintro ⟨hfd, hhandle⟩
    exact absurd hfile (not_or.mpr ⟨hfd, hhandle⟩)
  · rw [fileRequest, if_neg hfile]
    obtain ⟨hpieces, herror⟩ := fileLoop_pieces answers offset lens 0 0 pos 0
    have hbytes := fileLoop_bytes answers offset lens 0 0 pos (show 0 < 2 ^ 32 by decide)
    have hturn := fileLoop_inTurn answers offset lens 0 0 pos 0
    generalize fileLoop answers offset lens 0 0 pos 0 = r at hpieces herror hbytes hturn ⊢
    rw [Nat.zero_add] at hbytes hturn
    have hstart : (if offset ≠ -1 then offset + ((0 : ℕ) : ℤ) else pos) =
        if offset ≠ -1 then offset else pos := by
      rw [Int.natCast_zero, Int.add_zero]
    rw [hstart] at hturn
    have hsum : ((transfers answers lens 0).map Prod.snd).sum = total r.pieces := by
      rw [← hpieces, map_map]
      rfl
    have hgap : ((transfers answers lens 0).Pairwise fun t u => 0 < u.2 → t.2 = t.1) ↔
        NoGap r.pieces := by
      rw [← hpieces, pairwise_map]
      rfl
    unfold FileFits
    rw [or_iff_right hfile, hsum, hgap, ← fileLoop_exact_iff hbytes hturn, ← hbytes, ← herror]
    dsimp only
    cases herror' : r.error with
    | none =>
      dsimp only
      rw [transferred_count_iff]
      simp
    | some error =>
      dsimp only
      by_cases hcounts : r.bytes > 0 ∨ isEof error = true
      · rw [if_pos hcounts, transferred_count_iff]
        refine (or_iff_left ?_).symm
        rintro ⟨⟨e, he, heof⟩, hzero⟩
        obtain rfl := Option.some.inj he
        obtain hpos | habs := hcounts
        · omega
        · exact absurd (heof.symm.trans habs) (by decide)
      · rw [if_neg hcounts]
        obtain ⟨hzero, heof⟩ := not_or.mp hcounts
        refine iff_of_true ⟨fun n habs => (nomatch habs), fun _ e he => ?_⟩
          (.inr ⟨⟨error, rfl, ?_⟩, ?_⟩)
        · obtain rfl := FileResult.error.inj he
          exact mem_singleton_self error
        · exact eq_false_of_ne_true heof
        · omega

/-! ### Copies -/

variable {bufSize length doserrno : ℕ} {sends : List (FileAnswer × FileAnswer)} {dst result : ℤ}
  {seek : Option ℕ}

theorem sendLoop_inTurn (bufSize : ℕ) (sends : List (FileAnswer × FileAnswer)) (src : ℕ) (dst : ℤ)
    (length : ℕ) (result : ℤ) :
    InTurn src dst (sendLoop bufSize sends src dst length result).pieces := by
  fun_induction sendLoop bufSize sends src dst length result with
  | case1 | case2 | case3 | case4 | case5 => trivial
  | case6 answers src dst length result hlength m n hn k w r ih =>
    exact ⟨rfl, rfl, Nat.min_le_right k n, ih⟩

theorem sendFailure_read (hlength : length ≠ 0) :
    sendFailure bufSize ((.failed error, write) :: sends) length = some error := by
  rw [sendFailure, if_neg hlength]

theorem sendFailure_empty (hlength : length ≠ 0) {m : ℕ} (hn : min m (min length bufSize) = 0) :
    sendFailure bufSize ((.done m, write) :: sends) length = none := by
  rw [sendFailure, if_neg hlength]
  exact if_pos hn

theorem sendFailure_failed (hlength : length ≠ 0) {m : ℕ} (hn : min m (min length bufSize) ≠ 0) :
    sendFailure bufSize ((.done m, .failed error) :: sends) length = some error := by
  rw [sendFailure, if_neg hlength]
  exact if_neg hn

theorem sendFailure_done (hlength : length ≠ 0) {m k : ℕ}
    (hn : min m (min length bufSize) ≠ 0) :
    sendFailure bufSize ((.done m, .done k) :: sends) length =
      sendFailure bufSize sends (length - min m (min length bufSize)) := by
  rw [sendFailure, if_neg hlength]
  exact if_neg hn

theorem sendLoop_errors (bufSize : ℕ) (sends : List (FileAnswer × FileAnswer)) (src : ℕ) (dst : ℤ)
    (length : ℕ) (result : ℤ) :
    (sendLoop bufSize sends src dst length result).errors =
        (sendFailure bufSize sends length).toList ∧
      (sendFailure bufSize sends length ≠ none →
        (sendLoop bufSize sends src dst length result).result = -1) := by
  fun_induction sendLoop bufSize sends src dst length result with
  | case1 | case2 => exact ⟨rfl, fun h => absurd rfl h⟩
  | case3 _ _ _ _ _ _ hlength error =>
    rw [sendFailure_read hlength]
    exact ⟨rfl, fun _ => rfl⟩
  | case4 _ _ _ _ _ _ hlength m n hn =>
    rw [sendFailure_empty hlength hn]
    exact ⟨rfl, fun h => absurd rfl h⟩
  | case5 _ _ _ _ _ hlength m n hn error =>
    rw [sendFailure_failed hlength hn]
    exact ⟨rfl, fun _ => rfl⟩
  | case6 answers src dst length result hlength m n hn k w r ih =>
    rw [sendFailure_done hlength hn]
    exact ih

theorem blocks_empty {m : ℕ} (hn : min m (min length bufSize) = 0) :
    blocks bufSize ((.done m, write) :: sends) length = [] := by
  cases write with
  | done k =>
    rw [blocks]
    exact if_pos hn
  | failed error => rfl

theorem blocks_zero (bufSize : ℕ) (sends : List (FileAnswer × FileAnswer)) :
    blocks bufSize sends 0 = [] := by
  match sends with
  | [] | (.failed error, write) :: sends => rfl
  | (.done m, write) :: sends => exact blocks_empty (by rw [Nat.zero_min, Nat.min_zero])

/-- Where nothing fails, the result is the number of bytes that are written, as an `int`. -/
theorem sendLoop_ends (bufSize : ℕ) (sends : List (FileAnswer × FileAnswer)) (src : ℕ) (dst : ℤ)
    (length : ℕ) (result : ℤ) (hfail : sendFailure bufSize sends length = none)
    (hresult : result.bmod (2 ^ 32) = result) :
    (sendLoop bufSize sends src dst length result).pieces.map (fun p => (p.asked, p.count)) =
        blocks bufSize sends length ∧
      (sendLoop bufSize sends src dst length result).result =
        (result + total (sendLoop bufSize sends src dst length result).pieces).bmod (2 ^ 32) := by
  fun_induction sendLoop bufSize sends src dst length result with
  | case1 => exact ⟨rfl, by simpa [total] using hresult.symm⟩
  | case2 =>
    rw [blocks_zero]
    exact ⟨rfl, by simpa [total] using hresult.symm⟩
  | case3 _ _ _ _ _ _ hlength error =>
    rw [sendFailure_read hlength] at hfail
    cases hfail
  | case4 _ _ _ _ _ _ hlength m n hn =>
    rw [blocks_empty hn]
    exact ⟨rfl, by simpa [total] using hresult.symm⟩
  | case5 _ _ _ _ _ hlength m n hn error =>
    rw [sendFailure_failed hlength hn] at hfail
    cases hfail
  | case6 answers src dst length result hlength m n hn k w r ih =>
    rw [sendFailure_done hlength hn] at hfail
    obtain ⟨hblocks, hsum⟩ := ih hfail (bmod_bmod)
    constructor
    · rw [blocks, ← hblocks]
      exact (if_neg hn).symm
    · rw [total_cons]
      dsimp only
      rw [hsum, bmod_add_bmod, natCast_add, Int.add_assoc]

/-- The condition for a copy -/
def SendFits (seek : Option ℕ) (sends : List (FileAnswer × FileAnswer)) (offset : ℤ)
    (length : ℕ) : Prop :=
  (offset ≠ -1 ∧ seek ≠ none) ∨ sendFailure (min length maxBufSize) sends length ≠ none ∨
    ((blocks (min length maxBufSize) sends length).map Prod.snd).sum < 2 ^ 31 ∧
      ∀ b ∈ blocks (min length maxBufSize) sends length, b.2 = b.1

theorem sent_error {errors : List ℕ} (h : error ∈ errors) :
    Sent dst ⟨.error error, ps, errors⟩ := by
  refine ⟨⟨fun n habs => (nomatch habs), fun _ e he => ?_⟩, fun n habs => (nomatch habs)⟩
  obtain rfl := FileResult.error.inj he
  exact h

/-- Without a failure, a copy is right if and only if the count fits and all that was read was
written. -/
theorem sent_count_iff (hturn : InTurn 0 dst ps) {n : ℤ} (hn : n = (total ps : ℤ).bmod (2 ^ 32)) :
    Sent dst ⟨if n = -1 then .error doserrno else .count n, ps, []⟩ ↔
      total ps < 2 ^ 31 ∧ ∀ p ∈ ps, p.count = p.asked := by
  have hlt : n < 2 ^ 31 := by
    rw [hn]
    exact bmod_lt (by decide)
  constructor
  · rintro ⟨⟨hexact, herror⟩, hkept⟩
    have hne : n ≠ -1 := by
      intro habs
      exact absurd (herror trivial doserrno (if_pos habs)) not_mem_nil
    obtain ⟨hnonneg, hbytes⟩ := hexact n (if_neg hne)
    have htotal : total ps = n.toNat := total_eq_of_bytes hbytes
    exact ⟨by omega, hkept n (if_neg hne)⟩
  · rintro ⟨htotal, hkept⟩
    have hcount : n = total ps := by
      have hhalf : (((2 ^ 32 : ℕ) : ℤ) + 1) / 2 = 2 ^ 31 := by decide
      rw [hn]
      refine bmod_eq_of_le (by omega) ?_
      rw [hhalf]
      omega
    have hgap : NoGap ps := pairwise_of_forall_mem_list fun p hp q _ _ => hkept p hp
    rw [if_neg (by omega), hcount]
    refine ⟨transferred_count_iff.mpr ((bytes_eq_straight_total_iff hturn).mpr hgap), ?_⟩
    exact fun _ _ => hkept

theorem fsSendfile_iff (seek : Option ℕ) (sends : List (FileAnswer × FileAnswer))
    (offset pos : ℤ) (length doserrno : ℕ) :
    Sent pos (fsSendfile seek sends offset pos length doserrno) ↔
      SendFits seek sends offset length := by
  rw [fsSendfile, SendFits]
  by_cases hseek : offset ≠ -1 ∧ seek ≠ none
  · obtain ⟨hoffset, hsome⟩ := hseek
    obtain ⟨error, rfl⟩ := Option.ne_none_iff_exists'.mp hsome
    rw [if_pos hoffset]
    exact iff_of_true (sent_error (mem_singleton_self error)) (.inl ⟨hoffset, hsome⟩)
  · have hnone : (if offset ≠ -1 then seek else none) = none := by
      by_cases hoffset : offset ≠ -1
      · rw [if_pos hoffset]
        by_contra hsome
        exact hseek ⟨hoffset, hsome⟩
      · exact if_neg hoffset
    rw [hnone, or_iff_right hseek]
    dsimp only
    obtain ⟨herrors, hresult⟩ := sendLoop_errors (min length maxBufSize) sends 0 pos length 0
    have hturn := sendLoop_inTurn (min length maxBufSize) sends 0 pos length 0
    have hends := sendLoop_ends (min length maxBufSize) sends 0 pos length 0
    generalize sendLoop (min length maxBufSize) sends 0 pos length 0 = r at *
    cases hfail : sendFailure (min length maxBufSize) sends length with
    | some error =>
      rw [hfail] at herrors hresult
      rw [herrors, hresult (by simp)]
      exact iff_of_true (sent_error (mem_singleton_self error)) (.inl (by simp))
    | none =>
      rw [hfail] at herrors
      obtain ⟨hblocks, hsum⟩ := hends hfail rfl
      rw [Int.zero_add] at hsum
      have htotal : ((blocks (min length maxBufSize) sends length).map Prod.snd).sum =
          total r.pieces := by
        rw [← hblocks, map_map]
        rfl
      rw [herrors, or_iff_right (not_not.mpr rfl), htotal, ← hblocks, forall_mem_map]
      exact sent_count_iff hturn hsum

/-- Each of the three functions is right exactly where its counts fit, nothing is moved after a
short transfer, and a copy writes all that it reads. -/
theorem transferred_iff (fd : ℤ) (handle : Option ℕ) (answers : ℕ → FileAnswer)
    (offset pos : ℤ) (lens : List ℕ) (seek : Option ℕ) (sends : List (FileAnswer × FileAnswer))
    (length doserrno : ℕ) :
    (Transferred (fd ≠ -1 ∧ handle ≠ none) (if offset ≠ -1 then offset else pos)
        (fsRead fd handle answers offset pos lens) ↔
      FileFits (fun error => error = errorHandleEof) fd handle answers lens) ∧
    (Transferred (fd ≠ -1 ∧ handle ≠ none) (if offset ≠ -1 then offset else pos)
        (fsWrite fd handle answers offset pos lens) ↔
      FileFits (fun _ => false) fd handle answers lens) ∧
    (Sent pos (fsSendfile seek sends offset pos length doserrno) ↔
      SendFits seek sends offset length) :=
  ⟨fileRequest_iff (fun error => error = errorHandleEof) fd handle answers offset pos lens,
    fileRequest_iff (fun _ => false) fd handle answers offset pos lens,
    fsSendfile_iff seek sends offset pos length doserrno⟩

/-- A read and a write of two buffers of ten bytes, of the first of which five are moved, and a copy
of ten bytes of which four are written -/
theorem not_transferred :
    ¬Transferred (3 ≠ -1 ∧ some 7 ≠ none) 0
      (fsRead 3 (some 7) (fun i => .done (if i = 0 then 5 else 10)) 0 0 [10, 10]) ∧
    ¬Transferred (3 ≠ -1 ∧ some 7 ≠ none) 0
      (fsWrite 3 (some 7) (fun i => .done (if i = 0 then 5 else 10)) 0 0 [10, 10]) ∧
    ¬Sent 0 (fsSendfile none [(.done 10, .done 4)] (-1) 0 10 0) := by
  refine ⟨fun h => ?_, fun h => ?_, fun h => ?_⟩
  · exact absurd (h.exact 15 rfl).2 (by decide)
  · exact absurd (h.exact 15 rfl).2 (by decide)
  · exact absurd (h.kept 4 rfl) (by decide)

end LibuvWorks.Win
