import LibuvWorks.Socks5.S5

/-!
# The parser and the cuts of TCP

The error, the number of consumed bytes and the context do not depend on how the
bytes are cut into calls of `s5_parse`.
-/
namespace LibuvWorks.Socks5

open Feed

theorem s5Step_ne_ok (cx : S5Ctx) (c : UInt8) : (s5Step cx c).2 ≠ some .ok := by
  unfold s5Step
  cases cx.state <;> dsimp only
  case methods => grind [stepMethods]
  case authPwUsername => grind [stepUsername]
  case authPwPassword => grind [stepPassword]
  case reqCmd => grind [stepCmd]
  case reqAtyp => grind [stepAtyp]
  case reqDaddr => grind [stepDaddr]
  all_goals grind

theorem feed_ne_ok {xs : List UInt8} : ∀ {cx : S5Ctx}, (feed s5Step cx xs).1 ≠ some .ok := by
  induction xs with
  | nil => simp
  | cons c xs ih =>
    intro cx
    have hne := s5Step_ne_ok cx c
    rcases hs : s5Step cx c with ⟨cx', _ | err⟩
    · rw [feed_cons_none hs]
      exact ih
    · rw [feed_cons_some hs]
      rwa [hs] at hne

/-- What a caller sees of parsing `data`: the error, the consumed bytes and the context. -/
def parseOnce (cx : S5Ctx) (data : List UInt8) : S5Err × ℕ × S5Ctx :=
  let (err, rest, cx) := s5Parse cx data
  (err, data.length - rest.length, cx)

/-- Parsing `first`, and after `s5_ok` also `second`. -/
def parseTwice (cx : S5Ctx) (first second : List UInt8) : S5Err × ℕ × S5Ctx :=
  let (err, n, cx) := parseOnce cx first
  if err = .ok then
    let (err, m, cx) := parseOnce cx second
    (err, n + m, cx)
  else (err, n, cx)

/-- Wherever the data is cut, the two calls do what one call does with all of it. -/
theorem s5Parse_chunks (cx : S5Ctx) (first second : List UInt8) :
    parseTwice cx first second = parseOnce cx (first ++ second) := by
  unfold parseTwice parseOnce s5Parse
  have hne : (feed s5Step cx first).1 ≠ some .ok := feed_ne_ok
  rcases hf : feed s5Step cx first with ⟨_ | err, rest, cx'⟩
  · have hnone : (feed s5Step cx first).1 = none := by rw [hf]
    have hrest : rest = [] := by simpa [hf] using feed_rest_of_none hnone
    have happ : feed s5Step cx (first ++ second) = feed s5Step cx' second := by
      rw [feed_append_of_none hnone, hf]
    have hle : (feed s5Step cx' second).2.1.length ≤ second.length :=
      feed_length_le
    rw [happ, hrest]
    simp only [Option.getD_none, if_true, List.length_nil, List.length_append, Nat.sub_zero]
    rw [Nat.add_sub_assoc hle]
  · have hsome : (feed s5Step cx first).1 = some err := by rw [hf]
    have happ : feed s5Step cx (first ++ second) =
        (some err, (feed s5Step cx first).2.1 ++ second, (feed s5Step cx first).2.2) :=
      feed_append_of_some hsome
    have herr : err ≠ .ok := fun e => hne (by rw [hf, e])
    rw [happ, hf]
    simp only [Option.getD_some, if_neg herr, List.length_append, Nat.add_sub_add_right]

end LibuvWorks.Socks5
