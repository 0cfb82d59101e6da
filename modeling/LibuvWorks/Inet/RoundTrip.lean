import LibuvWorks.Inet.NtopSpec
import LibuvWorks.Inet.Pton6Spec

/-!
# `uv_inet_pton` undoes `uv_inet_ntop`

The scratch array of `inet_ntop6` holds what has been written so far, and then anything.
-/
namespace LibuvWorks.Inet

open List Option
open List (append_assoc append_nil drop_append drop_of_length_le length_append length_drop
  length_replicate length_singleton nil_append)
open Numerals

variable {words : ℕ → ℕ} {best : Run} {text tail dst stack : List Char} {src : List UInt8}
  {off size n : ℕ} {a b c d : UInt8} {o : Out}

theorem memcpy_append {α : Type*} {A B C D : List α} (hlength : C.length = B.length) :
    memcpy (A ++ (B ++ D)) A.length C C.length = some (A ++ (C ++ D)) := by
  rw [memcpy, if_pos ⟨le_rfl, by simp only [length_append]; omega⟩, take_left,
    take_length, hlength, drop_append, drop_of_length_le (by omega)]
  simp

/-! ### Strings -/

theorem cString_append {rest : List Char} (htext : nul ∉ text) :
    cString (text ++ nul :: rest) = text := by
  rw [cString, takeWhile_append_of_pos]
  · simp
  · intro c hc
    have hne : c ≠ nul := fun h => htext (h ▸ hc)
    simpa using hne

theorem notMem_text {c : Char} (hdot : c ≠ '.') (hcolon : c ≠ ':') (hdigit : digitValue c = none)
    (hchar : ∀ c ∈ text, c = '.' ∨ c = ':' ∨ ∃ d, digitValue c = some d) : c ∉ text := by
  intro hmem
  obtain h | h | ⟨d, h⟩ := hchar c hmem
  · exact hdot h
  · exact hcolon h
  · simp [hdigit] at h

/-! ### `inet_ntop4` -/

/-- The text fits with its terminator and is followed by zeros, or nothing is written. -/
theorem inetNtop4_eq {rest : List UInt8} (hdst : off + size ≤ dst.length) :
    inetNtop4 (a :: b :: c :: d :: rest) dst off size =
      if size ≤ (dotted a b c d).length then some (.enospc, dst)
      else some (.ok, dst.take off ++ (dotted a b c d ++
        List.replicate (size - (dotted a b c d).length) nul) ++ dst.drop (off + size)) := by
  have hpos : (dotted a b c d).length ≠ 0 := by simp [dotted]
  rw [inetNtop4]
  by_cases hsize : size ≤ (dotted a b c d).length
  · rw [if_pos (.inr hsize), if_pos hsize]
  · rw [if_neg (by omega), if_neg hsize, take_of_length_le (length_dotted a b c d)]
    generalize dotted a b c d = text at *
    obtain ⟨k, hk⟩ : ∃ k, size - text.length = k + 1 := ⟨size - text.length - 1, by omega⟩
    have hchunk : (text ++ replicate size nul).take size =
        text ++ replicate (k + 1) nul := by
      rw [take_append, take_of_length_le (by omega), take_replicate, hk,
        Nat.min_eq_left (by omega)]
    have hfirst : strncpy dst off text size =
        some (dst.take off ++ (text ++ replicate (k + 1) nul) ++ dst.drop (off + size)) := by
      rw [strncpy, memcpy, if_pos ⟨by simp, hdst⟩, hchunk]
    have hkept : (dst.take off ++ (text ++ replicate k nul)).length = off + size - 1 := by
      simp only [length_append, length_take, length_replicate]
      omega
    have hsecond := memcpy_append (A := dst.take off ++ (text ++ replicate k nul))
      (B := [nul]) (C := [nul]) (D := dst.drop (off + size)) rfl
    rw [hkept] at hsecond
    have harray : dst.take off ++ (text ++ replicate (k + 1) nul) ++ dst.drop (off + size) =
        dst.take off ++ (text ++ replicate k nul) ++ ([nul] ++ dst.drop (off + size)) := by
      rw [replicate_succ']
      simp
    rw [hfirst, hk]
    change (memcpy _ _ [nul] 1).bind _ = _
    rw [harray]
    rw [length_singleton] at hsecond
    rw [hsecond]
    rfl

/-! ### `inet_ntop6` -/

/-- The array starts with the text up to `tp`. -/
def Wrote (o : Out) (text : List Char) : Prop :=
  o.tp = text.length ∧ ∃ rest, o.tmp = text ++ rest ∧ text.length + rest.length = 46

/-- The characters `cs` are stored, and after them `more`, which `tp` does not pass. -/
theorem Wrote.put (ho : Wrote o text) (cs more : List Char)
    (hroom : text.length + (cs ++ more).length ≤ 46) :
    ∃ o', o.put (cs ++ more) cs.length = some o' ∧ Wrote o' (text ++ cs) ∧
      ∃ rest, o'.tmp = text ++ cs ++ (more ++ rest) := by
  obtain ⟨htp, rest, htmp, hlength⟩ := ho
  have hsplit : rest = rest.take (cs ++ more).length ++ rest.drop (cs ++ more).length :=
    (take_append_drop _ _).symm
  have hcopy : memcpy o.tmp o.tp (cs ++ more) (cs ++ more).length =
      some (text ++ ((cs ++ more) ++ rest.drop (cs ++ more).length)) := by
    rw [htmp, htp, hsplit, memcpy_append, ← hsplit]
    rw [length_take]
    omega
  have htmp' : text ++ ((cs ++ more) ++ rest.drop (cs ++ more).length) =
      text ++ cs ++ (more ++ rest.drop (cs ++ more).length) := by
    simp only [append_assoc]
  refine ⟨⟨text ++ cs ++ (more ++ rest.drop (cs ++ more).length), o.tp + cs.length⟩, ?_, ?_, ?_⟩
  · rw [Out.put, hcopy, htmp']
    rfl
  · refine ⟨by simp [htp], _, rfl, ?_⟩
    rw [length_append] at hroom
    simp only [length_append, length_drop]
    omega
  · exact ⟨_, rfl⟩

theorem ntop4_in_tmp (hsrc : src.drop 12 = [a, b, c, d])
    (htail : nul ∉ dotted a b c d) (ho : Wrote o text)
    (hroom : text.length + (dotted a b c d).length + 1 ≤ 46) :
    ∃ o', ((inetNtop4 (src.drop 12) o.tmp o.tp (sizeofTmp - o.tp)).map fun r =>
        if r.1 = .ok then Except.ok ⟨r.2, o.tp + (cString (r.2.drop o.tp)).length⟩
        else .error r.1) = some (.ok o') ∧ Wrote o' (text ++ dotted a b c d) := by
  obtain ⟨htp, rest, htmp, hlength⟩ := ho
  have hsize : text.length + (46 - text.length) ≤ (text ++ rest).length := by
    rw [length_append]
    omega
  rw [hsrc, htp, htmp, sizeofTmp, inetNtop4_eq hsize]
  generalize dotted a b c d = tail at *
  obtain ⟨k, hk⟩ : ∃ k, 46 - text.length - tail.length = k + 1 :=
    ⟨45 - text.length - tail.length, by omega⟩
  have hdrop : (text ++ rest).drop (text.length + (46 - text.length)) = [] := by
    apply drop_of_length_le
    rw [length_append]
    omega
  rw [if_neg (by omega), take_left, hdrop, append_nil, hk, map_some]
  refine ⟨_, rfl, ?_, replicate (k + 1) nul, ?_, ?_⟩
  · rw [drop_left, replicate_succ, cString_append htail, length_append]
  · exact (append_assoc ..).symm
  · rw [length_append, length_replicate]
    omega

/-- The loop writes its text, if there is room for the text and a terminator. -/
theorem ntop6Loop_eq (hsrc : src.drop 12 = [a, b, c, d])
    (htail : nul ∉ dotted a b c d) {is : List ℕ} (ho : Wrote o text)
    (hroom : text.length + (written words best (dotted a b c d) is).length + 1 ≤ 46) :
    ∃ o', ntop6Loop src words best is o = some (.ok o') ∧
      Wrote o' (text ++ written words best (dotted a b c d) is) := by
  induction is generalizing o text with
  | nil =>
    refine ⟨o, rfl, ?_⟩
    rwa [written, append_nil]
  | cons i is ih =>
    rw [written] at hroom ⊢
    rw [ntop6Loop]
    by_cases hin : best.inside i = true
    · rw [if_pos hin] at hroom ⊢
      rw [if_pos hin]
      by_cases hbase : best.base = some i
      · rw [if_pos hbase] at hroom ⊢
        rw [if_pos hbase]
        rw [length_append, length_singleton] at hroom
        obtain ⟨o₁, hput, ho₁, -⟩ := ho.put [':'] [] (by simp; omega)
        rw [append_nil, length_singleton] at hput
        obtain ⟨o', hloop, ho'⟩ := ih ho₁ (by simp; omega)
        refine ⟨o', ?_, by rwa [← append_assoc]⟩
        rw [hput]
        exact hloop
      · rw [if_neg hbase] at hroom
        rw [if_neg hbase, if_neg hbase]
        exact ih ho hroom
    · rw [if_neg hin] at hroom ⊢
      rw [if_neg hin]
      -- the separating colon
      obtain ⟨o₁, hput, ho₁⟩ : ∃ o₁, (if i ≠ 0 then o.put [':'] 1 else some o) = some o₁ ∧
          Wrote o₁ (text ++ if i ≠ 0 then [':'] else []) := by
        by_cases hi : i ≠ 0
        · rw [if_pos hi] at hroom
          obtain ⟨o₁, hput, ho₁, -⟩ := ho.put [':'] [] (by simp; omega)
          rw [if_pos hi, if_pos hi]
          exact ⟨o₁, hput, ho₁⟩
        · rw [if_neg hi, if_neg hi, append_nil]
          exact ⟨o, rfl, ho⟩
      rw [← append_assoc]
      rw [length_append] at hroom
      have hroom₁ : (text ++ if i ≠ 0 then [':'] else []).length +
          (if best.encapsulated words i = true then dotted a b c d
            else hex (words i) ++ written words best (dotted a b c d) is).length + 1 ≤ 46 := by
        rw [length_append]
        omega
      generalize (text ++ if i ≠ 0 then [':'] else []) = text₁ at ho₁ hroom₁ ⊢
      rw [hput]
      dsimp only [bind_some]
      by_cases henc : best.encapsulated words i = true
      · rw [if_pos henc] at hroom₁ ⊢
        rw [if_pos henc]
        exact ntop4_in_tmp hsrc htail ho₁ hroom₁
      · rw [if_neg henc] at hroom₁ ⊢
        rw [if_neg henc]
        rw [length_append] at hroom₁
        obtain ⟨o₂, hput₂, ho₂, -⟩ := ho₁.put (hex (words i)) [nul]
          (by rw [length_append, length_singleton]; omega)
        obtain ⟨o', hloop, ho'⟩ := ih ho₂ (by rw [length_append]; omega)
        refine ⟨o', ?_, by rwa [← append_assoc]⟩
        change (o₁.put (hex (words i) ++ [nul]) (hex (words i)).length).bind _ = _
        rw [hput₂]
        exact hloop

theorem drop_twelve (hsrc : src.length = 16) :
    ∃ a b c d, src.drop 12 = [a, b, c, d] ∧ wordBytes (word src) 6 2 = [a, b, c, d] := by
  have hbytes : wordBytes (word src) 6 2 = src.drop 12 := wordBytes_drop 2 hsrc
  have hlength : (src.drop 12).length = 4 := by
    rw [length_drop]
    omega
  match hdrop : src.drop 12, hlength with
  | [a, b, c, d], _ => exact ⟨a, b, c, d, rfl, hbytes.trans hdrop⟩

theorem inetNtop6_eq (hsrc : src.length = 16) : ∃ text, IPv6Text text src ∧
    ∀ stack dst size, stack.length = 46 → size ≤ dst.length →
      inetNtop6 stack src dst size =
        if size < text.length + 1 then some (.enospc, dst)
        else some (.ok, text ++ nul :: dst.drop (text.length + 1)) := by
  obtain ⟨a, b, c, d, hdrop, hbytes⟩ := drop_twelve hsrc
  have htail := dotted_text a b c d
  rw [← hbytes] at htail
  obtain ⟨htext, hlength⟩ := ntop6Text_spec (word_lt src) htail (length_dotted a b c d)
  rw [wordBytes_word hsrc] at htext
  refine ⟨_, htext, ?_⟩
  intro stack dst size hstack hsize
  have hnul : nul ∉ ntop6Text (word src) (bestRun (word src)) (dotted a b c d) :=
    notMem_text (by decide) (by decide) rfl fun _ hc => htext.char hc
  have htailnul : nul ∉ dotted a b c d :=
    notMem_text (by decide) (by decide) rfl fun _ hc => (htail.dotted.char hc).imp_right .inr
  have hfull := hlength
  rw [ntop6Text, length_append] at hfull
  have hstart : Wrote ⟨stack, 0⟩ [] := ⟨rfl, stack, rfl, by simpa using hstack⟩
  have hroom : ([] : List Char).length + (written (word src) (bestRun (word src)) (dotted a b c d)
      (range 8)).length + 1 ≤ 46 := by
    rw [length_nil]
    omega
  obtain ⟨o, hloop, ho⟩ := ntop6Loop_eq hdrop htailnul hstart hroom
  obtain ⟨o₁, hput, ho₁⟩ : ∃ o₁, o.trailing (bestRun (word src)) = some o₁ ∧
      Wrote o₁ (ntop6Text (word src) (bestRun (word src)) (dotted a b c d)) := by
    rw [ntop6Text, Out.trailing]
    by_cases htrail : (bestRun (word src)).base.any (· + (bestRun (word src)).len = 8) = true
    · rw [if_pos htrail] at hfull ⊢
      rw [if_pos htrail]
      obtain ⟨o₁, hput, ho₁, -⟩ := ho.put [':'] [] (by simp at hfull ⊢; omega)
      exact ⟨o₁, hput, ho₁⟩
    · rw [if_neg htrail, if_neg htrail, append_nil]
      exact ⟨o, rfl, ho⟩
  generalize ntop6Text (word src) (bestRun (word src)) (dotted a b c d) = text at *
  obtain ⟨o₂, hput₂, ho₂, -⟩ := ho₁.put [nul] [] (by simp; omega)
  obtain ⟨htp, rest, htmp, -⟩ := ho₂
  rw [inetNtop6]
  simp only [hloop, bind_eq_bind, bind_some, hput]
  change (o₁.put ([nul] ++ []) [nul].length).bind _ = _
  rw [hput₂, bind_some, htp, length_append, length_singleton]
  split_ifs with hfit
  · rfl
  · have hcstring : cString o₂.tmp = text := by
      rw [htmp, append_assoc]
      exact cString_append hnul
    have hmem : nul ∈ o₂.tmp := by simp [htmp]
    have hcopy : memcpy dst 0 (text ++ [nul]) (text.length + 1) =
        some (text ++ nul :: dst.drop (text.length + 1)) := by
      rw [memcpy_eq (by simp) (by omega)]
      simp
    rw [strcpy, if_pos hmem, hcstring, hcopy]
    rfl

/-! ### The round trip -/

theorem uvInetPton_inet {buf bs : List UInt8} (htext : IPv4Text text bs)
    (hbuf : 4 ≤ buf.length) :
    uvInetPton .inet (some text) (some buf) = some (.ok, some (bs ++ buf.drop 4)) := by
  rw [uvInetPton, inetPton4_of_text htext (by omega)]
  simp

theorem uvInetPton_inet6 {buf bs : List UInt8} (htext : IPv6Text text bs)
    (hbuf : 16 ≤ buf.length) :
    uvInetPton .inet6 (some text) (some buf) = some (.ok, some (bs ++ buf.drop 16)) := by
  have hzone : '%' ∉ text := notMem_text (by decide) (by decide) rfl fun _ hc => htext.char hc
  have hlen : ¬ text.idxOf '%' < text.length := by
    rw [idxOf_lt_length_iff]
    exact hzone
  rw [uvInetPton, if_neg hlen, inetPton6_of_text htext hbuf]
  rfl

/-- The destination is left as it is, or holds a string and is as before from `size` on. -/
def Formatted (text dst : List Char) (size : ℕ) (r : Option (Status × List Char)) : Prop :=
  (size < text.length + 1 → r = some (.enospc, dst)) ∧
    (text.length + 1 ≤ size → ∃ dst', r = some (.ok, dst') ∧ cString dst' = text ∧
      dst'.length = dst.length ∧ dst'.drop size = dst.drop size)

theorem inetNtop4_formatted (a b c d : UInt8) (hsize : size ≤ dst.length) :
    Formatted (dotted a b c d) dst size (inetNtop4 [a, b, c, d] dst 0 size) := by
  have hnul : nul ∉ dotted a b c d := notMem_text (by decide) (by decide) rfl
    fun _ hc => ((dotted_text a b c d).dotted.char hc).imp_right .inr
  rw [inetNtop4_eq (by omega)]
  generalize dotted a b c d = text at *
  constructor
  · intro hlt
    rw [if_pos (by omega)]
  · intro hfit
    obtain ⟨k, hk⟩ : ∃ k, size - text.length = k + 1 := ⟨size - text.length - 1, by omega⟩
    rw [if_neg (by omega), hk, take_zero, nil_append, Nat.zero_add]
    refine ⟨_, rfl, ?_, ?_, ?_⟩
    · rw [append_assoc]
      exact cString_append hnul
    · simp only [length_append, length_replicate, length_drop]
      omega
    · have hlength : (text ++ replicate (k + 1) nul).length = size := by
        rw [length_append, length_replicate]
        omega
      rw [drop_append, drop_of_length_le hlength.le, hlength, Nat.sub_self]
      rfl

theorem inetNtop6_formatted (hsrc : src.length = 16) : ∃ text, IPv6Text text src ∧
    ∀ stack dst size, stack.length = 46 → size ≤ dst.length →
      Formatted text dst size (inetNtop6 stack src dst size) := by
  obtain ⟨text, htext, hntop⟩ := inetNtop6_eq hsrc
  refine ⟨text, htext, ?_⟩
  intro stack dst size hstack hsize
  rw [hntop stack dst size hstack hsize]
  constructor
  · intro hlt
    rw [if_pos hlt]
  · intro hfit
    rw [if_neg (by omega)]
    refine ⟨_, rfl, ?_, ?_, ?_⟩
    · exact cString_append
        (notMem_text (by decide) (by decide) rfl fun _ hc => htext.char hc)
    · simp only [length_append, length_cons, length_drop]
      omega
    · obtain ⟨j, hj⟩ : ∃ j, size - text.length = j + 1 := ⟨size - text.length - 1, by omega⟩
      rw [drop_append, drop_of_length_le (by omega), hj, nil_append,
        drop_succ_cons, drop_drop]
      congr 1
      omega

/-- Every address has a text: `uv_inet_ntop` writes it if it fits with its terminator, and
returns `UV_ENOSPC` and leaves the destination as it is if not; from the text `uv_inet_pton`
recovers the address. That there is a result says that no access is out of bounds. -/
theorem inetPton_inetNtop {af : Family} {src : List UInt8}
    (haf : af = .inet ∧ src.length = 4 ∨ af = .inet6 ∧ src.length = 16) : ∃ text,
    (∀ stack dst size, stack.length = sizeofTmp → size ≤ dst.length →
      Formatted text dst size (uvInetNtop stack af src dst size)) ∧
    ∀ buf, src.length ≤ buf.length →
      uvInetPton af (some text) (some buf) = some (.ok, some (src ++ buf.drop src.length)) := by
  obtain ⟨rfl, hsrc⟩ | ⟨rfl, hsrc⟩ := haf
  · match src, hsrc with
    | [a, b, c, d], _ =>
      refine ⟨dotted a b c d, ?_, ?_⟩
      · intro stack dst size _ hsize
        exact inetNtop4_formatted a b c d hsize
      · exact fun buf hbuf => uvInetPton_inet (dotted_text a b c d) hbuf
  · obtain ⟨text, htext, hntop⟩ := inetNtop6_formatted hsrc
    refine ⟨text, hntop, ?_⟩
    intro buf hbuf
    rw [hsrc] at hbuf ⊢
    exact uvInetPton_inet6 htext hbuf

def loopback : List UInt8 := List.replicate 15 0 ++ [1]

theorem inetPton_inetNtop_loopback : ∃ text,
    (∀ stack dst size, stack.length = sizeofTmp → size ≤ dst.length →
      Formatted text dst size (uvInetNtop stack .inet6 loopback dst size)) ∧
    uvInetPton .inet6 (some text) (some (List.replicate 16 7)) = some (.ok, some loopback) := by
  have haf : Family.inet6 = .inet ∧ loopback.length = 4 ∨
      Family.inet6 = .inet6 ∧ loopback.length = 16 := .inr ⟨rfl, rfl⟩
  obtain ⟨text, hntop, hpton⟩ := inetPton_inetNtop haf
  exact ⟨text, hntop, hpton (List.replicate 16 7) (by decide)⟩

end LibuvWorks.Inet
