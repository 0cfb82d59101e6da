import LibuvWorks.Lib.Numerals

/-!
# The texts of internet addresses

The grammar of the two families, with the bytes that a text stands for. It does not mention
how the texts are read or written.
-/
namespace LibuvWorks.Inet

open Numerals List

variable {s : List Char} {bs : List UInt8} {v w : ℕ} {c : Char}

structure Octet (s : List Char) (v : ℕ) : Prop where
  numeral : Numeral 10 s v
  ne_nil : s ≠ []
  head : s.head? = some '0' → s = ['0']
  le : v ≤ 255

inductive DottedOctets : List Char → List UInt8 → Prop
  | one {s : List Char} {v : ℕ} : Octet s v → DottedOctets s [.ofNat v]
  | cons {a s : List Char} {v : ℕ} {bs : List UInt8} : Octet a v → DottedOctets s bs →
      DottedOctets (a ++ '.' :: s) (.ofNat v :: bs)

structure IPv4Text (s : List Char) (bs : List UInt8) : Prop where
  dotted : DottedOctets s bs
  length : bs.length = 4

structure Group (s : List Char) (w : ℕ) : Prop where
  numeral : Numeral 16 s w
  ne_nil : s ≠ []
  length : s.length ≤ 4

def groupBytes (w : ℕ) : List UInt8 := [.ofNat (w / 256), .ofNat (w % 256)]

/-- Groups that are separated by single colons; the last may be an IPv4 text if there is a
tail. -/
inductive Groups (tail : Bool) : List Char → List UInt8 → Prop
  | one {g : List Char} {w : ℕ} : Group g w → Groups tail g (groupBytes w)
  | ipv4 {s : List Char} {bs : List UInt8} : tail = true → IPv4Text s bs → Groups tail s bs
  | cons {g s : List Char} {w : ℕ} {bs : List UInt8} : Group g w → Groups tail s bs →
      Groups tail (g ++ ':' :: s) (groupBytes w ++ bs)

/-- What stands on one side of `::`. -/
def Side (tail : Bool) (s : List Char) (bs : List UInt8) : Prop :=
  s = [] ∧ bs = [] ∨ Groups tail s bs

/-- Eight groups in all, of which `::` stands for one or more that are zero. -/
inductive IPv6Text : List Char → List UInt8 → Prop
  | full {s : List Char} {bs : List UInt8} : Groups true s bs → bs.length = 16 → IPv6Text s bs
  | compressed {l r : List Char} {lb rb : List UInt8} : Side false l lb → Side true r rb →
      lb.length + rb.length + 2 ≤ 16 →
      IPv6Text (l ++ ':' :: ':' :: r)
        (lb ++ List.replicate (16 - lb.length - rb.length) 0 ++ rb)

theorem Group.lt (hg : Group s w) : w < 65536 :=
  hg.numeral.lt_pow.trans_le (Nat.pow_le_pow_right (by omega) hg.length)

/-! ### The characters of an address -/

theorem DottedOctets.char (hs : DottedOctets s bs) (hc : c ∈ s) :
    c = '.' ∨ ∃ d, digitValue c = some d := by
  induction hs with
  | one ha => exact .inr (ha.numeral.digit hc)
  | cons ha _ ih =>
    obtain hc | hc := mem_append.mp hc
    · exact .inr (ha.numeral.digit hc)
    · obtain rfl | hc := mem_cons.mp hc
      · exact .inl rfl
      · exact ih hc

theorem Groups.char {tail : Bool} (hs : Groups tail s bs) (hc : c ∈ s) :
    c = '.' ∨ c = ':' ∨ ∃ d, digitValue c = some d := by
  induction hs with
  | one hg => exact .inr (.inr (hg.numeral.digit hc))
  | ipv4 _ hs => exact (hs.dotted.char hc).imp_right .inr
  | cons hg _ ih =>
    obtain hc | hc := mem_append.mp hc
    · exact .inr (.inr (hg.numeral.digit hc))
    · obtain rfl | hc := mem_cons.mp hc
      · exact .inr (.inl rfl)
      · exact ih hc

theorem Side.char {tail : Bool} (hs : Side tail s bs) (hc : c ∈ s) :
    c = '.' ∨ c = ':' ∨ ∃ d, digitValue c = some d := by
  obtain ⟨rfl, -⟩ | hs := hs
  · simp at hc
  · exact hs.char hc

theorem IPv6Text.char (hs : IPv6Text s bs) (hc : c ∈ s) :
    c = '.' ∨ c = ':' ∨ ∃ d, digitValue c = some d := by
  cases hs with
  | full hs _ => exact hs.char hc
  | compressed hl hr _ =>
    obtain hc | hc := mem_append.mp hc
    · exact hl.char hc
    · simp only [mem_cons] at hc
      obtain rfl | rfl | hc := hc
      · exact .inr (.inl rfl)
      · exact .inr (.inl rfl)
      · exact hr.char hc

theorem IPv6Text.length (hs : IPv6Text s bs) : bs.length = 16 := by
  cases hs with
  | full _ hlength => exact hlength
  | compressed _ _ hlength =>
    simp only [length_append, length_replicate]
    omega

end LibuvWorks.Inet
