import Mathlib.Data.UInt

/-!
# Reading an address: `inet_pton4` and `inet_pton6` of `inet.c`

A string is the list of its characters before the terminator. An access outside an array, and
a read of a byte that was never written, is `outOfBounds`.
-/
namespace LibuvWorks.Inet

inductive PtonError where
  | einval : PtonError
  | outOfBounds : PtonError
  deriving DecidableEq

/-- What the functions of `inet.c` return. -/
inductive Status where
  | ok : Status
  | einval : Status
  | enospc : Status
  | eafnosupport : Status
  deriving DecidableEq

/-- `memcpy(dst + off, tmp, n)`. -/
def memcpy {α : Type*} (dst : List α) (off : ℕ) (tmp : List α) (n : ℕ) : Option (List α) :=
  if n ≤ tmp.length ∧ off + n ≤ dst.length then
    some (dst.take off ++ tmp.take n ++ dst.drop (off + n))
  else none

/-! ### `inet_pton4` -/

def digits : List Char := "0123456789".toList

/-- The locals of `inet_pton4`: the bytes of `tmp` before `*tp`, and `*tp`. -/
structure Pton4 where
  tmp : List UInt8
  cur : UInt8
  sawDigit : Bool
  octets : ℕ

def pton4Loop (s : Pton4) : List Char → Except PtonError Pton4
  | [] => .ok s
  | ch :: src =>
    match digits.idxOf? ch with
    | some d =>
      let nw := s.cur.toNat * 10 + d
      if s.sawDigit ∧ s.cur = 0 then .error .einval
      else if 255 < nw then .error .einval
      else if s.sawDigit then pton4Loop { s with cur := .ofNat nw } src
      else if 4 < s.octets + 1 then .error .einval
      else pton4Loop { s with cur := .ofNat nw, octets := s.octets + 1, sawDigit := true } src
    | none =>
      if ch = '.' ∧ s.sawDigit then
        if s.octets = 4 then .error .einval
        -- `*++tp = 0`
        else if 4 ≤ s.tmp.length + 1 then .error .outOfBounds
        else pton4Loop { s with tmp := s.tmp ++ [s.cur], cur := 0, sawDigit := false } src
      else .error .einval

/-- `inet_pton4(src, dst + off)`; there is no result if an access is out of bounds. -/
def inetPton4 (src : List Char) (dst : List UInt8) (off : ℕ) : Option (Status × List UInt8) :=
  match pton4Loop ⟨[], 0, false, 0⟩ src with
  | .error .outOfBounds => none
  | .error .einval => some (.einval, dst)
  | .ok s =>
    if s.octets < 4 then some (.einval, dst)
    else (memcpy dst off (s.tmp ++ [s.cur]) 4).map fun dst => (.ok, dst)

/-! ### `inet_pton6` -/

def xdigitsL : List Char := "0123456789abcdef".toList

def xdigitsU : List Char := "0123456789ABCDEF".toList

def xdigit (ch : Char) : Option ℕ := (xdigitsL.idxOf? ch).or (xdigitsU.idxOf? ch)

/-- The locals of `inet_pton6`; `tp` and `colonp` are positions in `tmp`, whose end is `endp`. -/
structure Pton6 where
  tmp : List UInt8
  tp : ℕ
  colonp : Option ℕ
  curtok : List Char
  seenXdigits : ℕ
  val : ℕ

def endp : ℕ := 16

/-- `*tp++ = b`. -/
def putByte (s : Pton6) (b : ℕ) : Except PtonError Pton6 :=
  if s.tp < s.tmp.length then .ok { s with tmp := s.tmp.set s.tp (.ofNat b), tp := s.tp + 1 }
  else .error .outOfBounds

def putGroup (s : Pton6) : Except PtonError Pton6 :=
  if endp < s.tp + 2 then .error .einval
  else (putByte s (s.val >>> 8 &&& 0xff)).bind fun s => putByte s (s.val &&& 0xff)

def pton6Loop (s : Pton6) : List Char → Except PtonError Pton6
  | [] => .ok s
  | ch :: src =>
    match xdigit ch with
    | some d =>
      if 4 < s.seenXdigits + 1 then .error .einval
      else
        pton6Loop { s with val := s.val <<< 4 ||| d, seenXdigits := s.seenXdigits + 1 } src
    | none =>
      if ch = ':' then
        if s.seenXdigits = 0 then
          if s.colonp.isSome then .error .einval
          else pton6Loop { s with curtok := src, colonp := some s.tp } src
        else if src = [] then .error .einval
        else
          match putGroup { s with curtok := src } with
          | .error e => .error e
          | .ok s => pton6Loop { s with seenXdigits := 0, val := 0 } src
      else if ch = '.' ∧ s.tp + 4 ≤ endp then
        match inetPton4 s.curtok s.tmp s.tp with
        | none => .error .outOfBounds
        -- the terminator was seen by `inet_pton4`
        | some (.ok, tmp) => .ok { s with tmp := tmp, tp := s.tp + 4, seenXdigits := 0 }
        | some _ => .error .einval
      else .error .einval

/-- `endp[-i] = colonp[n - i]; colonp[n - i] = 0`. -/
def shiftByte (colonp n : ℕ) (tmp : List UInt8) (i : ℕ) : Except PtonError (List UInt8) :=
  match tmp[colonp + n - i]? with
  | none => .error .outOfBounds
  | some b =>
    if endp - i < tmp.length then .ok ((tmp.set (endp - i) b).set (colonp + n - i) 0)
    else .error .outOfBounds

def lastGroup (s : Pton6) : Except PtonError Pton6 :=
  if s.seenXdigits = 0 then .ok s else putGroup s

/-- The bytes after `::` are shifted to the end. -/
def pton6Shift (s : Pton6) : Except PtonError (List UInt8) :=
  match s.colonp with
  | none => if s.tp = endp then .ok s.tmp else .error .einval
  | some colonp =>
    if s.tp = endp then .error .einval
    else (List.range' 1 (s.tp - colonp)).foldlM (shiftByte colonp (s.tp - colonp)) s.tmp

def pton6Start (src : List Char) : Except PtonError (List UInt8) :=
  ((pton6Loop ⟨List.replicate 16 0, 0, none, src, 0, 0⟩ src).bind lastGroup).bind pton6Shift

/-- Of a leading `::` the first colon is skipped. -/
def pton6Parse : List Char → Except PtonError (List UInt8)
  | ':' :: ':' :: src => pton6Start (':' :: src)
  | ':' :: _ => .error .einval
  | src => pton6Start src

def inetPton6 (src : List Char) (dst : List UInt8) : Option (Status × List UInt8) :=
  match pton6Parse src with
  | .error .outOfBounds => none
  | .error .einval => some (.einval, dst)
  | .ok tmp => (memcpy dst 0 tmp 16).map fun dst => (.ok, dst)

/-! ### `uv_inet_pton` -/

inductive Family where
  | inet : Family
  | inet6 : Family
  | other : Family
  deriving DecidableEq

/-- The pointers are `none` where they are `NULL`. The zone after `%` is cut off in a copy. -/
def uvInetPton (af : Family) (src : Option (List Char)) (dst : Option (List UInt8)) :
    Option (Status × Option (List UInt8)) :=
  match src, dst with
  | some src, some dst =>
    match af with
    | .inet => (inetPton4 src dst 0).map fun r => (r.1, some r.2)
    | .inet6 =>
      let len := src.idxOf '%'
      if len < src.length then
        if 45 < len then some (.einval, some dst)
        else (inetPton6 (src.take len) dst).map fun r => (r.1, some r.2)
      else (inetPton6 src dst).map fun r => (r.1, some r.2)
    | .other => some (.eafnosupport, some dst)
  | _, dst => some (.einval, dst)

end LibuvWorks.Inet

/-!
## Writing an address: `inet_ntop4` and `inet_ntop6` of `inet.c`

The destinations are arrays of characters. There is no result if an access is out of bounds.
-/
namespace LibuvWorks.Inet

def nul : Char := Char.ofNat 0

def cString (mem : List Char) : List Char := mem.takeWhile (· ≠ nul)

/-- `strcpy(dst, src)`, for two arrays. -/
def strcpy (dst src : List Char) : Option (List Char) :=
  if nul ∈ src then memcpy dst 0 (cString src ++ [nul]) ((cString src).length + 1) else none

/-- `strncpy(dst + off, text, size)` fills up with zeros. -/
def strncpy (dst : List Char) (off : ℕ) (text : List Char) (size : ℕ) : Option (List Char) :=
  memcpy dst off (text ++ List.replicate size nul) size

/-! ### `inet_ntop4` -/

/-- What `%u.%u.%u.%u` makes of four bytes. -/
def dotted (a b c d : UInt8) : List Char :=
  Nat.toDigits 10 a.toNat ++ '.' :: (Nat.toDigits 10 b.toNat ++ '.' ::
    (Nat.toDigits 10 c.toNat ++ '.' :: Nat.toDigits 10 d.toNat))

/-- `inet_ntop4(src, dst + off, size)`; `snprintf` cuts the text off at the end of `tmp`, but
returns its length. -/
def inetNtop4 (src : List UInt8) (dst : List Char) (off size : ℕ) : Option (Status × List Char) :=
  match src with
  | a :: b :: c :: d :: _ =>
    let l := (dotted a b c d).length
    if l = 0 ∨ size ≤ l then some (.enospc, dst)
    else do
      let dst ← strncpy dst off ((dotted a b c d).take 15) size
      let dst ← memcpy dst (off + size - 1) [nul] 1
      return (.ok, dst)
  | _ => none

/-! ### `inet_ntop6` -/

/-- A run of zero words; the base is `-1` if there is none. -/
structure Run where
  base : Option ℕ
  len : ℕ

def word (src : List UInt8) (i : ℕ) : ℕ :=
  (src.getD (2 * i) 0).toNat <<< 8 ||| (src.getD (2 * i + 1) 0).toNat

/-- The current run is the new best one if it is longer. -/
def closeRun (best cur : Run) : Run :=
  if cur.base = none then best
  else if best.base = none ∨ best.len < cur.len then cur
  else best

/-- The turn of the scan for word `i`, with the best run and the current one. -/
def scanWord (words : ℕ → ℕ) (runs : Run × Run) (i : ℕ) : Run × Run :=
  if words i = 0 then
    (runs.1, if runs.2.base = none then ⟨some i, 1⟩ else ⟨runs.2.base, runs.2.len + 1⟩)
  else (closeRun runs.1 runs.2, ⟨none, runs.2.len⟩)

def bestRun (words : ℕ → ℕ) : Run :=
  let runs := (List.range 8).foldl (scanWord words) (⟨none, 0⟩, ⟨none, 0⟩)
  let best := closeRun runs.1 runs.2
  if best.base ≠ none ∧ best.len < 2 then ⟨none, best.len⟩ else best

/-- The array `tmp` and the position `tp` in it. -/
structure Out where
  tmp : List Char
  tp : ℕ

/-- The characters are stored, and `tp` moves behind the first `n` of them. -/
def Out.put (o : Out) (cs : List Char) (n : ℕ) : Option Out :=
  (memcpy o.tmp o.tp cs cs.length).map fun tmp => ⟨tmp, o.tp + n⟩

def Run.inside (best : Run) (i : ℕ) : Bool :=
  match best.base with
  | none => false
  | some base => decide (base ≤ i) && decide (i < base + best.len)

/-- Is this address an encapsulated IPv4? -/
def Run.encapsulated (best : Run) (words : ℕ → ℕ) (i : ℕ) : Bool :=
  decide (i = 6) && decide (best.base = some 0) &&
    (decide (best.len = 6) || (decide (best.len = 7) && decide (words 7 ≠ 1)) ||
      (decide (best.len = 5) && decide (words 5 = 0xffff)))

def sizeofTmp : ℕ := 46

/-- The words from the first of the list on; a status is an early return. -/
def ntop6Loop (src : List UInt8) (words : ℕ → ℕ) (best : Run) :
    List ℕ → Out → Option (Except Status Out)
  | [], o => some (.ok o)
  | i :: is, o =>
    if best.inside i then
      if best.base = some i then (o.put [':'] 1).bind (ntop6Loop src words best is)
      else ntop6Loop src words best is o
    else
      (if i ≠ 0 then o.put [':'] 1 else some o).bind fun o =>
        if best.encapsulated words i then
          (inetNtop4 (src.drop 12) o.tmp o.tp (sizeofTmp - o.tp)).map fun r =>
            if r.1 = .ok then .ok ⟨r.2, o.tp + (cString (r.2.drop o.tp)).length⟩ else .error r.1
        else
          let hex := Nat.toDigits 16 (words i)
          (o.put (hex ++ [nul]) hex.length).bind (ntop6Loop src words best is)

def Out.trailing (best : Run) (o : Out) : Option Out :=
  if best.base.any (· + best.len = 8) then o.put [':'] 1 else some o

/-- `stack` is what `tmp` holds before. -/
def inetNtop6 (stack : List Char) (src : List UInt8) (dst : List Char) (size : ℕ) :
    Option (Status × List Char) := do
  let words := word src
  let best := bestRun words
  match ← ntop6Loop src words best (List.range 8) ⟨stack, 0⟩ with
  | .error status => return (status, dst)
  | .ok o =>
    let o ← o.trailing best
    let o ← o.put [nul] 1
    if size < o.tp then return (.enospc, dst)
    else
      let dst ← strcpy dst o.tmp
      return (.ok, dst)

def uvInetNtop (stack : List Char) (af : Family) (src : List UInt8) (dst : List Char)
    (size : ℕ) : Option (Status × List Char) :=
  match af with
  | .inet => inetNtop4 src dst 0 size
  | .inet6 => inetNtop6 stack src dst size
  | .other => some (.eafnosupport, dst)

end LibuvWorks.Inet
