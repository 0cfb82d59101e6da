import LibuvWorks.Inet.Pton6Spec

/-!
# Addresses with a zone: `uv_ip6_addr`

The address before `%` is copied to an array of forty characters, in which the longest texts do not
fit.
-/
namespace LibuvWorks.Inet

open Numerals List

/-- `struct sockaddr_in6` -/
structure SockaddrIn6 where
  family : Family
  port : List UInt8
  addr : List UInt8
  scopeId : ℕ
  deriving DecidableEq

/-- `sizeof address_part` -/
def sizeofAddressPart : ℕ := 40

def htons (port : ℤ) : List UInt8 := groupBytes (port % 65536).toNat

/-- `uv_ip6_addr`, where `scopeId` is `atoi` or `if_nametoindex` -/
def uvIp6Addr (scopeId : List Char → ℕ) (ip : List Char) (port : ℤ) :
    Option (Status × SockaddrIn6) :=
  let addr : SockaddrIn6 := ⟨.inet6, htons port, List.replicate 16 0, 0⟩
  let zoneIndex := ip.idxOf '%'
  let pton (ip : List Char) (addr : SockaddrIn6) : Option (Status × SockaddrIn6) :=
    (uvInetPton .inet6 (some ip) (some addr.addr)).map fun r =>
      (r.1, { addr with addr := r.2.getD addr.addr })
  if zoneIndex < ip.length then
    let addressPartSize :=
      if zoneIndex ≥ sizeofAddressPart then sizeofAddressPart - 1 else zoneIndex
    pton (ip.take addressPartSize) { addr with scopeId := scopeId (ip.drop (zoneIndex + 1)) }
  else pton ip addr

/-- The zone makes no difference but for the scope: the result is the same, and so is the address if
there is one. -/
def SameAddress (scopeId : List Char → ℕ) (a z : List Char) (port : ℤ) : Prop :=
  ∃ status x y, uvIp6Addr scopeId (a ++ '%' :: z) port = some (status, x) ∧
    uvIp6Addr scopeId a port = some (status, y) ∧
    (status = .ok → x.family = y.family ∧ x.port = y.port ∧ x.addr = y.addr)

variable {s t a v : List Char} {bs bs' : List UInt8} {scopeId : List Char → ℕ} {port : ℤ}

/-! ### Texts with dots -/

theorem Octet.injective {v : ℕ} (hs : Octet s v) (ht : Octet t v) : s = t := by
  by_cases hhead : s.head? = some '0'
  · by_cases hhead' : t.head? = some '0'
    · rw [hs.head hhead, ht.head hhead']
    · have hpos := ht.numeral.pos (by decide) ht.ne_nil hhead'
      have hzero := hs.numeral
      rw [hs.head hhead] at hzero
      have hval := hzero.unique (Numeral.nil.snoc (c := '0') (d := 0) rfl (by decide))
      omega
  · by_cases hhead' : t.head? = some '0'
    · have hpos := hs.numeral.pos (by decide) hs.ne_nil hhead
      have hzero := ht.numeral
      rw [ht.head hhead'] at hzero
      have hval := hzero.unique (Numeral.nil.snoc (c := '0') (d := 0) rfl (by decide))
      omega
    · exact hs.numeral.injective ht.numeral hhead hhead'

theorem ofNat_injective {v w : ℕ} (hv : v ≤ 255) (hw : w ≤ 255)
    (h : UInt8.ofNat v = UInt8.ofNat w) : v = w := by
  rw [← toNat_ofNat hv, ← toNat_ofNat hw, h]

theorem DottedOctets.injective (hs : DottedOctets s bs) (ht : DottedOctets t bs) : s = t := by
  induction hs generalizing t with
  | @one s v hs =>
    generalize hbs : [UInt8.ofNat v] = bs at ht
    cases ht with
    | one ht =>
      obtain rfl := ofNat_injective hs.le ht.le (singleton_inj.mp hbs)
      exact hs.injective ht
    | cons _ ht =>
      have hpos := ht.length_pos
      rw [← (List.cons.inj hbs).2] at hpos
      exact absurd hpos (Nat.lt_irrefl 0)
  | @cons a s v bs ha hs ih =>
    generalize hbs : UInt8.ofNat v :: bs = bs' at ht
    cases ht with
    | one ht =>
      have hpos := hs.length_pos
      rw [(List.cons.inj hbs).2] at hpos
      exact absurd hpos (Nat.lt_irrefl 0)
    | cons ha' ht =>
      obtain ⟨hv, rfl⟩ := List.cons.inj hbs
      obtain rfl := ofNat_injective ha.le ha'.le hv
      rw [ha.injective ha', ih ht]

theorem IPv4Text.dot (h : IPv4Text v bs) {k : ℕ} (hk : 4 ≤ k) : '.' ∈ v.take k := by
  obtain ⟨hdotted, hlength⟩ := h
  cases hdotted with
  | one => exact absurd hlength (by simp)
  | @cons a s v bs ha =>
    have hle := ha.length_le
    obtain ⟨j, hj⟩ : ∃ j, k - a.length = j + 1 := ⟨k - a.length - 1, by omega⟩
    rw [take_append, hj]
    exact mem_append_right _ mem_cons_self

theorem IPv4Text.notMem_colon (h : IPv4Text v bs) : ':' ∉ v := by
  intro hmem
  obtain habs | ⟨d, hd⟩ := h.dotted.char hmem
  · exact absurd habs (by decide)
  · exact nomatch (show digitValue ':' = none by decide).symm.trans hd

/-- A text with a dot ends in an IPv4 text, which starts after a colon or at once, and a text
without one is short. -/
inductive Tail (tail : Bool) (s : List Char) (bs : List UInt8) : Prop
  | plain : '.' ∉ s → s.length + 1 ≤ 5 * (bs.length / 2) → Tail tail s bs
  | dotted (l v : List Char) (lb vb : List UInt8) : tail = true → s = l ++ v → bs = lb ++ vb →
      IPv4Text v vb → (l = [] ∧ lb = [] ∨ l.getLast? = some ':') →
      l.length ≤ 5 * (lb.length / 2) → Tail tail s bs

theorem Group.notMem_dot {g : List Char} {w : ℕ} (hg : Group g w) : '.' ∉ g := by
  intro hmem
  obtain ⟨d, hd⟩ := hg.numeral.digit hmem
  exact nomatch (show digitValue '.' = none by decide).symm.trans hd

theorem getLast?_colon {g l : List Char} (hl : l = [] ∨ l.getLast? = some ':') :
    (g ++ ':' :: l).getLast? = some ':' := by
  obtain rfl | hl := hl
  · simp
  · rw [List.getLast?_append, List.getLast?_cons, hl]
    rfl

theorem Groups.tail {tail : Bool} (h : Groups tail s bs) : Tail tail s bs := by
  induction h with
  | @one g w hg =>
    have hlength := hg.length
    have hbytes : (groupBytes w).length = 2 := rfl
    exact .plain hg.notMem_dot (by omega)
  | @ipv4 s bs htail hs =>
    exact .dotted [] s [] bs htail rfl rfl hs (.inl ⟨rfl, rfl⟩) (Nat.zero_le _)
  | @cons g s w bs hg _ ih =>
    have hlength := hg.length
    have hbytes : (groupBytes w).length = 2 := rfl
    cases ih with
    | plain hdot hle =>
      refine .plain ?_ ?_
      · simp only [mem_append, mem_cons, not_or]
        exact ⟨hg.notMem_dot, by decide, hdot⟩
      · simp only [length_append, length_cons, hbytes]
        omega
    | dotted l v lb vb htail hs hbs hv hl hle =>
      refine .dotted (g ++ ':' :: l) v (groupBytes w ++ lb) vb htail ?_ ?_ hv ?_ ?_
      · rw [hs, append_assoc, cons_append]
      · rw [hbs, append_assoc]
      · exact .inr (getLast?_colon (hl.imp_left And.left))
      · simp only [length_append, length_cons, hbytes]
        omega

theorem Side.left (h : Side false s bs) : '.' ∉ s ∧ s.length ≤ 5 * (bs.length / 2) := by
  obtain ⟨rfl, rfl⟩ | h := h
  · exact ⟨not_mem_nil, Nat.zero_le _⟩
  · cases h.tail with
    | plain hdot hle => exact ⟨hdot, Nat.le_of_succ_le hle⟩
    | dotted l v lb vb htail => exact nomatch htail

theorem IPv6Text.tail (h : IPv6Text s bs) : '.' ∉ s ∧ s.length ≤ 39 ∨
    ∃ l v lb vb, s = l ++ v ∧ bs = lb ++ vb ∧ IPv4Text v vb ∧ l.getLast? = some ':' ∧
      l.length ≤ 30 := by
  cases h with
  | full h hlength =>
    cases h.tail with
    | plain hdot hle =>
      rw [hlength] at hle
      exact .inl ⟨hdot, Nat.le_of_succ_le_succ hle⟩
    | dotted l v lb vb _ hs hbs hv hl hle =>
      have hvb := hv.length
      rw [hbs, length_append] at hlength
      obtain ⟨-, rfl⟩ | hl := hl
      · rw [length_nil] at hlength
        omega
      · exact .inr ⟨l, v, lb, vb, hs, hbs, hv, hl, by omega⟩
  | @compressed l r lb rb hl hr hlength =>
    obtain ⟨hdot, hle⟩ := hl.left
    obtain ⟨rfl, rfl⟩ | hr := hr
    · left
      simp only [mem_append, mem_cons, not_mem_nil, not_or, length_append,
        length_cons, length_nil]
      exact ⟨⟨hdot, by decide, by decide, id⟩, by omega⟩
    · cases hr.tail with
      | plain hdot' hle' =>
        left
        simp only [mem_append, mem_cons, not_or, length_append, length_cons]
        exact ⟨⟨hdot, by decide, by decide, hdot'⟩, by omega⟩
      | dotted l' v lb' vb _ hs hbs hv hl' hle' =>
        have hvb := hv.length
        rw [hbs, length_append] at hlength
        generalize replicate (16 - lb.length - rb.length) (0 : UInt8) = zeros
        refine .inr ⟨l ++ ':' :: ':' :: l', v, lb ++ zeros ++ lb', vb, ?_, ?_, hv, ?_, ?_⟩
        · rw [hs, append_assoc, cons_append, cons_append]
        · rw [hbs, append_assoc _ lb']
        · exact getLast?_colon (.inr (getLast?_colon (g := []) (hl'.imp_left And.left)))
        · simp only [length_append, length_cons]
          omega

/-! ### The cut -/

theorem eq_nil_of_colon {l m v : List Char} (hl : (l ++ m).getLast? = some ':')
    (hv : ':' ∉ m ++ v) : m = [] := by
  by_contra hne
  rw [List.getLast?_append_of_ne_nil l hne] at hl
  exact hv (mem_append_left v (List.mem_of_getLast? hl))

theorem append_inj_of_colon {l v l' v' : List Char} (h : l ++ v = l' ++ v')
    (hl : l.getLast? = some ':') (hl' : l'.getLast? = some ':') (hv : ':' ∉ v) (hv' : ':' ∉ v') :
    v = v' := by
  obtain ⟨m, rfl, rfl⟩ | ⟨m, rfl, rfl⟩ := append_eq_append_iff.mp h
  · rw [eq_nil_of_colon hl' hv, nil_append]
  · rw [eq_nil_of_colon hl hv', nil_append]

theorem IPv6Text.not_take (h : IPv6Text a bs) (hlength : sizeofAddressPart ≤ a.length) :
    ¬IPv6Text (a.take (sizeofAddressPart - 1)) bs := by
  intro hcut
  rw [sizeofAddressPart] at hlength hcut
  obtain ⟨-, hshort⟩ | ⟨l, v, lb, vb, rfl, rfl, hv, hl, hle⟩ := h.tail
  · omega
  have htake : (l ++ v).take (40 - 1) = l ++ v.take (39 - l.length) := by
    rw [take_append, take_of_length_le (by omega)]
  rw [htake] at hcut
  obtain ⟨hdot, -⟩ | ⟨l', v', lb', vb', hs, hbs, hv', hl', -⟩ := hcut.tail
  · exact hdot (mem_append_right l (hv.dot (by omega)))
  have hcolon : ':' ∉ v.take (39 - l.length) :=
    fun hmem => hv.notMem_colon (mem_of_mem_take hmem)
  have hrest := append_inj_of_colon hs hl hl' hcolon hv'.notMem_colon
  obtain ⟨-, rfl⟩ := append_inj' hbs (hv.length.trans hv'.length.symm)
  have hfull := hv.dotted.injective hv'.dotted
  rw [← hrest, eq_comm, take_eq_self_iff] at hfull
  rw [length_append] at hlength
  omega

/-! ### `uv_ip6_addr` -/

theorem uvInetPton_of_notMem (hs : '%' ∉ s) (dst : List UInt8) :
    uvInetPton .inet6 (some s) (some dst) = (inetPton6 s dst).map fun r => (r.1, some r.2) := by
  unfold uvInetPton
  dsimp only
  rw [if_neg (mt idxOf_lt_length_iff.mp hs)]

/-- The result for a text that is given to `inet_pton6`. -/
def pton6Result (addr : SockaddrIn6) (s : List Char) : Option (Status × SockaddrIn6) :=
  (inetPton6 s addr.addr).map fun r => (r.1, { addr with addr := r.2 })

theorem uvIp6Addr_of_notMem (ha : '%' ∉ a) : uvIp6Addr scopeId a port =
    pton6Result ⟨.inet6, htons port, List.replicate 16 0, 0⟩ a := by
  unfold uvIp6Addr
  dsimp only
  rw [if_neg (mt idxOf_lt_length_iff.mp ha), uvInetPton_of_notMem ha, Option.map_map]
  rfl

theorem uvIp6Addr_zone (ha : '%' ∉ a) (z : List Char) :
    uvIp6Addr scopeId (a ++ '%' :: z) port =
      pton6Result ⟨.inet6, htons port, List.replicate 16 0, scopeId z⟩
        (a.take (sizeofAddressPart - 1)) := by
  have hindex : (a ++ '%' :: z).idxOf '%' = a.length := by
    rw [idxOf_append_of_notMem ha, idxOf_cons_self, Nat.add_zero]
  have hpart : (a ++ '%' :: z).take
      (if a.length ≥ sizeofAddressPart then sizeofAddressPart - 1 else a.length) =
      a.take (sizeofAddressPart - 1) := by
    split_ifs with hlong
    · rw [take_append_of_le_length (by omega)]
    · rw [take_left, take_of_length_le (by omega)]
  have hzone : (a ++ '%' :: z).drop (a.length + 1) = z := by
    simp
  unfold uvIp6Addr
  dsimp only
  rw [hindex, if_pos (by simp), hpart, hzone,
    uvInetPton_of_notMem fun hmem => ha (mem_of_mem_take hmem), Option.map_map]
  rfl

theorem pton6Result_of_text {addr : SockaddrIn6} (hlength : addr.addr.length = 16)
    (hs : IPv6Text s bs) : pton6Result addr s = some (.ok, { addr with addr := bs }) := by
  rw [pton6Result, inetPton6_of_text hs (Nat.le_of_eq hlength.symm),
    drop_of_length_le (Nat.le_of_eq hlength), append_nil]
  rfl

theorem pton6Result_of_not_text (addr : SockaddrIn6) (hs : ∀ bs, ¬IPv6Text s bs) :
    pton6Result addr s = some (.einval, addr) := by
  rw [pton6Result, inetPton6_of_not_text hs]
  rfl

/-- A zone changes the result of the long texts that are addresses and of those that begin with an
address, and of no other text. -/
theorem sameAddress_iff (scopeId : List Char → ℕ) (ha : '%' ∉ a) (z : List Char) (port : ℤ) :
    SameAddress scopeId a z port ↔ a.length < sizeofAddressPart ∨
      ∀ bs, ¬IPv6Text a bs ∧ ¬IPv6Text (a.take (sizeofAddressPart - 1)) bs := by
  unfold SameAddress
  rw [uvIp6Addr_of_notMem ha, uvIp6Addr_zone ha]
  have hzeros : (List.replicate 16 (0 : UInt8)).length = 16 := rfl
  constructor
  · rintro ⟨status, x, y, hx, hy, hsame⟩
    by_contra hnot
    obtain ⟨hlong, hsome⟩ := not_or.mp hnot
    by_cases htext : ∃ bs, IPv6Text a bs
    · obtain ⟨bs, hbs⟩ := htext
      rw [pton6Result_of_text hzeros hbs] at hy
      obtain ⟨rfl, rfl⟩ := Prod.mk.inj (Option.some.inj hy)
      by_cases hcut : ∃ bs', IPv6Text (a.take (sizeofAddressPart - 1)) bs'
      · obtain ⟨bs', hbs'⟩ := hcut
        rw [pton6Result_of_text hzeros hbs'] at hx
        obtain ⟨-, rfl⟩ := Prod.mk.inj (Option.some.inj hx)
        obtain ⟨-, -, rfl⟩ := hsame rfl
        exact hbs.not_take (Nat.le_of_not_lt hlong) hbs'
      · rw [pton6Result_of_not_text _ (not_exists.mp hcut)] at hx
        exact nomatch (Prod.mk.inj (Option.some.inj hx)).1
    · rw [pton6Result_of_not_text _ (not_exists.mp htext)] at hy
      obtain ⟨rfl, -⟩ := Prod.mk.inj (Option.some.inj hy)
      by_cases hcut : ∃ bs', IPv6Text (a.take (sizeofAddressPart - 1)) bs'
      · obtain ⟨bs', hbs'⟩ := hcut
        rw [pton6Result_of_text hzeros hbs'] at hx
        exact nomatch (Prod.mk.inj (Option.some.inj hx)).1
      · exact hsome fun bs => ⟨not_exists.mp htext bs, not_exists.mp hcut bs⟩
  · rintro (hshort | hnone)
    · rw [List.take_of_length_le (by omega)]
      by_cases htext : ∃ bs, IPv6Text a bs
      · obtain ⟨bs, hbs⟩ := htext
        rw [pton6Result_of_text hzeros hbs, pton6Result_of_text hzeros hbs]
        exact ⟨_, _, _, rfl, rfl, fun _ => ⟨rfl, rfl, rfl⟩⟩
      · have hnot := not_exists.mp htext
        rw [pton6Result_of_not_text _ hnot, pton6Result_of_not_text _ hnot]
        exact ⟨_, _, _, rfl, rfl, nofun⟩
    · rw [pton6Result_of_not_text _ fun bs => (hnone bs).1,
        pton6Result_of_not_text _ fun bs => (hnone bs).2]
      exact ⟨_, _, _, rfl, rfl, nofun⟩

/-- The loopback address with a zone -/
theorem sameAddress_loopback : SameAddress (fun _ => 1) "::1".toList "eth0".toList 80 :=
  (sameAddress_iff (fun _ => 1) (by decide) "eth0".toList 80).mpr (.inl (by decide))

/-- An address of forty characters, of which the last one is cut off -/
theorem not_sameAddress : ¬SameAddress (fun _ => 1)
    "0000:0000:0000:0000:0000:0000:1.22.33.44".toList "1".toList 80 := by
  have hzone : uvIp6Addr (fun _ => 1)
      ("0000:0000:0000:0000:0000:0000:1.22.33.44".toList ++ '%' :: "1".toList) 80 =
      some (.ok, ⟨.inet6, [0, 80], List.replicate 12 0 ++ [1, 22, 33, 4], 1⟩) := by decide
  have haddr : uvIp6Addr (fun _ => 1) "0000:0000:0000:0000:0000:0000:1.22.33.44".toList 80 =
      some (.ok, ⟨.inet6, [0, 80], List.replicate 12 0 ++ [1, 22, 33, 44], 0⟩) := by decide
  rintro ⟨status, x, y, hx, hy, hsame⟩
  obtain ⟨rfl, rfl⟩ := Prod.mk.inj (Option.some.inj (hzone.symm.trans hx))
  obtain ⟨-, rfl⟩ := Prod.mk.inj (Option.some.inj (haddr.symm.trans hy))
  exact absurd (hsame rfl).2.2 (by decide)

end LibuvWorks.Inet
