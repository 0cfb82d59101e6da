import LibuvWorks.Socks5.S5

/-!
# The counted fields of the parser

A field of `n` bytes is read by the state that owns it in `n` turns, provided `n` is not
zero: the test for the end of the field comes after the byte that was taken for it.
-/
open List Function Nat

namespace LibuvWorks.Socks5

open Feed

/-- The buffer after the bytes of `xs` are stored from index 0 on. -/
def stored (buf : ℕ → UInt8) (xs : List UInt8) (i : ℕ) : UInt8 := xs.getD i (buf i)

/-- The bytes of `xs` and the `'\0'` after them. -/
def storedText (buf : ℕ → UInt8) (xs : List UInt8) : ℕ → UInt8 :=
  setByte (stored buf xs) xs.length 0

/-- The first bytes of the buffer are `xs`, followed by `'\0'`. -/
def HoldsText (buf : ℕ → UInt8) (xs : List UInt8) : Prop :=
  (∀ i (h : i < xs.length), buf i = xs[i]) ∧ buf xs.length = 0

/-- The bits of the method bytes that are understood. -/
def methodSet (xs : List UInt8) : UInt8 :=
  (if 0 ∈ xs then S5AuthMethod.none.bit else 0) |||
  (if 1 ∈ xs then S5AuthMethod.gssapi.bit else 0) |||
  (if 2 ∈ xs then S5AuthMethod.passwd.bit else 0)

variable {buf : ℕ → UInt8} {xs ys : List UInt8} {cx : S5Ctx} {c : UInt8} {n : ℕ}

@[simp] theorem stored_nil : stored buf [] = buf := by
  funext i
  simp [stored]

theorem setByte_stored (h : n < xs.length) :
    setByte (stored buf (xs.take n)) n xs[n] = stored buf (xs.take (n + 1)) := by
  funext i
  unfold setByte stored
  rcases Nat.lt_trichotomy i n with hi | rfl | hi
  · grind
  · grind
  · grind

theorem holdsText_storedText : HoldsText (storedText buf xs) xs := by
  constructor
  · intro i hi
    unfold storedText setByte
    rw [update_of_ne (by omega)]
    simp [stored, hi]
  · exact update_self ..

theorem ite_mem_append_singleton (a b : UInt8) :
    (if a ∈ xs ++ [c] then b else 0) = (if a ∈ xs then b else 0) ||| (if c = a then b else 0) := by
  by_cases h : a ∈ xs <;> by_cases e : c = a <;> simp [h, e, Ne.symm]

theorem methodBit_eq :
    methodBit c =
      (if c = 0 then S5AuthMethod.none.bit else 0) |||
      (if c = 1 then S5AuthMethod.gssapi.bit else 0) |||
      (if c = 2 then S5AuthMethod.passwd.bit else 0) := by
  unfold methodBit
  by_cases h0 : c = 0
  · subst h0
    rfl
  · by_cases h1 : c = 1
    · subst h1
      rfl
    · simp [h0, h1]

theorem methodSet_append_singleton :
    methodSet (xs ++ [c]) = methodSet xs ||| methodBit c := by
  simp only [methodSet, methodBit_eq, ite_mem_append_singleton]
  ac_rfl

theorem methodSet_take_succ (h : n < xs.length) :
    methodSet (xs.take n) ||| methodBit xs[n] = methodSet (xs.take (n + 1)) := by
  rw [take_succ_eq_append_getElem h, methodSet_append_singleton]

theorem exists_length_eq_succ (hne : xs ≠ []) : ∃ n, xs.length = n + 1 :=
  exists_eq_succ_of_ne_zero (length_eq_zero_iff.not.mpr hne)

theorem stepMethods_of_lt (h : cx.arg0 < cx.arg1) :
    stepMethods cx c =
      ({ cx with methods := cx.methods ||| methodBit c, arg0 := cx.arg0 + 1 },
        if cx.arg0 + 1 = cx.arg1 then some .authSelect else none) := by
  simp only [stepMethods, if_pos h]
  split_ifs <;> rfl

theorem feed_methods (hne : xs ≠ []) :
    feed s5Step { cx with arg0 := 0, arg1 := xs.length, state := .methods } (xs ++ ys) =
      (some .authSelect, ys,
        { cx with
          arg0 := xs.length, arg1 := xs.length, state := .methods
          methods := cx.methods ||| methodSet xs }) := by
  obtain ⟨n, hn⟩ := exists_length_eq_succ hne
  let st (i : ℕ) : S5Ctx :=
    { cx with
      arg0 := i, arg1 := xs.length, state := .methods
      methods := cx.methods ||| methodSet (xs.take i) }
  have hstep (i : ℕ) (hi : i < xs.length) :
      s5Step (st i) xs[i] = (st (i + 1), if i + 1 = xs.length then some .authSelect else none) := by
    rw [s5Step, stepMethods_of_lt hi]
    simp only [st, UInt8.or_assoc, methodSet_take_succ hi]
  have h0 : { cx with arg0 := 0, arg1 := xs.length, state := .methods } = st 0 := by
    simp [st, methodSet]
  rw [h0, feed_field st hn fun i hi hin => by rw [hstep, if_neg (by omega)],
    feed_cons_some (t := st (n + 1)) (by rw [hstep, if_pos hn.symm])]
  simp only [st, ← hn, take_length]

/-- The state that reads a text stores each byte, and a `'\0'` after the last of them. -/
theorem feed_text (st : ℕ → (ℕ → UInt8) → S5Ctx) (done : (ℕ → UInt8) → S5Ctx) (r : Option S5Err)
    (hne : xs ≠ []) (buf : ℕ → UInt8) (ys : List UInt8)
    (hstep : ∀ i b c, i < xs.length → s5Step (st i b) c =
      if i + 1 = xs.length then (done (setByte (setByte b i c) xs.length 0), r)
      else (st (i + 1) (setByte b i c), none)) :
    ∃ s c, feed s5Step (st 0 buf) (xs ++ ys) = feed s5Step s (c :: ys) ∧
      s5Step s c = (done (storedText buf xs), r) := by
  obtain ⟨n, hn⟩ := exists_length_eq_succ hne
  refine ⟨st n (stored buf (xs.take n)), xs[n], ?_, ?_⟩
  · have hmid (i : ℕ) (hi : i < xs.length) (hin : i < n) :
        s5Step (st i (stored buf (xs.take i))) xs[i] =
          (st (i + 1) (stored buf (xs.take (i + 1))), none) := by
      rw [hstep _ _ _ hi, if_neg (by omega), setByte_stored]
    have hfield := @feed_field _ _ _ _ _ ys (fun i => st i (stored buf (xs.take i))) n hn hmid
    rwa [take_zero, stored_nil] at hfield
  · rw [hstep _ _ _ (by omega), if_pos hn.symm, setByte_stored, ← hn, take_length, storedText]

theorem feed_username (hne : xs ≠ []) {len : UInt8} (hlen : len.toNat = xs.length) :
    feed s5Step { cx with arg0 := 0, userlen := len, state := .authPwUsername } (xs ++ ys) =
      feed s5Step
        { cx with
          arg0 := xs.length, userlen := len, state := .authPwPasslen
          username := storedText cx.username xs } ys := by
  obtain ⟨s, c, hfeed, hlast⟩ := feed_text
    (fun i b => { cx with arg0 := i, userlen := len, state := .authPwUsername, username := b })
    (fun b => { cx with
      arg0 := xs.length, userlen := len, state := .authPwPasslen, username := b }) none
    hne cx.username ys fun i b c hi => by
      simp only [s5Step, stepUsername, hlen, if_pos hi]
      split_ifs with hlast <;> simp [hlast]
  exact hfeed.trans (feed_cons_none hlast)

theorem feed_password (hne : xs ≠ []) {len : UInt8} (hlen : len.toNat = xs.length) :
    feed s5Step { cx with arg0 := 0, passlen := len, state := .authPwPassword } (xs ++ ys) =
      (some .authVerify, ys,
        { cx with
          arg0 := xs.length, passlen := len, state := .reqVersion
          password := storedText cx.password xs }) := by
  obtain ⟨s, c, hfeed, hlast⟩ := feed_text
    (fun i b => { cx with arg0 := i, passlen := len, state := .authPwPassword, password := b })
    (fun b => { cx with
      arg0 := xs.length, passlen := len, state := .reqVersion, password := b }) (some .authVerify)
    hne cx.password ys fun i b c hi => by
      simp only [s5Step, stepPassword, hlen, if_pos hi]
      split_ifs with hlast <;> simp [hlast]
  exact hfeed.trans (feed_cons_some hlast)

theorem feed_daddr (cx : S5Ctx) (hne : xs ≠ []) :
    feed s5Step { cx with arg0 := 0, arg1 := xs.length, state := .reqDaddr } (xs ++ ys) =
      feed s5Step
        { cx with
          arg0 := xs.length, arg1 := xs.length, state := .reqDport0
          daddr := storedText cx.daddr xs } ys := by
  obtain ⟨s, c, hfeed, hlast⟩ := feed_text
    (fun i b => { cx with arg0 := i, arg1 := xs.length, state := .reqDaddr, daddr := b })
    (fun b => { cx with
      arg0 := xs.length, arg1 := xs.length, state := .reqDport0, daddr := b }) none
    hne cx.daddr ys fun i b c hi => by
      simp only [s5Step, stepDaddr, if_pos hi]
      split_ifs with hlast <;> simp [hlast]
  exact hfeed.trans (feed_cons_none hlast)

end LibuvWorks.Socks5

/-!
## The messages of a SOCKS5 client

The greeting, the user name and password message and the request, as bytes, and what
`s5_parse` reports for each of them.
-/
namespace LibuvWorks.Socks5

open Feed

structure Field where
  bytes : List UInt8
  length_le : bytes.length ≤ 255

def Field.len (f : Field) : UInt8 := UInt8.ofNat f.bytes.length

def Field.encode (f : Field) : List UInt8 := f.len :: f.bytes

theorem Field.toNat_len (f : Field) : f.len.toNat = f.bytes.length := by
  have := f.length_le
  exact UInt8.toNat_ofNat_of_lt' (by simp only [UInt8.size]; omega)

inductive Addr where
  | ipv4 (bytes : List UInt8) (length_eq : bytes.length = 4) : Addr
  | ipv6 (bytes : List UInt8) (length_eq : bytes.length = 16) : Addr
  | host (name : Field) : Addr

/-- The bytes of the address, without the length of a host name. -/
def Addr.bytes : Addr → List UInt8
  | ipv4 bytes _ => bytes
  | ipv6 bytes _ => bytes
  | host name => name.bytes

def Addr.atyp : Addr → S5Atyp
  | ipv4 .. => .ipv4
  | ipv6 .. => .ipv6
  | host _ => .host

def Addr.encode : Addr → List UInt8
  | ipv4 bytes _ => 1 :: bytes
  | ipv6 bytes _ => 4 :: bytes
  | host name => 3 :: name.encode

inductive Cmd where
  | connect : Cmd
  | udpAssoc : Cmd

def Cmd.encode : Cmd → UInt8
  | connect => 1
  | udpAssoc => 3

def Cmd.s5Cmd : Cmd → S5Cmd
  | connect => .tcpConnect
  | udpAssoc => .udpAssoc

structure Credentials where
  user : Field
  password : Field

structure Request where
  cmd : Cmd
  reserved : UInt8
  addr : Addr
  port : UInt16

structure Session where
  methods : Field
  credentials : Option Credentials
  request : Request

/-- `05 nmethods methods` -/
def greeting (methods : Field) : List UInt8 := 5 :: methods.encode

/-- `01 userlen username passlen password` -/
def Credentials.encode (cr : Credentials) : List UInt8 :=
  1 :: (cr.user.encode ++ cr.password.encode)

/-- `05 cmd reserved atyp address port`, the port in big-endian order. -/
def Request.encode (r : Request) : List UInt8 :=
  5 :: r.cmd.encode :: r.reserved :: (r.addr.encode ++ [(r.port >>> 8).toUInt8, r.port.toUInt8])

variable {cx : S5Ctx} {ys : List UInt8}

/-- The context after a greeting. -/
def S5Ctx.greeted (cx : S5Ctx) (methods : Field) : S5Ctx :=
  { cx with
    arg0 := methods.bytes.length, arg1 := methods.bytes.length, state := .methods
    methods := cx.methods ||| methodSet methods.bytes }

/-- The context after user name and password. -/
def S5Ctx.identified (cx : S5Ctx) (cr : Credentials) : S5Ctx :=
  { cx with
    arg0 := cr.password.bytes.length, state := .reqVersion
    userlen := cr.user.len, username := storedText cx.username cr.user.bytes
    passlen := cr.password.len, password := storedText cx.password cr.password.bytes }

/-- The context after a request. -/
def S5Ctx.requested (cx : S5Ctx) (r : Request) : S5Ctx :=
  { cx with
    arg0 := r.addr.bytes.length, arg1 := r.addr.bytes.length, state := .dead
    cmd := r.cmd.s5Cmd, atyp := r.addr.atyp, daddr := storedText cx.daddr r.addr.bytes
    dport := r.port }

theorem feed_greeting (hst : cx.state = .version) (methods : Field) (hne : methods.bytes ≠ []) :
    feed s5Step cx (greeting methods ++ ys) = (some .authSelect, ys, cx.greeted methods) := by
  rw [greeting, Field.encode, cons_append, cons_append,
    feed_cons_none (t := { cx with state := .nmethods }) (by simp [s5Step, hst]),
    feed_cons_none (t := { cx with arg0 := 0, arg1 := methods.bytes.length, state := .methods })
      (by simp [s5Step, methods.toNat_len])]
  exact feed_methods hne

theorem feed_credentials (hst : cx.state = .authPwVersion) (cr : Credentials)
    (hu : cr.user.bytes ≠ []) (hp : cr.password.bytes ≠ []) :
    feed s5Step cx (cr.encode ++ ys) = (some .authVerify, ys, cx.identified cr) := by
  rw [Credentials.encode, Field.encode, Field.encode, cons_append, cons_append,
    cons_append, append_assoc,
    feed_cons_none (t := { cx with state := .authPwUserlen }) (by simp [s5Step, hst]),
    feed_cons_none (t := { cx with arg0 := 0, userlen := cr.user.len, state := .authPwUsername })
      (by simp [s5Step])]
  rw [feed_username hu cr.user.toNat_len, cons_append]
  exact feed_password hp cr.password.toNat_len

/-- The two bytes of a port, put together the way `s5_req_dport0` and `s5_req_dport1` do. -/
theorem port_join (port : UInt16) :
    (port >>> 8).toUInt8.toUInt16 <<< (8 : UInt16) ||| port.toUInt8.toUInt16 = port := by
  have hlt := port.toNat_lt
  have hlo : port.toNat % 256 < 2 ^ 8 := mod_lt _ (by decide)
  have hhi : port.toNat / 2 ^ 8 % 2 ^ 8 = port.toNat / 2 ^ 8 := mod_eq_of_lt (by omega)
  have hshift : (port.toNat / 2 ^ 8) <<< 8 % 2 ^ 16 = (port.toNat / 2 ^ 8) <<< 8 :=
    mod_eq_of_lt (by rw [shiftLeft_eq]; omega)
  apply UInt16.toNat_inj.mp
  simp only [UInt16.toNat_or, UInt16.toNat_shiftLeft, UInt8.toNat_toUInt16, UInt16.toNat_toUInt8,
    UInt16.toNat_shiftRight]
  rw [show UInt16.toNat 8 % 16 = 8 from rfl, shiftRight_eq_div_pow, hhi, hshift,
    ← shiftLeft_add_eq_or_of_lt hlo, shiftLeft_eq]
  omega

theorem feed_addr (hst : cx.state = .reqAtyp) (addr : Addr) (hne : addr.bytes ≠ []) :
    feed s5Step cx (addr.encode ++ ys) =
      feed s5Step { cx with
        arg0 := addr.bytes.length, arg1 := addr.bytes.length, state := .reqDport0
        atyp := addr.atyp, daddr := storedText cx.daddr addr.bytes } ys := by
  cases addr with
  | ipv4 bytes hlen =>
    rw [Addr.encode, cons_append, feed_cons_none
      (t := { cx with arg0 := 0, arg1 := bytes.length, state := .reqDaddr, atyp := .ipv4 })
      (by simp [s5Step, hst, stepAtyp, hlen])]
    exact feed_daddr { cx with atyp := .ipv4 } hne
  | ipv6 bytes hlen =>
    rw [Addr.encode, cons_append, feed_cons_none
      (t := { cx with arg0 := 0, arg1 := bytes.length, state := .reqDaddr, atyp := .ipv6 })
      (by simp [s5Step, hst, stepAtyp, hlen])]
    exact feed_daddr { cx with atyp := .ipv6 } hne
  | host name =>
    rw [Addr.encode, Field.encode, cons_append, cons_append,
      feed_cons_none (t := { cx with arg0 := 0, arg1 := 0, state := .reqAtypHost, atyp := .host })
        (by simp [s5Step, hst, stepAtyp]),
      feed_cons_none (t := { cx with
        arg0 := 0, arg1 := name.bytes.length, state := .reqDaddr, atyp := .host })
        (by simp [s5Step, name.toNat_len])]
    exact feed_daddr { cx with atyp := .host } hne

theorem feed_request (hst : cx.state = .reqVersion) (r : Request) (hne : r.addr.bytes ≠ []) :
    feed s5Step cx (r.encode ++ ys) = (some .execCmd, ys, cx.requested r) := by
  have hcmd : feed s5Step cx (r.encode ++ ys) =
      feed s5Step { cx with cmd := r.cmd.s5Cmd, state := .reqAtyp }
        (r.addr.encode ++ (r.port >>> 8).toUInt8 :: r.port.toUInt8 :: ys) := by
    simp only [Request.encode, cons_append, append_assoc, nil_append]
    rw [feed_cons_none (t := { cx with state := .reqCmd }) (by simp [s5Step, hst]),
      feed_cons_none (t := { cx with cmd := r.cmd.s5Cmd, state := .reqReserved })
        (by cases r.cmd <;> simp [s5Step, stepCmd, Cmd.encode, Cmd.s5Cmd]),
      feed_cons_none (t := { cx with cmd := r.cmd.s5Cmd, state := .reqAtyp }) (by simp [s5Step])]
  rw [hcmd, feed_addr rfl r.addr hne, feed_cons_none (by rw [s5Step]),
      feed_cons_some (by rw [s5Step])]
  simp only [port_join, S5Ctx.requested]

end LibuvWorks.Socks5

/-!
## What the parser decodes

A session is decoded when each of its messages is reported at its last byte, whatever
comes after it, and the context holds what the message says. The parser decodes exactly
the sessions without a counted field of length zero.
-/
namespace LibuvWorks.Socks5

open Feed

/-- `s5_parse` reports `err` at the last byte of `msg` and leaves what follows it. -/
def ReportsAtEnd (cx : S5Ctx) (msg : List UInt8) (err : S5Err) (cx' : S5Ctx) : Prop :=
  ∀ rest, s5Parse cx (msg ++ rest) = (err, rest, cx')

/-- The context holds the credentials, if the client sent some. -/
def HoldsCredentials (cx : S5Ctx) : Option Credentials → Prop
  | none => True
  | some cr =>
    cx.userlen.toNat = cr.user.bytes.length ∧ HoldsText cx.username cr.user.bytes ∧
    cx.passlen.toNat = cr.password.bytes.length ∧ HoldsText cx.password cr.password.bytes

def HoldsRequest (cx : S5Ctx) (r : Request) : Prop :=
  cx.cmd = r.cmd.s5Cmd ∧ cx.atyp = r.addr.atyp ∧ HoldsText cx.daddr r.addr.bytes ∧
  cx.dport = r.port

/-- The stage between the greeting and the request. -/
def CredentialsDecoded (cx cx' : S5Ctx) : Option Credentials → Prop
  | none => s5SelectAuth cx .none = (0, cx')
  | some cr =>
    (s5SelectAuth cx .passwd).1 = 0 ∧
    ReportsAtEnd (s5SelectAuth cx .passwd).2 cr.encode .authVerify cx'

/-- The three messages of the session are found and decoded. -/
def Decoded (s : Session) : Prop :=
  ∃ cx₁ cx₂ cx₃ : S5Ctx,
    ReportsAtEnd s5Init (greeting s.methods) .authSelect cx₁ ∧
    s5AuthMethods cx₁ = methodSet s.methods.bytes ∧
    CredentialsDecoded cx₁ cx₂ s.credentials ∧
    HoldsCredentials cx₂ s.credentials ∧
    ReportsAtEnd cx₂ s.request.encode .execCmd cx₃ ∧
    HoldsRequest cx₃ s.request ∧
    s5AuthMethods cx₃ = methodSet s.methods.bytes ∧ HoldsCredentials cx₃ s.credentials

def Credentials.NoneEmpty (cr : Credentials) : Prop :=
  cr.user.bytes ≠ [] ∧ cr.password.bytes ≠ []

def Session.NoneEmpty (s : Session) : Prop :=
  s.methods.bytes ≠ [] ∧ (∀ cr ∈ s.credentials, cr.NoneEmpty) ∧ s.request.addr.bytes ≠ []

variable {cx cx' : S5Ctx} {msg xs : List UInt8} {err : S5Err}

theorem ReportsAtEnd.of_feed (h : ∀ ys, feed s5Step cx (msg ++ ys) = (some err, ys, cx')) :
    ReportsAtEnd cx msg err cx' := by
  intro rest
  rw [s5Parse, h]
  rfl

theorem ReportsAtEnd.feed_eq (h : ReportsAtEnd cx msg err cx') (hne : err ≠ .ok) :
    feed s5Step cx msg = (some err, [], cx') := by
  have hparse := h []
  rw [append_nil, s5Parse] at hparse
  rcases hf : feed s5Step cx msg with ⟨_ | e, rest, cx''⟩
  · simp only [hf, Option.getD_none, Prod.mk.injEq] at hparse
    exact absurd hparse.1.symm hne
  · simp only [hf, Option.getD_some, Prod.mk.injEq] at hparse
    obtain ⟨rfl, rfl, rfl⟩ := hparse
    rfl

/-! ### Sessions without an empty field -/

theorem decoded_of_noneEmpty {s : Session} (h : s.NoneEmpty) : Decoded s := by
  obtain ⟨hm, hcr, ha⟩ := h
  have hset : (0 : UInt8) ||| methodSet s.methods.bytes = methodSet s.methods.bytes :=
    UInt8.zero_or
  let cx₁ := s5Init.greeted s.methods
  have hgreet : ReportsAtEnd s5Init (greeting s.methods) .authSelect cx₁ :=
    .of_feed fun _ => feed_greeting rfl s.methods hm
  have hrequest {cx : S5Ctx} (hst : cx.state = .reqVersion) :
      ReportsAtEnd cx s.request.encode .execCmd (cx.requested s.request) :=
    .of_feed fun _ => feed_request hst s.request ha
  have hholds {cx : S5Ctx} : HoldsRequest (cx.requested s.request) s.request :=
    ⟨rfl, rfl, holdsText_storedText, rfl⟩
  unfold Decoded
  cases hc : s.credentials with
  | none =>
    let cx₂ : S5Ctx := { cx₁ with state := .reqVersion }
    exact ⟨cx₁, cx₂, cx₂.requested s.request, hgreet, hset, rfl, trivial, hrequest rfl, hholds,
      hset, trivial⟩
  | some cr =>
    obtain ⟨hu, hp⟩ := hcr cr hc
    let cx₂ := S5Ctx.identified { cx₁ with state := .authPwVersion } cr
    have hcred : HoldsCredentials cx₂ (some cr) :=
      ⟨cr.user.toNat_len, holdsText_storedText, cr.password.toNat_len, holdsText_storedText⟩
    exact ⟨cx₁, cx₂, cx₂.requested s.request, hgreet, hset,
      ⟨rfl, .of_feed fun _ => feed_credentials rfl cr hu hp⟩, hcred, hrequest rfl, hholds, hset,
      hcred⟩

/-! ### Empty fields -/

theorem bytes_ne_nil_of_greeting {methods : Field}
    (h : ReportsAtEnd s5Init (greeting methods) .authSelect cx') : methods.bytes ≠ [] := by
  intro hnil
  have hf := h.feed_eq (by decide)
  rw [greeting, Field.encode, hnil] at hf
  simp [feed, s5Step, s5Init] at hf

/-- The password state keeps the length it was given and reads that many bytes. -/
theorem passlen_le_of_feed (hst : cx.state = .authPwPassword)
    (h : feed s5Step cx xs = (some err, [], cx')) :
    cx'.passlen = cx.passlen ∧ cx.passlen.toNat ≤ cx.arg0 + xs.length := by
  induction xs generalizing cx with
  | nil => simp at h
  | cons c cs ih =>
    rw [length_cons]
    have hs : s5Step cx c = stepPassword cx c := by rw [s5Step, hst]
    unfold stepPassword at hs
    by_cases hlt : cx.arg0 < cx.passlen.toNat
    · simp only [if_pos hlt] at hs
      by_cases heq : cx.arg0 + 1 = cx.passlen.toNat
      · rw [feed_cons_some (hs.trans (if_pos heq))] at h
        cases h
        exact ⟨rfl, by omega⟩
      · rw [feed_cons_none (hs.trans (if_neg heq))] at h
        obtain ⟨hlen, hle⟩ := ih (by exact hst) h
        exact ⟨hlen, by simp only at hle; omega⟩
    · simp only [if_neg hlt] at hs
      by_cases heq : cx.arg0 = cx.passlen.toNat
      · rw [feed_cons_some (hs.trans (if_pos heq))] at h
        cases h
        exact ⟨rfl, by omega⟩
      · rw [feed_cons_none (hs.trans (if_neg heq))] at h
        obtain ⟨hlen, hle⟩ := ih hst h
        exact ⟨hlen, by omega⟩

/-- After an empty user name the length of the password is taken from its first byte, so the
password ends too late. -/
theorem user_ne_nil_of_decoded {cr : Credentials} (hst : cx.state = .authPwVersion)
    (h : ReportsAtEnd cx cr.encode .authVerify cx')
    (hlen : cx'.passlen.toNat = cr.password.bytes.length) : cr.user.bytes ≠ [] := by
  intro hnil
  have hf := h.feed_eq (by decide)
  rw [Credentials.encode, Field.encode, Field.encode, Field.len, hnil, length_nil,
    feed_cons_none (t := { cx with state := .authPwUserlen }) (by simp [s5Step, hst]),
    cons_append, nil_append, feed_cons_none (by rw [s5Step]),
    feed_cons_none (by rw [s5Step, stepUsername]; rfl)] at hf
  cases hp : cr.password.bytes with
  | nil => simp [hp] at hf
  | cons c cs =>
    rw [hp, feed_cons_none (by rw [s5Step])] at hf
    obtain ⟨hkeep, hle⟩ := passlen_le_of_feed rfl hf
    rw [hp, hkeep, length_cons] at hlen
    simp only at hle hlen
    omega

theorem password_ne_nil_of_decoded {cr : Credentials} (hst : cx.state = .authPwVersion)
    (h : ReportsAtEnd cx cr.encode .authVerify cx') (hu : cr.user.bytes ≠ []) :
    cr.password.bytes ≠ [] := by
  intro hnil
  have hf := h.feed_eq (by decide)
  rw [Credentials.encode, Field.encode, Field.encode, hnil,
    feed_cons_none (t := { cx with state := .authPwUserlen }) (by simp [s5Step, hst]),
    cons_append, feed_cons_none (by rw [s5Step]), feed_username hu cr.user.toNat_len,
    feed_cons_none (by rw [s5Step])] at hf
  simp at hf

theorem bytes_ne_nil_of_request {r : Request} (hst : cx.state = .reqVersion)
    (h : ReportsAtEnd cx r.encode .execCmd cx') : r.addr.bytes ≠ [] := by
  intro hnil
  have hf := h.feed_eq (by decide)
  cases ha : r.addr with
  | ipv4 bytes hlen | ipv6 bytes hlen =>
    rw [ha, Addr.bytes] at hnil
    simp [hnil] at hlen
  | host name =>
    rw [ha, Addr.bytes] at hnil
    rw [Request.encode, ha, Addr.encode, Field.encode, Field.len, hnil] at hf
    cases hc : r.cmd <;>
      simp [feed, s5Step, hst, hc, Cmd.encode, stepCmd, stepAtyp, stepDaddr] at hf

theorem state_of_credentialsDecoded {credentials : Option Credentials}
    (h : CredentialsDecoded cx cx' credentials) (hne : ∀ cr ∈ credentials, cr.NoneEmpty) :
    cx'.state = .reqVersion := by
  cases credentials with
  | none =>
    obtain ⟨-, rfl⟩ := Prod.mk.inj h
    rfl
  | some cr =>
    obtain ⟨hu, hp⟩ := hne cr rfl
    have hf := h.2.feed_eq (by decide)
    rw [← append_nil cr.encode, feed_credentials rfl cr hu hp] at hf
    cases hf
    rfl

/-- The parser decodes a session just if none of its counted fields is empty. -/
theorem decoded_iff_noneEmpty (s : Session) : Decoded s ↔ s.NoneEmpty := by
  refine ⟨?_, decoded_of_noneEmpty⟩
  rintro ⟨cx₁, cx₂, cx₃, hgreet, -, hcred, hholds, hreq, -, -, -⟩
  have hne : ∀ cr ∈ s.credentials, cr.NoneEmpty := by
    intro cr hc
    rw [hc] at hcred hholds
    have hu := user_ne_nil_of_decoded rfl hcred.2 hholds.2.2.1
    exact ⟨hu, password_ne_nil_of_decoded rfl hcred.2 hu⟩
  exact ⟨bytes_ne_nil_of_greeting hgreet, hne,
    bytes_ne_nil_of_request (state_of_credentialsDecoded hcred hne) hreq⟩

/-- A client that sends an empty password: `01 01 61 00`. -/
def emptyPassword : Session where
  methods := ⟨[2], by decide⟩
  credentials := some { user := ⟨[0x61], by decide⟩, password := ⟨[], by decide⟩ }
  request := { cmd := .connect, reserved := 0, addr := .ipv4 [127, 0, 0, 1] rfl, port := 80 }

/-- The message with the empty password is not reported at its end. -/
theorem emptyPassword_not_decoded : ¬ Decoded emptyPassword := by
  rintro ⟨cx₁, cx₂, cx₃, -, -, hcred, -⟩
  have hf := ReportsAtEnd.feed_eq hcred.2 (by decide)
  simp [Credentials.encode, Field.encode, Field.len, feed, s5SelectAuth, s5Step,
    stepUsername] at hf

end LibuvWorks.Socks5
