import LibuvWorks.Lib.Transition
import LibuvWorks.Socks5.Chunks

/-!
# The parser in memory

The context as `s5_ctx` has it: the state is a `uint8_t`, the counters are of type `uint32_t`, and
the names are written to arrays of 257 bytes. This parser can abort and could write outside of them.
-/
namespace LibuvWorks.Socks5

open Feed Transition List Option Function Nat

/-- The place of a state in the `enum` of `s5.c` -/
def S5State.code : S5State → UInt8
  | version => 0
  | nmethods => 1
  | methods => 2
  | authPwVersion => 3
  | authPwUserlen => 4
  | authPwUsername => 5
  | authPwPasslen => 6
  | authPwPassword => 7
  | reqVersion => 8
  | reqCmd => 9
  | reqReserved => 10
  | reqAtyp => 11
  | reqAtypHost => 12
  | reqDaddr => 13
  | reqDport0 => 14
  | reqDport1 => 15
  | dead => 16

/-- The state that a number stands for -/
def S5State.ofCode (n : UInt8) : Option S5State :=
  [version, nmethods, methods, authPwVersion, authPwUserlen, authPwUsername, authPwPasslen,
    authPwPassword, reqVersion, reqCmd, reqReserved, reqAtyp, reqAtypHost, reqDaddr, reqDport0,
    reqDport1, dead][n.toNat]?

/-- `s5_ctx` -/
structure MemCtx where
  arg0 : UInt32
  arg1 : UInt32
  state : UInt8
  methods : UInt8
  cmd : S5Cmd
  atyp : S5Atyp
  userlen : UInt8
  passlen : UInt8
  dport : UInt16
  username : List UInt8
  password : List UInt8
  daddr : List UInt8

/-- What must not happen: `abort()`, or a write outside of an array -/
inductive S5Fault where
  | abort : S5Fault
  | outOfBounds : S5Fault

/-- `s5_init` -/
def memInit : MemCtx where
  arg0 := 0
  arg1 := 0
  state := S5State.version.code
  methods := 0
  cmd := .tcpConnect
  atyp := .ipv4
  userlen := 0
  passlen := 0
  dport := 0
  username := List.replicate 257 0
  password := List.replicate 257 0
  daddr := List.replicate 257 0

/-- `buf[i] = c;` -/
def store (buf : List UInt8) (i : ℕ) (c : UInt8) : Option (List UInt8) :=
  if i < buf.length then some (buf.set i c) else none

/-- What the cases of `username`, `password` and `daddr` have in common: `arg0`, the array, and
whether the name is complete -/
def fill (buf : List UInt8) (arg0 : UInt32) (len : ℕ) (c : UInt8) :
    Option (List UInt8 × UInt32 × Bool) :=
  (if arg0.toNat < len then (store buf arg0.toNat c).map (·, arg0 + 1) else some (buf, arg0)).bind
    fun (buf, arg0) =>
      if arg0.toNat = len then (store buf len 0).map (·, arg0, true) else some (buf, arg0, false)

abbrev Leaves := Option (Except S5Fault S5Err)

def written (cx : MemCtx) : Option (MemCtx × Option S5Err) → MemCtx × Leaves
  | none => (cx, some (.error .outOfBounds))
  | some (cx, err) => (cx, err.map .ok)

/-- One turn of the loop of `s5_parse` -/
def memStep (cx : MemCtx) (c : UInt8) : MemCtx × Leaves :=
  match S5State.ofCode cx.state with
  | some .version =>
    if c ≠ 5 then (cx, some (.ok .badVersion))
    else ({ cx with state := S5State.nmethods.code }, none)
  | some .nmethods =>
    ({ cx with arg0 := 0, arg1 := c.toUInt32, state := S5State.methods.code }, none)
  | some .methods =>
    let cx :=
      if cx.arg0 < cx.arg1 then
        { cx with methods := cx.methods ||| methodBit c, arg0 := cx.arg0 + 1 } else cx
    (cx, if cx.arg0 = cx.arg1 then some (.ok .authSelect) else none)
  | some .authPwVersion =>
    if c ≠ 1 then (cx, some (.ok .badVersion))
    else ({ cx with state := S5State.authPwUserlen.code }, none)
  | some .authPwUserlen =>
    ({ cx with arg0 := 0, userlen := c, state := S5State.authPwUsername.code }, none)
  | some .authPwUsername =>
    written cx ((fill cx.username cx.arg0 cx.userlen.toNat c).map fun (username, arg0, whole) =>
      ({ cx with
        username
        arg0
        state := if whole then S5State.authPwPasslen.code else cx.state }, none))
  | some .authPwPasslen =>
    ({ cx with arg0 := 0, passlen := c, state := S5State.authPwPassword.code }, none)
  | some .authPwPassword =>
    written cx ((fill cx.password cx.arg0 cx.passlen.toNat c).map fun (password, arg0, whole) =>
      ({ cx with
        password
        arg0
        state := if whole then S5State.reqVersion.code else cx.state },
        if whole then some .authVerify else none))
  | some .reqVersion =>
    if c ≠ 5 then (cx, some (.ok .badVersion))
    else ({ cx with state := S5State.reqCmd.code }, none)
  | some .reqCmd =>
    if c = 1 then ({ cx with cmd := .tcpConnect, state := S5State.reqReserved.code }, none)
    else if c = 3 then ({ cx with cmd := .udpAssoc, state := S5State.reqReserved.code }, none)
    else (cx, some (.ok .badCmd))
  | some .reqReserved => ({ cx with state := S5State.reqAtyp.code }, none)
  | some .reqAtyp =>
    let cx := { cx with arg0 := 0 }
    if c = 1 then
      ({ cx with state := S5State.reqDaddr.code, atyp := .ipv4, arg1 := 4 }, none)
    else if c = 3 then
      ({ cx with state := S5State.reqAtypHost.code, atyp := .host, arg1 := 0 }, none)
    else if c = 4 then
      ({ cx with state := S5State.reqDaddr.code, atyp := .ipv6, arg1 := 16 }, none)
    else (cx, some (.ok .badAtyp))
  | some .reqAtypHost => ({ cx with arg1 := c.toUInt32, state := S5State.reqDaddr.code }, none)
  | some .reqDaddr =>
    written cx ((fill cx.daddr cx.arg0 cx.arg1.toNat c).map fun (daddr, arg0, whole) =>
      ({ cx with daddr, arg0, state := if whole then S5State.reqDport0.code else cx.state }, none))
  | some .reqDport0 =>
    ({ cx with dport := c.toUInt16 <<< (8 : UInt16), state := S5State.reqDport1.code }, none)
  | some .reqDport1 =>
    ({ cx with dport := cx.dport ||| c.toUInt16, state := S5State.dead.code },
      some (.ok .execCmd))
  | some .dead => (cx, none)
  | none => (cx, some (.error .abort))

/-- `s5_select_auth` -/
def memSelectAuth (cx : MemCtx) : S5AuthMethod → ℤ × MemCtx
  | .none => (0, { cx with state := S5State.reqVersion.code })
  | .passwd => (0, { cx with state := S5State.authPwVersion.code })
  | .gssapi => (einval, cx)

/-! ### What has been completed -/

/-- Whether the name whose length was last read has been completed -/
structure Completed where
  username : Bool
  password : Bool
  host : Bool

/-- A turn from one state to another one. A new length is read in the states that are named first,
and a name is completed where its state is left. -/
def Completed.turn (d : Completed) (cx cx' : MemCtx) : Completed where
  username :=
    if cx.state = S5State.authPwUserlen.code then false
    else if cx.state = S5State.authPwUsername.code then
      cx'.state = S5State.authPwPasslen.code
    else d.username
  password :=
    if cx.state = S5State.authPwPasslen.code then false
    else if cx.state = S5State.authPwPassword.code then cx'.state = S5State.reqVersion.code
    else d.password
  host :=
    if cx.state = S5State.nmethods.code ∨ cx.state = S5State.reqAtyp.code ∨
        cx.state = S5State.reqAtypHost.code then false
    else if cx.state = S5State.reqDaddr.code then
      cx'.state = S5State.reqDport0.code ∧ cx.atyp = .host
    else d.host

structure MemRun where
  cx : MemCtx
  completed : Completed
  asked : Bool

def MemRun.turn (r : MemRun) (c : UInt8) : MemRun × Leaves :=
  let (cx, err) := memStep r.cx c
  ({ r with cx, completed := r.completed.turn r.cx cx }, err)

/-- `s5_parse` -/
def memParse (r : MemRun) (data : List UInt8) : Except S5Fault S5Err × List UInt8 × MemRun :=
  let (err, rest, r) := feed MemRun.turn r data
  (err.getD (.ok .ok), rest, r)

/-- What is done with the context after `s5_init` -/
inductive MemEvent where
  | parse (data : List UInt8) : MemEvent
  | selectAuth (method : S5AuthMethod) : MemEvent

def MemInit (r : MemRun) : Prop := r = ⟨memInit, ⟨false, false, false⟩, false⟩

/-- Data is parsed, whatever the calls before have returned; a method is selected once `s5_parse`
has returned `s5_auth_select`. -/
inductive MemStep : MemRun → MemEvent → MemRun → Prop
  | parse {r r' : MemRun} {data rest : List UInt8} {err : S5Err} :
    memParse r data = (.ok err, rest, r') →
      MemStep r (.parse data) { r' with asked := r.asked || err = .authSelect }
  | selectAuth {r : MemRun} (method : S5AuthMethod) : r.asked = true →
      MemStep r (.selectAuth method) { r with cx := (memSelectAuth r.cx method).2 }

/-! ### Arrays -/

def Holds (buf : List UInt8) (f : ℕ → UInt8) : Prop := buf = (List.range 257).map f

variable {buf buf' : List UInt8} {f : ℕ → UInt8} {n len i : ℕ} {c : UInt8}

theorem Holds.length (h : Holds buf f) : buf.length = 257 := by
  rw [h, length_map, length_range]

theorem Holds.get (h : Holds buf f) (hi : i < 257) : buf[i]? = some (f i) := by
  rw [h, List.getElem?_map, List.getElem?_range hi]
  rfl

theorem Holds.store (h : Holds buf f) (hi : i < 257) (c : UInt8) :
    ∃ buf', store buf i c = some buf' ∧ Holds buf' (setByte f i c) := by
  refine ⟨buf.set i c, if_pos (h.length ▸ hi), ?_⟩
  rw [h]
  apply ext_getElem
  · rw [length_set, length_map, length_map]
  · intro j hj hj'
    rw [getElem_set, getElem_map, getElem_map, getElem_range]
    split_ifs with hij
    · rw [setByte, hij, update_self]
    · rw [setByte, update_of_ne (Ne.symm hij)]

/-- What `fill` does to the functions -/
def filled (f : ℕ → UInt8) (n len : ℕ) (c : UInt8) : (ℕ → UInt8) × ℕ × Bool :=
  if n < len then
    if n + 1 = len then (setByte (setByte f n c) len 0, n + 1, true)
    else (setByte f n c, n + 1, false)
  else if n = len then (setByte f len 0, n, true) else (f, n, false)

theorem filled_le (hn : n ≤ len) : (filled f n len c).2.1 ≤ len := by
  unfold filled
  split_ifs <;> dsimp only <;> omega

theorem filled_whole (h : (filled f n len c).2.2 = true) : (filled f n len c).1 len = 0 := by
  unfold filled at h ⊢
  split_ifs at h ⊢
  · exact update_self ..
  · exact update_self ..

theorem Holds.fill (h : Holds buf f) {arg0 : UInt32} (hn : arg0.toNat = n) (hle : n ≤ len)
    (hlen : len ≤ 255) (c : UInt8) : ∃ buf' arg0',
      fill buf arg0 len c = some (buf', arg0', (filled f n len c).2.2) ∧
        Holds buf' (filled f n len c).1 ∧ arg0'.toNat = (filled f n len c).2.1 := by
  unfold Socks5.fill filled
  rw [hn]
  by_cases hlt : n < len
  · obtain ⟨buf₁, hstore, hbuf₁⟩ := h.store (by omega : n < 257) c
    have hnext : (arg0 + 1).toNat = n + 1 := by
      rw [UInt32.toNat_add, hn]
      exact mod_eq_of_lt (by simp only [UInt32.toNat_one]; omega)
    rw [if_pos hlt, if_pos hlt, hstore, map_some, bind_some]
    dsimp only
    rw [hnext]
    by_cases hwhole : n + 1 = len
    · obtain ⟨buf₂, hstore₂, hbuf₂⟩ := hbuf₁.store (by omega : len < 257) 0
      rw [if_pos hwhole, if_pos hwhole, hstore₂]
      exact ⟨buf₂, arg0 + 1, rfl, hbuf₂, hnext⟩
    · rw [if_neg hwhole, if_neg hwhole]
      exact ⟨buf₁, arg0 + 1, rfl, hbuf₁, hnext⟩
  · have heq : n = len := by omega
    obtain ⟨buf₁, hstore, hbuf₁⟩ := h.store (by omega : len < 257) 0
    rw [if_neg hlt, if_neg hlt, bind_some]
    dsimp only
    rw [if_pos (hn.trans heq), if_pos heq, hstore]
    exact ⟨buf₁, arg0, rfl, hbuf₁, hn⟩

/-! ### The context in memory and the context -/

structure Shows (m : MemCtx) (cx : S5Ctx) : Prop where
  arg0 : m.arg0.toNat = cx.arg0
  arg1 : m.arg1.toNat = cx.arg1
  state : m.state = cx.state.code
  methods : m.methods = cx.methods
  cmd : m.cmd = cx.cmd
  atyp : m.atyp = cx.atyp
  userlen : m.userlen = cx.userlen
  passlen : m.passlen = cx.passlen
  dport : m.dport = cx.dport
  username : Holds m.username cx.username
  password : Holds m.password cx.password
  daddr : Holds m.daddr cx.daddr

/-- What bounds `arg0` in the states that use it; it is reset on the way to the other ones. -/
def S5Ctx.bound (cx : S5Ctx) : ℕ :=
  match cx.state with
  | .methods => cx.arg1
  | .authPwUsername => cx.userlen.toNat
  | .authPwPassword => cx.passlen.toNat
  | .reqAtypHost => 0
  | .reqDaddr => cx.arg1
  | _ => 255

/-- The counters do not exceed the lengths in the states that use them. -/
structure Counters (cx : S5Ctx) : Prop where
  arg0 : cx.arg0 ≤ cx.bound
  arg1 : cx.arg1 ≤ 255

structure Terminated (cx : S5Ctx) (d : Completed) : Prop where
  username : d.username = true → cx.username cx.userlen.toNat = 0
  password : d.password = true → cx.password cx.passlen.toNat = 0
  host : d.host = true → cx.daddr cx.arg1 = 0

variable {m m' : MemCtx} {cx cx' : S5Ctx} {d : Completed}

theorem shows_init : Shows memInit s5Init := by
  have hzero : Holds (replicate 257 0) fun _ => 0 := by
    rw [Holds, map_const', length_range]
  exact ⟨rfl, rfl, rfl, rfl, rfl, rfl, rfl, rfl, rfl, hzero, hzero, hzero⟩

theorem ofCode_code (s : S5State) : S5State.ofCode s.code = some s := by
  cases s <;> rfl

theorem code_inj {s t : S5State} : s.code = t.code ↔ s = t := by
  constructor
  · intro h
    have hsome := congrArg S5State.ofCode h
    rw [ofCode_code, ofCode_code] at hsome
    exact Option.some.inj hsome
  · exact congrArg _

theorem stepUsername_eq (cx : S5Ctx) (c : UInt8) : stepUsername cx c =
    ({ cx with
      username := (filled cx.username cx.arg0 cx.userlen.toNat c).1
      arg0 := (filled cx.username cx.arg0 cx.userlen.toNat c).2.1
      state := if (filled cx.username cx.arg0 cx.userlen.toNat c).2.2 then .authPwPasslen
        else cx.state }, none) := by
  unfold stepUsername filled
  split_ifs <;> simp_all

theorem stepPassword_eq (cx : S5Ctx) (c : UInt8) : stepPassword cx c =
    ({ cx with
      password := (filled cx.password cx.arg0 cx.passlen.toNat c).1
      arg0 := (filled cx.password cx.arg0 cx.passlen.toNat c).2.1
      state := if (filled cx.password cx.arg0 cx.passlen.toNat c).2.2 then .reqVersion
        else cx.state },
      if (filled cx.password cx.arg0 cx.passlen.toNat c).2.2 then some .authVerify else none) := by
  unfold stepPassword filled
  split_ifs <;> simp_all

theorem stepDaddr_eq (cx : S5Ctx) (c : UInt8) : stepDaddr cx c =
    ({ cx with
      daddr := (filled cx.daddr cx.arg0 cx.arg1 c).1
      arg0 := (filled cx.daddr cx.arg0 cx.arg1 c).2.1
      state := if (filled cx.daddr cx.arg0 cx.arg1 c).2.2 then .reqDport0 else cx.state }, none) := by
  unfold stepDaddr filled
  split_ifs <;> simp_all

theorem Counters.bound_le (h : Counters cx) : cx.bound ≤ 255 := by
  have := h.arg1
  have := cx.userlen.toNat_lt
  have := cx.passlen.toNat_lt
  unfold S5Ctx.bound
  split <;> omega

theorem Counters.arg0_le (h : Counters cx) : cx.arg0 ≤ 255 :=
  Nat.le_trans h.arg0 h.bound_le

theorem code_ite (b : Bool) {s t : S5State} {n : UInt8} (h : n = t.code) :
    (if b then s.code else n) = S5State.code (if b then s else t) := by
  cases b
  · exact h
  · rfl

/-- A turn does the same to both contexts: it does not abort, and no write is out of bounds. -/
theorem memStep_shows (h : Shows m cx) (hc : Counters cx) (c : UInt8) :
    Shows (memStep m c).1 (s5Step cx c).1 ∧ (memStep m c).2 = (s5Step cx c).2.map .ok := by
  have hlt : c.toUInt32.toNat = c.toNat := UInt8.toNat_toUInt32 c
  have hcode : S5State.ofCode m.state = some cx.state := by
    rw [h.state, ofCode_code]
  unfold memStep s5Step
  rw [hcode]
  cases hstate : cx.state with
  | version =>
    dsimp only
    split_ifs
    · exact ⟨h, rfl⟩
    · exact ⟨{ h with state := rfl }, rfl⟩
  | nmethods => exact ⟨{ h with arg0 := rfl, arg1 := hlt, state := rfl }, rfl⟩
  | methods =>
    dsimp only [stepMethods]
    have hiff : m.arg0 < m.arg1 ↔ cx.arg0 < cx.arg1 := by
      rw [UInt32.lt_iff_toNat_lt, h.arg0, h.arg1]
    have hnext : (m.arg0 + 1).toNat = cx.arg0 + 1 := by
      rw [UInt32.toNat_add, h.arg0]
      have := hc.arg0_le
      exact mod_eq_of_lt (by simp only [UInt32.toNat_one]; omega)
    have heq : ∀ {a b : UInt32} {k l : ℕ}, a.toNat = k → b.toNat = l → (a = b ↔ k = l) := by
      rintro a b k l rfl rfl
      exact UInt32.toNat_inj.symm
    by_cases hless : cx.arg0 < cx.arg1
    · rw [if_pos (hiff.mpr hless)]
      rw [h.methods]
      refine ⟨?_, ?_⟩
      · split_ifs
        · exact { h with methods := rfl, arg0 := hnext }
        · exact { h with methods := rfl, arg0 := hnext }
      · rw [if_congr (heq hnext h.arg1) rfl rfl]
        split_ifs <;> rfl
    · rw [if_neg (mt hiff.mp hless)]
      refine ⟨?_, ?_⟩
      · split_ifs
        · exact h
        · exact h
      · rw [if_congr (heq h.arg0 h.arg1) rfl rfl]
        split_ifs <;> rfl
  | authPwVersion =>
    dsimp only
    split_ifs
    · exact ⟨h, rfl⟩
    · exact ⟨{ h with state := rfl }, rfl⟩
  | authPwUserlen => exact ⟨{ h with arg0 := rfl, userlen := rfl, state := rfl }, rfl⟩
  | authPwUsername =>
    obtain ⟨buf, arg0, hfill, hbuf, harg0⟩ := h.username.fill h.arg0
      (by simpa only [S5Ctx.bound, hstate] using hc.arg0)
      (le_of_lt_succ cx.userlen.toNat_lt) c
    rw [stepUsername_eq, h.userlen, hfill]
    exact ⟨{ h with userlen := rfl, username := hbuf, arg0 := harg0, state := code_ite _ h.state }, rfl⟩
  | authPwPasslen => exact ⟨{ h with arg0 := rfl, passlen := rfl, state := rfl }, rfl⟩
  | authPwPassword =>
    obtain ⟨buf, arg0, hfill, hbuf, harg0⟩ := h.password.fill h.arg0
      (by simpa only [S5Ctx.bound, hstate] using hc.arg0)
      (le_of_lt_succ cx.passlen.toNat_lt) c
    rw [stepPassword_eq, h.passlen, hfill]
    exact ⟨{ h with passlen := rfl, password := hbuf, arg0 := harg0, state := code_ite _ h.state }, rfl⟩
  | reqVersion =>
    dsimp only
    split_ifs
    · exact ⟨h, rfl⟩
    · exact ⟨{ h with state := rfl }, rfl⟩
  | reqCmd =>
    dsimp only [stepCmd]
    split_ifs
    · exact ⟨{ h with cmd := rfl, state := rfl }, rfl⟩
    · exact ⟨{ h with cmd := rfl, state := rfl }, rfl⟩
    · exact ⟨h, rfl⟩
  | reqReserved => exact ⟨{ h with state := rfl }, rfl⟩
  | reqAtyp =>
    dsimp only [stepAtyp]
    split_ifs
    · exact ⟨{ h with arg0 := rfl, state := rfl, atyp := rfl, arg1 := rfl }, rfl⟩
    · exact ⟨{ h with arg0 := rfl, state := rfl, atyp := rfl, arg1 := rfl }, rfl⟩
    · exact ⟨{ h with arg0 := rfl, state := rfl, atyp := rfl, arg1 := rfl }, rfl⟩
    · exact ⟨{ h with arg0 := rfl }, rfl⟩
  | reqAtypHost => exact ⟨{ h with arg1 := hlt, state := rfl }, rfl⟩
  | reqDaddr =>
    obtain ⟨buf, arg0, hfill, hbuf, harg0⟩ := h.daddr.fill h.arg0
      (by simpa only [S5Ctx.bound, hstate] using hc.arg0) hc.arg1 c
    rw [stepDaddr_eq, h.arg1, hfill]
    exact ⟨{ h with daddr := hbuf, arg0 := harg0, state := code_ite _ h.state }, rfl⟩
  | reqDport0 => exact ⟨{ h with dport := rfl, state := rfl }, rfl⟩
  | reqDport1 => exact ⟨{ h with dport := congrArg (· ||| c.toUInt16) h.dport, state := rfl }, rfl⟩
  | dead => exact ⟨h, rfl⟩

/-! ### What a turn keeps -/

theorem counters_init : Counters s5Init := ⟨Nat.zero_le _, Nat.zero_le _⟩

theorem Counters.step (h : Counters cx) (c : UInt8) : Counters (s5Step cx c).1 := by
  have hc : c.toNat ≤ 255 := le_of_lt_succ c.toNat_lt
  have hle := h.arg0_le
  have harg1 := h.arg1
  have hbound := h.arg0
  unfold s5Step
  cases hstate : cx.state with
  | nmethods => exact ⟨Nat.zero_le _, hc⟩
  | methods =>
    dsimp only [stepMethods]
    by_cases hlt : cx.arg0 < cx.arg1
    · refine ⟨?_, by split_ifs <;> exact harg1⟩
      split_ifs <;> simpa only [S5Ctx.bound, hstate] using succ_le_of_lt hlt
    · split_ifs <;> exact h
  | authPwUserlen => exact ⟨Nat.zero_le _, harg1⟩
  | authPwUsername =>
    simp only [S5Ctx.bound, hstate] at hbound
    have hfilled := filled_le (f := cx.username) (c := c) hbound
    have hlen := cx.userlen.toNat_lt
    rw [stepUsername_eq]
    refine ⟨?_, harg1⟩
    unfold S5Ctx.bound
    dsimp only
    rw [hstate]
    split_ifs
    · dsimp only
      omega
    · exact hfilled
  | authPwPasslen => exact ⟨Nat.zero_le _, harg1⟩
  | authPwPassword =>
    simp only [S5Ctx.bound, hstate] at hbound
    have hfilled := filled_le (f := cx.password) (c := c) hbound
    have hlen := cx.passlen.toNat_lt
    rw [stepPassword_eq]
    refine ⟨?_, harg1⟩
    unfold S5Ctx.bound
    dsimp only
    rw [hstate]
    split_ifs
    · dsimp only
      omega
    · exact hfilled
  | reqCmd =>
    dsimp only [stepCmd]
    split_ifs
    · exact ⟨hle, harg1⟩
    · exact ⟨hle, harg1⟩
    · exact h
  | reqAtyp =>
    dsimp only [stepAtyp]
    split_ifs
    · exact ⟨Nat.zero_le _, (by decide : 4 ≤ 255)⟩
    · exact ⟨Nat.zero_le _, Nat.zero_le _⟩
    · exact ⟨Nat.zero_le _, (by decide : 16 ≤ 255)⟩
    · exact ⟨Nat.zero_le _, harg1⟩
  | reqAtypHost =>
    simp only [S5Ctx.bound, hstate] at hbound
    exact ⟨Nat.le_trans hbound (Nat.zero_le _), hc⟩
  | reqDaddr =>
    simp only [S5Ctx.bound, hstate] at hbound
    have hfilled := filled_le (f := cx.daddr) (c := c) hbound
    rw [stepDaddr_eq]
    refine ⟨?_, harg1⟩
    dsimp only
    rw [hstate]
    split_ifs
    · exact Nat.le_trans hfilled harg1
    · exact hfilled
  | dead => exact h
  | version | authPwVersion | reqVersion =>
    dsimp only
    split_ifs
    · exact h
    · exact ⟨hle, harg1⟩
  | reqReserved | reqDport0 | reqDport1 => exact ⟨hle, harg1⟩

theorem turn_eq (h : Shows m cx) (h' : Shows m' cx') : d.turn m m' =
    ⟨if cx.state = .authPwUserlen then false
      else if cx.state = .authPwUsername then cx'.state = .authPwPasslen else d.username,
    if cx.state = .authPwPasslen then false
      else if cx.state = .authPwPassword then cx'.state = .reqVersion else d.password,
    if cx.state = .nmethods ∨ cx.state = .reqAtyp ∨ cx.state = .reqAtypHost then false
      else if cx.state = .reqDaddr then cx'.state = .reqDport0 ∧ cx.atyp = .host else d.host⟩ := by
  simp only [Completed.turn, h.state, h'.state, h.atyp, code_inj]

theorem Terminated.step (ht : Terminated cx d) (h : Shows m cx)
    (h' : Shows m' (s5Step cx c).1) : Terminated (s5Step cx c).1 (d.turn m m') := by
  rw [turn_eq h h']
  unfold s5Step
  cases hstate : cx.state with
  | nmethods => exact { ht with host := nofun }
  | authPwUserlen => exact { ht with username := nofun }
  | authPwUsername =>
    rw [stepUsername_eq]
    refine { ht with username := fun hwhole => filled_whole ?_ }
    by_contra hnot
    simp [hnot, hstate] at hwhole
  | authPwPasslen => exact { ht with password := nofun }
  | authPwPassword =>
    rw [stepPassword_eq]
    refine { ht with password := fun hwhole => filled_whole ?_ }
    by_contra hnot
    simp [hnot, hstate] at hwhole
  | reqAtyp =>
    change Terminated (stepAtyp cx c).1 ⟨d.username, d.password, false⟩
    unfold stepAtyp
    split_ifs <;> exact { ht with host := nofun }
  | reqAtypHost => exact { ht with host := nofun }
  | reqDaddr =>
    rw [stepDaddr_eq]
    refine { ht with host := fun hwhole => filled_whole ?_ }
    by_contra hnot
    simp [hnot, hstate] at hwhole
  | methods =>
    change Terminated (stepMethods cx c).1 d
    unfold stepMethods
    dsimp only
    split_ifs <;> exact { ht with }
  | version | authPwVersion | reqVersion =>
    change Terminated (ite _ _ _ : S5Ctx × Option S5Err).1 d
    split_ifs <;> exact { ht with }
  | reqCmd =>
    change Terminated (stepCmd cx c).1 d
    unfold stepCmd
    split_ifs <;> exact { ht with }
  | reqReserved | reqDport0 | reqDport1 | dead => exact { ht with }

/-! ### Whole runs -/

/-- A run shows a context in which the counters are bounded and what is completed is terminated. -/
structure Safe (r : MemRun) (cx : S5Ctx) : Prop where
  shows_ : Shows r.cx cx
  counters : Counters cx
  terminated : Terminated cx r.completed

variable {r r' : MemRun} {data rest : List UInt8} {e : MemEvent}

theorem Safe.turn (h : Safe r cx) (c : UInt8) :
    Safe (r.turn c).1 (s5Step cx c).1 ∧ (r.turn c).2 = (s5Step cx c).2.map .ok := by
  obtain ⟨hshows, hsame⟩ := memStep_shows h.shows_ h.counters c
  exact ⟨⟨hshows, h.counters.step c, h.terminated.step h.shows_ hshows⟩, hsame⟩

theorem Safe.parse (h : Safe r cx) (data : List UInt8) :
    memParse r data = (.ok (s5Parse cx data).1, (s5Parse cx data).2.1, (memParse r data).2.2) ∧
      Safe (memParse r data).2.2 (s5Parse cx data).2.2 := by
  have hturns : ∀ (r : MemRun) (cx : S5Ctx) (c : UInt8), Safe r cx →
      Safe (r.turn c).1 (s5Step cx c).1 ∧ (r.turn c).2 = (s5Step cx c).2.map .ok :=
    fun _ _ c hsafe => hsafe.turn c
  obtain ⟨hsafe, herr, hrest⟩ := feed_simulates hturns h data
  refine ⟨?_, hsafe⟩
  unfold memParse s5Parse
  dsimp only
  rw [herr, hrest]
  cases (feed s5Step cx data).1 <;> rfl

theorem Safe.selectAuth (h : Safe r cx) (method : S5AuthMethod) :
    Safe { r with cx := (memSelectAuth r.cx method).2 } (s5SelectAuth cx method).2 := by
  obtain ⟨hshows, hcounters, hterminated⟩ := h
  cases method with
  | none | passwd =>
    exact ⟨{ hshows with state := rfl }, ⟨hcounters.arg0_le, hcounters.arg1⟩,
      hterminated.username, hterminated.password, hterminated.host⟩
  | gssapi => exact ⟨hshows, hcounters, hterminated⟩

theorem Safe.of_reachable (h : Reachable MemInit MemStep r) : ∃ cx, Safe r cx := by
  apply h.invariant
  · rintro r rfl
    exact ⟨s5Init, shows_init, counters_init, nofun, nofun, nofun⟩
  · rintro r e r' - ⟨cx, hsafe⟩ hstep
    cases hstep with
    | parse hparse =>
      obtain ⟨-, hnext⟩ := hsafe.parse _
      rw [hparse] at hnext
      exact ⟨_, hnext.shows_, hnext.counters, hnext.terminated⟩
    | selectAuth method hasked => exact ⟨_, hsafe.selectAuth method⟩

/-- No call aborts or writes out of bounds; a call consumes a part of its data, and all of it unless
it returns a code; the counters do not exceed the lengths in the states that use them, and what has
been completed is terminated at its length. -/
structure ParserSafe (r : MemRun) : Prop where
  parses : ∀ data, ∃ err used, (memParse r data).1 = .ok err ∧
    data = used ++ (memParse r data).2.1 ∧ ((memParse r data).2.1 ≠ [] → err ≠ .ok)
  methods : r.cx.state = S5State.methods.code → r.cx.arg0 ≤ r.cx.arg1
  userlen : r.cx.state = S5State.authPwUsername.code → r.cx.arg0.toNat ≤ r.cx.userlen.toNat
  passlen : r.cx.state = S5State.authPwPassword.code → r.cx.arg0.toNat ≤ r.cx.passlen.toNat
  daddr : r.cx.state = S5State.reqDaddr.code → r.cx.arg0 ≤ r.cx.arg1
  arrays : r.cx.username.length = 257 ∧ r.cx.password.length = 257 ∧ r.cx.daddr.length = 257
  username : r.completed.username = true → r.cx.username[r.cx.userlen.toNat]? = some 0
  password : r.completed.password = true → r.cx.password[r.cx.passlen.toNat]? = some 0
  host : r.completed.host = true → r.cx.daddr[r.cx.arg1.toNat]? = some 0

theorem parser_safe (h : Reachable MemInit MemStep r) : ParserSafe r := by
  obtain ⟨cx, hsafe⟩ := Safe.of_reachable h
  have hshows := hsafe.shows_
  have hcounters := hsafe.counters
  have hbound : ∀ {s : S5State}, r.cx.state = s.code → cx.state = s :=
    fun hcode => code_inj.mp (hshows.state.symm.trans hcode)
  have hle := hcounters.arg0
  refine ⟨fun data => ?_, fun hstate => ?_, fun hstate => ?_, fun hstate => ?_, fun hstate => ?_,
    ⟨hshows.username.length, hshows.password.length, hshows.daddr.length⟩, fun hdone => ?_,
    fun hdone => ?_, fun hdone => ?_⟩
  · obtain ⟨hparse, -⟩ := hsafe.parse data
    rw [hparse]
    obtain ⟨used, hused⟩ : (s5Parse cx data).2.1 <:+ data := feed_suffix
    refine ⟨_, used, rfl, hused.symm, fun hrest hok => ?_⟩
    have hnone : (feed s5Step cx data).1 = none := by
      cases hfeed : (feed s5Step cx data).1 with
      | none => rfl
      | some err =>
        have hget : (s5Parse cx data).1 = ((feed s5Step cx data).1).getD .ok := rfl
        rw [hfeed, hok, Option.getD_some] at hget
        exact absurd (hget ▸ hfeed) feed_ne_ok
    exact hrest (feed_rest_of_none hnone)
  · rw [S5Ctx.bound, hbound hstate] at hle
    rw [UInt32.le_iff_toNat_le, hshows.arg0, hshows.arg1]
    exact hle
  · rw [S5Ctx.bound, hbound hstate] at hle
    rw [hshows.arg0, hshows.userlen]
    exact hle
  · rw [S5Ctx.bound, hbound hstate] at hle
    rw [hshows.arg0, hshows.passlen]
    exact hle
  · rw [S5Ctx.bound, hbound hstate] at hle
    rw [UInt32.le_iff_toNat_le, hshows.arg0, hshows.arg1]
    exact hle
  · have hlt := cx.userlen.toNat_lt
    rw [hshows.userlen, hshows.username.get (by omega), hsafe.terminated.username hdone]
  · have hlt := cx.passlen.toNat_lt
    rw [hshows.passlen, hshows.password.get (by omega), hsafe.terminated.password hdone]
  · have hlt := hcounters.arg1
    rw [hshows.arg1, hshows.daddr.get (by omega), hsafe.terminated.host hdone]

set_option maxRecDepth 4000 in
/-- After a greeting that offers one method and a user name of one letter -/
theorem parser_safe_name : ∃ r, ParserSafe r ∧ r.completed.username = true ∧ r.cx.userlen = 1 := by
  let r₀ : MemRun := ⟨memInit, ⟨false, false, false⟩, false⟩
  let r₁ : MemRun := (memParse r₀ [5, 1, 2]).2.2
  let r₂ : MemRun := { r₁ with asked := true, cx := (memSelectAuth r₁.cx .passwd).2 }
  let r₃ : MemRun := (memParse r₂ [1, 1, 117]).2.2
  have hgreet : memParse r₀ [5, 1, 2] = (.ok .authSelect, [], r₁) := rfl
  have hname : memParse r₂ [1, 1, 117] = (.ok .ok, [], r₃) := rfl
  have h₀ : Reachable MemInit MemStep r₀ := .init rfl
  have h₁ : Reachable MemInit MemStep { r₁ with asked := true } :=
    h₀.step (.parse [5, 1, 2]) (.parse hgreet)
  have h₂ : Reachable MemInit MemStep r₂ := h₁.step (.selectAuth .passwd) (.selectAuth _ rfl)
  have h₃ : Reachable MemInit MemStep r₃ := h₂.step (.parse [1, 1, 117]) (.parse hname)
  exact ⟨r₃, parser_safe h₃, rfl, rfl⟩

end LibuvWorks.Socks5
