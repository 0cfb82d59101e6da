import LibuvWorks.Lib.Feed
import LibuvWorks.Handle

/-!
# The SOCKS5 parser of `s5.c`

`s5Step` is one turn of the loop of `s5_parse`: the `switch` over the state, with the
error the turn leaves the loop with, if any. An array of the context is the function
from its indices to its bytes.
-/
namespace LibuvWorks.Socks5

inductive S5Err where
  | badVersion : S5Err
  | badCmd : S5Err
  | badAtyp : S5Err
  | ok : S5Err
  | authSelect : S5Err
  | authVerify : S5Err
  | execCmd : S5Err
  deriving DecidableEq

inductive S5AuthMethod where
  | none : S5AuthMethod
  | gssapi : S5AuthMethod
  | passwd : S5AuthMethod

/-- `S5_AUTH_NONE`, `S5_AUTH_GSSAPI` and `S5_AUTH_PASSWD`. -/
def S5AuthMethod.bit : S5AuthMethod → UInt8
  | none => (1 : UInt8) <<< (0 : UInt8)
  | gssapi => (1 : UInt8) <<< (1 : UInt8)
  | passwd => (1 : UInt8) <<< (2 : UInt8)

inductive S5Atyp where
  | ipv4 : S5Atyp
  | ipv6 : S5Atyp
  | host : S5Atyp
  deriving DecidableEq

inductive S5Cmd where
  | tcpConnect : S5Cmd
  | tcpBind : S5Cmd
  | udpAssoc : S5Cmd
  deriving DecidableEq

inductive S5State where
  | version : S5State
  | nmethods : S5State
  | methods : S5State
  | authPwVersion : S5State
  | authPwUserlen : S5State
  | authPwUsername : S5State
  | authPwPasslen : S5State
  | authPwPassword : S5State
  | reqVersion : S5State
  | reqCmd : S5State
  | reqReserved : S5State
  | reqAtyp : S5State
  | reqAtypHost : S5State
  | reqDaddr : S5State
  | reqDport0 : S5State
  | reqDport1 : S5State
  | dead : S5State
  deriving DecidableEq

/-- `arg0` and `arg1` are the scratch space of the state machine. -/
structure S5Ctx where
  arg0 : ℕ
  arg1 : ℕ
  state : S5State
  methods : UInt8
  cmd : S5Cmd
  atyp : S5Atyp
  userlen : UInt8
  passlen : UInt8
  dport : UInt16
  username : ℕ → UInt8
  password : ℕ → UInt8
  daddr : ℕ → UInt8

def s5Init : S5Ctx where
  arg0 := 0
  arg1 := 0
  state := .version
  methods := 0
  cmd := .tcpConnect
  atyp := .ipv4
  userlen := 0
  passlen := 0
  dport := 0
  username _ := 0
  password _ := 0
  daddr _ := 0

/-- `buf[i] = c;` -/
def setByte (buf : ℕ → UInt8) (i : ℕ) (c : UInt8) : ℕ → UInt8 := Function.update buf i c

/-- The bit a method byte sets; what is not understood sets none. -/
def methodBit (c : UInt8) : UInt8 :=
  if c = 0 then S5AuthMethod.none.bit
  else if c = 1 then S5AuthMethod.gssapi.bit
  else if c = 2 then S5AuthMethod.passwd.bit
  else 0

/-- `case s5_methods:` -/
def stepMethods (cx : S5Ctx) (c : UInt8) : S5Ctx × Option S5Err :=
  let cx := if cx.arg0 < cx.arg1 then
      { cx with methods := cx.methods ||| methodBit c, arg0 := cx.arg0 + 1 } else cx
  if cx.arg0 = cx.arg1 then (cx, some .authSelect) else (cx, none)

/-- `case s5_auth_pw_username:` -/
def stepUsername (cx : S5Ctx) (c : UInt8) : S5Ctx × Option S5Err :=
  let cx := if cx.arg0 < cx.userlen.toNat then
      { cx with username := setByte cx.username cx.arg0 c, arg0 := cx.arg0 + 1 } else cx
  if cx.arg0 = cx.userlen.toNat then
    ({ cx with username := setByte cx.username cx.userlen.toNat 0, state := .authPwPasslen }, none)
  else (cx, none)

/-- `case s5_auth_pw_password:` -/
def stepPassword (cx : S5Ctx) (c : UInt8) : S5Ctx × Option S5Err :=
  let cx := if cx.arg0 < cx.passlen.toNat then
      { cx with password := setByte cx.password cx.arg0 c, arg0 := cx.arg0 + 1 } else cx
  if cx.arg0 = cx.passlen.toNat then
    ({ cx with password := setByte cx.password cx.passlen.toNat 0, state := .reqVersion },
      some .authVerify)
  else (cx, none)

/-- `case s5_req_cmd:` -/
def stepCmd (cx : S5Ctx) (c : UInt8) : S5Ctx × Option S5Err :=
  if c = 1 then ({ cx with cmd := .tcpConnect, state := .reqReserved }, none)
  else if c = 3 then ({ cx with cmd := .udpAssoc, state := .reqReserved }, none)
  else (cx, some .badCmd)

/-- `case s5_req_atyp:` -/
def stepAtyp (cx : S5Ctx) (c : UInt8) : S5Ctx × Option S5Err :=
  let cx := { cx with arg0 := 0 }
  if c = 1 then ({ cx with state := .reqDaddr, atyp := .ipv4, arg1 := 4 }, none)
  else if c = 3 then ({ cx with state := .reqAtypHost, atyp := .host, arg1 := 0 }, none)
  else if c = 4 then ({ cx with state := .reqDaddr, atyp := .ipv6, arg1 := 16 }, none)
  else (cx, some .badAtyp)

/-- `case s5_req_daddr:` -/
def stepDaddr (cx : S5Ctx) (c : UInt8) : S5Ctx × Option S5Err :=
  let cx := if cx.arg0 < cx.arg1 then
      { cx with daddr := setByte cx.daddr cx.arg0 c, arg0 := cx.arg0 + 1 } else cx
  if cx.arg0 = cx.arg1 then
    ({ cx with daddr := setByte cx.daddr cx.arg1 0, state := .reqDport0 }, none)
  else (cx, none)

/-- One turn of the loop of `s5_parse`. -/
def s5Step (cx : S5Ctx) (c : UInt8) : S5Ctx × Option S5Err :=
  match cx.state with
  | .version => if c ≠ 5 then (cx, some .badVersion) else ({ cx with state := .nmethods }, none)
  | .nmethods => ({ cx with arg0 := 0, arg1 := c.toNat, state := .methods }, none)
  | .methods => stepMethods cx c
  | .authPwVersion =>
    if c ≠ 1 then (cx, some .badVersion) else ({ cx with state := .authPwUserlen }, none)
  | .authPwUserlen => ({ cx with arg0 := 0, userlen := c, state := .authPwUsername }, none)
  | .authPwUsername => stepUsername cx c
  | .authPwPasslen => ({ cx with arg0 := 0, passlen := c, state := .authPwPassword }, none)
  | .authPwPassword => stepPassword cx c
  | .reqVersion => if c ≠ 5 then (cx, some .badVersion) else ({ cx with state := .reqCmd }, none)
  | .reqCmd => stepCmd cx c
  | .reqReserved => ({ cx with state := .reqAtyp }, none)
  | .reqAtyp => stepAtyp cx c
  | .reqAtypHost => ({ cx with arg1 := c.toNat, state := .reqDaddr }, none)
  | .reqDaddr => stepDaddr cx c
  | .reqDport0 => ({ cx with dport := c.toUInt16 <<< (8 : UInt16), state := .reqDport1 }, none)
  | .reqDport1 => ({ cx with dport := cx.dport ||| c.toUInt16, state := .dead }, some .execCmd)
  | .dead => (cx, none)

/-- `s5_parse`: the error, the data that is left, and the context. -/
def s5Parse (cx : S5Ctx) (data : List UInt8) : S5Err × List UInt8 × S5Ctx :=
  let (err, rest, cx) := Feed.feed s5Step cx data
  (err.getD .ok, rest, cx)

def s5AuthMethods (cx : S5Ctx) : UInt8 := cx.methods

def s5SelectAuth (cx : S5Ctx) (method : S5AuthMethod) : ℤ × S5Ctx :=
  match method with
  | .none => (0, { cx with state := .reqVersion })
  | .passwd => (0, { cx with state := .authPwVersion })
  | .gssapi => (einval, cx)

end LibuvWorks.Socks5
