import Mathlib.Data.Int.Notation
import Mathlib.Tactic.Common

/-!
# Refused addresses

When the kernel refuses to bind a socket because the address is in use, `uv_tcp_bind` returns zero
all the same: the error is due at the next `uv_listen` or `uv_tcp_connect`. A ledger remembers what
is due and how these calls ended; it is not read by what the backends do.
-/
namespace LibuvWorks

/-- The `sa_family` of an address, as far as it matters. -/
inductive AddrFamily where
  | inet
  | inet6
  | other
  deriving DecidableEq

inductive TcpUse where
  | listen
  | connect
  deriving DecidableEq

/-- A call of `uv_listen` or `uv_tcp_connect`: whether the error of a refused address was due, what
was returned, and whether the system was told to listen or to connect. -/
structure TcpCall where
  use : TcpUse
  due : Bool
  result : ℤ
  performed : Bool
  deriving DecidableEq

structure TcpLedger where
  due : Bool
  calls : List TcpCall

namespace TcpLedger

variable {l : TcpLedger} {code delayed delayed' result : ℤ} {performed : Bool}

def empty : TcpLedger := ⟨false, []⟩

def refuse (l : TcpLedger) : TcpLedger := { l with due := true }

def call (l : TcpLedger) (use : TcpUse) (result : ℤ) (performed : Bool) : TcpLedger :=
  ⟨false, ⟨use, l.due, result, performed⟩ :: l.calls⟩

/-- Every call at which `code` was due has returned it, and has done nothing. -/
def Reported (code : ℤ) (l : TcpLedger) : Prop :=
  ∀ c ∈ l.calls, c.due = true → c.result = code ∧ c.performed = false

/-- What a handle keeps: if `code` is due, it is the error that the handle would return. -/
structure Kept (code delayed : ℤ) (l : TcpLedger) : Prop where
  reported : l.Reported code
  delayed : l.due = true → delayed = code

theorem kept_empty : empty.Kept code delayed := by
  refine ⟨?_, ?_⟩
  · simp [Reported, empty]
  · simp [empty]

theorem Kept.refuse (h : l.Kept code delayed) : l.refuse.Kept code code :=
  ⟨h.reported, fun _ => rfl⟩

theorem Kept.congr (h : l.Kept code delayed) (hdelayed : l.due = true → delayed' = delayed) :
    l.Kept code delayed' := ⟨h.reported, fun hdue => (hdelayed hdue).trans (h.delayed hdue)⟩

theorem Kept.call (h : l.Kept code delayed) (use : TcpUse)
    (hdue : l.due = true → result = code ∧ performed = false) :
    (l.call use result performed).Kept code delayed' := by
  constructor
  · intro c hc
    obtain rfl | hc := List.mem_cons.mp hc
    · exact hdue
    · exact h.reported c hc
  · intro habs
    cases habs

end TcpLedger

end LibuvWorks
