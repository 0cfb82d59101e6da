import Mathlib.Algebra.Group.Nat.Defs
import Mathlib.Tactic.Common

/-!
# The intrusive binary heap of `heap-inl.h`

Nodes are identified by their address. A `Heap` is the `struct heap` together
with the three pointers stored in every node. `none` as the result of an
operation stands for a dereferenced `NULL` or for a sift that ran longer than
the 32 rows a tree with an `unsigned int` count can have; the specification
shows that neither happens.
-/
namespace LibuvWorks

/-- `struct heap_node`; `none` is `NULL`. -/
structure HeapNode (α : Type*) where
  left : Option α
  right : Option α
  parent : Option α

/-- `struct heap`, and the memory its nodes live in. -/
structure Heap (α : Type*) where
  min : Option α
  nelts : ℕ
  node : α → HeapNode α

/-- A value stored in an `unsigned int`. -/
def toUint (n : ℕ) : ℕ := n % 2 ^ 32

/-- A `struct heap_node **`: the place a pointer to a node is stored in. -/
inductive Link (α : Type*) where
  | min : Link α
  | left : α → Link α
  | right : α → Link α
  deriving DecidableEq

namespace Heap

variable {α : Type*} [DecidableEq α] (h : Heap α)

def setNode (x : α) (v : HeapNode α) : Heap α :=
  { h with node := Function.update h.node x v }

def setLeft (x : α) (v : Option α) : Heap α := h.setNode x { h.node x with left := v }
def setRight (x : α) (v : Option α) : Heap α := h.setNode x { h.node x with right := v }
def setParent (x : α) (v : Option α) : Heap α := h.setNode x { h.node x with parent := v }

/-- `if (x != NULL) x->parent = v;` -/
def setParent? (x : Option α) (v : Option α) : Heap α :=
  match x with
  | some x => h.setParent x v
  | none => h

/-- The child pointer of `p` that points to `old` is redirected to `new`; without
a parent it is the root pointer. -/
def relink (p : Option α) (old new : α) : Heap α :=
  match p with
  | none => { h with min := some new }
  | some p => if (h.node p).left = some old then h.setLeft p (some new)
    else h.setRight p (some new)

def get : Link α → Option α
  | .min => h.min
  | .left p => (h.node p).left
  | .right p => (h.node p).right

def set : Link α → Option α → Heap α
  | .min, v => { h with min := v }
  | .left p, v => h.setLeft p v
  | .right p, v => h.setRight p v

end Heap

variable {α : Type*} [DecidableEq α]

def heapInit (h : Heap α) : Heap α := { h with min := none, nelts := 0 }

def heapMin (h : Heap α) : Option α := h.min

/-- Swap parent with child. Child moves closer to the root, parent moves away. -/
def heapNodeSwap (h : Heap α) (parent child : α) : Heap α :=
  let t := h.node parent
  let h := h.setNode parent (h.node child)
  let h := h.setNode child t
  let h := h.setParent parent (some child)
  let isLeft := (h.node child).left = some child
  let sibling := if isLeft then (h.node child).right else (h.node child).left
  let h := if isLeft then h.setLeft child (some parent) else h.setRight child (some parent)
  let h := h.setParent? sibling (some child)
  let h := h.setParent? (h.node parent).left (some parent)
  let h := h.setParent? (h.node parent).right (some parent)
  h.relink (h.node child).parent parent child

/-- Replace the to be deleted node with the max node. -/
def heapReplace (h : Heap α) (node child : α) : Heap α :=
  let h := h.setNode child (h.node node)
  let h := h.setParent? (h.node child).left (some child)
  let h := h.setParent? (h.node child).right (some child)
  h.relink (h.node node).parent node child

/-- The path bits of the loop over `n`, least significant branch first, and their
number. -/
def heapPath : (fuel path k n : ℕ) → ℕ × ℕ
  | 0, path, k, _ => (path, k)
  | fuel + 1, path, k, n =>
    if 2 ≤ n then heapPath fuel (toUint (path <<< 1) ||| (n &&& 1)) (k + 1) (n / 2)
    else (path, k)

/-- Follow `k` path bits from the link `child`; returns the last two links. -/
def heapDescend (h : Heap α) : (k path : ℕ) → (parent child : Link α) →
    Option (Link α × Link α)
  | 0, _, parent, child => some (parent, child)
  | k + 1, path, _, child => do
    let node ← h.get child
    heapDescend h k (path >>> 1) child (if path &&& 1 = 1 then .right node else .left node)

/-- The links `&parent` and `&child` of the position numbered `n`. -/
def heapLocate (h : Heap α) (n : ℕ) : Option (Link α × Link α) :=
  let (path, k) := heapPath 32 0 0 n
  heapDescend h k path .min .min

variable (lessThan : α → α → Bool)

/-- Walk up the tree while the node is below its parent. -/
def heapWalkUp (node : α) : (fuel : ℕ) → Heap α → Option (Heap α)
  | 0, _ => none
  | fuel + 1, h =>
    match (h.node node).parent with
    | none => some h
    | some parent =>
      if lessThan node parent then heapWalkUp node fuel (heapNodeSwap h parent node)
      else some h

/-- `smallest = candidate` if there is a candidate below it. -/
def heapSmaller (smallest : α) (candidate : Option α) : α :=
  match candidate with
  | some c => if lessThan c smallest then c else smallest
  | none => smallest

/-- Walk down the subtree, swapping the node with its smallest child. -/
def heapWalkDown (node : α) : (fuel : ℕ) → Heap α → Option (Heap α)
  | 0, _ => none
  | fuel + 1, h =>
    let smallest := heapSmaller lessThan node (h.node node).left
    let smallest := heapSmaller lessThan smallest (h.node node).right
    if smallest = node then some h
    else heapWalkDown node fuel (heapNodeSwap h node smallest)

def heapInsert (h : Heap α) (newnode : α) : Option (Heap α) := do
  let h := h.setNode newnode ⟨none, none, none⟩
  let (parent, child) ← heapLocate h (toUint (1 + h.nelts))
  let h := h.setParent newnode (h.get parent)
  let h := h.set child (some newnode)
  let h := { h with nelts := toUint (h.nelts + 1) }
  heapWalkUp lessThan newnode 32 h

def heapRemove (h : Heap α) (node : α) : Option (Heap α) :=
  if h.nelts = 0 then some h
  else do
    let (_, max) ← heapLocate h h.nelts
    let h := { h with nelts := h.nelts - 1 }
    let child ← h.get max
    let h := h.set max none
    if child = node then
      some (if h.min = some child then { h with min := none } else h)
    else
      let h ← heapWalkDown lessThan child 32 (heapReplace h node child)
      heapWalkUp lessThan child 32 h

def heapDequeue (h : Heap α) : Option (Heap α) :=
  match h.min with
  | some m => heapRemove lessThan h m
  | none => if h.nelts = 0 then some h else none

end LibuvWorks
