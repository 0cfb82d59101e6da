import LibuvWorks.Lib.Rings

/-!
# The queues of `queue.h`

The macros write the two pointers of a `QUEUE` one after the other, and what a nested `QUEUE_NEXT`
or `QUEUE_PREV` means depends on what has been written before.
-/
namespace LibuvWorks.Queue

open Function
open Function (update)
open RingLinks

variable {α : Type*} [DecidableEq α] (L : RingLinks α)

/-- `QUEUE_NEXT(p) = v` -/
def setNext (p v : α) : RingLinks α := { L with next := update L.next p v }

/-- `QUEUE_PREV(p) = v` -/
def setPrev (p v : α) : RingLinks α := { L with prev := update L.prev p v }

def queueInit (q : α) : RingLinks α :=
  let L := setNext L q q
  setPrev L q q

def queueAdd (h n : α) : RingLinks α :=
  let L := setNext L (L.prev h) (L.next n)
  let L := setPrev L (L.next n) (L.prev h)
  let L := setPrev L h (L.prev n)
  setNext L (L.prev h) h

def queueSplit (h q n : α) : RingLinks α :=
  let L := setPrev L n (L.prev h)
  let L := setNext L (L.prev n) n
  let L := setNext L n q
  let L := setPrev L h (L.prev q)
  let L := setNext L (L.prev h) h
  setPrev L q n

def QueueEmpty (q : α) : Prop := q = L.next q

instance (q : α) : Decidable (QueueEmpty L q) := inferInstanceAs (Decidable (_ = _))

def queueMove (h n : α) : RingLinks α :=
  if QueueEmpty L h then queueInit L n else queueSplit L h (L.next h) n

def queueInsertHead (h q : α) : RingLinks α :=
  let L := setNext L q (L.next h)
  let L := setPrev L q h
  let L := setPrev L (L.next q) q
  setNext L h q

def queueInsertTail (h q : α) : RingLinks α :=
  let L := setNext L q h
  let L := setPrev L q (L.prev h)
  let L := setNext L (L.prev q) q
  setPrev L h q

def queueRemove (q : α) : RingLinks α :=
  let L := setNext L (L.prev q) (L.next q)
  setPrev L (L.next q) (L.prev q)

/-! ### What the assignments come to -/

theorem queueInit_eq (q : α) : queueInit L q = L.init q := rfl

theorem queueAdd_eq (h n : α) : queueAdd L h n = L.add h n := rfl

theorem queueSplit_eq (h q n : α) : queueSplit L h q n = L.split h q n := rfl

theorem queueMove_eq (h n : α) : queueMove L h n = L.move h n := by
  exact if_congr eq_comm rfl rfl

theorem queueInsertHead_eq (h q : α) : queueInsertHead L h q = L.insertHead h q := by
  simp [queueInsertHead, setNext, setPrev, RingLinks.insertHead]

theorem queueInsertTail_eq (h q : α) : queueInsertTail L h q = L.insertTail h q := by
  simp [queueInsertTail, setNext, setPrev, RingLinks.insertTail]

theorem queueRemove_eq (q : α) : queueRemove L q = L.remove q := by
  have hnext : update L.next (L.prev q) (L.next q) q = L.next q := by
    by_cases hq : q = L.prev q
    · rw [← hq, update_self]
    · rw [update_of_ne hq]
  simp only [queueRemove, setNext, setPrev, RingLinks.remove, hnext]

/-! ### What they do to the lists -/

/-- The rings of `heads`, whose members are `xs`, become those of `heads'` and `ys`, and in a ring
that stays the same no pointer changes. -/
structure Becomes (L L' : RingLinks α) (heads : Set α) (xs : α → List α) (heads' : Set α)
    (ys : α → List α) : Prop where
  rings : Rings L' heads' ys
  untouched : ∀ h ∈ heads, h ∈ heads' → ys h = xs h →
    ∀ x ∈ h :: xs h, L'.next x = L.next x ∧ L'.prev x = L.prev x

variable {L} {L' : RingLinks α} {heads heads' : Set α} {xs ys : α → List α}

theorem becomes (hL : Rings L heads xs) (hL' : Rings L' heads' ys) :
    Becomes L L' heads xs heads' ys where
  rings := hL'
  untouched h hh hh' hsame := by
    have hring := hL'.ring h hh'
    rw [hsame] at hring
    exact (hL.ring h hh).links_eq hring

def Free (heads : Set α) (xs : α → List α) (q : α) : Prop := ∀ h ∈ heads, q ∉ h :: xs h

structure QueuesRight (L : RingLinks α) (heads : Set α) (xs : α → List α) : Prop where
  init : ∀ n, Free heads xs n →
    Becomes L (queueInit L n) heads xs (insert n heads) (update xs n [])
  insertHead : ∀ h ∈ heads, ∀ q, Free heads xs q →
    Becomes L (queueInsertHead L h q) heads xs heads (update xs h (q :: xs h))
  insertTail : ∀ h ∈ heads, ∀ q, Free heads xs q →
    Becomes L (queueInsertTail L h q) heads xs heads (update xs h (xs h ++ [q]))
  remove : ∀ h ∈ heads, ∀ q ∈ xs h,
    Becomes L (queueRemove L q) heads xs heads (update xs h ((xs h).erase q))
  add : ∀ h ∈ heads, ∀ n ∈ heads, h ≠ n → xs n ≠ [] →
    Becomes L (queueAdd L h n) heads xs (heads \ {n}) (update xs h (xs h ++ xs n))
  split : ∀ h ∈ heads, ∀ ys q zs, xs h = ys ++ q :: zs → ∀ n, Free heads xs n →
    Becomes L (queueSplit L h q n) heads xs (insert n heads)
      (update (update xs n (q :: zs)) h ys)
  move : ∀ h ∈ heads, ∀ n, Free heads xs n →
    Becomes L (queueMove L h n) heads xs (insert n heads)
      (update (update xs n (xs h)) h [])

theorem queues_right (hL : Rings L heads xs) : QueuesRight L heads xs where
  init n hn := by
    rw [queueInit_eq]
    exact becomes hL (hL.init hn)
  insertHead h hh q hq := by
    rw [queueInsertHead_eq]
    exact becomes hL (hL.insertHead hh hq)
  insertTail h hh q hq := by
    rw [queueInsertTail_eq]
    exact becomes hL (hL.insertTail hh hq)
  remove h hh q hq := by
    rw [queueRemove_eq]
    exact becomes hL (hL.remove hh hq)
  add h hh n hn hne hxs := by
    rw [queueAdd_eq]
    exact becomes hL (hL.add hh hn hne hxs)
  split h hh ys q zs hxs n hn := by
    rw [queueSplit_eq]
    exact becomes hL (hL.split hh hxs hn)
  move h hh n hn := by
    rw [queueMove_eq]
    exact becomes hL (hL.move hh hn)

def ring3 : RingLinks ℕ := ⟨fun i => (i + 1) % 3, fun i => (i + 2) % 3⟩

theorem rings_ring3 : Rings ring3 {0} fun _ => [1, 2] where
  ring h hh := by
    rw [hh]
    exact ⟨by decide, rfl, rfl⟩
  disjoint h hh h' hh' hne := absurd (hh.trans hh'.symm) hne

theorem queues_ring3 : QueuesRight ring3 {0} fun _ => [1, 2] := queues_right rings_ring3

end LibuvWorks.Queue
