import LibuvWorks.Lib.Prefixes
import LibuvWorks.Lib.Transition
import LibuvWorks.Unix.Stream
import Mathlib.Data.List.GetD

/-!
# What is written to a unix stream

The kernel takes one prefix of each request, in the order in which the requests were submitted,
and the callbacks run in that order. `write_queue_size` is what is left, as a `size_t`.
-/
namespace LibuvWorks.Unix

open List Option
open List (append_assoc flatten_cons length_append length_drop map_append map_cons mem_append
  mem_append_left mem_append_right mem_map mem_map_of_mem mem_singleton sum_append sum_cons
  tail_cons)
open Function (update update_self update_of_ne)
open Prefixes Transition

variable {α : Type*}

namespace Stream

variable {s t : Stream α} {r r' : WriteReq α} {rest : List (WriteReq α)} {n : ℕ} {k : ℕ → ℕ}

/-! ### One answer of the kernel -/

/-- The kernel has taken `n` bytes of a request. -/
structure Wrote (r : WriteReq α) (n : ℕ) (r' : WriteReq α) : Prop where
  id : r'.id = r.id
  error : r'.error = r.error
  sendHandle : r'.sendHandle = r.sendHandle
  bufs : r'.bufs ≠ none
  left : r'.left.flatten = r.left.flatten.drop n

theorem left_set {x : List α} {bs bufs : List (List α)} {buf : List α}
    (h : bs.drop r.writeIndex = buf :: bufs) :
    (bs.set r.writeIndex x).drop r.writeIndex = x :: bufs := by
  rw [drop_set, if_neg (Nat.lt_irrefl _), h, Nat.sub_self, set_cons_zero]

variable {bufs : List (List α)}

theorem writeLoop_spec {size size' : BitVec 64} {finished : Bool}
    (hbufs : r.bufs ≠ none) (hleft : r.left = bufs) (hn : n ≤ bufs.flatten.length)
    (h : writeLoop r size n bufs = some (r', size', finished)) :
    Wrote r n r' ∧ size' = size - BitVec.ofNat 64 n ∧ (finished = true → r'.left = []) := by
  induction bufs generalizing r size n with
  | nil => cases h
  | cons buf bufs ih =>
    obtain ⟨bs, hbs⟩ := ne_none_iff_exists'.mp hbufs
    have hdrop : bs.drop r.writeIndex = buf :: bufs := by
      rw [← hleft, WriteReq.left, hbs, getD_some]
    rw [flatten_cons, length_append] at hn
    unfold writeLoop at h
    by_cases hlt : n < buf.length
    · rw [if_pos hlt] at h
      cases h
      refine ⟨⟨rfl, rfl, rfl, ?_, ?_⟩, rfl, ?_⟩
      · simp [hbs]
      · rw [hleft, WriteReq.left]
        simp only [hbs, map_some, getD_some]
        rw [left_set hdrop, flatten_cons, flatten_cons,
          drop_append_of_le_length (Nat.le_of_lt hlt)]
      · intro hfinished
        cases hfinished
    · have hge := Nat.le_of_not_lt hlt
      obtain ⟨-, h⟩ := by simpa only [if_neg hlt, ite_none_left_eq_some] using h
      have hnext : ({ r with writeIndex := r.writeIndex + 1 } : WriteReq α).left = bufs := by
        simp only [WriteReq.left, hbs, getD_some]
        rw [← tail_drop, hdrop, tail_cons]
      cases bufs with
      | nil =>
        obtain ⟨hzero, h⟩ := by simpa only [ite_none_right_eq_some] using h
        cases h
        have hlen : n = buf.length := by omega
        refine ⟨⟨rfl, rfl, rfl, hbufs, ?_⟩, by rw [hlen], fun _ => hnext⟩
        rw [hnext, hleft, hlen]
        simp
      | cons buf' bufs =>
        obtain ⟨hwrote, hsize', hfinished⟩ := ih (r := { r with writeIndex := r.writeIndex + 1 })
          hbufs hnext (by omega) h
        refine ⟨{ hwrote with left := ?_ }, ?_, hfinished⟩
        · rw [hwrote.left, hnext, hleft, flatten_cons (l := buf), drop_append,
            drop_eq_nil_of_le hge, nil_append]
        · rw [hsize', BitVec.sub_sub, ← BitVec.ofNat_add, Nat.add_sub_cancel' hge]

/-! ### What every operation keeps -/

def bytes (s : Stream α) (i : ℕ) : List α := s.accepted.getD i []

/-- The bytes that the kernel may still be asked to take, and those of the requests that failed. -/
def totalUnwritten (s : Stream α) : ℕ :=
  ((s.writeCompletedQueue ++ s.writeQueue).map WriteReq.unwritten).sum

/-- The kernel has taken `k i` bytes of the request `i`. -/
structure Books (s : Stream α) (k : ℕ → ℕ) : Prop where
  ids : s.called.map Prod.fst ++ (s.writeCompletedQueue ++ s.writeQueue).map WriteReq.id =
    List.range s.accepted.length
  sent : s.sent = prefixes k s.accepted
  unsent : ∀ i, s.called.length + s.writeCompletedQueue.length < i ∨ s.accepted.length ≤ i → k i = 0
  queued : ∀ r ∈ s.writeQueue, r.error = 0 ∧ r.bufs ≠ none ∧
    r.left.flatten = (s.bytes r.id).drop (k r.id)
  done : ∀ r ∈ s.writeCompletedQueue, r.error = 0 → r.bufs = none ∧ (s.bytes r.id).length ≤ k r.id
  failed : ∀ r ∈ s.writeCompletedQueue, r.error ≠ 0 → r.bufs ≠ none ∧
    r.left.flatten = (s.bytes r.id).drop (k r.id)
  called : ∀ c ∈ s.called, c.2 = 0 → (s.bytes c.1).length ≤ k c.1
  size : s.writeQueueSize = BitVec.ofNat 64 s.totalUnwritten

theorem Books.of_eq (h : Books s k) (hqueue : t.writeQueue = s.writeQueue)
    (hcompleted : t.writeCompletedQueue = s.writeCompletedQueue)
    (hsize : t.writeQueueSize = s.writeQueueSize) (haccepted : t.accepted = s.accepted)
    (hsent : t.sent = s.sent) (hcalled : t.called = s.called) : Books t k := by
  obtain ⟨ids, sent, unsent, queued, done, failed, called, size⟩ := h
  constructor <;> simp only [bytes, totalUnwritten, hqueue, hcompleted, hsize, haccepted, hsent,
    hcalled] at * <;> assumption

theorem eq_of_append_cons_eq_range {xs ys : List ℕ} {y m : ℕ}
    (h : xs ++ y :: ys = List.range m) : y = xs.length ∧ y < m := by
  have hlen : xs.length < (range m).length := by
    rw [← h, length_append, length_cons]
    omega
  have hget : (range m)[xs.length] = y := by
    simp only [← h]
    simp
  rw [getElem_range] at hget
  rw [length_range] at hlen
  exact ⟨hget.symm, hget ▸ hlen⟩

/-- The first request of `write_queue` is the first that is neither done nor failed. -/
theorem Books.head (h : Books s k) (hqueue : s.writeQueue = r :: rest) :
    r.id = s.called.length + s.writeCompletedQueue.length ∧ r.id < s.accepted.length := by
  have hids := h.ids
  rw [hqueue, map_append, ← append_assoc] at hids
  obtain ⟨hid, hlt⟩ := eq_of_append_cons_eq_range hids
  refine ⟨?_, hlt⟩
  simpa using hid

theorem Books.id_lt (h : Books s k) (hr : r ∈ s.writeCompletedQueue ++ s.writeQueue) :
    r.id < s.accepted.length := by
  have hmem : r.id ∈ range s.accepted.length := by
    rw [← h.ids]
    exact mem_append_right _ (mem_map_of_mem hr)
  exact mem_range.mp hmem

theorem Books.nodup (h : Books s k) :
    (s.called.map Prod.fst ++ (s.writeCompletedQueue ++ s.writeQueue).map WriteReq.id).Nodup := by
  rw [h.ids]
  exact nodup_range

theorem Books.called_lt (h : Books s k) {c : ℕ × ℤ} (hc : c ∈ s.called) :
    c.1 < s.accepted.length := by
  have hmem : c.1 ∈ range s.accepted.length := by
    rw [← h.ids]
    exact mem_append_left _ (mem_map_of_mem hc)
  exact mem_range.mp hmem

theorem uvCountBufs_eq (bufs : List (List α)) :
    uvCountBufs bufs = BitVec.ofNat 64 bufs.flatten.length := by
  induction bufs with
  | nil => rfl
  | cons buf bufs ih =>
    rw [flatten_cons, length_append, BitVec.ofNat_add, ← ih]
    rfl

theorem Books.head_not_mem (h : Books s k) (hqueue : s.writeQueue = r :: rest) :
    r.id ∉ s.called.map Prod.fst ++ s.writeCompletedQueue.map WriteReq.id ++
      rest.map WriteReq.id := by
  have hnodup := h.nodup
  rw [hqueue, map_append, map_cons, ← append_assoc, nodup_middle] at hnodup
  exact (nodup_cons.mp hnodup).1

theorem Books.submit (h : Books s k) (bufs : List (List α)) (handle : Option ℕ) :
    Books { s with
      writeQueue := s.writeQueue ++ [⟨s.accepted.length, some bufs, 0, 0, handle⟩]
      writeQueueSize := s.writeQueueSize + uvCountBufs bufs
      accepted := s.accepted ++ [bufs.flatten] } k := by
  have hfresh : k s.accepted.length = 0 := h.unsent _ (.inr le_rfl)
  have hbytes : ∀ {i}, i < s.accepted.length →
      (s.accepted ++ [bufs.flatten]).getD i [] = s.bytes i :=
    fun hi => getD_append _ _ _ _ hi
  constructor
  · have hids := congrArg (· ++ [s.accepted.length]) h.ids
    simpa [range_succ] using hids
  · rw [prefixes_concat hfresh]
    exact h.sent
  · intro i hi
    apply h.unsent
    apply hi.imp_right
    intro hle
    rw [length_append] at hle
    omega
  · intro r hr
    obtain hold | hnew := mem_append.mp hr
    · rw [bytes, hbytes (h.id_lt (mem_append_right _ hold))]
      exact h.queued r hold
    · obtain rfl := mem_singleton.mp hnew
      simp [WriteReq.left, bytes, hfresh]
  · intro r hr herror
    rw [bytes, hbytes (h.id_lt (mem_append_left _ hr))]
    exact h.done r hr herror
  · intro r hr herror
    rw [bytes, hbytes (h.id_lt (mem_append_left _ hr))]
    exact h.failed r hr herror
  · intro c hc hzero
    rw [bytes, hbytes (h.called_lt hc)]
    exact h.called c hc hzero
  · have htotal : ((s.writeCompletedQueue ++ (s.writeQueue ++
        [(⟨s.accepted.length, some bufs, 0, 0, handle⟩ : WriteReq α)])).map WriteReq.unwritten).sum =
        s.totalUnwritten + bufs.flatten.length := by
      rw [← append_assoc, map_append, sum_append]
      simp [totalUnwritten, WriteReq.unwritten, WriteReq.left]
    dsimp only [totalUnwritten]
    rw [htotal, BitVec.ofNat_add, ← uvCountBufs_eq, ← h.size]

theorem Books.wrote (h : Books s k) (hqueue : s.writeQueue = r :: rest) (hwrote : Wrote r n r')
    (hn : n ≤ r.left.flatten.length) :
    Books { s with
      writeQueue := r' :: rest
      writeQueueSize := s.writeQueueSize - BitVec.ofNat 64 n
      sent := s.sent ++ r.left.flatten.take n } (update k r.id (k r.id + n)) := by
  obtain ⟨hid, hlt⟩ := h.head hqueue
  obtain ⟨herror, -, hleft⟩ := h.queued r (by simp [hqueue])
  have hnot := h.head_not_mem hqueue
  have hle : ∀ i, k i ≤ update k r.id (k r.id + n) i := by
    intro i
    by_cases hi : i = r.id
    · rw [hi, update_self]
      omega
    · rw [update_of_ne hi]
  constructor
  · have hids := h.ids
    rw [hqueue] at hids
    simpa [hwrote.id] using hids
  · rw [prefixes_advance hlt fun j hj => h.unsent j (.inl (hid ▸ hj)), ← h.sent, hleft]
    rfl
  · intro i hi
    rw [update_of_ne]
    · exact h.unsent i hi
    · rintro rfl
      simp only at hi
      omega
  · intro v hv
    obtain rfl | hrest := mem_cons.mp hv
    · refine ⟨hwrote.error.trans herror, hwrote.bufs, ?_⟩
      rw [hwrote.id, update_self, hwrote.left, hleft, drop_drop]
      rfl
    · rw [update_of_ne]
      · exact h.queued v (by simp [hqueue, hrest])
      · intro heq
        exact hnot (mem_append_right _ (heq ▸ mem_map_of_mem hrest))
  · intro v hv hzero
    obtain ⟨hnone, hwhole⟩ := h.done v hv hzero
    exact ⟨hnone, hwhole.trans (hle _)⟩
  · intro v hv hzero
    rw [update_of_ne]
    · exact h.failed v hv hzero
    · intro heq
      apply hnot
      rw [← heq]
      exact mem_append_left _ (mem_append_right _ (mem_map_of_mem hv))
  · intro c hc hzero
    exact (h.called c hc hzero).trans (hle _)
  · have htotal : s.totalUnwritten =
        ((s.writeCompletedQueue ++ r' :: rest).map WriteReq.unwritten).sum + n := by
      have hunwritten : r.unwritten = r'.unwritten + n := by
        rw [WriteReq.unwritten, WriteReq.unwritten, hwrote.left, length_drop]
        omega
      rw [totalUnwritten, hqueue]
      simp only [map_append, map_cons, sum_append, sum_cons, hunwritten]
      omega
    dsimp only [totalUnwritten]
    rw [h.size, htotal, BitVec.ofNat_add, BitVec.add_sub_cancel]

theorem Books.finish (r' : WriteReq α) (h : Books s k) (hqueue : s.writeQueue = r :: rest)
    (hid : r'.id = r.id)
    (hbufs : r'.bufs = r.bufs) (hindex : r'.writeIndex = r.writeIndex)
    (hdone : r'.error = 0 → r.left = []) : Books (s.uvWriteReqFinish r') k := by
  obtain ⟨-, hnull, hleft⟩ := h.queued r (by simp [hqueue])
  have hleft' : r'.left = r.left := by rw [WriteReq.left, WriteReq.left, hbufs, hindex]
  obtain ⟨x, hx⟩ : ∃ x, (if r'.error = 0 then { r' with bufs := none } else r') = x := ⟨_, rfl⟩
  have hxid : x.id = r.id := by
    rw [← hx, ← hid]
    split <;> rfl
  have hxerror : x.error = r'.error := by
    rw [← hx]
    split <;> rfl
  have hxunwritten : x.unwritten = r.unwritten := by
    rw [← hx]
    split
    · next hzero =>
      have hnil : r.unwritten = 0 := by rw [WriteReq.unwritten, hdone hzero]; rfl
      rw [hnil]
      simp [WriteReq.unwritten, WriteReq.left]
    · rw [WriteReq.unwritten, hleft']
      rfl
  have hfinish : s.uvWriteReqFinish r' =
      { s with writeQueue := rest, writeCompletedQueue := s.writeCompletedQueue ++ [x] } := by
    rw [uvWriteReqFinish, hx, hqueue, tail_cons]
  rw [hfinish]
  constructor
  · have hids := h.ids
    rw [hqueue] at hids
    simpa [hxid] using hids
  · exact h.sent
  · intro i hi
    apply h.unsent
    apply hi.imp_left
    intro hlt
    simp only [length_append] at hlt
    omega
  · intro v hv
    exact h.queued v (by simp [hqueue, hv])
  · intro v hv hzero
    obtain hold | hnew := mem_append.mp hv
    · exact h.done v hold hzero
    · obtain rfl := mem_singleton.mp hnew
      rw [hxerror] at hzero
      have hnil := hdone hzero
      rw [hnil, flatten_nil, eq_comm, drop_eq_nil_iff] at hleft
      refine ⟨?_, hxid ▸ hleft⟩
      rw [← hx, if_pos hzero]
  · intro v hv hfail
    obtain hold | hnew := mem_append.mp hv
    · exact h.failed v hold hfail
    · obtain rfl := mem_singleton.mp hnew
      rw [hxerror] at hfail
      rw [if_neg hfail] at hx
      subst hx
      rw [hid, hbufs, hleft']
      exact ⟨hnull, hleft⟩
  · exact h.called
  · rw [h.size, totalUnwritten, totalUnwritten, hqueue]
    simp [hxunwritten]

theorem Books.flush {error : ℤ} (h : Books s k) (herror : error ≠ 0) :
    Books (s.uvStreamFlushWriteQueue error) k := by
  constructor
  · simpa [uvStreamFlushWriteQueue, Function.comp_def] using h.ids
  · exact h.sent
  · intro i hi
    apply h.unsent
    apply hi.imp_left
    intro hlt
    simp only [uvStreamFlushWriteQueue, length_append] at hlt
    omega
  · intro r hr
    cases hr
  · intro r hr hzero
    obtain hold | hnew := mem_append.mp hr
    · exact h.done r hold hzero
    · obtain ⟨v, -, rfl⟩ := mem_map.mp hnew
      exact absurd hzero herror
  · intro r hr hfail
    obtain hold | hnew := mem_append.mp hr
    · exact h.failed r hold hfail
    · obtain ⟨v, hv, rfl⟩ := mem_map.mp hnew
      exact (h.queued v hv).2
  · exact h.called
  · have htotal : (s.uvStreamFlushWriteQueue error).totalUnwritten = s.totalUnwritten := by
      simp only [totalUnwritten, uvStreamFlushWriteQueue, append_nil, map_append,
        List.map_map]
      rfl
    rw [htotal]
    exact h.size

theorem uvWriteCallback_cases (hcallback : s.uvWriteCallback = some t) :
    ∃ r rest, s.writeCompletedQueue = r :: rest ∧ t = { s with
      writeCompletedQueue := rest
      writeQueueSize := s.writeQueueSize - BitVec.ofNat 64 r.unwritten
      called := s.called ++ [(r.id, r.error)] } := by
  unfold uvWriteCallback at hcallback
  split at hcallback
  · cases hcallback
  · next r rest hcompleted =>
    refine ⟨r, rest, hcompleted, ?_⟩
    obtain ⟨size, hsize, rfl⟩ := map_eq_some_iff.mp hcallback
    have hunwritten : size = BitVec.ofNat 64 r.unwritten := by
      by_cases hnull : r.bufs = none
      · simp only [hnull, isNone_none, if_true, Option.some.injEq] at hsize
        rw [← hsize, WriteReq.unwritten, WriteReq.left, hnull]
        simp
      · rw [if_neg (by simpa using hnull)] at hsize
        obtain ⟨-, hsize⟩ := by
          simpa only [uvWriteReqSize, ite_none_left_eq_some] using hsize
        rw [← Option.some.inj hsize, uvCountBufs_eq]
        rfl
    rw [hunwritten]

theorem Books.callback (h : Books s k) (hcallback : s.uvWriteCallback = some t) : Books t k := by
  obtain ⟨r, rest, hcompleted, rfl⟩ := uvWriteCallback_cases hcallback
  constructor
  · have hids := h.ids
    rw [hcompleted] at hids
    simpa using hids
  · exact h.sent
  · intro i hi
    apply h.unsent
    apply hi.imp_left
    intro hlt
    simp only [length_append, length_singleton] at hlt
    rw [hcompleted, length_cons]
    omega
  · exact h.queued
  · intro v hv
    exact h.done v (by simp [hcompleted, hv])
  · intro v hv
    exact h.failed v (by simp [hcompleted, hv])
  · intro c hc hzero
    obtain hold | hnew := mem_append.mp hc
    · exact h.called c hold hzero
    · obtain rfl := mem_singleton.mp hnew
      exact (h.done r (by simp [hcompleted]) hzero).2
  · have htotal : s.totalUnwritten =
        ((rest ++ s.writeQueue).map WriteReq.unwritten).sum + r.unwritten := by
      rw [totalUnwritten, hcompleted, cons_append, map_cons, sum_cons, Nat.add_comm]
    dsimp only [totalUnwritten]
    rw [h.size, htotal, BitVec.ofNat_add, BitVec.add_sub_cancel]

/-! ### Runs -/

/-- The calls of the user and of the loop, and the answers of the kernel. -/
inductive Event (α : Type*) where
  | write2 (bufs : List (List α)) (sendHandle : Option ℕ) (allocated : Bool) : Event α
  | answer (a : Answer) : Event α
  | io : Event α
  | callback : Event α
  | returned : Event α
  | streamOpen (fd : ℤ) : Event α
  | connect : Event α
  | connected (error : ℤ) : Event α
  | connectReturned : Event α
  | close : Event α
  | destroy : Event α
  /-- A handle that may be sent is opened or closed. -/
  | handle (h : ℕ) (fd : ℤ) : Event α

def next (s : Stream α) : Event α → Option (Stream α)
  | .write2 bufs sendHandle allocated => (s.uvWrite2 bufs sendHandle allocated).map Prod.fst
  | .answer a => s.answered a
  | .io => s.uvStreamIo
  | .callback => match s.frame with
    | .callbacks _ => s.uvWriteCallback
    | _ => none
  | .returned => s.returned
  | .streamOpen fd => s.uvStreamOpen fd
  | .connect => s.uvConnect
  | .connected error => s.uvStreamConnect error
  | .connectReturned => s.connectReturned
  | .close => s.uvStreamClose
  | .destroy => s.uvStreamDestroy
  | .handle h fd => some { s with handleFd := update s.handleFd h fd }

def Event.isAnswer : Event α → Bool
  | .answer _ => true
  | _ => false

/-- `uv__write` waits for the kernel, and nothing else happens meanwhile. -/
def step (s : Stream α) (e : Event α) : Option (Stream α) :=
  if e.isAnswer = s.writing then s.next e else none

def Step (s : Stream α) (e : Event α) (t : Stream α) : Prop := step s e = some t

structure Init (s : Stream α) : Prop where
  writeQueue : s.writeQueue = []
  writeCompletedQueue : s.writeCompletedQueue = []
  writeQueueSize : s.writeQueueSize = 0
  closing : s.closing = false
  closed : s.closed = false
  writing : s.writing = false
  frame : s.frame = .loop
  accepted : s.accepted = []
  handles : s.handles = []
  sent : s.sent = []
  calls : s.calls = []
  called : s.called = []

variable {a : Answer} {e : Event α}

theorem Books.of_init (h : Init s) : Books s fun _ => 0 := by
  constructor <;> simp [h.writeQueue, h.writeCompletedQueue, h.accepted, h.sent, h.called,
    h.writeQueueSize, totalUnwritten]

theorem uvWrite_eq (h : s.uvWrite = some t) : t = { s with writing := t.writing } := by
  unfold uvWrite at h
  split at h
  · cases h
  · split at h
    · cases h
      rfl
    · split at h
      · cases h
      · cases h
        rfl

/-- The kernel takes some bytes of the first request, which is done then or not, or fails it, or
nothing changes for the requests. -/
theorem answered_cases (h : s.answered a = some t) :
    (∃ b, t = { s with pollOut := b, writing := t.writing }) ∨
    (∃ r rest errno, s.writeQueue = r :: rest ∧ errno ≠ 0 ∧
      t = { s.uvWriteReqFinish { r with error := -(errno : ℕ) } with
        pollOut := false, writing := false }) ∨
    ∃ r rest n r' size finished u, s.writeQueue = r :: rest ∧ a = .wrote n ∧
      n ≤ (r.left.take s.iovmax).flatten.length ∧
      writeLoop r s.writeQueueSize n r.left = some (r', size, finished) ∧
      u = { s with
        writeQueue := r' :: rest
        writeQueueSize := size
        sent := s.sent ++ (r.left.take s.iovmax).flatten.take n
        calls := s.calls ++ [(r'.id, r'.sendHandle.map s.handleFd)] } ∧
      (finished = true ∧ t = { u.uvWriteReqFinish r' with writing := false } ∨
        finished = false ∧ ∃ b, t = { u with pollOut := b, writing := t.writing }) := by
  unfold answered at h
  cases a with
  | fails errno =>
    dsimp only at h
    split_ifs at h with hzero hintr hagain hblocking
    · cases h
      exact .inl ⟨s.pollOut, rfl⟩
    · obtain ⟨r, hhead, rfl⟩ := map_eq_some_iff.mp h
      obtain ⟨rest, hqueue⟩ := List.head?_eq_some_iff.mp hhead
      exact .inr (.inl ⟨r, rest, errno, hqueue, hzero, rfl⟩)
    · exact .inl ⟨s.pollOut, uvWrite_eq h⟩
    · cases h
      exact .inl ⟨true, rfl⟩
  | wrote n =>
    obtain ⟨r, hhead, h⟩ := bind_eq_some_iff.mp h
    obtain ⟨rest, hqueue⟩ := List.head?_eq_some_iff.mp hhead
    obtain ⟨hn, h⟩ := by simpa only [ite_none_left_eq_some] using h
    obtain ⟨⟨r', size, finished⟩, hloop, h⟩ := bind_eq_some_iff.mp h
    refine .inr (.inr ⟨r, rest, n, r', size, finished, _, hqueue, rfl, Nat.le_of_not_lt hn, hloop,
      rfl, ?_⟩)
    rw [hqueue] at h
    split_ifs at h with hfinished hblocking
    · cases h
      exact .inl ⟨hfinished, rfl⟩
    · exact .inr ⟨Bool.eq_false_iff.mpr hfinished, s.pollOut, uvWrite_eq h⟩
    · cases h
      exact .inr ⟨Bool.eq_false_iff.mpr hfinished, true, rfl⟩

theorem take_flatten_take {m : ℕ} (hn : n ≤ (bufs.take m).flatten.length) :
    n ≤ bufs.flatten.length ∧ (bufs.take m).flatten.take n = bufs.flatten.take n := by
  have hsplit : bufs.flatten = (bufs.take m).flatten ++ (bufs.drop m).flatten := by
    rw [← flatten_append, take_append_drop]
  constructor
  · rw [hsplit, length_append]
    omega
  · rw [hsplit, take_append_of_le_length hn]

theorem Books.answered (h : Books s k) (hanswered : s.answered a = some t) : ∃ k, Books t k := by
  obtain ⟨b, ht⟩ | ⟨r, rest, errno, hqueue, herrno, rfl⟩ |
      ⟨r, rest, n, r', size, finished, u, hqueue, -, hn, hloop, rfl, ht⟩ := answered_cases hanswered
  · rw [ht]
    exact ⟨k, h.of_eq rfl rfl rfl rfl rfl rfl⟩
  · refine ⟨k, (h.finish { r with error := -(errno : ℕ) } hqueue rfl rfl rfl
      fun habs => ?_).of_eq rfl rfl rfl rfl rfl rfl⟩
    dsimp only at habs
    omega
  · obtain ⟨herror, hnull, -⟩ := h.queued r (by simp [hqueue])
    obtain ⟨hle, htake⟩ := take_flatten_take hn
    obtain ⟨hwrote, rfl, hfinished⟩ := writeLoop_spec hnull rfl hle hloop
    have hu := h.wrote hqueue hwrote hle
    rw [← htake] at hu
    obtain ⟨hdone, rfl⟩ | ⟨-, b, ht⟩ := ht
    · have hfinish := (hu.of_eq (t := { s with
        writeQueue := r' :: rest
        writeQueueSize := s.writeQueueSize - BitVec.ofNat 64 n
        sent := s.sent ++ (r.left.take s.iovmax).flatten.take n
        calls := s.calls ++ [(r'.id, r'.sendHandle.map s.handleFd)] })
          rfl rfl rfl rfl rfl rfl).finish r' rfl rfl rfl rfl fun _ => hfinished hdone
      exact ⟨_, hfinish.of_eq rfl rfl rfl rfl rfl rfl⟩
    · rw [ht]
      exact ⟨_, hu.of_eq rfl rfl rfl rfl rfl rfl⟩

/-- A request has been submitted. -/
def submitted (s : Stream α) (bufs : List (List α)) (handle : Option ℕ) (pollOut writing : Bool) :
    Stream α :=
  { s with
    writeQueue := s.writeQueue ++ [⟨s.accepted.length, some bufs, 0, 0, handle⟩]
    writeQueueSize := s.writeQueueSize + uvCountBufs bufs
    accepted := s.accepted ++ [bufs.flatten]
    handles := s.handles ++ [handle]
    pollOut := pollOut
    writing := writing }

theorem uvWrite2_cases {handle : Option ℕ} {allocated : Bool} {err : ℤ}
    (h : s.uvWrite2 bufs handle allocated = some (t, err)) :
    (err ≠ 0 ∧ t = s) ∨ (err = 0 ∧ 0 ≤ s.fd ∧ ∃ b, t = s.submitted bufs handle b t.writing) := by
  simp only [uvWrite2] at h
  split_ifs at h with hnull hclosed hipc hhandle halloc hconnecting hempty hblocking
  · cases h
    exact .inl ⟨by decide, rfl⟩
  · cases h
    exact .inl ⟨by decide, rfl⟩
  · cases h
    exact .inl ⟨by decide, rfl⟩
  · cases h
    exact .inl ⟨by decide, rfl⟩
  · cases h
    exact .inr ⟨rfl, by omega, s.pollOut, rfl⟩
  · obtain ⟨u, hu, huv⟩ := map_eq_some_iff.mp h
    cases huv
    exact .inr ⟨rfl, by omega, s.pollOut, uvWrite_eq hu⟩
  · cases h
    exact .inr ⟨rfl, by omega, true, rfl⟩

theorem step_iff : Step s e t ↔ e.isAnswer = s.writing ∧ s.next e = some t := by
  rw [Step, Stream.step, ite_none_right_eq_some]

structure SameRequests (s t : Stream α) : Prop where
  writeQueue : t.writeQueue = s.writeQueue
  writeCompletedQueue : t.writeCompletedQueue = s.writeCompletedQueue
  writeQueueSize : t.writeQueueSize = s.writeQueueSize
  accepted : t.accepted = s.accepted
  handles : t.handles = s.handles
  sent : t.sent = s.sent
  calls : t.calls = s.calls
  called : t.called = s.called

theorem SameRequests.refl : SameRequests s s := ⟨rfl, rfl, rfl, rfl, rfl, rfl, rfl, rfl⟩

inductive Change (s : Stream α) : Event α → Stream α → Prop
  | same {e : Event α} {t : Stream α} : SameRequests s t →
      t.writing = false ∨ s.uvStreamIo = some t → Change s e t
  | flush {e : Event α} {t : Stream α} (error : ℤ) : error ≠ 0 →
      SameRequests (s.uvStreamFlushWriteQueue error) t → t.writing = false → Change s e t
  | submit {t : Stream α} {allocated : Bool} (bufs : List (List α)) (handle : Option ℕ) (b : Bool) :
      t = s.submitted bufs handle b t.writing → s.writing = false →
      s.uvWrite2 bufs handle allocated = some (t, 0) → Change s (.write2 bufs handle allocated) t
  | answer {t : Stream α} (a : Answer) : s.writing = true → s.answered a = some t →
      Change s (.answer a) t
  | callback {t : Stream α} : s.uvWriteCallback = some t → t.writing = false →
      Change s .callback t

theorem step_change (hstep : Step s e t) : Change s e t := by
  obtain ⟨hanswer, hnext⟩ := step_iff.mp hstep
  cases e with
  | write2 bufs handle allocated =>
    obtain ⟨⟨t', err⟩, hwrite, rfl⟩ := map_eq_some_iff.mp hnext
    obtain ⟨-, rfl⟩ | ⟨rfl, -, b, ht⟩ := uvWrite2_cases hwrite
    · exact .same .refl (.inl hanswer.symm)
    · exact .submit bufs handle b ht hanswer.symm hwrite
  | answer a => exact .answer a hanswer.symm hnext
  | io =>
    obtain ⟨-, hio⟩ := by
      simpa only [next, uvStreamIo, ite_none_left_eq_some] using hnext
    obtain ⟨u, hwrite, rfl⟩ := map_eq_some_iff.mp hio
    have hsame : SameRequests s { u with frame := .callbacks .io } := by
      rw [uvWrite_eq hwrite]
      exact ⟨rfl, rfl, rfl, rfl, rfl, rfl, rfl, rfl⟩
    exact .same hsame (.inr hnext)
  | callback =>
    dsimp only [next] at hnext
    split at hnext
    · refine .callback hnext ?_
      obtain ⟨r, rest, -, rfl⟩ := uvWriteCallback_cases hnext
      exact hanswer.symm
    · cases hnext
  | returned =>
    simp only [next, Stream.returned] at hnext
    split at hnext
    · cases hnext
      exact .same ⟨rfl, rfl, rfl, rfl, rfl, rfl, rfl, rfl⟩ (.inl hanswer.symm)
    · cases hnext
      exact .same ⟨rfl, rfl, rfl, rfl, rfl, rfl, rfl, rfl⟩ (.inl hanswer.symm)
    · obtain ⟨-, hnext⟩ := by simpa only [ite_none_left_eq_some] using hnext
      cases hnext
      exact .same ⟨rfl, rfl, rfl, rfl, rfl, rfl, rfl, rfl⟩ (.inl hanswer.symm)
    · cases hnext
  | streamOpen fd =>
    simp only [next, uvStreamOpen] at hnext
    split_ifs at hnext
    · cases hnext
      exact .same ⟨rfl, rfl, rfl, rfl, rfl, rfl, rfl, rfl⟩ (.inl hanswer.symm)
    · cases hnext
      exact .same .refl (.inl hanswer.symm)
  | connect =>
    simp only [next, uvConnect] at hnext
    split_ifs at hnext
    · cases hnext
      exact .same .refl (.inl hanswer.symm)
    · cases hnext
      exact .same ⟨rfl, rfl, rfl, rfl, rfl, rfl, rfl, rfl⟩ (.inl hanswer.symm)
  | connected error =>
    obtain ⟨-, hnext⟩ := by
      simpa only [next, uvStreamConnect, ite_none_left_eq_some] using hnext
    split at hnext
    · cases hnext
      exact .same .refl (.inl hanswer.symm)
    · cases hnext
      exact .same ⟨rfl, rfl, rfl, rfl, rfl, rfl, rfl, rfl⟩ (.inl hanswer.symm)
  | connectReturned =>
    simp only [next, Stream.connectReturned] at hnext
    split at hnext
    · split_ifs at hnext
      · cases hnext
        exact .same ⟨rfl, rfl, rfl, rfl, rfl, rfl, rfl, rfl⟩ (.inl hanswer.symm)
      · cases hnext
        exact .flush uvEcanceled (by decide) ⟨rfl, rfl, rfl, rfl, rfl, rfl, rfl, rfl⟩ hanswer.symm
    · cases hnext
  | close =>
    simp only [next, uvStreamClose] at hnext
    split_ifs at hnext
    cases hnext
    exact .same ⟨rfl, rfl, rfl, rfl, rfl, rfl, rfl, rfl⟩ (.inl hanswer.symm)
  | destroy =>
    simp only [next, uvStreamDestroy] at hnext
    split_ifs at hnext
    cases hnext
    exact .flush uvEcanceled (by decide) ⟨rfl, rfl, rfl, rfl, rfl, rfl, rfl, rfl⟩ hanswer.symm
  | handle i fd =>
    cases hnext
    exact .same ⟨rfl, rfl, rfl, rfl, rfl, rfl, rfl, rfl⟩ (.inl hanswer.symm)

theorem Books.same (h : Books s k) (hsame : SameRequests s t) : Books t k :=
  h.of_eq hsame.writeQueue hsame.writeCompletedQueue hsame.writeQueueSize hsame.accepted
    hsame.sent hsame.called

theorem Books.step (h : Books s k) (hstep : Step s e t) : ∃ k, Books t k := by
  cases step_change hstep with
  | same hsame _ => exact ⟨k, h.same hsame⟩
  | flush error herror hflush _ => exact ⟨k, (h.flush herror).same hflush⟩
  | submit bufs handle b ht _ _ =>
    rw [ht]
    exact ⟨k, (h.submit bufs handle).of_eq rfl rfl rfl rfl rfl rfl⟩
  | answer a hwriting hanswered => exact h.answered hanswered
  | callback hcallback _ => exact ⟨k, h.callback hcallback⟩

theorem Books.of_reachable (h : Reachable Init Step s) : ∃ k, Books s k :=
  h.invariant (P := fun s => ∃ k, Books s k) (fun _ h => ⟨_, .of_init h⟩)
    fun _ _ _ _ ⟨_, hs⟩ hstep => hs.step hstep

/-! ### Close and destroy -/

/-- A closed stream accepts no request, and once it is destroyed none is left. -/
structure Shut (s : Stream α) : Prop where
  closing : s.closing = true → s.fd = -1
  closed : s.closed = true → s.closing = true ∧ s.connecting = false ∧ s.writing = false ∧
    s.writeQueue = [] ∧ (s.frame = .callbacks .destroy ∨
      s.frame = .loop ∧ s.writeCompletedQueue = [])
  destroy : s.frame = .callbacks .destroy → s.closed = true

theorem Shut.of_init (h : Init s) : Shut s := by
  constructor
  · simp [h.closing]
  · simp [h.closed]
  · simp [h.frame]

theorem Shut.of_open (hclosing : t.closing = false) (hclosed : t.closed = false)
    (hframe : t.frame ≠ .callbacks .destroy) : Shut t := by
  constructor
  · simp [hclosing]
  · simp [hclosed]
  · intro habs
    exact absurd habs hframe

theorem Shut.closing_eq (h : Shut s) (hfd : 0 ≤ s.fd) : s.closing = false := by
  by_contra habs
  have := h.closing (by simpa using habs)
  omega

theorem Shut.closed_eq (h : Shut s) (hclosing : s.closing = false) : s.closed = false := by
  by_contra habs
  obtain ⟨hclosed, -⟩ := h.closed (by simpa using habs)
  rw [hclosing] at hclosed
  cases hclosed

theorem Shut.frame_ne (h : Shut s) (hclosed : s.closed = false) :
    s.frame ≠ .callbacks .destroy := by
  intro habs
  rw [h.destroy habs] at hclosed
  cases hclosed

theorem Shut.loop {b : Bool} (h : Shut s) (hcompleted : s.writeCompletedQueue = []) :
    Shut { s with frame := .loop, pollOut := b } := by
  refine ⟨h.closing, fun hclosed => ?_, fun habs => by cases habs⟩
  obtain ⟨hclosing, hconnecting, hwriting, hqueue, -⟩ := h.closed hclosed
  exact ⟨hclosing, hconnecting, hwriting, hqueue, .inr ⟨rfl, hcompleted⟩⟩

theorem answered_same (h : s.answered a = some t) : t.fd = s.fd ∧ t.closing = s.closing ∧
    t.closed = s.closed ∧ t.frame = s.frame := by
  obtain ⟨b, ht⟩ | ⟨r, rest, errno, -, -, rfl⟩ |
      ⟨r, rest, n, r', size, finished, u, -, -, -, -, rfl,
        ⟨-, rfl⟩ | ⟨-, b, ht⟩⟩ := answered_cases h
  · rw [ht]
    exact ⟨rfl, rfl, rfl, rfl⟩
  · exact ⟨rfl, rfl, rfl, rfl⟩
  · exact ⟨rfl, rfl, rfl, rfl⟩
  · rw [ht]
    exact ⟨rfl, rfl, rfl, rfl⟩

theorem Shut.step (h : Shut s) (hstep : Step s e t) : Shut t := by
  obtain ⟨hanswer, hnext⟩ := step_iff.mp hstep
  cases e with
  | write2 bufs handle allocated =>
    obtain ⟨⟨t', err⟩, hwrite, rfl⟩ := map_eq_some_iff.mp hnext
    obtain ⟨-, rfl⟩ | ⟨-, hfd, b, ht⟩ := uvWrite2_cases hwrite
    · exact h
    · have hclosing := h.closing_eq hfd
      have hclosed := h.closed_eq hclosing
      rw [ht]
      exact .of_open hclosing hclosed (h.frame_ne hclosed)
  | answer a =>
    have hclosed : s.closed = false := by
      by_contra habs
      obtain ⟨-, -, hwriting, -⟩ := h.closed (by simpa using habs)
      rw [hwriting] at hanswer
      cases hanswer
    obtain ⟨hfd, hclosing, hsame, hframe⟩ := answered_same hnext
    constructor
    · rw [hfd, hclosing]
      exact h.closing
    · rw [hsame, hclosed]
      intro habs
      cases habs
    · rw [hframe]
      intro habs
      exact absurd habs (h.frame_ne hclosed)
  | io =>
    obtain ⟨hguard, hio⟩ := by
      simpa only [next, uvStreamIo, ite_none_left_eq_some] using hnext
    obtain ⟨u, hwrite, rfl⟩ := map_eq_some_iff.mp hio
    have hclosing := h.closing_eq (Int.not_lt.mp (not_or.mp (not_or.mp hguard).2).2)
    rw [uvWrite_eq hwrite]
    exact .of_open hclosing (h.closed_eq hclosing) (by simp)
  | callback =>
    dsimp only [next] at hnext
    split at hnext
    · next caller hframe =>
      obtain ⟨r, rest, hcompleted, rfl⟩ := uvWriteCallback_cases hnext
      refine { h with closed := fun hclosed => ?_ }
      obtain ⟨hclosing, hconnecting, hwriting, hqueue, hrest⟩ := h.closed hclosed
      refine ⟨hclosing, hconnecting, hwriting, hqueue, .inl (hrest.resolve_right fun habs => ?_)⟩
      rw [habs.1] at hframe
      cases hframe
    · cases hnext
  | returned =>
    simp only [next, Stream.returned] at hnext
    split at hnext
    · next hframe hcompleted =>
      cases hnext
      exact h.loop hcompleted
    · next hframe hcompleted =>
      cases hnext
      exact h.loop hcompleted
    · next hframe hcompleted =>
      obtain ⟨-, hnext⟩ := by simpa only [ite_none_left_eq_some] using hnext
      cases hnext
      exact h.loop hcompleted
    · cases hnext
  | streamOpen fd =>
    simp only [next, uvStreamOpen] at hnext
    split_ifs at hnext with hguard
    · cases hnext
      have hclosing : s.closing = false := by simpa using (not_or.mp hguard).1
      exact .of_open hclosing (h.closed_eq hclosing) (h.frame_ne (h.closed_eq hclosing))
    · cases hnext
      exact h
  | connect =>
    simp only [next, uvConnect] at hnext
    split_ifs at hnext with hguard
    · cases hnext
      exact h
    · cases hnext
      have hclosing : s.closing = false := by simpa using (not_or.mp hguard).1
      exact .of_open hclosing (h.closed_eq hclosing) (h.frame_ne (h.closed_eq hclosing))
  | connected error =>
    obtain ⟨hguard, hnext⟩ := by
      simpa only [next, uvStreamConnect, ite_none_left_eq_some] using hnext
    have hclosed : s.closed = false := by
      by_contra habs
      obtain ⟨-, hconnecting, -⟩ := h.closed (by simpa using habs)
      exact hguard (.inr (.inl (by rw [hconnecting]; rfl)))
    split at hnext
    · cases hnext
      exact h
    · cases hnext
      refine ⟨h.closing, fun habs => ?_, fun habs => by cases habs⟩
      rw [hclosed] at habs
      cases habs
  | connectReturned =>
    simp only [next, Stream.connectReturned] at hnext
    split at hnext
    · next error hframe =>
      have hclosed : s.closed = false := by
        by_contra habs
        obtain ⟨-, -, -, -, hrest⟩ := h.closed (by simpa using habs)
        simp [hframe] at hrest
      split_ifs at hnext
      · cases hnext
        refine ⟨h.closing, fun habs => ?_, fun habs => by cases habs⟩
        rw [hclosed] at habs
        cases habs
      · cases hnext
        refine ⟨h.closing, fun habs => ?_, fun habs => by cases habs⟩
        rw [uvStreamFlushWriteQueue, hclosed] at habs
        cases habs
    · cases hnext
  | close =>
    simp only [next, uvStreamClose] at hnext
    split_ifs at hnext with hguard
    cases hnext
    have hclosed := h.closed_eq (by simpa using hguard)
    refine ⟨fun _ => rfl, fun habs => ?_, fun habs => absurd habs (h.frame_ne hclosed)⟩
    rw [hclosed] at habs
    cases habs
  | destroy =>
    simp only [next, uvStreamDestroy] at hnext
    split_ifs at hnext with hguard
    cases hnext
    have hclosing : s.closing = true := by
      simpa using (not_or.mp (not_or.mp hguard).2).2
    exact ⟨h.closing, fun _ => ⟨hclosing, rfl, hanswer.symm, rfl, .inl rfl⟩, fun _ => rfl⟩
  | handle i fd =>
    cases hnext
    exact { h with }

theorem Shut.of_reachable (h : Reachable Init Step s) : Shut s :=
  h.invariant (fun _ => .of_init) fun _ _ _ _ hs hstep => hs.step hstep

theorem Books.exists_callback (h : Books s k) (hqueue : s.writeCompletedQueue = r :: rest)
    (htotal : s.totalUnwritten < 2 ^ 64) : ∃ t, s.uvWriteCallback = some t := by
  rw [uvWriteCallback, hqueue]
  by_cases hnull : r.bufs = none
  · simp [hnull]
  · have hle : r.unwritten ≤ s.totalUnwritten := by
      rw [totalUnwritten, hqueue, cons_append, map_cons, sum_cons]
      omega
    have hsize : ¬ s.writeQueueSize < uvCountBufs r.left := by
      rw [h.size, uvCountBufs_eq, BitVec.lt_def, BitVec.toNat_ofNat, BitVec.toNat_ofNat,
        Nat.mod_eq_of_lt htotal]
      exact Nat.not_lt.mpr ((Nat.mod_le _ _).trans hle)
    simp [uvWriteReqSize, hnull, hsize]

/-- `uv__stream_destroy` runs its callbacks to the end, when the sum of the bytes is a `size_t`. -/
theorem destroy_completes {callbacks : List (WriteReq α)} (h : Reachable Init Step s)
    (hframe : s.frame = .callbacks .destroy) (hqueue : s.writeCompletedQueue = callbacks)
    (htotal : s.totalUnwritten < 2 ^ 64) :
    ∃ es t, Run Step s es t ∧ t.closed = true ∧ t.frame = .loop := by
  obtain ⟨k, hbooks⟩ := Books.of_reachable h
  have hshut := Shut.of_reachable h
  have hclosed := hshut.destroy hframe
  obtain ⟨-, -, hwriting, hwrite, -⟩ := hshut.closed hclosed
  induction callbacks generalizing s k with
  | nil =>
    have hsize : s.writeQueueSize = 0 := by
      rw [hbooks.size, totalUnwritten, hqueue, hwrite]
      rfl
    refine ⟨[.returned], _, .cons ?_ (.nil { s with frame := .loop }), hclosed, rfl⟩
    simp [Step, Stream.step, next, Stream.returned, Event.isAnswer, hwriting, hframe, hqueue, hsize]
  | cons r rest ih =>
    obtain ⟨t, ht⟩ := hbooks.exists_callback hqueue htotal
    have hstep : Step s .callback t := by
      simp [Step, Stream.step, next, Event.isAnswer, hwriting, hframe, ht]
    have hnext := Books.callback hbooks ht
    obtain ⟨r', rest', hqueue', heq⟩ := uvWriteCallback_cases ht
    rw [hqueue] at hqueue'
    cases hqueue'
    subst heq
    have hsum : s.totalUnwritten = r.unwritten + totalUnwritten { s with
        writeCompletedQueue := rest
        writeQueueSize := s.writeQueueSize - BitVec.ofNat 64 r.unwritten
        called := s.called ++ [(r.id, r.error)] } := by
      rw [totalUnwritten, hqueue]
      rfl
    have hreach := Reachable.step _ h hstep
    obtain ⟨es, u, hrun, hu⟩ := ih hreach hframe rfl (by omega) k hnext (.of_reachable hreach)
      hclosed hwriting hwrite
    exact ⟨.callback :: es, u, .cons hstep hrun, hu⟩

theorem Books.map_queued (h : Books s k) : s.writeQueue.map WriteReq.unwritten =
    s.writeQueue.map fun r => (s.bytes r.id).length - k r.id := by
  apply map_congr_left
  intro r hr
  rw [WriteReq.unwritten, (h.queued r hr).2.2, length_drop]

theorem Books.sum_completed (h : Books s k) :
    (s.writeCompletedQueue.map WriteReq.unwritten).sum =
      ((s.writeCompletedQueue.filter (·.error ≠ 0)).map
        fun r => (s.bytes r.id).length - k r.id).sum := by
  have hdone := h.done
  have hfailed := h.failed
  generalize s.writeCompletedQueue = rs at hdone hfailed
  induction rs with
  | nil => rfl
  | cons r rs ih =>
    have hsum := ih (fun v hv => hdone v (mem_cons_of_mem r hv))
      fun v hv => hfailed v (mem_cons_of_mem r hv)
    rw [map_cons, sum_cons, hsum]
    by_cases hzero : r.error = 0
    · obtain ⟨hnull, -⟩ := hdone r mem_cons_self hzero
      have hnone : r.unwritten = 0 := by simp [WriteReq.unwritten, WriteReq.left, hnull]
      rw [filter_cons_of_neg (by simpa using hzero), hnone, Nat.zero_add]
    · obtain ⟨-, hleft⟩ := hfailed r mem_cons_self hzero
      rw [filter_cons_of_pos (by simpa using hzero), map_cons, sum_cons,
        WriteReq.unwritten, hleft, length_drop]

/-- In every run the kernel takes a prefix of each request, in the order of submission, and all of
it when the callback reports 0. The callbacks run in that order, once each, and all of them when
the stream is destroyed. `write_queue_size` is the number of bytes that are left of the requests in
`write_queue` and of the failed ones in `write_completed_queue`, modulo `2 ^ 64`. -/
theorem writes_conserved (h : Reachable Init Step s) : ∃ k : ℕ → ℕ,
    s.sent = prefixes k s.accepted ∧
    (∀ i, (i, 0) ∈ s.called → (s.bytes i).length ≤ k i) ∧
    s.called.map Prod.fst = List.range s.called.length ∧
    s.called.length ≤ s.accepted.length ∧
    s.writeQueueSize = BitVec.ofNat 64 ((s.writeCompletedQueue.filter (·.error ≠ 0) ++
      s.writeQueue).map fun r => (s.bytes r.id).length - k r.id).sum ∧
    (s.closed = true → s.frame = .loop →
      s.called.length = s.accepted.length ∧ s.writeQueueSize = 0) ∧
    (s.frame = .callbacks .destroy → s.totalUnwritten < 2 ^ 64 →
      ∃ es t, Run Step s es t ∧ t.closed = true ∧ t.frame = .loop) := by
  obtain ⟨k, hbooks⟩ := Books.of_reachable h
  have hids := hbooks.ids
  have hlen : s.called.length + (s.writeCompletedQueue ++ s.writeQueue).length =
      s.accepted.length := by
    simpa using congrArg List.length hids
  refine ⟨k, hbooks.sent, fun i hi => hbooks.called _ hi rfl, ?_, by omega, ?_, ?_,
    fun hframe htotal => destroy_completes h hframe rfl htotal⟩
  · have htake := congrArg (List.take s.called.length) hids
    rw [List.take_left' (by simp), List.take_range, Nat.min_eq_left (by omega)] at htake
    exact htake
  · rw [hbooks.size, totalUnwritten, map_append, map_append, sum_append,
      sum_append, hbooks.sum_completed, hbooks.map_queued]
  · intro hclosed hframe
    obtain ⟨-, -, -, hqueue, hrest⟩ := (Shut.of_reachable h).closed hclosed
    obtain habs | ⟨-, hcompleted⟩ := hrest
    · rw [hframe] at habs
      cases habs
    · rw [hbooks.size, totalUnwritten, hqueue, hcompleted]
      rw [hqueue, hcompleted] at hlen
      exact ⟨by simpa using hlen, rfl⟩

/-! ### Concrete runs -/

/-- A stream on descriptor 5, which a kernel of `IOV_MAX` 1024 serves. -/
def fresh (connecting : Bool) : Stream α where
  writeQueue := []
  writeCompletedQueue := []
  writeQueueSize := 0
  fd := 5
  ipc := true
  blocking := false
  connecting := connecting
  closing := false
  closed := false
  pollOut := false
  iovmax := 1024
  handleFd h := h
  writing := false
  frame := .loop
  accepted := []
  handles := []
  sent := []
  calls := []
  called := []

theorem init_fresh {connecting : Bool} : Init (fresh connecting : Stream α) :=
  ⟨rfl, rfl, rfl, rfl, rfl, rfl, rfl, rfl, rfl, rfl, rfl, rfl⟩

/-- The first request is written in two parts, the second is left when the stream is closed. -/
def twoWrites : List (Event UInt8) :=
  [.write2 [[1, 2], [3]] none true, .answer (.wrote 1), .io, .answer (.fails eintr),
    .answer (.wrote 2), .write2 [[4]] none true, .answer (.fails eagain), .callback, .returned,
      .close,
    .destroy, .callback, .returned]

theorem writes_conserved_partial : ∃ (s : Stream UInt8) (k : ℕ → ℕ),
    s.sent = [1, 2, 3] ∧ s.sent = prefixes k [[1, 2, 3], [4]] ∧ s.called = [(0, 0), (1, -125)] ∧
      s.called.length = 2 ∧ s.writeQueueSize = 0 := by
  have hsome : (twoWrites.foldlM step (fresh false)).isSome = true := by rfl
  obtain ⟨k, hsent, -, -, -, -, hdestroyed, -⟩ := writes_conserved
    (.of_foldlM (.init init_fresh) (Option.some_get hsome).symm)
  exact ⟨(twoWrites.foldlM step (fresh false)).get hsome, k, by rfl, hsent, by rfl,
    hdestroyed (by rfl) (by rfl)⟩

theorem write2_connecting (bufs : List (List α)) (hbufs : bufs ≠ [])
    (hsize : uvCountBufs bufs = 0) : ∃ s : Stream α, Step (fresh true) (.write2 bufs none true) s ∧
      s.writeQueue = [⟨0, some bufs, 0, 0, none⟩] ∧ s.writeQueueSize = 0 ∧ s.sent = [] := by
  have hstep : Step (fresh true) (.write2 bufs none true) { (fresh true : Stream α) with
      writeQueue := [⟨0, some bufs, 0, 0, none⟩]
      writeQueueSize := 0
      accepted := [bufs.flatten]
      handles := [none] } := by
    simp [Step, step, next, uvWrite2, fresh, Event.isAnswer, hbufs, hsize]
  exact ⟨_, hstep, rfl, rfl, rfl⟩

/-- `2 ^ 18` buffers of `2 ^ 46` bytes, that are the same: the sum is no `size_t`. -/
theorem writeQueueSize_wraps : ∃ s : Stream UInt8, Reachable Init Step s ∧
    s.sent = [] ∧ (s.writeQueue.map WriteReq.unwritten).sum = 2 ^ 64 ∧ s.writeQueueSize = 0 := by
  obtain ⟨m, hm⟩ : ∃ m, m = 2 ^ 18 := ⟨_, rfl⟩
  obtain ⟨n, hn⟩ : ∃ n, n = 2 ^ 46 := ⟨_, rfl⟩
  have hlen : (List.replicate m (List.replicate n (0 : UInt8))).flatten.length = 2 ^ 64 := by
    simp only [List.length_flatten, List.map_replicate, List.length_replicate,
      List.sum_replicate_nat, hm, hn]
    rfl
  obtain ⟨s, hstep, hqueue, hsize, hsent⟩ := write2_connecting
    (List.replicate m (List.replicate n (0 : UInt8)))
    (fun habs => by simp only [List.replicate_eq_nil_iff] at habs; omega)
    (by rw [uvCountBufs_eq, hlen]; decide)
  refine ⟨s, .step _ (.init init_fresh) hstep, hsent, ?_, hsize⟩
  rw [hqueue]
  simpa [WriteReq.unwritten, WriteReq.left] using hlen

end Stream

end LibuvWorks.Unix
