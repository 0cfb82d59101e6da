import LibuvWorks.Unix.Accept
import LibuvWorks.Unix.StreamWrites

/-!
# Writes that are not queued: `uv_try_write`

A request on the stack goes the way of `uv_write`, and what has become of it is undone.
-/
namespace LibuvWorks.Unix

open List Option

/-- A stream, whether its watcher waits for input, whether the handle is active, and the loop's
requests -/
structure TryStream (α : Type*) where
  stream : Stream α
  pollIn : Bool
  active : Bool
  activeReqs : List ℕ

def Answer.count : Answer → ℕ
  | .wrote n => n
  | .fails _ => 0

/-- The branch of `uv__write` that takes an error for the end of the request -/
def Answer.Fatal : Answer → Prop
  | .wrote _ => False
  | .fails errno => errno ≠ eintr ∧ errno ≠ eagain

instance : DecidablePred Answer.Fatal
  | .wrote _ => inferInstanceAs (Decidable False)
  | .fails _ => inferInstanceAs (Decidable (_ ∧ _))

namespace TryStream

variable {α : Type*} (w : TryStream α)

/-- `uv_write`, until it asks the kernel. `uv__req_init` comes before the memory is asked for. -/
def uvWrite (bufs : List (List α)) (allocated : Bool) : Option (TryStream α × ℤ) :=
  (w.stream.uvWrite2 bufs none allocated).map fun (stream, err) =>
    ({ w with
      stream
      activeReqs :=
        if w.stream.fd < 0 then w.activeReqs else w.activeReqs ++ [w.stream.accepted.length] }, err)

/-- `uv__write` when the kernel has answered -/
def answered (a : Answer) : Option (TryStream α) :=
  (w.stream.answered a).map fun stream =>
    { w with stream, active := if a.Fatal ∧ !w.pollIn then false else w.active }

/-- `uv__write` with the answers to all its calls -/
def written : List Answer → TryStream α → Option (TryStream α)
  | [], w => if w.stream.writing then none else some w
  | a :: answers, w =>
    if w.stream.writing then (w.answered a).bind (written answers) else none

/-- `QUEUE_REMOVE` of the request `id`, from the queue it is in -/
def unqueued (id : ℕ) : Stream α :=
  { w.stream with
    writeQueue := w.stream.writeQueue.filter (·.id ≠ id)
    writeCompletedQueue := w.stream.writeCompletedQueue.filter (·.id ≠ id) }

/-- `uv_try_write` when `uv_write` has returned 0 -/
def undone (id : ℕ) (bufs : List (List α)) (hasPollout : Bool) : Option (TryStream α × ℤ) :=
  ((w.stream.writeQueue ++ w.stream.writeCompletedQueue).find? (·.id = id)).bind fun req =>
    (if req.bufs.isSome then w.stream.uvWriteReqSize req else some 0).map fun reqSize =>
      let written := uvCountBufs bufs - reqSize
      ({ w with
        stream := { w.unqueued id with
          writeQueueSize := w.stream.writeQueueSize - reqSize
          pollOut := if hasPollout then w.stream.pollOut else false }
        activeReqs := w.activeReqs.erase id },
        -- An `int` is returned for the `size_t`.
        if written = 0 ∧ reqSize ≠ 0 then uvEagain else (written.setWidth 32).toInt)

/-- `uv_try_write`, with the answers of the kernel to all the calls it makes; `none` is an assertion
that fails, or answers that are not those of its calls. -/
def uvTryWrite (bufs : List (List α)) (allocated : Bool) (answers : List Answer) :
    Option (TryStream α × ℤ) :=
  if w.stream.connecting ∨ w.stream.writeQueueSize ≠ 0 then
    if answers = [] then some (w, uvEagain) else none
  else
    (w.uvWrite bufs allocated).bind fun (t, err) =>
      if err ≠ 0 then if answers = [] then some (t, err) else none
      else (written answers t).bind fun t => t.undone w.stream.accepted.length bufs w.stream.pollOut

/-- What the result says is what the kernel has done, and the stream is as it was. -/
structure Tries (w : TryStream α) (bufs : List (List α)) (answers : List Answer)
    (t : TryStream α) (result : ℤ) : Prop where
  accepted : 0 ≤ result → result.toNat ≤ bufs.flatten.length ∧
    t.stream.sent = w.stream.sent ++ bufs.flatten.take result.toNat
  refused : result < 0 → t.stream.sent = w.stream.sent
  again : result = uvEagain → .fails eagain ∈ answers
  returned : ∀ errno, .fails errno ∈ answers → errno ≠ eintr → errno ≠ eagain → result = -errno
  error : result < 0 → result ≠ uvEagain →
    answers = [] ∨ ∃ errno : ℕ, .fails errno ∈ answers ∧ result = -errno
  writeQueue : t.stream.writeQueue = w.stream.writeQueue
  writeCompletedQueue : t.stream.writeCompletedQueue = w.stream.writeCompletedQueue
  writeQueueSize : t.stream.writeQueueSize = w.stream.writeQueueSize
  activeReqs : t.activeReqs = w.activeReqs
  pollOut : t.stream.pollOut = w.stream.pollOut
  active : t.active = w.active

variable {w s t : TryStream α} {bufs : List (List α)} {answers : List Answer} {a : Answer} {n : ℕ}
  {allocated : Bool} {r : WriteReq α} {id : ℕ} {result : ℤ}

/-! ### One answer of the kernel -/

/-- The request is submitted, and the kernel has taken `n` bytes of it. -/
structure Trying (w : TryStream α) (bufs : List (List α)) (n : ℕ) (s : TryStream α) : Prop where
  request : ∃ r : WriteReq α, s.stream.writeQueue = [r] ∧ r.id = w.stream.accepted.length ∧
    r.bufs ≠ none ∧ r.left.flatten = bufs.flatten.drop n
  le : n ≤ bufs.flatten.length
  size : s.stream.writeQueueSize = BitVec.ofNat 64 (bufs.flatten.length - n)
  sent : s.stream.sent = w.stream.sent ++ bufs.flatten.take n
  completed : s.stream.writeCompletedQueue = w.stream.writeCompletedQueue
  activeReqs : s.activeReqs = w.activeReqs ++ [w.stream.accepted.length]
  pollOut : s.stream.pollOut = w.stream.pollOut
  active : s.active = w.active
  pollIn : s.pollIn = w.pollIn
  blocking : s.stream.blocking = w.stream.blocking

/-- `uv__write` has returned, when the kernel has taken `n` bytes. -/
structure Tried (w : TryStream α) (bufs : List (List α)) (n : ℕ) (t : TryStream α) : Prop where
  request : ∃ r : WriteReq α, r.id = w.stream.accepted.length ∧
    (t.stream.writeQueue = [r] ∧
        t.stream.writeCompletedQueue = w.stream.writeCompletedQueue ∨
      t.stream.writeQueue = [] ∧
        t.stream.writeCompletedQueue = w.stream.writeCompletedQueue ++ [r]) ∧
    (r.bufs = none ∧ n = bufs.flatten.length ∨
      r.bufs ≠ none ∧ r.left.flatten = bufs.flatten.drop n)
  le : n ≤ bufs.flatten.length
  size : t.stream.writeQueueSize = BitVec.ofNat 64 (bufs.flatten.length - n)
  sent : t.stream.sent = w.stream.sent ++ bufs.flatten.take n
  activeReqs : t.activeReqs = w.activeReqs ++ [w.stream.accepted.length]

/-- After an answer that is not taken for an error, the handle is as active as it was, `POLLOUT` is
not stopped, and bytes are left only if the kernel takes no more of them now. -/
structure Calm (w : TryStream α) (bufs : List (List α)) (n : ℕ) (t : TryStream α) : Prop where
  active : t.active = w.active
  pollOut : t.stream.pollOut = w.stream.pollOut ∨ t.stream.pollOut = true
  short : n < bufs.flatten.length → w.stream.blocking = false

theorem uvWrite_queued {s t : Stream α} {rest : List (WriteReq α)}
    (hqueue : s.writeQueue = r :: rest) (h : s.uvWrite = some t) :
    t = { s with writing := true } := by
  unfold Stream.uvWrite at h
  rw [hqueue] at h
  simp only [ite_none_left_eq_some] at h
  obtain ⟨-, -, h⟩ := h
  cases h
  rw [← hqueue]

theorem ofNat_sub {a b : ℕ} (hab : b ≤ a) :
    BitVec.ofNat 64 a - BitVec.ofNat 64 b = BitVec.ofNat 64 (a - b) := by
  have hadd : BitVec.ofNat 64 a = BitVec.ofNat 64 (a - b) + BitVec.ofNat 64 b := by
    rw [← BitVec.ofNat_add, Nat.sub_add_cancel hab]
  rw [hadd, BitVec.add_sub_cancel]

theorem Trying.tried (h : Trying w bufs n s) : Tried w bufs n s := by
  obtain ⟨r, hqueue, hid, hbufs, hleft⟩ := h.request
  exact { h with request := ⟨r, hid, .inl ⟨hqueue, h.completed⟩, .inr ⟨hbufs, hleft⟩⟩ }

theorem Trying.fails {errno : ℕ} (h : Trying w bufs n s) (hwriting : s.stream.writing = true)
    (hanswered : s.answered (.fails errno) = some t) : errno ≠ 0 ∧
    (t.stream.writing = true ∧ Trying w bufs n t ∧ ¬(Answer.fails errno).Fatal ∧
        (errno = eintr ∨ w.stream.blocking = true) ∨
      t.stream.writing = false ∧ Tried w bufs n t ∧ errno ≠ eintr ∧
        (¬(Answer.fails errno).Fatal → Calm w bufs n t)) := by
  obtain ⟨r, hqueue, hid, hbufs, hleft⟩ := h.request
  obtain ⟨u, hu, rfl⟩ := map_eq_some_iff.mp hanswered
  unfold Stream.answered at hu
  dsimp only at hu
  split_ifs at hu with hzero hintr hagain hblocking
  · cases hu
    have hcalm : ¬(Answer.fails errno).Fatal := fun hfatal => hfatal.1 hintr
    refine ⟨hzero, .inl ⟨hwriting, { h with active := ?_ }, hcalm, .inl hintr⟩⟩
    exact (if_neg fun hfatal => hcalm hfatal.1).trans h.active
  · obtain ⟨v, hv, rfl⟩ := map_eq_some_iff.mp hu
    rw [hqueue, List.head?_cons, Option.some.injEq] at hv
    subst hv
    have herror : ¬(-(errno : ℤ) = 0) := by omega
    refine ⟨hzero, .inr ⟨rfl, { h with
      request := ⟨{ r with error := -(errno : ℤ) }, hid, .inr ⟨?_, ?_⟩, .inr ⟨hbufs, hleft⟩⟩ }, hintr,
      fun hcalm => (hcalm ⟨hintr, hagain⟩).elim⟩⟩
    · dsimp only [Stream.uvWriteReqFinish]
      rw [hqueue, tail_cons]
    · dsimp only [Stream.uvWriteReqFinish]
      rw [if_neg herror, h.completed]
  · have hcalm : ¬(Answer.fails errno).Fatal := fun hfatal => hfatal.2 (by omega)
    obtain rfl := uvWrite_queued hqueue hu
    refine ⟨hzero, .inl ⟨rfl, { h with active := ?_ }, hcalm, .inr (h.blocking ▸ hblocking)⟩⟩
    exact (if_neg fun hfatal => hcalm hfatal.1).trans h.active
  · have hcalm : ¬(Answer.fails errno).Fatal := fun hfatal => hfatal.2 (by omega)
    cases hu
    have hunblocked : w.stream.blocking = false := h.blocking ▸ Bool.eq_false_iff.mpr hblocking
    refine ⟨hzero, .inr ⟨rfl, { h.tried with }, hintr, fun _ => ⟨?_, .inr rfl,
      fun _ => hunblocked⟩⟩⟩
    exact (if_neg fun hfatal => hcalm hfatal.1).trans h.active

theorem Trying.wrote {k : ℕ} (h : Trying w bufs n s)
    (hanswered : s.answered (.wrote k) = some t) :
    t.stream.writing = true ∧ Trying w bufs (n + k) t ∧ w.stream.blocking = true ∨
      t.stream.writing = false ∧ Tried w bufs (n + k) t ∧ Calm w bufs (n + k) t := by
  obtain ⟨r, hqueue, hid, hbufs, hleft⟩ := h.request
  obtain ⟨u, hu, rfl⟩ := map_eq_some_iff.mp hanswered
  unfold Stream.answered at hu
  dsimp only at hu
  rw [hqueue, List.head?_cons, bind_some, ite_none_left_eq_some] at hu
  obtain ⟨hk, hu⟩ := hu
  obtain ⟨⟨r', size, finished⟩, hloop, hu⟩ := bind_eq_some_iff.mp hu
  obtain ⟨hle, htake⟩ := Stream.take_flatten_take (Nat.le_of_not_lt hk)
  obtain ⟨hwrote, rfl, hfinished⟩ := Stream.writeLoop_spec hbufs rfl hle hloop
  rw [hleft, length_drop] at hle
  have hsum : n + k ≤ bufs.flatten.length := by
    have := h.le
    omega
  have hrest : r'.left.flatten = bufs.flatten.drop (n + k) := by
    rw [hwrote.left, hleft, drop_drop]
  have hsize : s.stream.writeQueueSize - BitVec.ofNat 64 k =
      BitVec.ofNat 64 (bufs.flatten.length - (n + k)) := by
    rw [h.size, ofNat_sub hle, Nat.sub_sub]
  have hsent : s.stream.sent ++ (r.left.take s.stream.iovmax).flatten.take k =
      w.stream.sent ++ bufs.flatten.take (n + k) := by
    rw [htake, hleft, h.sent, append_assoc, ← take_add]
  have hactive : (if (Answer.wrote k).Fatal ∧ (!s.pollIn) = true then false else s.active) =
      w.active := (if_neg fun hfatal => hfatal.1).trans h.active
  dsimp only [tail_cons] at hu
  split_ifs at hu with hdone hblocking
  · -- The last buffer is written.
    cases hu
    have hwhole : n + k = bufs.flatten.length := by
      have hnil : bufs.flatten.drop (n + k) = [] := by rw [← hrest, hfinished hdone]; rfl
      exact hsum.antisymm (drop_eq_nil_iff.mp hnil)
    refine .inr ⟨rfl, ⟨⟨if r'.error = 0 then { r' with bufs := none } else r', ?_, .inr ⟨rfl, ?_⟩,
      ?_⟩, hsum, hsize, hsent, h.activeReqs⟩, hactive, .inl h.pollOut, fun hlt => ?_⟩
    · rw [← hid, ← hwrote.id]
      split_ifs <;> rfl
    · dsimp only [Stream.uvWriteReqFinish]
      rw [h.completed]
    · split_ifs
      · exact .inl ⟨rfl, hwhole⟩
      · exact .inr ⟨hwrote.bufs, hrest⟩
    · omega
  · obtain rfl := uvWrite_queued rfl hu
    exact .inl ⟨rfl, ⟨⟨r', rfl, hwrote.id.trans hid, hwrote.bufs, hrest⟩, hsum, hsize, hsent,
      h.completed, h.activeReqs, h.pollOut, hactive, h.pollIn, h.blocking⟩,
      h.blocking ▸ hblocking⟩
  · cases hu
    exact .inr ⟨rfl, ⟨⟨r', hwrote.id.trans hid, .inl ⟨rfl, h.completed⟩, .inr ⟨hwrote.bufs, hrest⟩⟩,
      hsum, hsize, hsent, h.activeReqs⟩, hactive, .inr rfl,
      fun _ => h.blocking ▸ Bool.eq_false_iff.mpr hblocking⟩

theorem Trying.answered (h : Trying w bufs n s) (hwriting : s.stream.writing = true)
    (hanswered : s.answered a = some t) : a ≠ .fails 0 ∧
    (t.stream.writing = true ∧ Trying w bufs (n + a.count) t ∧ ¬a.Fatal ∧
        (a = .fails eintr ∨ w.stream.blocking = true) ∨
      t.stream.writing = false ∧ Tried w bufs (n + a.count) t ∧ a ≠ .fails eintr ∧
        (¬a.Fatal → Calm w bufs (n + a.count) t)) := by
  cases a with
  | wrote k =>
    obtain ⟨hgoes, htrying, hblocking⟩ | ⟨hends, htried, hcalm⟩ := h.wrote hanswered
    · exact ⟨nofun, .inl ⟨hgoes, htrying, id, .inr hblocking⟩⟩
    · exact ⟨nofun, .inr ⟨hends, htried, nofun, fun _ => hcalm⟩⟩
  | fails errno =>
    obtain ⟨hzero, ⟨hgoes, htrying, hfatal, hwhy⟩ | ⟨hends, htried, hintr, hcalm⟩⟩ :=
      h.fails hwriting hanswered
    · exact ⟨by simpa using hzero, .inl ⟨hgoes, htrying, hfatal, by simpa using hwhy⟩⟩
    · exact ⟨by simpa using hzero, .inr ⟨hends, htried, by simpa using hintr, hcalm⟩⟩

/-! ### All of them -/

/-- What is left after all answers. A stream that does not block gets one answer, beside those that
are interruptions. -/
structure Ran (w : TryStream α) (bufs : List (List α)) (answers : List Answer) (n : ℕ)
    (t : TryStream α) : Prop where
  tried : Tried w bufs n t
  nonzero : .fails 0 ∉ answers
  calm : (∀ a ∈ answers, ¬a.Fatal) → Calm w bufs n t
  single : w.stream.blocking = false →
    ∃ a ∈ answers, a ≠ .fails eintr ∧ ∀ b ∈ answers, b = .fails eintr ∨ b = a

theorem written_done (hwriting : s.stream.writing = false) (h : written answers s = some t) :
    answers = [] ∧ s = t := by
  cases answers with
  | nil =>
    rw [written, hwriting, if_neg Bool.false_ne_true] at h
    exact ⟨rfl, Option.some.inj h⟩
  | cons a answers =>
    rw [written, hwriting, if_neg Bool.false_ne_true] at h
    cases h

theorem Trying.written (h : Trying w bufs n s) (hwriting : s.stream.writing = true)
    (hwritten : written answers s = some t) :
    Ran w bufs answers (n + (answers.map Answer.count).sum) t := by
  induction answers generalizing n s with
  | nil =>
    rw [TryStream.written, hwriting, if_pos rfl] at hwritten
    cases hwritten
  | cons a answers ih =>
    rw [TryStream.written, hwriting, if_pos rfl] at hwritten
    obtain ⟨u, hu, hrest⟩ := bind_eq_some_iff.mp hwritten
    rw [map_cons, sum_cons, ← Nat.add_assoc]
    obtain ⟨hzero, ⟨hgoes, htrying, hfatal, hwhy⟩ | ⟨hends, htried, hintr, hcalm⟩⟩ :=
      h.answered hwriting hu
    · have hran := ih htrying hgoes hrest
      refine ⟨hran.tried, ?_, fun hall => hran.calm fun b hb => hall b (.tail a hb), ?_⟩
      · rw [mem_cons]
        rintro (hhead | htail)
        · exact hzero hhead.symm
        · exact hran.nonzero htail
      · intro hblocking
        obtain ⟨b, hb, hne, hall⟩ := hran.single hblocking
        have ha : a = .fails eintr := hwhy.resolve_right (by simp [hblocking])
        refine ⟨b, .tail a hb, hne, fun c hc => ?_⟩
        obtain rfl | hc := mem_cons.mp hc
        · exact .inl ha
        · exact hall c hc
    · obtain ⟨rfl, rfl⟩ := written_done hends hrest
      refine ⟨htried, by simpa using hzero.symm, fun hall => hcalm (hall a (.head _)), fun _ =>
        ⟨a, .head _, hintr, fun b hb => .inr (mem_singleton.mp hb)⟩⟩

/-! ### What is undone -/

/-- What `uv_try_write` returns when the kernel has taken `n` bytes -/
def tryResult (bufs : List (List α)) (n : ℕ) : ℤ :=
  if BitVec.ofNat 64 n = 0 ∧ BitVec.ofNat 64 (bufs.flatten.length - n) ≠ 0 then uvEagain
  else ((BitVec.ofNat 64 n).setWidth 32).toInt

theorem filter_id {l : List (WriteReq α)} (h : ∀ r ∈ l, r.id ≠ id) : l.filter (·.id ≠ id) = l := by
  simpa using h

theorem filter_id_self (h : r.id = id) : [r].filter (·.id ≠ id) = [] := by
  simp [h]

theorem find_id {l l' : List (WriteReq α)} (h : ∀ r ∈ l, r.id ≠ id)
    (hr : r.id = id) : (l ++ r :: l').find? (·.id = id) = some r := by
  rw [List.find?_append, List.find?_eq_none.mpr (by simpa using h), none_or,
    List.find?_cons_of_pos (by simpa using hr)]

theorem Tried.undone (h : Tried w bufs n s) {hasPollout : Bool}
    (hnew : ∀ r ∈ w.stream.writeCompletedQueue, r.id ≠ w.stream.accepted.length)
    (hreq : w.stream.accepted.length ∉ w.activeReqs)
    (hundone : s.undone w.stream.accepted.length bufs hasPollout = some (t, result)) :
    result = tryResult bufs n ∧ t.stream.sent = s.stream.sent ∧ t.stream.writeQueue = [] ∧
      t.stream.writeCompletedQueue = w.stream.writeCompletedQueue ∧
      t.stream.writeQueueSize = 0 ∧ t.activeReqs = w.activeReqs ∧ t.active = s.active ∧
      t.stream.pollOut = (hasPollout && s.stream.pollOut) := by
  obtain ⟨r, hid, hqueues, hbufs⟩ := h.request
  have hfind : (s.stream.writeQueue ++ s.stream.writeCompletedQueue).find?
      (·.id = w.stream.accepted.length) = some r := by
    obtain ⟨hqueue, hcompleted⟩ | ⟨hqueue, hcompleted⟩ := hqueues
    · rw [hqueue]
      exact find_id (l := []) (by simp) hid
    · rw [hqueue, hcompleted]
      exact find_id hnew hid
  have hempty : s.stream.writeQueue.filter (·.id ≠ w.stream.accepted.length) = [] := by
    obtain ⟨hqueue, -⟩ | ⟨hqueue, -⟩ := hqueues
    · rw [hqueue, filter_id_self hid]
    · rw [hqueue]
      rfl
  have hkept : s.stream.writeCompletedQueue.filter (·.id ≠ w.stream.accepted.length) =
      w.stream.writeCompletedQueue := by
    obtain ⟨-, hcompleted⟩ | ⟨-, hcompleted⟩ := hqueues
    · rw [hcompleted, filter_id hnew]
    · rw [hcompleted, filter_append, filter_id hnew, filter_id_self hid, append_nil]
  have hsize : (if r.bufs.isSome then s.stream.uvWriteReqSize r else some 0) =
      some (BitVec.ofNat 64 (bufs.flatten.length - n)) := by
    obtain ⟨hnone, hwhole⟩ | ⟨hsome, hleft⟩ := hbufs
    · rw [hnone, hwhole, Nat.sub_self]
      rfl
    · obtain ⟨bs, hbs⟩ := ne_none_iff_exists'.mp hsome
      have hcount : uvCountBufs r.left = BitVec.ofNat 64 (bufs.flatten.length - n) := by
        rw [Stream.uvCountBufs_eq, hleft, length_drop]
      have hasked : ¬(r.bufs.isNone = true ∨ s.stream.writeQueueSize < uvCountBufs r.left) := by
        rw [hbs, hcount, h.size]
        simp
      rw [if_pos (by rw [hbs]; rfl), Stream.uvWriteReqSize, if_neg hasked, hcount]
  have hwritten : uvCountBufs bufs - BitVec.ofNat 64 (bufs.flatten.length - n) =
      BitVec.ofNat 64 n := by
    rw [Stream.uvCountBufs_eq, ofNat_sub (Nat.sub_le _ _), Nat.sub_sub_self h.le]
  rw [TryStream.undone, hfind, bind_some, hsize, map_some, Option.some.injEq,
    hwritten] at hundone
  obtain ⟨rfl, rfl⟩ := Prod.mk.injEq .. ▸ hundone
  refine ⟨rfl, rfl, hempty, hkept, ?_, ?_, rfl, ?_⟩
  · exact (congrArg (· - _) h.size).trans (BitVec.sub_self _)
  · dsimp only
    rw [h.activeReqs, erase_append_right _ hreq]
    simp
  · dsimp only
    cases hasPollout <;> rfl

theorem uvWrite_cases {err : ℤ} (hconnecting : w.stream.connecting = false)
    (hqueue : w.stream.writeQueue = []) (hsize : w.stream.writeQueueSize = 0)
    (h : w.uvWrite bufs allocated = some (t, err)) :
    w.stream.fd < 0 ∧ err = uvEbadf ∧ t = w ∨
      ¬w.stream.fd < 0 ∧ ¬(bufs.length ≤ 4 ∨ allocated = true) ∧ err = uvEnomem ∧
        t.activeReqs = w.activeReqs ++ [w.stream.accepted.length] ∨
      ¬w.stream.fd < 0 ∧ (bufs.length ≤ 4 ∨ allocated = true) ∧ err = 0 ∧
        t.stream.writing = true ∧ Trying w bufs 0 t := by
  obtain ⟨⟨stream, _⟩, hwrite, heq⟩ := map_eq_some_iff.mp h
  cases heq
  unfold Stream.uvWrite2 at hwrite
  rw [hconnecting, hsize] at hwrite
  simp only [isSome_none, Bool.false_eq_true, false_and, if_false, map_none,
    any_none, if_true] at hwrite
  split_ifs at hwrite with hnull hfd halloc
  · cases hwrite
    refine .inl ⟨hfd, rfl, ?_⟩
    rw [if_pos hfd]
  · cases hwrite
    refine .inr (.inl ⟨hfd, ?_, rfl, if_neg hfd⟩)
    simp only [Bool.not_eq_true'] at halloc
    simp only [halloc.2, Bool.false_eq_true, or_false]
    omega
  · obtain ⟨u, hu, heq⟩ := map_eq_some_iff.mp hwrite
    cases heq
    rw [hqueue, nil_append] at hu
    obtain rfl := uvWrite_queued rfl hu
    refine .inr (.inr ⟨hfd, ?_, rfl, rfl, ?_⟩)
    · rw [Bool.not_eq_true', ← Bool.not_eq_true] at halloc
      by_contra habs
      exact halloc ⟨by omega, fun h => habs (.inr h)⟩
    · refine ⟨⟨_, rfl, rfl, some_ne_none _, rfl⟩, Nat.zero_le _, ?_, ?_, rfl, if_neg hfd,
        rfl, rfl, rfl, rfl⟩
      · exact (BitVec.zero_add _).trans (Stream.uvCountBufs_eq bufs)
      · simp

theorem tryResult_lt (bufs : List (List α)) (n : ℕ) : tryResult bufs n < 2 ^ 31 := by
  unfold tryResult
  split_ifs
  · decide
  · have := BitVec.toInt_lt (x := (BitVec.ofNat 64 n).setWidth 32)
    omega

theorem tryResult_of_lt (hn : n < 2 ^ 31) : tryResult bufs n = n ∨
    n = 0 ∧ uvCountBufs bufs ≠ 0 ∧ tryResult bufs n = uvEagain := by
  unfold tryResult
  split_ifs with hagain
  · have hzero : n = 0 := by
      have hmod := congrArg BitVec.toNat hagain.1
      rw [BitVec.toNat_ofNat, Nat.mod_eq_of_lt (by omega)] at hmod
      exact hmod
    refine .inr ⟨hzero, ?_, rfl⟩
    have hrest := hagain.2
    rw [hzero, Nat.sub_zero] at hrest
    rwa [Stream.uvCountBufs_eq]
  · left
    rw [BitVec.toInt_eq_toNat_cond, BitVec.toNat_setWidth, BitVec.toNat_ofNat,
      Nat.mod_mod_of_dvd _ (by decide), Nat.mod_eq_of_lt (by omega), if_pos (by omega)]

/-! ### The result and what is left of the stream -/

/-- When the result is right and the stream as it was: nothing waits for its callback, the array of
more than four buffers gets its memory, the kernel fails with nothing but `EINTR` and `EAGAIN`, it
takes no more than an `int` holds, and it does not answer 0 for bytes that it could have taken. -/
structure Undoable (w : TryStream α) (bufs : List (List α)) (allocated : Bool)
    (answers : List Answer) : Prop where
  empty : w.stream.writeQueueSize = 0
  memory : w.stream.fd < 0 ∨ bufs.length ≤ 4 ∨ allocated = true
  calm : ∀ a ∈ answers, ¬a.Fatal
  count : (answers.map Answer.count).sum < 2 ^ 31
  nonzero : .wrote 0 ∈ answers → w.stream.blocking = true ∨ uvCountBufs bufs = 0

theorem Tries.count (h : Tries w bufs answers t result)
    (hsent : t.stream.sent = w.stream.sent ++ bufs.flatten.take n) (hn : n ≤ bufs.flatten.length) :
    (result < 0 ∧ n = 0) ∨ result = n := by
  by_cases hneg : result < 0
  · have hnil := h.refused hneg
    rw [hsent, append_right_eq_self] at hnil
    have hlength := congrArg List.length hnil
    rw [length_take, length_nil] at hlength
    exact .inl ⟨hneg, by omega⟩
  · obtain ⟨hle, htaken⟩ := h.accepted (Int.not_lt.mp hneg)
    rw [hsent, append_cancel_left_eq] at htaken
    have hlength := congrArg List.length htaken
    rw [length_take, length_take] at hlength
    exact .inr (by omega)

theorem Ran.tries (hran : Ran w bufs answers n s)
    (hcount : n = (answers.map Answer.count).sum) (h : Undoable w bufs allocated answers)
    (hqueue : w.stream.writeQueue = []) (hresult : result = tryResult bufs n)
    (hsent : t.stream.sent = s.stream.sent) (hempty : t.stream.writeQueue = [])
    (hcompleted : t.stream.writeCompletedQueue = w.stream.writeCompletedQueue)
    (hsize : t.stream.writeQueueSize = 0) (hreqs : t.activeReqs = w.activeReqs)
    (hactive : t.active = s.active)
    (hpoll : t.stream.pollOut = (w.stream.pollOut && s.stream.pollOut)) :
    Tries w bufs answers t result := by
  have hcalm := hran.calm h.calm
  have hlt : n < 2 ^ 31 := hcount ▸ h.count
  have htaken := hsent.trans hran.tried.sent
  have hend : tryResult bufs n = n ∨
      n = 0 ∧ uvCountBufs bufs ≠ 0 ∧ tryResult bufs n = uvEagain := tryResult_of_lt hlt
  have hkept : t.stream.pollOut = w.stream.pollOut := by
    rw [hpoll]
    obtain hsame | htrue := hcalm.pollOut
    · rw [hsame, Bool.and_self]
    · rw [htrue, Bool.and_true]
  rw [← hresult] at hend
  refine ⟨fun hnonneg => ?_, fun hneg => ?_, fun hagain => ?_, fun errno hmem hintr hagain => ?_,
    fun hneg hagain => ?_, hempty.trans hqueue.symm, hcompleted, hsize.trans h.empty.symm, hreqs,
    hkept, hactive.trans hcalm.active⟩
  · obtain rfl | ⟨-, -, rfl⟩ := hend
    · exact ⟨hran.tried.le, htaken⟩
    · exact absurd hnonneg (by decide)
  · obtain rfl | ⟨rfl, -, -⟩ := hend
    · omega
    · rw [htaken, take_zero, append_nil]
  · obtain rfl | ⟨rfl, hrest, -⟩ := hend
    · exact absurd hagain (by simp only [uvEagain]; omega)
    · -- Bytes are left, so the stream does not block and has been answered once.
      have hshort : 0 < bufs.flatten.length := by
        by_contra hnone
        rw [Stream.uvCountBufs_eq, Nat.eq_zero_of_not_pos hnone] at hrest
        exact hrest rfl
      have hblocking := hcalm.short hshort
      obtain ⟨a, hmem, hne, -⟩ := hran.single hblocking
      cases a with
      | wrote k =>
        obtain rfl : k = 0 := List.sum_eq_zero_iff_forall_eq_nat.mp hcount.symm _
          (mem_map_of_mem (f := Answer.count) hmem)
        obtain habs | habs := h.nonzero hmem
        · simp [hblocking] at habs
        · exact absurd habs hrest
      | fails errno =>
        have hfatal := h.calm _ hmem
        have herrno : errno = eagain := by
          by_contra hother
          exact hfatal ⟨fun heq => hne (by rw [heq]), hother⟩
        exact herrno ▸ hmem
  · exact absurd ⟨hintr, hagain⟩ (h.calm _ hmem)
  · obtain rfl | ⟨-, -, rfl⟩ := hend
    · omega
    · exact absurd rfl hagain

theorem Ran.undoable (hran : Ran w bufs answers n s)
    (hcount : n = (answers.map Answer.count).sum) (hempty : w.stream.writeQueueSize = 0)
    (hmemory : bufs.length ≤ 4 ∨ allocated = true) (hresult : result = tryResult bufs n)
    (hsent : t.stream.sent = s.stream.sent) (h : Tries w bufs answers t result) :
    Undoable w bufs allocated answers := by
  have htaken := h.count (hsent.trans hran.tried.sent) hran.tried.le
  have hbound := hresult ▸ tryResult_lt bufs n
  have hlt : n < 2 ^ 31 := by
    obtain ⟨-, rfl⟩ | rfl := htaken
    · decide
    · omega
  refine ⟨hempty, .inr hmemory, fun a hmem hfatal => ?_, hcount ▸ hlt, fun hmem => ?_⟩
  · cases a with
    | wrote k => exact hfatal
    | fails errno =>
      have herror := h.returned errno hmem hfatal.1 hfatal.2
      have hzero : errno ≠ 0 := by
        rintro rfl
        exact hran.nonzero hmem
      have hend : tryResult bufs n = n ∨
          n = 0 ∧ uvCountBufs bufs ≠ 0 ∧ tryResult bufs n = uvEagain := tryResult_of_lt hlt
      obtain heq | ⟨-, -, heq⟩ := hend
      · omega
      · have hagain : errno = eagain := by
          rw [← hresult, herror] at heq
          simp only [uvEagain] at heq
          exact (by omega : errno = 11)
        exact hfatal.2 hagain
  · by_contra habs
    rw [not_or, Bool.not_eq_true] at habs
    obtain ⟨a, -, hne, hall⟩ := hran.single habs.1
    have hwrote : a = .wrote 0 := by
      obtain heq | heq := hall _ hmem
      · cases heq
      · exact heq.symm
    have hnone : n = 0 := by
      rw [hcount, List.sum_eq_zero_iff_forall_eq_nat]
      intro k hk
      obtain ⟨b, hb, rfl⟩ := mem_map.mp hk
      obtain rfl | rfl := hall b hb
      · rfl
      · rw [hwrote]
        rfl
    have hagain : result = uvEagain := by
      rw [hresult, hnone, tryResult, Nat.sub_zero, ← Stream.uvCountBufs_eq, if_pos ⟨rfl, habs.2⟩]
    obtain heq | heq := hall _ (h.again hagain)
    · exact absurd heq (by decide)
    · rw [hwrote] at heq
      cases heq

theorem uvTryWrite_iff {result : ℤ} (hconnecting : w.stream.connecting = false)
    (hqueue : w.stream.writeQueue = [])
    (hnew : ∀ r ∈ w.stream.writeCompletedQueue, r.id ≠ w.stream.accepted.length)
    (hreq : w.stream.accepted.length ∉ w.activeReqs)
    (h : w.uvTryWrite bufs allocated answers = some (t, result)) :
    Tries w bufs answers t result ↔ Undoable w bufs allocated answers := by
  unfold uvTryWrite at h
  rw [hconnecting] at h
  simp only [Bool.false_eq_true, false_or] at h
  by_cases hempty : w.stream.writeQueueSize = 0
  · rw [if_neg (not_not_intro hempty)] at h
    obtain ⟨⟨u, err⟩, hwrite, h⟩ := Option.bind_eq_some_iff.mp h
    obtain ⟨hfd, rfl, rfl⟩ | ⟨hfd, hmemory, rfl, hreqs⟩ | ⟨hfd, hmemory, rfl, hwriting, htrying⟩ :=
      uvWrite_cases hconnecting hqueue hempty hwrite
    · -- The descriptor is closed.
      obtain ⟨rfl, heq⟩ := by
        simpa only [if_pos (by decide : uvEbadf ≠ 0), Option.ite_none_right_eq_some] using h
      cases heq
      refine iff_of_true ?_ ⟨hempty, .inl hfd, by simp, by simp, by simp⟩
      exact ⟨fun habs => absurd habs (by decide), fun _ => rfl, fun habs => absurd habs (by decide),
        by simp, fun _ _ => .inl rfl, rfl, rfl, rfl, rfl, rfl, rfl⟩
    · -- The request is registered when there is no memory for it.
      obtain ⟨rfl, heq⟩ := by
        simpa only [if_pos (by decide : uvEnomem ≠ 0), Option.ite_none_right_eq_some] using h
      cases heq
      refine iff_of_false (fun htries => ?_) fun habs => hmemory (habs.memory.resolve_left hfd)
      have hsame := htries.activeReqs
      rw [hreqs, List.append_right_eq_self] at hsame
      cases hsame
    · rw [if_neg (by decide : ¬(0 : ℤ) ≠ 0)] at h
      obtain ⟨v, hwritten, hundone⟩ := Option.bind_eq_some_iff.mp h
      have hran := htrying.written hwriting hwritten
      rw [Nat.zero_add] at hran
      obtain ⟨hresult, hsent, hnone, hcompleted, hsize, hreqs, hactive, hpoll⟩ :=
        hran.tried.undone hnew hreq hundone
      exact ⟨hran.undoable rfl hempty hmemory hresult hsent, fun hright =>
        hran.tries rfl hright hqueue hresult hsent hnone hcompleted hsize hreqs hactive hpoll⟩
  · obtain ⟨rfl, heq⟩ := by
      simpa only [if_pos hempty, Option.ite_none_right_eq_some] using h
    cases heq
    refine iff_of_false (fun htries => ?_) fun hright => hempty hright.empty
    simpa using htries.again rfl

def idle : TryStream UInt8 := ⟨Stream.fresh false, true, true, []⟩

/-- After an interruption two of three bytes are taken. -/
theorem uvTryWrite_partial : ∃ t result,
    idle.uvTryWrite [[1], [2, 3]] false [.fails eintr, .wrote 2] = some (t, result) ∧
      Tries idle [[1], [2, 3]] [.fails eintr, .wrote 2] t result :=
  ⟨_, _, rfl, (uvTryWrite_iff rfl rfl (by decide) (by decide) rfl).mpr
    (show Undoable idle _ false _ from
      ⟨rfl, .inr (.inl (by decide)), by decide, by decide, by decide⟩)⟩

/-- The kernel fails with `EPIPE` (32), and the result is `UV_EAGAIN`. -/
theorem not_tries : ∃ t, idle.uvTryWrite [[1]] false [.fails 32] = some (t, uvEagain) ∧
    ¬Tries idle [[1]] [.fails 32] t uvEagain := by
  refine ⟨_, rfl, fun h => ?_⟩
  exact absurd (h.again rfl) (by decide)

end TryStream

end LibuvWorks.Unix
