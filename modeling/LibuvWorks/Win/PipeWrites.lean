import LibuvWorks.Lib.TailQueue
import LibuvWorks.Lib.Transition
import Mathlib.Algebra.BigOperators.Group.List.Basic
import Mathlib.Algebra.GroupWithZero.Nat

/-!
# Writes on a non-overlapped Windows pipe

The writes of a non-overlapped pipe are made by the thread pool, one after the other. A request is
queued behind the others; `uv_pipe_write_impl` starts it if no request is pending, and
`uv_process_pipe_write_req` starts the next one.
-/
namespace LibuvWorks.Win

open Transition List Option Function

/-- `uv_write_t`; an error of `0` is success. -/
structure PipeWriteReq (β : Type*) where
  writeBuffer : List β
  queuedBytes : ℕ
  error : ℕ

/-- A non-overlapped pipe with non-blocking writes. `threads` are the requests for which
`uv_pipe_writefile_thread_proc` is in flight, `completed` those whose completion has been posted,
and `callback` is the one whose callback runs. The last three fields record the writes that were
submitted and made and the callbacks that were called. -/
structure PipeWriter (ρ β : Type*) where
  writes : TailQueue ρ
  req : ρ → PipeWriteReq β
  writeReqsPending : ℕ
  writeQueueSize : ℕ
  reqsPending : ℕ
  threads : List ρ
  completed : List ρ
  callback : Option ρ
  submitted : List (ρ × List β)
  written : List (ρ × List β)
  called : List (ρ × ℕ)

namespace PipeWriter

variable {ρ β : Type*} [DecidableEq ρ] {s t : PipeWriter ρ β} {xs : List ρ} {r : ρ}
  {buf : List β}

/-! ### The code -/

/-- `uv_queue_non_overlapped_write`; none if a null pointer is followed. -/
def uvQueueNonOverlappedWrite (s : PipeWriter ρ β) : Option (PipeWriter ρ β) :=
  s.writes.remove.map fun (writes, r) =>
    { s with writes, threads := s.threads ++ r.toList }

/-- The branch of `uv_pipe_write_impl` for a non-overlapped pipe. -/
def uvPipeWriteImpl (s : PipeWriter ρ β) (r : ρ) (buf : List β) : Option (PipeWriter ρ β) :=
  let s := { s with
    req := Function.update s.req r ⟨buf, buf.length, 0⟩
    writes := s.writes.insert r }
  (if s.writeReqsPending = 0 then s.uvQueueNonOverlappedWrite else some s).map fun s =>
    { s with
      writeQueueSize := s.writeQueueSize + buf.length
      reqsPending := s.reqsPending + 1
      writeReqsPending := s.writeReqsPending + 1
      submitted := s.submitted ++ [(r, buf)] }

def uvPipeWritefileThreadProc (s : PipeWriter ρ β) (r : ρ) (error : ℕ) : PipeWriter ρ β :=
  { s with
    req := Function.update s.req r { s.req r with error }
    threads := s.threads.erase r
    completed := s.completed ++ [r]
    written := s.written ++ [(r, (s.req r).writeBuffer)] }

/-- `uv_process_pipe_write_req`, until the callback; none if the assertion fails. -/
def uvProcessPipeWriteReq (s : PipeWriter ρ β) (r : ρ) : Option (PipeWriter ρ β) :=
  if s.writeQueueSize < (s.req r).queuedBytes then none
  else
    some { s with
      writeQueueSize := s.writeQueueSize - (s.req r).queuedBytes
      completed := s.completed.erase r
      callback := some r
      called := s.called ++ [(r, (s.req r).error)] }

/-- The rest of `uv_process_pipe_write_req`; none if an assertion fails. -/
def callbackReturned (s : PipeWriter ρ β) : Option (PipeWriter ρ β) :=
  let s := { s with callback := none, writeReqsPending := s.writeReqsPending - 1 }
  (if s.writes.tail = none then some s
    else if s.writeReqsPending = 0 then none
    else s.uvQueueNonOverlappedWrite).bind fun s =>
    if s.reqsPending = 0 then none else some { s with reqsPending := s.reqsPending - 1 }

/-- The user writes, a thread of the pool makes a write, the loop processes a completion, or a
callback returns. -/
inductive Event (ρ β : Type*) where
  | write (r : ρ) (buf : List β) : Event ρ β
  | threadProc (r : ρ) (error : ℕ) : Event ρ β
  | process (r : ρ) : Event ρ β
  | returned : Event ρ β

/-- The request has not been submitted, or its callback has been called since. -/
def Free (s : PipeWriter ρ β) (r : ρ) : Prop :=
  (s.submitted.map Prod.fst).count r = (s.called.map Prod.fst).count r

/-- The events that can happen. -/
def Enabled (s : PipeWriter ρ β) : Event ρ β → Prop
  | .write r _ => s.Free r
  | .threadProc r _ => r ∈ s.threads
  | .process r => r ∈ s.completed ∧ s.callback = none
  | .returned => s.callback ≠ none

instance (s : PipeWriter ρ β) : ∀ e : Event ρ β, Decidable (Enabled s e)
  | .write r _ => inferInstanceAs (Decidable (_ = _))
  | .threadProc r _ => inferInstanceAs (Decidable (r ∈ s.threads))
  | .process r => inferInstanceAs (Decidable (r ∈ s.completed ∧ s.callback = none))
  | .returned => inferInstanceAs (Decidable (s.callback ≠ none))

def next (s : PipeWriter ρ β) : Event ρ β → Option (PipeWriter ρ β)
  | .write r buf => s.uvPipeWriteImpl r buf
  | .threadProc r error => some (s.uvPipeWritefileThreadProc r error)
  | .process r => s.uvProcessPipeWriteReq r
  | .returned => s.callbackReturned

def step (s : PipeWriter ρ β) (e : Event ρ β) : Option (PipeWriter ρ β) :=
  if Enabled s e then s.next e else none

def Step (s : PipeWriter ρ β) (e : Event ρ β) (t : PipeWriter ρ β) : Prop := s.step e = some t

structure Init (s : PipeWriter ρ β) : Prop where
  writes : s.writes.tail = none
  writeReqsPending : s.writeReqsPending = 0
  writeQueueSize : s.writeQueueSize = 0
  reqsPending : s.reqsPending = 0
  threads : s.threads = []
  completed : s.completed = []
  callback : s.callback = none
  submitted : s.submitted = []
  written : s.written = []
  called : s.called = []

/-! ### The order of the requests -/

def current (s : PipeWriter ρ β) : List ρ := s.completed ++ s.threads

structure Listed (s : PipeWriter ρ β) (xs : List ρ) : Prop where
  holds : s.writes.Holds xs
  submitted : s.submitted.map Prod.fst = s.called.map Prod.fst ++ (s.current ++ xs)
  written : s.submitted = s.written ++ (s.threads ++ xs).map fun r => (r, (s.req r).writeBuffer)
  calls : s.written.map Prod.fst = s.called.map Prod.fst ++ s.completed
  nodup : (s.current ++ xs).Nodup
  queuedBytes : ∀ r ∈ s.current ++ xs, (s.req r).queuedBytes = (s.req r).writeBuffer.length
  writeQueueSize : s.writeQueueSize =
    ((s.current ++ xs).map fun r => (s.req r).writeBuffer.length).sum
  writeReqsPending :
    s.writeReqsPending = (s.current ++ xs).length + s.callback.toList.length
  reqsPending : s.reqsPending = s.writeReqsPending

/-- At most one request is current or has its callback run; if there is none, none is queued. -/
structure Ordered (s : PipeWriter ρ β) (xs : List ρ) : Prop extends Listed s xs where
  single : s.current.length + s.callback.toList.length ≤ 1
  started : s.current.length + s.callback.toList.length = 0 → xs = []

theorem Listed.start {x : ρ} (h : Listed s (x :: xs)) :
    ∃ t, s.uvQueueNonOverlappedWrite = some t ∧ Listed t xs ∧ t.current = s.current ++ [x] ∧
      t.callback = s.callback := by
  obtain ⟨writes, hremove, hholds⟩ := h.holds.remove_cons
  have hcurrent : s.completed ++ (s.threads ++ [x]) ++ xs = s.current ++ x :: xs := by
    simp [current]
  refine ⟨{ s with writes, threads := s.threads ++ [x] }, ?_, ?_, ?_, rfl⟩
  · rw [uvQueueNonOverlappedWrite, hremove]
    rfl
  · constructor
    · exact hholds
    · change _ = _ ++ (s.completed ++ (s.threads ++ [x]) ++ xs)
      rw [hcurrent]
      exact h.submitted
    · have hwritten := h.written
      simpa using hwritten
    · exact h.calls
    · change (s.completed ++ (s.threads ++ [x]) ++ xs).Nodup
      rw [hcurrent]
      exact h.nodup
    · change ∀ r ∈ s.completed ++ (s.threads ++ [x]) ++ xs, _
      rw [hcurrent]
      exact h.queuedBytes
    · change _ = ((s.completed ++ (s.threads ++ [x]) ++ xs).map _).sum
      rw [hcurrent]
      exact h.writeQueueSize
    · change _ = (s.completed ++ (s.threads ++ [x]) ++ xs).length + _
      rw [hcurrent]
      exact h.writeReqsPending
    · exact h.reqsPending
  · simp [current]

/-! ### Steps -/

/-- The request is queued and counted. -/
def enqueue (s : PipeWriter ρ β) (r : ρ) (buf : List β) : PipeWriter ρ β :=
  { s with
    req := Function.update s.req r ⟨buf, buf.length, 0⟩
    writes := s.writes.insert r
    writeQueueSize := s.writeQueueSize + buf.length
    reqsPending := s.reqsPending + 1
    writeReqsPending := s.writeReqsPending + 1
    submitted := s.submitted ++ [(r, buf)] }

theorem uvPipeWriteImpl_eq :
    s.uvPipeWriteImpl r buf =
      if s.writeReqsPending = 0 then (s.enqueue r buf).uvQueueNonOverlappedWrite
      else some (s.enqueue r buf) := by
  rw [uvPipeWriteImpl]
  split_ifs
  · rw [uvQueueNonOverlappedWrite, uvQueueNonOverlappedWrite, Option.map_map]
    rfl
  · rfl

theorem Listed.not_mem_of_free (h : Listed s xs) (hfree : s.Free r) : r ∉ s.current ++ xs := by
  rw [Free, h.submitted, count_append] at hfree
  exact count_eq_zero.mp (by omega)

theorem Listed.enqueue (h : Listed s xs) (hfree : s.Free r) (buf : List β) :
    Listed (s.enqueue r buf) (xs ++ [r]) := by
  have hnew := h.not_mem_of_free hfree
  have hsame : ∀ k ∈ s.current ++ xs, (s.enqueue r buf).req k = s.req k := by
    intro k hk
    exact update_of_ne (ne_of_mem_of_not_mem hk hnew) ..
  have hself : (s.enqueue r buf).req r = ⟨buf, buf.length, 0⟩ := update_self ..
  have hcurrent : (s.enqueue r buf).current ++ (xs ++ [r]) = s.current ++ xs ++ [r] :=
    (append_assoc ..).symm
  constructor
  · exact h.holds.insert fun hmem => hnew (mem_append_right _ hmem)
  · rw [hcurrent]
    change (s.submitted ++ [(r, buf)]).map Prod.fst = _
    rw [map_append, h.submitted]
    simp [PipeWriter.enqueue]
  · change s.submitted ++ [(r, buf)] = s.written ++ (s.threads ++ (xs ++ [r])).map _
    rw [← append_assoc, map_append, ← append_assoc, map_singleton, hself,
      h.written]
    congr 2
    apply map_congr_left
    intro k hk
    rw [hsame k (by simp only [current, mem_append] at hk ⊢; tauto)]
  · exact h.calls
  · rw [hcurrent, nodup_append]
    exact ⟨h.nodup, nodup_singleton r, by grind⟩
  · rw [hcurrent]
    intro k hk
    obtain hk | hk := mem_append.mp hk
    · rw [hsame k hk]
      exact h.queuedBytes k hk
    · rw [mem_singleton.mp hk, hself]
  · rw [hcurrent, map_append, sum_append, map_singleton, sum_singleton, hself]
    change s.writeQueueSize + buf.length = _
    rw [h.writeQueueSize]
    congr 2
    apply map_congr_left
    intro k hk
    rw [hsame k hk]
  · rw [hcurrent, length_append, length_singleton]
    change s.writeReqsPending + 1 = _ + 1 + s.callback.toList.length
    rw [h.writeReqsPending]
    omega
  · change s.reqsPending + 1 = s.writeReqsPending + 1
    rw [h.reqsPending]

theorem Ordered.write (h : Ordered s xs) (hfree : s.Free r) (buf : List β) :
    ∃ t xs, s.uvPipeWriteImpl r buf = some t ∧ Ordered t xs := by
  have hlisted := h.toListed.enqueue hfree buf
  have hpending := h.writeReqsPending
  rw [length_append] at hpending
  rw [uvPipeWriteImpl_eq]
  by_cases hnone : s.writeReqsPending = 0
  · have hnil : xs = [] := h.started (by omega)
    subst hnil
    obtain ⟨t, ht, hlisted', hcurrent, hcallback⟩ := Listed.start hlisted
    have hsingle : t.current.length + t.callback.toList.length = 1 := by
      rw [hcurrent, hcallback, length_append, length_singleton]
      change s.current.length + 1 + s.callback.toList.length = 1
      omega
    rw [if_pos hnone]
    exact ⟨t, [], ht, hlisted', hsingle.le, by omega⟩
  · rw [if_neg hnone]
    refine ⟨_, _, rfl, hlisted, h.single, fun hzero => ?_⟩
    have hnil := h.started hzero
    change s.current.length + s.callback.toList.length = 0 at hzero
    simp only [hnil, length_nil] at hpending
    omega

theorem Ordered.threadProc (h : Ordered s xs) (hr : r ∈ s.threads) (error : ℕ) :
    Ordered (s.uvPipeWritefileThreadProc r error) xs := by
  have hsingle := h.single
  rw [current, length_append] at hsingle
  obtain ⟨k, hk⟩ : ∃ k, s.threads = [k] := by
    apply length_eq_one_iff.mp
    have hpos := length_pos_of_mem hr
    omega
  obtain rfl : r = k := by simpa [hk] using hr
  have hcompleted : s.completed = [] := by
    apply length_eq_zero_iff.mp
    rw [hk, length_singleton] at hsingle
    omega
  have hbuffer : ∀ k, ((s.uvPipeWritefileThreadProc r error).req k).writeBuffer =
      (s.req k).writeBuffer ∧ ((s.uvPipeWritefileThreadProc r error).req k).queuedBytes =
        (s.req k).queuedBytes := by
    intro k
    by_cases hkr : k = r
    · rw [hkr]
      simp [uvPipeWritefileThreadProc]
    · simp [uvPipeWritefileThreadProc, update_of_ne hkr]
  have hcurrent : (s.uvPipeWritefileThreadProc r error).current = s.current := by
    simp [current, uvPipeWritefileThreadProc, hk, hcompleted]
  constructor
  · constructor
    · exact h.holds
    · rw [hcurrent]
      exact h.submitted
    · have hwritten := h.written
      simp only [hbuffer]
      simpa [uvPipeWritefileThreadProc, hk] using hwritten
    · change (s.written ++ [(r, (s.req r).writeBuffer)]).map Prod.fst = s.called.map Prod.fst ++
        (s.completed ++ [r])
      rw [map_append, h.calls, append_assoc]
      rfl
    · rw [hcurrent]
      exact h.nodup
    · rw [hcurrent]
      simp only [hbuffer]
      exact h.queuedBytes
    · rw [hcurrent]
      simp only [hbuffer]
      exact h.writeQueueSize
    · rw [hcurrent]
      exact h.writeReqsPending
    · exact h.reqsPending
  · rw [hcurrent]
    exact h.single
  · rw [hcurrent]
    exact h.started

theorem Ordered.process (h : Ordered s xs) (hr : r ∈ s.completed) (hnone : s.callback = none) :
    ∃ t, s.uvProcessPipeWriteReq r = some t ∧ Ordered t xs := by
  have hsingle := h.single
  rw [current, length_append] at hsingle
  obtain ⟨k, hk⟩ : ∃ k, s.completed = [k] := by
    apply length_eq_one_iff.mp
    have hpos := length_pos_of_mem hr
    omega
  obtain rfl : r = k := by simpa [hk] using hr
  have hthreads : s.threads = [] := by
    apply length_eq_zero_iff.mp
    rw [hk, length_singleton] at hsingle
    omega
  have hcurrent : s.current = [r] := by rw [current, hk, hthreads]; rfl
  have hbytes := h.queuedBytes r (by simp [hcurrent])
  have hsize := h.writeQueueSize
  rw [hcurrent, singleton_append, map_cons, sum_cons] at hsize
  rw [uvProcessPipeWriteReq, if_neg (by omega)]
  refine ⟨_, rfl, ?_, ?_, ?_⟩
  · constructor
    · exact h.holds
    · have hsubmitted := h.submitted
      rw [hcurrent] at hsubmitted
      simpa [current, hk, hthreads] using hsubmitted
    · exact h.written
    · have hcalls := h.calls
      simpa [hk] using hcalls
    · have hnodup := h.nodup
      rw [hcurrent] at hnodup
      simpa [current, hk, hthreads] using (nodup_cons.mp hnodup).2
    · intro k hkmem
      exact h.queuedBytes k (by simp [current, hk, hthreads] at hkmem ⊢; tauto)
    · dsimp only
      rw [hsize, hbytes]
      simp [current, hk, hthreads]
    · have hpending := h.writeReqsPending
      rw [hcurrent, hnone] at hpending
      simp [current, hk, hthreads, hpending, Nat.add_comm]
    · exact h.reqsPending
  · simp [current, hk, hthreads]
  · simp [current, hk, hthreads]

theorem Ordered.returned (h : Ordered s xs) (hr : s.callback = some r) :
    ∃ t xs, s.callbackReturned = some t ∧ Ordered t xs := by
  have hsingle := h.single
  rw [hr] at hsingle
  have hcurrent : s.current = [] := by
    apply length_eq_zero_iff.mp
    rw [toList_some, length_singleton] at hsingle
    omega
  have hpending := h.writeReqsPending
  rw [hcurrent, hr] at hpending
  have hreqs := h.reqsPending
  -- the state after the callback, with both counters decremented
  have hlisted : Listed { s with
      callback := none, writeReqsPending := s.writeReqsPending - 1
      reqsPending := s.reqsPending - 1 } xs := by
    refine ⟨h.holds, h.submitted, h.written, h.calls, h.nodup, h.queuedBytes,
      h.writeQueueSize, ?_, ?_⟩
    · change s.writeReqsPending - 1 = (s.current ++ xs).length + 0
      rw [hpending, hcurrent]
      rfl
    · dsimp only
      omega
  rw [toList_some, length_singleton] at hpending
  rw [callbackReturned]
  dsimp only
  cases xs with
  | nil =>
    rw [if_pos (h.holds.tail_eq_none.mpr rfl), bind_some, if_neg (by dsimp only; omega)]
    refine ⟨_, [], rfl, hlisted, ?_, fun _ => rfl⟩
    change s.current.length + 0 ≤ 1
    rw [hcurrent]
    exact Nat.zero_le 1
  | cons x xs =>
    obtain ⟨t, ht, hlisted', hcurrent', hcallback⟩ := hlisted.start
    rw [nil_append, length_cons] at hpending
    rw [if_neg (fun habs => by cases h.holds.tail_eq_none.mp habs), if_neg (by omega)]
    refine ⟨t, xs, ?_, hlisted', ?_, ?_⟩
    · rw [uvQueueNonOverlappedWrite] at ht ⊢
      obtain ⟨q, hq, rfl⟩ := map_eq_some_iff.mp ht
      dsimp only at hq ⊢
      rw [hq, map_some, bind_some, if_neg (by dsimp only; omega)]
    · rw [hcurrent', hcallback]
      change (s.current ++ [x]).length + 0 ≤ 1
      rw [hcurrent]
      rfl
    · rw [hcurrent', hcallback, length_append, length_singleton]
      intro habs
      omega

theorem Ordered.step (h : Ordered s xs) {e : Event ρ β} (henabled : Enabled s e) :
    ∃ t xs, s.step e = some t ∧ Ordered t xs := by
  rw [PipeWriter.step, if_pos henabled]
  cases e with
  | write r buf => exact h.write henabled buf
  | threadProc r error => exact ⟨_, xs, rfl, h.threadProc henabled error⟩
  | process r =>
    obtain ⟨t, ht, hordered⟩ := h.process henabled.1 henabled.2
    exact ⟨t, xs, ht, hordered⟩
  | returned =>
    obtain ⟨r, hr⟩ := ne_none_iff_exists'.mp henabled
    exact h.returned hr

/-! ### Runs -/

theorem Ordered.of_reachable (h : Reachable Init Step s) : ∃ xs, Ordered s xs := by
  apply h.invariant
  · rintro s ⟨hwrites, hpending, hsize, hreqs, hthreads, hcompleted, hcallback, hsubmitted,
      hwritten, hcalled⟩
    have hcurrent : s.current = [] := by simp [current, hthreads, hcompleted]
    refine ⟨[], ⟨.nil hwrites, ?_, ?_, ?_, ?_, ?_, ?_, ?_, ?_⟩, ?_, fun _ => rfl⟩
    all_goals
      simp [hcurrent, hpending, hsize, hreqs, hthreads, hcompleted, hcallback, hsubmitted, hwritten,
        hcalled]
  · rintro s e t _ ⟨xs, hs⟩ hstep
    obtain ⟨henabled, -⟩ := ite_none_right_eq_some.mp hstep
    obtain ⟨u, ys, hu, hordered⟩ := hs.step henabled
    rw [Option.some.inj (hstep.symm.trans hu)]
    exact ⟨ys, hordered⟩

def freshPipe : PipeWriter ℕ ℕ :=
  ⟨⟨fun _ => none, none⟩, fun _ => ⟨[], 0, 0⟩, 0, 0, 0, [], [], none, [], [], []⟩

theorem init_freshPipe : Init freshPipe := ⟨rfl, rfl, rfl, rfl, rfl, rfl, rfl, rfl, rfl, rfl⟩

end PipeWriter

end LibuvWorks.Win
