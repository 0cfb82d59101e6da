import LibuvWorks.Unix.Shutdown

/-!
# Shutdowns are answered

A request is in `active_reqs` until `uv__drain` or the end of `uv__stream_destroy` answers it. The
first has an empty write queue, and the second finds the request that is left. While a request
waits on an open stream that did not connect meanwhile, something runs the watcher again.
-/
namespace LibuvWorks.Unix

open Transition List Option

variable {α : Type*}

/-! ### What a step of the stream can do -/

namespace Stream

variable {s t : Stream α} {e : Event α}

/-- A step does not change the state of the handle, or it closes, or it destroys. -/
inductive HandleChange (s : Stream α) : Event α → Stream α → Prop
  | same {e : Event α} {t : Stream α} : t.closing = s.closing → t.closed = s.closed →
      (s.closed = true → t.frame = s.frame) → HandleChange s e t
  | close {t : Stream α} : t.closing = true → s.closed = false → t.closed = false →
      HandleChange s .close t
  | destroy {t : Stream α} : t.closing = true → t.closed = true →
      t.frame = .callbacks .destroy → HandleChange s .destroy t

theorem handleChange (hshut : Shut s) (hstep : Step s e t) (hne : e ≠ .returned) :
    HandleChange s e t := by
  obtain ⟨hanswer, hnext⟩ := step_iff.mp hstep
  cases e with
  | write2 bufs handle allocated =>
    obtain ⟨⟨t', err⟩, hwrite, rfl⟩ := map_eq_some_iff.mp hnext
    obtain ⟨-, rfl⟩ | ⟨-, -, b, ht⟩ := uvWrite2_cases hwrite
    · exact .same rfl rfl fun _ => rfl
    · rw [ht]
      exact .same rfl rfl fun _ => rfl
  | answer a =>
    obtain ⟨-, hclosing, hclosed, hframe⟩ := answered_same hnext
    exact .same hclosing hclosed fun _ => hframe
  | io =>
    obtain ⟨hguard, hio⟩ := by
      simpa only [next, uvStreamIo, ite_none_left_eq_some] using hnext
    obtain ⟨u, hwrite, rfl⟩ := map_eq_some_iff.mp hio
    have hclosing := hshut.closing_eq (Int.not_lt.mp (not_or.mp (not_or.mp hguard).2).2)
    rw [uvWrite_eq hwrite]
    refine .same rfl rfl fun hclosed => ?_
    cases (hshut.closed_eq hclosing).symm.trans hclosed
  | callback =>
    dsimp only [next] at hnext
    split at hnext
    · obtain ⟨r, rest, -, rfl⟩ := uvWriteCallback_cases hnext
      exact .same rfl rfl fun _ => rfl
    · cases hnext
  | returned => exact absurd rfl hne
  | streamOpen fd =>
    simp only [next, uvStreamOpen] at hnext
    split_ifs at hnext <;> cases hnext <;> exact .same rfl rfl fun _ => rfl
  | connect =>
    simp only [next, uvConnect] at hnext
    split_ifs at hnext <;> cases hnext <;> exact .same rfl rfl fun _ => rfl
  | connected error =>
    obtain ⟨hguard, hnext⟩ := by
      simpa only [next, uvStreamConnect, ite_none_left_eq_some] using hnext
    split at hnext
    · cases hnext
      exact .same rfl rfl fun _ => rfl
    · cases hnext
      refine .same rfl rfl fun hclosed => ?_
      obtain ⟨-, hconnecting, -⟩ := hshut.closed hclosed
      exact absurd (.inr (.inl (by rw [hconnecting]; rfl))) hguard
  | connectReturned =>
    simp only [next, Stream.connectReturned] at hnext
    split at hnext
    · next error hframe =>
      have hopen : s.closed ≠ true := by
        intro hclosed
        obtain ⟨-, -, -, -, hrest⟩ := hshut.closed hclosed
        simp [hframe] at hrest
      split_ifs at hnext
      · cases hnext
        exact .same rfl rfl fun hclosed => absurd hclosed hopen
      · cases hnext
        exact .same rfl rfl fun hclosed => absurd hclosed hopen
    · cases hnext
  | close =>
    simp only [next, uvStreamClose] at hnext
    split_ifs at hnext with hguard
    cases hnext
    have hclosed := hshut.closed_eq (by simpa using hguard)
    exact .close rfl hclosed hclosed
  | destroy =>
    simp only [next, uvStreamDestroy] at hnext
    split_ifs at hnext with hguard
    cases hnext
    have hclosing : s.closing = true := by
      simpa using (not_or.mp (not_or.mp hguard).2).2
    exact .destroy hclosing rfl rfl
  | handle i fd =>
    cases hnext
    exact .same rfl rfl fun _ => rfl

theorem uvWrite_of_ne_nil (h : s.uvWrite = some t) (hqueue : s.writeQueue ≠ []) :
    t.writing = true ∧ t.writeQueue ≠ [] := by
  have hwriting : t.writing = true := by
    unfold uvWrite at h
    cases hq : s.writeQueue with
    | nil => exact absurd hq hqueue
    | cons r rest =>
      simp only [hq] at h
      split_ifs at h
      cases h
      rfl
  refine ⟨hwriting, ?_⟩
  rw [uvWrite_eq h]
  exact hqueue

/-- The callers of `uv__write_callbacks` go on when there is nothing left to report. -/
theorem returned_cases (hstep : Step s .returned t) :
    s.writing = false ∧ s.writeCompletedQueue = [] ∧
      ((s.frame = .callbacks .io ∧ t = { s with
          frame := .loop
          pollOut := if s.writeQueue.isEmpty then false else s.pollOut }) ∨
        ((s.frame = .callbacks .connect ∨ s.frame = .callbacks .destroy) ∧
          t = { s with frame := .loop })) := by
  obtain ⟨hanswer, hnext⟩ := step_iff.mp hstep
  simp only [next, Stream.returned] at hnext
  split at hnext
  · next hframe hcompleted =>
    cases hnext
    exact ⟨hanswer.symm, hcompleted, .inl ⟨hframe, rfl⟩⟩
  · next hframe hcompleted =>
    cases hnext
    exact ⟨hanswer.symm, hcompleted, .inr ⟨.inl hframe, rfl⟩⟩
  · next hframe hcompleted =>
    obtain ⟨-, hnext⟩ := by simpa only [ite_none_left_eq_some] using hnext
    cases hnext
    exact ⟨hanswer.symm, hcompleted, .inr ⟨.inr hframe, rfl⟩⟩
  · cases hnext

end Stream

/-! ### The watcher of a stream with a request -/

namespace ShutdownStream

variable {s t : ShutdownStream α} {e : Stream.Event α}

/-- Something runs the watcher again, or `uv__drain` is about to. -/
def Armed (s : ShutdownStream α) : Prop :=
  s.stream.pollOut = true ∨ s.fed = true ∨
    (s.stream.writing = true ∧ s.stream.writeQueue ≠ []) ∨
    (s.stream.frame = .callbacks .io ∧ s.stream.writeQueue = [])

theorem Armed.answer {a : Answer} {stream : Stream α} (h : s.Armed)
    (hanswered : s.stream.answered a = some stream) :
    Armed { s with stream, fed := s.fedAfter (.answer a) stream } := by
  have hfinish : ∀ {r : WriteReq α} {u : Stream α},
      u.writeCompletedQueue = s.stream.writeCompletedQueue →
      s.stream.writeCompletedQueue.length < (u.uvWriteReqFinish r).writeCompletedQueue.length := by
    intro r u hu
    simp [Stream.uvWriteReqFinish, hu]
  have hkeep : s.fed = true → s.fedAfter (.answer a) stream = true := by
    intro hfed
    simp [fedAfter, hfed]
  have hfed : s.stream.writeCompletedQueue.length < stream.writeCompletedQueue.length →
      s.fedAfter (.answer a) stream = true := by
    intro hlt
    simp [fedAfter, hlt]
  cases a with
  | fails errno =>
    simp only [Stream.answered] at hanswered
    split_ifs at hanswered with hzero hintr herror hblocking
    · cases hanswered
      exact h.imp_right (Or.imp_left hkeep)
    · obtain ⟨r, -, rfl⟩ := map_eq_some_iff.mp hanswered
      exact .inr (.inl (hfed (hfinish rfl)))
    · have heq := Stream.uvWrite_eq hanswered
      rcases h with hpoll | hset | ⟨-, hqueue⟩ | ⟨hframe, hqueue⟩
      · left
        rw [heq]
        exact hpoll
      · exact .inr (.inl (hkeep hset))
      · exact .inr (.inr (.inl (Stream.uvWrite_of_ne_nil hanswered hqueue)))
      · right; right; right
        rw [heq]
        exact ⟨hframe, hqueue⟩
    · cases hanswered
      exact .inl rfl
  | wrote n =>
    obtain ⟨r, -, hanswered⟩ := bind_eq_some_iff.mp hanswered
    obtain ⟨-, hanswered⟩ := ite_none_left_eq_some.mp hanswered
    obtain ⟨⟨r', size, finished⟩, -, hanswered⟩ := bind_eq_some_iff.mp hanswered
    dsimp only at hanswered
    split_ifs at hanswered
    · cases hanswered
      exact .inr (.inl (hfed (hfinish rfl)))
    · exact .inr (.inr (.inl (Stream.uvWrite_of_ne_nil hanswered (cons_ne_nil _ _))))
    · cases hanswered
      exact .inl rfl

theorem Armed.write2 {bufs : List (List α)} {handle : Option ℕ} {allocated : Bool}
    {stream : Stream α} {err : ℤ} (h : s.Armed)
    (hconnecting : s.stream.connecting = false)
    (hwrite : s.stream.uvWrite2 bufs handle allocated = some (stream, err)) :
    Armed { s with stream } := by
  simp only [Stream.uvWrite2, hconnecting] at hwrite
  split_ifs at hwrite
  · cases hwrite
    exact h
  · cases hwrite
    exact h
  · cases hwrite
    exact h
  · cases hwrite
    exact h
  · contradiction
  · obtain ⟨u, hu, huv⟩ := map_eq_some_iff.mp hwrite
    cases huv
    exact .inr (.inr (.inl (Stream.uvWrite_of_ne_nil hu (by simp))))
  · cases hwrite
    exact .inl rfl

theorem run_cases (hrun : s.run e = some t) : e ≠ .returned ∧
    ∃ stream, Stream.Step s.stream e stream ∧ t = { s with
      stream
      fed := s.fedAfter e stream
      connectSeen := s.connectSeen || stream.connecting } := by
  cases e with
  | returned | streamOpen fd => cases hrun
  | _ =>
    obtain ⟨stream, hstep, rfl⟩ := map_eq_some_iff.mp hrun
    exact ⟨nofun, stream, hstep, rfl⟩

/-- While no connect is in progress, the watcher of an open stream stays armed, and is armed again
after each of its runs. -/
theorem run_armed (hrun : s.run e = some t) (hconnecting : s.stream.connecting = false)
    (hconnecting' : t.stream.connecting = false) (hclosing : t.stream.closing = false)
    (h : e = .io ∨ s.Armed) : t.Armed := by
  obtain ⟨hne, stream, hstep, rfl⟩ := run_cases hrun
  obtain ⟨hanswer, hnext⟩ := by
    simpa only [Stream.Step, Stream.step, ite_none_right_eq_some] using hstep
  cases e with
  | write2 bufs handle allocated =>
    obtain ⟨⟨u, err⟩, hwrite, rfl⟩ := map_eq_some_iff.mp hnext
    exact (h.resolve_left (by simp)).write2 hconnecting hwrite
  | answer a => exact (h.resolve_left (by simp)).answer hnext
  | io =>
    obtain ⟨-, hio⟩ := by
      simpa only [Stream.next, Stream.uvStreamIo, ite_none_left_eq_some] using hnext
    obtain ⟨u, hwrite, rfl⟩ := map_eq_some_iff.mp hio
    by_cases hqueue : s.stream.writeQueue = []
    · have hsame : u.writeQueue = s.stream.writeQueue := by rw [Stream.uvWrite_eq hwrite]
      exact .inr (.inr (.inr ⟨rfl, hsame.trans hqueue⟩))
    · obtain ⟨hwriting, hne⟩ := Stream.uvWrite_of_ne_nil hwrite hqueue
      exact .inr (.inr (.inl ⟨hwriting, hne⟩))
  | callback =>
    dsimp only [Stream.next] at hnext
    split at hnext
    · obtain ⟨r, rest, -, rfl⟩ := Stream.uvWriteCallback_cases hnext
      exact h.resolve_left (by simp)
    · cases hnext
  | returned => exact absurd rfl hne
  | streamOpen fd => cases hrun
  | connect =>
    simp only [Stream.next, Stream.uvConnect, hconnecting] at hnext
    split_ifs at hnext
    · contradiction
    · cases hnext
      cases hconnecting'
  | connected error =>
    simp [Stream.next, Stream.uvStreamConnect, hconnecting] at hnext
  | connectReturned =>
    have harmed := h.resolve_left (by simp)
    simp only [Stream.next, Stream.connectReturned] at hnext
    split at hnext
    · next error hframe =>
      have hpoll : s.stream.pollOut = true ∨ s.fed = true := by
        rcases harmed with hpoll | hset | ⟨hwriting, -⟩ | ⟨hio, -⟩
        · exact .inl hpoll
        · exact .inr hset
        · cases hanswer.trans hwriting
        · cases hframe.symm.trans hio
      split_ifs at hnext
      · cases hnext
        exact hpoll.imp_right .inl
      · cases hnext
        exact hpoll.imp_right .inl
    · cases hnext
  | close =>
    simp only [Stream.next, Stream.uvStreamClose] at hnext
    split_ifs at hnext
    cases hnext
    cases hclosing
  | destroy =>
    simp only [Stream.next, Stream.uvStreamDestroy] at hnext
    split_ifs at hnext with hguard
    cases hnext
    have hset : s.stream.closing = true := by simpa using (not_or.mp (not_or.mp hguard).2).2
    cases hset.symm.trans hclosing
  | handle i fd =>
    cases hnext
    exact h.resolve_left (by simp)

/-! ### Requests -/

/-- Each request was answered or waits. The answers are those of `shutdown(2)`, and one more if a
request was left when the stream was destroyed. -/
structure Ledger (s : ShutdownStream α) : Prop where
  books : ∃ k, Stream.Books s.stream k
  shutStream : Stream.Shut s.stream
  active : s.activeReqs = s.shutdownReq.toList
  ids : s.called.map Prod.fst ++ s.shutdownReq.toList = List.range s.requests
  called : s.called = s.shutdowns ∨ s.shutdownReq = none ∧ s.stream.closed = true ∧
    ∃ i, s.called = s.shutdowns ++ [(i, uvEcanceled)]
  shutting : s.stream.closed = false → s.shutting = s.shutdownReq.isSome
  shut : s.shut = true → s.shutdownReq = none
  successes : (s.shutdowns.filter (·.2 = 0)).length = if s.shut then 1 else 0

/-- A request does not outlive the stream, and until then the watcher is armed for it. -/
structure Accounted (s : ShutdownStream α) : Prop extends Ledger s where
  destroyed : s.stream.closed = true → s.stream.frame = .loop → s.shutdownReq = none
  armed : s.shutting = true → s.stream.closing = false → s.connectSeen = false →
    s.stream.connecting = false ∧ s.Armed

theorem Accounted.of_init (h : Init s) : Accounted s := by
  refine ⟨?_, fun _ _ => h.shutdownReq, fun habs => ?_⟩
  · constructor
    · exact ⟨_, .of_init h.stream⟩
    · exact .of_init h.stream
    · rw [h.activeReqs, h.shutdownReq]
      rfl
    · rw [h.called, h.shutdownReq, h.requests]
      rfl
    · left
      rw [h.called, h.shutdowns]
    · intro _
      rw [h.shutting, h.shutdownReq]
      rfl
    · exact fun _ => h.shutdownReq
    · rw [h.shutdowns, h.shut]
      rfl
  · cases h.shutting.symm.trans habs

theorem Ledger.stream {stream : Stream α} {writable fed connectSeen : Bool} (h : Ledger s)
    (hstep : Stream.Step s.stream e stream)
    (hclosed : s.stream.closed = true → stream.closed = true) :
    Ledger { s with stream, writable, fed, connectSeen } := by
  obtain ⟨k, hbooks⟩ := h.books
  exact { h with
    books := hbooks.step hstep
    shutStream := h.shutStream.step hstep
    called := h.called.imp_right fun ⟨hnone, hset, hcancelled⟩ => ⟨hnone, hclosed hset, hcancelled⟩
    shutting := by
      intro hopen
      apply h.shutting
      by_contra hset
      cases (hclosed (by simpa using hset)).symm.trans hopen }

theorem Ledger.same {stream : Stream α} (h : Ledger s) (hstep : Stream.Step s.stream e stream)
    (hclosed : stream.closed = s.stream.closed) : Ledger { s with stream } :=
  h.stream hstep hclosed.trans

/-- A step of the stream itself; it may begin with a watcher that is taken from `pending_queue`. -/
theorem Accounted.run (h : Accounted s) (fed : Bool) (hrun : { s with fed }.run e = some t)
    (hfed : s.fed = fed ∨ isIo e = true) : Accounted t := by
  obtain ⟨hne, stream, hstep, rfl⟩ := run_cases hrun
  have hchange := Stream.handleChange h.shutStream hstep hne
  have hclosed : s.stream.closed = true → stream.closed = true := by
    intro hset
    cases hchange with
    | same _ hsame _ => exact hsame.trans hset
    | close _ hopen _ => cases hopen.symm.trans hset
    | destroy _ hdestroyed _ => exact hdestroyed
  refine ⟨h.toLedger.stream hstep hclosed, ?_, ?_⟩
  · intro hset hframe
    cases hchange with
    | same _ hsame hsameFrame =>
      have hset := hsame.symm.trans hset
      exact h.destroyed hset ((hsameFrame hset).symm.trans hframe)
    | close _ _ hopen => cases hopen.symm.trans hset
    | destroy _ _ hdestroy => cases hdestroy.symm.trans hframe
  · intro hshutting hclosing hseen
    have hclosing' : s.stream.closing = false := by
      cases hchange with
      | same hsame _ _ => exact hsame.symm.trans hclosing
      | close hset _ _ | destroy hset _ _ => cases hset.symm.trans hclosing
    obtain ⟨hseen, hconnecting'⟩ := Bool.or_eq_false_iff.mp hseen
    obtain ⟨hconnecting, harmed⟩ := h.armed hshutting hclosing' hseen
    refine ⟨hconnecting', run_armed hrun hconnecting hconnecting' hclosing ?_⟩
    rcases hfed with rfl | hio
    · exact .inr harmed
    · cases e with
      | io => exact .inl rfl
      | connected error =>
        have hnext := hstep
        simp [Stream.Step, Stream.step, Stream.next, Stream.uvStreamConnect, hconnecting] at hnext
      | _ => cases hio

theorem Accounted.streamOpen {fd : ℤ} {writable : Bool} {stream : Stream α} (h : Accounted s)
    (hopen : Stream.Step s.stream (.streamOpen fd) stream) :
    Accounted { s with stream, writable } := by
  obtain ⟨-, hnext⟩ := by
    simpa only [Stream.Step, Stream.step, ite_none_right_eq_some] using hopen
  simp only [Stream.next, Stream.uvStreamOpen] at hnext
  split_ifs at hnext
  · cases hnext
    exact ⟨h.toLedger.stream hopen id, h.destroyed, h.armed⟩
  · cases hnext
    exact ⟨h.toLedger.stream hopen id, h.destroyed, h.armed⟩

theorem Accounted.shutdown {err : ℤ} (h : Accounted s) (hcall : s.uvShutdown = some (t, err)) :
    Accounted t := by
  unfold uvShutdown at hcall
  split_ifs at hcall with hrefused hfd
  · cases hcall
    exact h
  · cases hcall
    simp only [not_or, Bool.not_eq_true, Bool.not_eq_eq_eq_not, Bool.not_true] at hrefused
    obtain ⟨-, hshut, hshutting, hclosed, hclosing⟩ := hrefused
    have hnone : s.shutdownReq = none := by
      have hsame := h.shutting hclosed
      rw [hshutting] at hsame
      simpa using hsame.symm
    obtain ⟨k, hbooks⟩ := h.books
    have hframe := h.shutStream.frame_ne hclosed
    refine ⟨?_, fun habs => ?_, fun _ _ hseen => ⟨hseen, .inl rfl⟩⟩
    · constructor
      · exact ⟨k, hbooks.same ⟨rfl, rfl, rfl, rfl, rfl, rfl, rfl, rfl⟩⟩
      · exact .of_open hclosing hclosed hframe
      · rw [h.active, hnone]
        rfl
      · have hids := h.ids
        rw [hnone, toList_none, append_nil] at hids
        rw [hids, range_succ]
        rfl
      · refine h.called.imp_right fun ⟨_, hset, _⟩ => ?_
        cases hclosed.symm.trans hset
      · exact fun _ => rfl
      · intro habs
        cases hshut.symm.trans habs
      · exact h.successes
    · cases hclosed.symm.trans habs

theorem Ledger.called_eq {req : ℕ} (h : Ledger s) (hreq : s.shutdownReq = some req) :
    s.called = s.shutdowns := by
  refine h.called.resolve_right fun ⟨hnone, _⟩ => ?_
  cases hreq.symm.trans hnone

theorem Ledger.drain (h : Ledger s) (hclosed : s.stream.closed = false) (errno : ℕ) :
    ∃ t, s.uvDrain errno = some t ∧ Accounted t ∧
      (t.shutdowns ≠ s.shutdowns → s.stream.closing = false) := by
  have hsame := h.shutting hclosed
  unfold uvDrain
  split_ifs with hguard
  · simp only [Bool.not_eq_eq_eq_not, Bool.not_true] at hguard
    obtain ⟨hshutting, hclosing, hshut⟩ := hguard
    rw [hshutting, eq_comm, isSome_iff_exists] at hsame
    obtain ⟨req, hreq⟩ := hsame
    rw [hreq]
    refine ⟨_, rfl, ⟨?_, fun _ _ => rfl, nofun⟩, fun _ => hclosing⟩
    constructor
    · exact h.books
    · exact h.shutStream
    · rw [h.active, hreq]
      simp
    · have hids := h.ids
      rw [hreq] at hids
      simpa using hids
    · left
      rw [h.called_eq hreq]
    · exact fun _ => rfl
    · exact fun _ => rfl
    · have hnone := h.successes
      rw [hshut] at hnone
      rw [filter_append, length_append, hnone]
      by_cases hzero : errno = 0
      · simp [hzero]
      · simp [hzero]
  · refine ⟨s, rfl, ⟨h, fun habs => ?_, fun hshutting hclosing => ?_⟩, fun habs => absurd rfl habs⟩
    · cases hclosed.symm.trans habs
    · simp only [hshutting, hclosing, Bool.not_false, Bool.not_eq_eq_eq_not, Bool.not_true,
        true_and, Bool.not_eq_false] at hguard
      rw [hshutting, h.shut hguard] at hsame
      cases hsame

theorem Ledger.cancelled (h : Ledger s) (hclosed : s.stream.closed = true) :
    Accounted s.cancelled := by
  unfold ShutdownStream.cancelled
  have hclosing := (h.shutStream.closed hclosed).1
  cases hreq : s.shutdownReq with
  | none =>
    refine ⟨h, fun _ _ => hreq, fun _ habs => ?_⟩
    cases hclosing.symm.trans habs
  | some req =>
    refine ⟨?_, fun _ _ => rfl, fun _ habs => ?_⟩
    · constructor
      · exact h.books
      · exact h.shutStream
      · rw [h.active, hreq]
        simp
      · have hids := h.ids
        rw [hreq] at hids
        simpa using hids
      · right
        refine ⟨rfl, hclosed, req, ?_⟩
        rw [h.called_eq hreq]
      · intro habs
        cases hclosed.symm.trans habs
      · exact fun _ => rfl
      · exact h.successes
    · cases hclosing.symm.trans habs

/-- `shutdown(2)` is called with an empty write queue and nothing left to report. -/
theorem Accounted.returned {errno : ℕ} (h : Accounted s) (hcall : s.returned errno = some t) :
    Accounted t ∧ (t.shutdowns ≠ s.shutdowns → s.stream.closing = false ∧
      s.stream.writeQueue = [] ∧ s.stream.writeCompletedQueue = []) := by
  obtain ⟨stream, hstep, hcall⟩ := bind_eq_some_iff.mp hcall
  obtain ⟨hwriting, hcompleted, ⟨hframe, rfl⟩ | ⟨hframe, rfl⟩⟩ := Stream.returned_cases hstep
  · have hclosed : s.stream.closed = false := by
      by_contra habs
      obtain ⟨-, -, -, -, hrest⟩ := h.shutStream.closed (by simpa using habs)
      simp [hframe] at hrest
    have hledger := h.toLedger.same hstep rfl
    simp only [hframe] at hcall
    cases hqueue : s.stream.writeQueue with
    | nil =>
      obtain ⟨u, hdrain, haccounted, hnew⟩ := hledger.drain hclosed errno
      simp only [hqueue, isEmpty_nil, if_true] at hcall hdrain
      rw [hdrain] at hcall
      cases hcall
      exact ⟨haccounted, fun hne => ⟨hnew hne, rfl, hcompleted⟩⟩
    | cons r rest =>
      simp only [hqueue, isEmpty_cons, if_false, Bool.false_eq_true] at hcall hledger
      cases hcall
      refine ⟨⟨hledger, fun habs => ?_, fun hshutting hclosing hseen => ?_⟩, fun hne => ?_⟩
      · cases hclosed.symm.trans habs
      · obtain ⟨hconnecting, harmed⟩ := h.armed hshutting hclosing hseen
        refine ⟨hconnecting, ?_⟩
        rcases harmed with hpoll | hset | ⟨hset, -⟩ | ⟨-, hnil⟩
        · exact .inl hpoll
        · exact .inr (.inl hset)
        · cases hwriting.symm.trans hset
        · cases hqueue.symm.trans hnil
      · exact absurd rfl hne
  · have hledger := h.toLedger.same hstep rfl
    rcases hframe with hframe | hframe <;> simp only [hframe] at hcall <;> cases hcall
    · have hclosed : s.stream.closed = false := by
        by_contra habs
        obtain ⟨-, -, -, -, hrest⟩ := h.shutStream.closed (by simpa using habs)
        simp [hframe] at hrest
      refine ⟨⟨hledger, fun habs => ?_, fun hshutting hclosing hseen => ?_⟩, fun hne => ?_⟩
      · cases hclosed.symm.trans habs
      · obtain ⟨hconnecting, harmed⟩ := h.armed hshutting hclosing hseen
        refine ⟨hconnecting, ?_⟩
        rcases harmed with hpoll | hset | ⟨hset, -⟩ | ⟨hio, -⟩
        · exact .inl hpoll
        · exact .inr (.inl hset)
        · cases hwriting.symm.trans hset
        · cases hframe.symm.trans hio
      · exact absurd rfl hne
    · refine ⟨hledger.cancelled (h.shutStream.destroy hframe), fun hne => ?_⟩
      unfold ShutdownStream.cancelled at hne
      split at hne
      · exact absurd rfl hne
      · exact absurd rfl hne

/-! ### Runs -/

variable {event : Event α}

theorem Accounted.step (h : Accounted s) (hstep : Step s event t) : Accounted t ∧
    (t.shutdowns ≠ s.shutdowns → s.stream.closing = false ∧ s.stream.writeQueue = [] ∧
      s.stream.writeCompletedQueue = []) := by
  cases event with
  | stream e =>
    have hsame : t.shutdowns = s.shutdowns := by
      obtain ⟨-, stream, -, rfl⟩ := run_cases hstep
      rfl
    exact ⟨h.run s.fed hstep (.inl rfl), fun hne => absurd hsame hne⟩
  | pending e =>
    obtain ⟨⟨-, hio⟩, hrun⟩ := ite_none_right_eq_some.mp hstep
    have hsame : t.shutdowns = s.shutdowns := by
      obtain ⟨-, stream, -, rfl⟩ := run_cases hrun
      rfl
    exact ⟨h.run _ hrun (.inr hio), fun hne => absurd hsame hne⟩
  | streamOpen fd writable =>
    obtain ⟨stream, hopen, rfl⟩ := map_eq_some_iff.mp hstep
    refine ⟨h.streamOpen hopen, fun hne => absurd rfl hne⟩
  | returned errno => exact h.returned hstep
  | shutdown =>
    obtain ⟨-, hnext⟩ := ite_none_left_eq_some.mp hstep
    obtain ⟨⟨u, err⟩, hcall, rfl⟩ := map_eq_some_iff.mp hnext
    refine ⟨h.shutdown hcall, fun hne => absurd ?_ hne⟩
    unfold uvShutdown at hcall
    split_ifs at hcall <;> cases hcall <;> rfl

theorem Accounted.of_reachable (h : Reachable Init Step s) : Accounted s :=
  h.invariant (fun _ => .of_init) fun _ _ _ _ hs hstep => (hs.step hstep).1

/-- Each request is in `active_reqs` until its callback runs, once, with the result of
`shutdown(2)`, or with `UV_ECANCELED` when the stream is destroyed, and none is left after that.
`shutdown(2)` is called when the kernel has taken all of each write that was accepted, or the write
has failed, and it succeeds at most once. While a request waits on an open stream on which no
connect was in progress since, the watcher waits for `POLLOUT`, or is run. -/
theorem shutdowns_answered (h : Reachable Init Step s) :
    s.activeReqs = s.shutdownReq.toList ∧
    s.called.map Prod.fst ++ s.shutdownReq.toList = List.range s.requests ∧
    (s.called = s.shutdowns ∨
      s.stream.closed = true ∧ ∃ i, s.called = s.shutdowns ++ [(i, uvEcanceled)]) ∧
    (s.stream.closed = true → s.stream.frame = .loop → s.shutdownReq = none) ∧
    (s.shutdowns.filter (·.2 = 0)).length ≤ 1 ∧
    (∀ event t, Step s event t → t.shutdowns ≠ s.shutdowns → s.stream.closing = false ∧
      ∃ k, s.stream.sent = Prefixes.prefixes k s.stream.accepted ∧
        ∀ i < s.stream.accepted.length, ∃ err, (i, err) ∈ s.stream.called ∧
          (err = 0 → (s.stream.bytes i).length ≤ k i)) ∧
    (s.shutdownReq.isSome = true → s.stream.closing = false → s.connectSeen = false →
      s.stream.frame = .loop → s.stream.writing = false →
      s.stream.pollOut = true ∨ s.fed = true) := by
  have hs := Accounted.of_reachable h
  refine ⟨hs.active, hs.ids, hs.called.imp_right And.right, hs.destroyed, ?_,
    fun event t hstep hne => ?_, fun hreq hclosing hseen hframe hwriting => ?_⟩
  · rw [hs.successes]
    split <;> decide
  · obtain ⟨hclosing, hqueue, hcompleted⟩ := (hs.step hstep).2 hne
    obtain ⟨k, hbooks⟩ := hs.books
    refine ⟨hclosing, k, hbooks.sent, fun i hi => ?_⟩
    have hids := hbooks.ids
    rw [hqueue, hcompleted, List.append_nil, List.map_nil, List.append_nil] at hids
    have hmem : i ∈ s.stream.called.map Prod.fst := by
      rw [hids]
      exact List.mem_range.mpr hi
    obtain ⟨⟨j, err⟩, hcall, rfl⟩ := List.mem_map.mp hmem
    exact ⟨err, hcall, fun hzero => hbooks.called _ hcall hzero⟩
  · have hshutting : s.shutting = true := by
      rw [hs.shutting (hs.shutStream.closed_eq hclosing), hreq]
    obtain ⟨-, hpoll | hset | ⟨hset, -⟩ | ⟨hio, -⟩⟩ := hs.armed hshutting hclosing hseen
    · exact .inl hpoll
    · exact .inr hset
    · cases hwriting.symm.trans hset
    · cases hframe.symm.trans hio

/-! ### Concrete runs -/

def freshStream : ShutdownStream UInt8 :=
  ⟨Stream.fresh false, true, false, false, none, false, [], 0, false, [], []⟩

theorem init_freshStream : Init freshStream :=
  ⟨Stream.init_fresh, rfl, rfl, rfl, rfl, rfl, rfl, rfl⟩

/-- The kernel has taken a part of the write when the shutdown is requested. -/
theorem shutdowns_answered_one : ∃ s : ShutdownStream UInt8, s.called = [(0, 0)] ∧
    s.stream.sent = [1, 2] ∧ s.activeReqs = [] ∧ (s.shutdowns.filter (·.2 = 0)).length ≤ 1 := by
  have hsome : ([Event.stream (.write2 [[1, 2]] none true), .stream (.answer (.wrote 1)), .shutdown,
      .stream .io, .stream (.answer (.wrote 1)), .stream .callback, .returned 0].foldlM next
      freshStream).isSome = true := by rfl
  have hanswered := shutdowns_answered
    (.of_foldlM (.init init_freshStream) (Option.some_get hsome).symm)
  exact ⟨_, by rfl, by rfl, hanswered.1, hanswered.2.2.2.2.1⟩

/-- After a `shutdown(2)` that fails with `ENOTCONN` the stream can be shut down again. -/
theorem shutdown_twice : ∃ s : ShutdownStream UInt8, Reachable Init Step s ∧
    s.shutdowns = [(0, -107), (1, 0)] := by
  have hsome : ([Event.shutdown, .stream .io, .returned 107, .shutdown, .stream .io,
      .returned 0].foldlM next freshStream).isSome = true := by rfl
  exact ⟨_, .of_foldlM (.init init_freshStream) (Option.some_get hsome).symm, by rfl⟩

end ShutdownStream

end LibuvWorks.Unix
