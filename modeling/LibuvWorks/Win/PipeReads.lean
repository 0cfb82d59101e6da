import LibuvWorks.Win.PipeFrames

/-!
# Reads of a Windows ipc pipe

What is on the way is the rest of the data of the frame that is read, and then whole frames. What is
available ends between two units of it, so the reader finds a frame whenever it looks for one.
-/
namespace LibuvWorks.Win

open Transition List Nat

/-! ### The format -/

namespace IpcFrame

variable {frame : IpcFrame}

theorem flags_spec (frame : IpcFrame) :
    (frame.header.flags &&& uvIpcTcpServer ≠ 0 ↔ frame.socket.isSome = true) ∧
      (frame.header.flags &&& uvIpcTcpConnection ≠ 0 ↔ frame.socket.any (·.2) = true) ∧
      (frame.header.flags &&& uvIpcRawData ≠ 0 ↔ frame.data.isSome = true) ∧
      frame.header.flags.toInt ≤
        (uvIpcTcpServer ||| uvIpcRawData ||| uvIpcTcpConnection).toInt := by
  have hflags : frame.header.flags = frame.flags := rfl
  rw [hflags, flags]
  generalize frame.socket.isSome = server
  generalize frame.socket.any (·.2) = connection
  generalize frame.data.isSome = data
  revert server connection data
  decide

theorem rawDataLength {buf : UvBuf} (h : frame.data = some buf) :
    frame.header.rawDataLength.toNat = buf.1.length := by
  rw [header, h]
  have hlt := buf.2
  simp only [BitVec.toNat_ofNat]
  omega

theorem bytes_length_lt : frame.bytes.length < 2 ^ 32 := by
  unfold bytes
  rcases frame.data with _ | buf
  · exact Nat.two_pow_pos 32
  · exact buf.2

end IpcFrame

/-- The first units are single bytes: bytes are taken from them, one for each unit. -/
theorem take_units {α : Type*} {k : ℕ} {left : List α} {units transit rest : List (List α)}
    (h : units ++ transit = left.map ([·]) ++ rest) (hleft : k ≤ left.length)
    (hk : k ≤ units.flatten.length) :
    units.flatten.take k = left.take k ∧ units.flatten.drop k = (units.drop k).flatten ∧
      units.drop k ++ transit = (left.drop k).map ([·]) ++ rest := by
  induction k generalizing left units with
  | zero => exact ⟨rfl, rfl, h⟩
  | succ k ih =>
    rcases left with _ | ⟨b, left⟩
    · cases hleft
    · rcases units with _ | ⟨unit, units⟩
      · cases hk
      · obtain ⟨rfl, htail⟩ := cons_eq_cons.mp h
        obtain ⟨htake, hdrop, hrest⟩ := ih htail (le_of_succ_le_succ hleft)
          (le_of_succ_le_succ hk)
        refine ⟨?_, hdrop, hrest⟩
        simp only [flatten_cons, singleton_append, take_succ_cons]
        rw [htake]

namespace IpcReader

variable {κ : Type*} {s t : IpcReader κ} {e : Event κ}

/-! ### A frame -/

def queued (s : IpcReader κ) : List (SocketInfoEx × Bool) :=
  s.sockets.received.map fun item => (item.socketInfoEx, item.tcpConnection)

/-- What `readFrame` makes of a frame whose header is at the head of the pipe. -/
structure ReadsFrame (s : IpcReader κ) (frame : IpcFrame) (pipe : List UInt8) (t : IpcReader κ) :
    Prop where
  pipe : t.pipe = pipe
  queued : t.queued = s.queued ++ frame.socket.toList
  remaining : t.remainingIpcRawdataBytes = frame.bytes.length
  phase : t.phase = .loop ∨ t.remainingIpcRawdataBytes = 0 ∧ ∃ avail, t.phase = .alloc avail
  transit : t.transit = s.transit
  writes : t.writes = s.writes
  delivered : t.delivered = s.delivered

theorem readSocketInfo_eq {frame : IpcFrame} {pipe : List UInt8} {avail : ℕ}
    (hpipe : s.pipe = (frame.socket.map (·.1.1)).getD [] ++ pipe)
    (havail : sizeofIpcFrameHeader + s.pipe.length ≤ avail) :
    ∃ sockets : IpcPipe κ SocketInfoEx,
      s.readSocketInfo frame.header avail = some { s with pipe, sockets } ∧
        sockets.received.map (fun item => (item.socketInfoEx, item.tcpConnection)) =
          s.queued ++ frame.socket.toList := by
  obtain ⟨hserver, hconnection, -, -⟩ := frame.flags_spec
  cases hsocket : frame.socket with
  | none =>
    rw [hsocket] at hserver hpipe
    refine ⟨s.sockets, ?_, (append_nil _).symm⟩
    rw [readSocketInfo, if_neg (fun h => by cases hserver.mp h)]
    have hpipe : s.pipe = pipe := hpipe
    rw [← hpipe]
  | some socket =>
    rw [hsocket] at hserver hpipe hconnection
    have hpipe : s.pipe = socket.1.1 ++ pipe := hpipe
    have hlength := socket.1.2
    have htake : s.pipe.take sizeofSocketInfoEx = socket.1.1 := by
      rw [hpipe, take_left' hlength]
    have hdrop : s.pipe.drop sizeofSocketInfoEx = pipe := by rw [hpipe, drop_left' hlength]
    have hle : sizeofSocketInfoEx ≤ s.pipe.length := by
      rw [hpipe, length_append, hlength]
      exact Nat.le_add_right ..
    have hflag : decide (frame.header.flags &&& uvIpcTcpConnection ≠ 0) = socket.2 := by
      rw [Bool.eq_iff_iff, decide_eq_true_iff]
      exact hconnection.trans (by simp)
    refine ⟨s.sockets.uvPipeInsertPendingSocket socket.1 socket.2, ?_, ?_⟩
    · rw [readSocketInfo, if_pos (hserver.mpr rfl), if_neg (by omega)]
      simp only [readFile, htake, hdrop, hlength, ↓reduceDIte, hflag]
    · simp [IpcPipe.uvPipeInsertPendingSocket, queued]

theorem readFrame_eq {frame : IpcFrame} {pipe : List UInt8}
    (hpipe : s.pipe = frame.headerBytes ++ pipe) (hremaining : s.remainingIpcRawdataBytes = 0) :
    ∃ t, s.readFrame s.pipe.length = some t ∧ ReadsFrame s frame pipe t := by
  have hheader : (frame.header.toBytes frame.padding).length = sizeofIpcFrameHeader :=
    IpcFrameHeader.length_toBytes
  rw [IpcFrame.headerBytes, append_assoc] at hpipe
  have htake : s.pipe.take sizeofIpcFrameHeader = frame.header.toBytes frame.padding := by
    rw [hpipe, take_left' hheader]
  have hdrop : s.pipe.drop sizeofIpcFrameHeader = (frame.socket.map (·.1.1)).getD [] ++ pipe := by
    rw [hpipe, drop_left' hheader]
  have hle : sizeofIpcFrameHeader ≤ s.pipe.length := by
    rw [hpipe, length_append, hheader]
    exact Nat.le_add_right ..
  have hroom : sizeofIpcFrameHeader + (s.pipe.drop sizeofIpcFrameHeader).length ≤ s.pipe.length := by
    rw [length_drop]
    omega
  obtain ⟨sockets, hread, hqueued⟩ := readSocketInfo_eq
    (s := { s with pipe := s.pipe.drop sizeofIpcFrameHeader }) hdrop hroom
  obtain ⟨-, -, hdata, hflags⟩ := frame.flags_spec
  rw [readFrame, if_neg (by omega)]
  simp only [readFile, htake, IpcFrameHeader.ofBytes_toBytes]
  rw [if_neg (by simp), if_neg (Int.not_lt.mpr hflags), hread]
  cases hbuf : frame.data with
  | none =>
    rw [hbuf] at hdata
    rw [Option.map_some, if_neg (fun h => by cases hdata.mp h)]
    have hbytes : frame.bytes.length = 0 := by simp [IpcFrame.bytes, hbuf]
    exact ⟨_, rfl, rfl, hqueued, hremaining.trans hbytes.symm, .inr ⟨hremaining, _, rfl⟩, rfl, rfl,
      rfl⟩
  | some buf =>
    rw [hbuf] at hdata
    rw [Option.map_some, if_pos (hdata.mpr rfl)]
    have hbytes : frame.bytes.length = buf.1.length := by simp [IpcFrame.bytes, hbuf]
    exact ⟨_, rfl, rfl, hqueued, (IpcFrame.rawDataLength hbuf).trans hbytes.symm, .inl rfl, rfl,
      rfl, rfl⟩

/-! ### What is on the way -/

/-- Of the frames that were written some are begun, which have their socket queued and their data
delivered but for what is left. What is on the way is that and the frames that are not begun; the
units of it that are available are listed. -/
structure Begun (s : IpcReader κ) (begun rest : List IpcFrame) (left : List UInt8)
    (units : List (List UInt8)) : Prop where
  writes : s.writes = begun ++ rest
  queued : s.queued = begun.filterMap (·.socket)
  delivered : s.delivered ++ left = begun.flatMap IpcFrame.bytes
  remaining : s.remainingIpcRawdataBytes = left.length
  wire : units ++ s.transit = left.map ([·]) ++ rest.flatMap IpcFrame.units
  pipe : s.pipe = units.flatten

/-- The begun frames, and what `alloc_cb` was told. A reader outside its loop waits for data. -/
structure Framed (s : IpcReader κ) : Prop where
  begun : ∃ begun rest left units, Begun s begun rest left units
  remaining_lt : s.remainingIpcRawdataBytes < 2 ^ 32
  alloc : ∀ avail, s.phase = .alloc avail → 0 < s.remainingIpcRawdataBytes →
    0 < avail ∧ avail ≤ s.remainingIpcRawdataBytes ∧ avail ≤ s.pipe.length
  idle : s.reading = true → s.phase = .idle → s.readPending = true

theorem Framed.of_flags (hs : Framed s) {writerClosed reading readPending readable : Bool}
    {phase : ReadPhase} (hphase : phase = s.phase ∨ ∀ avail, phase ≠ .alloc avail)
    (hidle : reading = true → phase = .idle → readPending = true) :
    Framed { s with writerClosed, reading, readPending, readable, phase } := by
  obtain ⟨begun, rest, left, units, hbegun⟩ := hs.begun
  refine ⟨⟨begun, rest, left, units, ?_⟩, hs.remaining_lt, fun avail ha hpos => ?_, hidle⟩
  · exact { hbegun with }
  · rcases hphase with rfl | hne
    · exact hs.alloc avail ha hpos
    · exact absurd ha (hne avail)

theorem uvPipeWriteImpl_cases (bufs : List UvBuf) (sendHandle : Option SendHandle)
    {calls : WriteCalls} (hdata : calls.data = 0) :
    uvPipeWriteImpl bufs sendHandle calls = ((ipcFrame bufs sendHandle calls).units, 0) ∨
      ∃ err, err ≠ 0 ∧ uvPipeWriteImpl bufs sendHandle calls = ([], err) := by
  unfold uvPipeWriteImpl
  split_ifs with hnbufs hsend hduplicate hheader hfail
  · exact .inr ⟨_, by decide, rfl⟩
  · exact .inr ⟨_, by decide, rfl⟩
  · exact .inr ⟨_, hduplicate.2, rfl⟩
  · exact .inr ⟨_, hheader, rfl⟩
  · exact absurd hdata hfail.2
  · exact .inl rfl

theorem Framed.write (hs : Framed s) (bufs : List UvBuf) (sendHandle : Option SendHandle)
    {calls : WriteCalls} (hdata : calls.data = 0) :
    ∃ t, s.next (.write bufs sendHandle calls) = some t ∧ Framed t := by
  rcases uvPipeWriteImpl_cases bufs sendHandle hdata with hcall | ⟨err, herr, hcall⟩
  · simp only [next, hcall, ↓reduceIte]
    obtain ⟨begun, rest, left, units, hbegun⟩ := hs.begun
    refine ⟨_, rfl, ⟨begun, rest ++ [ipcFrame bufs sendHandle calls], left, units, ?_⟩,
      hs.remaining_lt, hs.alloc, hs.idle⟩
    exact { hbegun with
      writes := by
        rw [hbegun.writes, append_assoc]
      wire := by
        rw [← append_assoc, hbegun.wire]
        simp }
  · simp only [next, hcall, if_neg herr, append_nil]
    exact ⟨_, rfl, hs⟩

theorem Framed.arrive (hs : Framed s) (henabled : Enabled s .arrive) :
    ∃ t, s.next .arrive = some t ∧ Framed t := by
  obtain ⟨unit, hunit, -⟩ := henabled
  obtain ⟨begun, rest, left, units, hbegun⟩ := hs.begun
  obtain ⟨transit, htransit⟩ := List.head?_eq_some_iff.mp hunit
  have hwire := hbegun.wire
  simp only [next, htransit] at hwire ⊢
  refine ⟨_, rfl, ⟨begun, rest, left, units ++ [unit], ?_⟩, hs.remaining_lt,
    fun avail ha hpos => ?_, hs.idle⟩
  · exact { hbegun with
      wire := by
        rw [append_assoc]
        exact hwire
      pipe := by
        rw [flatten_concat, hbegun.pipe] }
  · obtain ⟨havail, hle, hpipe⟩ := hs.alloc avail ha hpos
    refine ⟨havail, hle, Nat.le_trans hpipe ?_⟩
    rw [length_append]
    exact Nat.le_add_right ..

/-! ### The loop of the reader -/

theorem Framed.readFrame (hs : Framed s) (hpipe : s.pipe ≠ [])
    (hremaining : s.remainingIpcRawdataBytes = 0) :
    ∃ t, s.readFrame s.pipe.length = some t ∧ Framed t := by
  obtain ⟨begun, rest, left, units, hbegun⟩ := hs.begun
  obtain rfl : left = [] := eq_nil_of_length_eq_zero (hbegun.remaining.symm.trans hremaining)
  have hwire := hbegun.wire
  rcases units with _ | ⟨unit, units⟩
  · exact absurd hbegun.pipe hpipe
  rcases rest with _ | ⟨frame, rest⟩
  · cases hwire
  have hwire : unit :: (units ++ s.transit) =
      frame.headerBytes :: (frame.bytes.map ([·]) ++ rest.flatMap IpcFrame.units) := hwire
  obtain ⟨rfl, htail⟩ := cons_eq_cons.mp hwire
  obtain ⟨t, hread, ht⟩ := readFrame_eq (s := s) hbegun.pipe hremaining
  refine ⟨t, hread, ⟨begun ++ [frame], rest, frame.bytes, units, ?_⟩, ?_, fun avail ha hpos => ?_,
    fun hreading hidle => ?_⟩
  · constructor
    · rw [ht.writes, hbegun.writes, append_assoc]
      rfl
    · rw [ht.queued, hbegun.queued, filterMap_append]
      cases hsocket : frame.socket with
      | none => rw [filterMap_cons_none hsocket]; rfl
      | some socket => rw [filterMap_cons_some hsocket]; rfl
    · have hdelivered := hbegun.delivered
      rw [append_nil] at hdelivered
      rw [ht.delivered, hdelivered, flatMap_append]
      simp
    · exact ht.remaining
    · rw [ht.transit]
      exact htail
    · exact ht.pipe
  · rw [ht.remaining]
    exact IpcFrame.bytes_length_lt
  · rcases ht.phase with hloop | ⟨hzero, -⟩
    · cases hloop.symm.trans ha
    · omega
  · rcases ht.phase with hloop | ⟨-, avail, halloc⟩
    · cases hloop.symm.trans hidle
    · cases halloc.symm.trans hidle

theorem Framed.round (hs : Framed s) : ∃ t, s.round = some t ∧ Framed t := by
  unfold IpcReader.round
  dsimp only
  split_ifs with hreading hbroken havail hremaining
  · refine ⟨_, rfl, hs.of_flags (.inr nofun) fun h => ?_⟩
    cases hreading.symm.trans h
  · exact ⟨_, rfl, hs.of_flags (.inr nofun) nofun⟩
  · exact ⟨_, rfl, hs.of_flags (.inr nofun) fun _ _ => rfl⟩
  · apply hs.readFrame ?_ hremaining
    intro hnil
    exact havail (congrArg List.length hnil)
  · obtain ⟨begun, rest, left, units, hbegun⟩ := hs.begun
    refine ⟨_, rfl, ⟨begun, rest, left, units, ?_⟩, hs.remaining_lt, fun avail ha hpos => ?_, nofun⟩
    · exact { hbegun with }
    · cases ha
      rw [mod_eq_of_lt hs.remaining_lt]
      exact ⟨by omega, Nat.min_le_right .., Nat.min_le_left ..⟩

theorem Framed.readData (hs : Framed s) {avail len : ℕ} (hphase : s.phase = .alloc avail)
    (hcareful : s.remainingIpcRawdataBytes = 0 → len = 0) :
    ∃ t, s.readData avail len = some t ∧ Framed t := by
  unfold IpcReader.readData
  by_cases hlen : len = 0
  · rw [if_pos hlen]
    exact ⟨_, rfl, hs.of_flags (.inr nofun) nofun⟩
  rw [if_neg hlen]
  by_cases hbroken : s.Broken
  · rw [if_pos hbroken]
    exact ⟨_, rfl, hs.of_flags (.inr nofun) nofun⟩
  rw [if_neg hbroken]
  have hpos : 0 < s.remainingIpcRawdataBytes := Nat.pos_of_ne_zero fun h => hlen (hcareful h)
  obtain ⟨-, hleft, hpipe⟩ := hs.alloc avail hphase hpos
  have htake : (s.pipe.take (min len avail)).length = min len avail := by
    rw [length_take]
    omega
  dsimp only [readFile]
  rw [htake, if_neg (by omega)]
  obtain ⟨begun, rest, left, units, hbegun⟩ := hs.begun
  have hremaining := hbegun.remaining
  rw [hbegun.pipe] at hpipe
  obtain ⟨hbytes, hdrop, hwire⟩ := take_units hbegun.wire (k := min len avail) (by omega)
    (by omega)
  refine ⟨_, rfl, ⟨begun, rest, left.drop (min len avail), units.drop (min len avail), ?_⟩, ?_,
    nofun, nofun⟩
  · constructor
    · exact hbegun.writes
    · exact hbegun.queued
    · dsimp only
      rw [hbegun.pipe, hbytes, append_assoc, take_append_drop, hbegun.delivered]
    · dsimp only
      rw [hremaining, length_drop]
    · exact hwire
    · dsimp only
      rw [hbegun.pipe, hdrop]
  · exact Nat.lt_of_le_of_lt (sub_le ..) hs.remaining_lt

theorem received_uvPipeAccept {pipe : IpcPipe κ SocketInfoEx} {client : κ} {calls : ImportCalls} :
    (pipe.uvPipeAccept client calls).1.received = pipe.received := by
  unfold IpcPipe.uvPipeAccept IpcPipe.uvTcpImport
  rcases pipe.queue with _ | ⟨item, queue⟩
  · rfl
  · dsimp only
    split_ifs <;> rfl

theorem Framed.accept (hs : Framed s) (client : κ) (calls : ImportCalls) :
    Framed { s with sockets := (s.sockets.uvPipeAccept client calls).1 } := by
  obtain ⟨begun, rest, left, units, hbegun⟩ := hs.begun
  refine { hs with begun := ⟨begun, rest, left, units, ?_⟩ }
  refine { hbegun with queued := ?_ }
  rw [queued, received_uvPipeAccept]
  exact hbegun.queued

/-! ### Runs -/

theorem Framed.step (hs : Framed s) (henabled : Enabled s e) (hcareful : Careful s e) :
    ∃ t, s.step e = some t ∧ Framed t := by
  rw [IpcReader.step, if_pos henabled]
  cases e with
  | write bufs sendHandle calls => exact hs.write bufs sendHandle hcareful
  | arrive => exact hs.arrive henabled
  | closeWriter => exact ⟨_, rfl, hs.of_flags (.inl rfl) hs.idle⟩
  | process => exact ⟨_, rfl, hs.of_flags (.inr (by simp)) (by simp)⟩
  | processError err =>
    cases hreading : s.reading with
    | false =>
      refine ⟨{ s with readPending := false }, by simp [next, hreading], ?_⟩
      apply hs.of_flags (.inl rfl)
      intro h
      cases hreading.symm.trans h
    | true =>
      simp only [next, hreading, ↓reduceIte, uvPipeReadErrorOrEof]
      split_ifs
      · exact ⟨_, rfl, hs.of_flags (.inr (by simp)) (by simp)⟩
      · exact ⟨_, rfl, hs.of_flags (.inr (by simp)) (by simp)⟩
  | round => exact hs.round
  | buffer len =>
    obtain ⟨⟨avail, hphase⟩, -⟩ := henabled
    simp only [next, hphase]
    exact hs.readData hphase hcareful
  | finish =>
    refine ⟨_, rfl, hs.of_flags (.inr (by simp)) fun hreading _ => ?_⟩
    simp [hreading]
  | start =>
    refine ⟨_, rfl, ?_⟩
    unfold uvReadStart
    split_ifs
    · exact hs
    · exact hs.of_flags (.inl rfl) fun _ _ => rfl
  | stop => exact ⟨_, rfl, hs.of_flags (.inl rfl) (by simp)⟩
  | accept client calls => exact ⟨_, rfl, hs.accept client calls⟩

theorem Framed.of_reachable (h : Reachable Init (Guarded Careful Step) s) : Framed s := by
  apply h.invariant
  · intro s hs
    refine ⟨⟨[], [], [], [], ?_⟩, ?_, fun avail ha => ?_, fun hreading => ?_⟩
    · constructor
      · exact hs.writes
      · simp [queued, hs.received]
      · simp [hs.delivered]
      · exact hs.remainingIpcRawdataBytes
      · simp [hs.transit]
      · exact hs.pipe
    · rw [hs.remainingIpcRawdataBytes]
      exact Nat.two_pow_pos 32
    · cases hs.phase.symm.trans ha
    · cases hs.reading.symm.trans hreading
  · rintro s e t - hs ⟨hcareful, hstep⟩
    have henabled : Enabled s e := by
      by_contra hne
      rw [Step, IpcReader.step, if_neg hne] at hstep
      cases hstep
    obtain ⟨u, hu, hframed⟩ := hs.step henabled hcareful
    rw [Step, hu] at hstep
    cases hstep
    exact hframed

/-- If no data is missing after a header, the frames that were begun have their socket queued, and
their data was delivered but for as many bytes as remain. Nothing else is left when nothing is on
the way. A reader that waits is told of data, it never waits in the middle of a frame, and no
assertion fails. -/
theorem frames_delivered (h : Reachable Init (Guarded Careful Step) s) :
    (∃ begun rest left, s.writes = begun ++ rest ∧ s.queued = begun.filterMap (·.socket) ∧
      s.delivered ++ left = begun.flatMap IpcFrame.bytes ∧
      s.remainingIpcRawdataBytes = left.length ∧
      (s.transit = [] → s.pipe = [] → left = [] ∧ rest = [])) ∧
    (s.reading = true → s.phase = .idle → s.readPending = true) ∧
    (∀ avail len, s.phase = .alloc avail → Careful s (.buffer len) → Enabled s (.buffer len)) ∧
    ∀ e, Enabled s e → Careful s e → ∃ t, Step s e t := by
  have hs := Framed.of_reachable h
  refine ⟨?_, hs.idle, fun avail len hphase hcareful => ?_, fun e henabled hcareful => ?_⟩
  · obtain ⟨begun, rest, left, units, hbegun⟩ := hs.begun
    refine ⟨begun, rest, left, hbegun.writes, hbegun.queued, hbegun.delivered, hbegun.remaining,
      fun htransit hpipe => ?_⟩
    have hflat : (units ++ s.transit).flatten = [] := by
      rw [List.flatten_append, ← hbegun.pipe, hpipe, htransit]
      rfl
    rw [hbegun.wire] at hflat
    constructor
    · cases left with
      | nil => rfl
      | cons b left => simp at hflat
    · cases rest with
      | nil => rfl
      | cons frame rest =>
        have hheader : frame.headerBytes.length ≠ 0 := by
          simp [IpcFrame.headerBytes, sizeofIpcFrameHeader]
        simp only [List.flatMap_cons, IpcFrame.units, List.cons_append, List.flatten_append,
          List.flatten_cons, List.append_eq_nil_iff] at hflat
        exact absurd (congrArg List.length hflat.2.1) hheader
  · refine ⟨⟨avail, hphase⟩, ?_⟩
    by_cases hlen : len = 0
    · exact .inl hlen
    · have hpos : 0 < s.remainingIpcRawdataBytes := Nat.pos_of_ne_zero fun h => hlen (hcareful h)
      obtain ⟨havail, -, hpipe⟩ := hs.alloc avail hphase hpos
      refine .inr (.inl fun hnil => ?_)
      rw [hnil] at hpipe
      exact absurd hpipe (Nat.not_le.mpr havail)
  · obtain ⟨t, ht, -⟩ := hs.step henabled hcareful
    exact ⟨t, ht⟩

/-! ### Concrete runs -/

def freshReader : IpcReader ℕ :=
  ⟨[], [], false, false, false, true, 0, ⟨[], 0, 0, false, false, [], [], [], []⟩, .idle, [], []⟩

theorem init_freshReader : Init freshReader := ⟨rfl, rfl, rfl, rfl, rfl, rfl, rfl, rfl, rfl⟩

/-- The calls succeed, and the socket info is zero. -/
def zeroCalls : WriteCalls where
  socketInfoEx := ⟨List.replicate sizeofSocketInfoEx 0, List.length_replicate⟩
  duplicate := 0
  header := 0
  data := 0
  padding := 0
  garbage := 0

def boundTcp : SendHandle := ⟨true, true, false⟩

def readTwice : List (Event ℕ) :=
  [.write [⟨[1, 2, 3], by decide⟩] (some boundTcp) zeroCalls, .arrive, .start, .arrive, .arrive,
    .process, .round, .round, .buffer 2, .arrive, .finish, .process, .round, .buffer 2, .finish]

set_option maxRecDepth 8000 in
theorem readTwice_isSome :
    (readTwice.foldlM (fun s e => if Careful s e then step s e else none) freshReader).isSome =
      true := by
  rfl

set_option maxRecDepth 8000 in
/-- Three bytes and a socket are read with buffers of two bytes. -/
theorem frames_delivered_three : ∃ s : IpcReader ℕ, s.delivered = [1, 2, 3] ∧
    s.queued = [(zeroCalls.socketInfoEx, false)] ∧ s.readPending = true := by
  have hframed := frames_delivered (.of_foldlM_if (.init init_freshReader)
    (Option.some_get readTwice_isSome).symm)
  refine ⟨_, ?_, ?_, hframed.2.1 ?_ ?_⟩ <;> decide

def sendWithoutData : List (Event ℕ) :=
  [.write [] (some boundTcp) zeroCalls, .write [⟨[1], by decide⟩] none zeroCalls, .arrive, .arrive,
    .start, .process, .round]

set_option maxRecDepth 8000 in
theorem sendWithoutData_isSome : (sendWithoutData.foldlM step freshReader).isSome = true := by
  rfl

/-- The first header is read, and `alloc_cb` is called. -/
def sentWithoutData : IpcReader ℕ :=
  (sendWithoutData.foldlM step freshReader).get sendWithoutData_isSome

set_option maxRecDepth 8000 in
/-- A socket is sent without data. The next header is read as data, and an assertion fails. -/
theorem header_misread : Reachable Init Step sentWithoutData ∧
    sentWithoutData.pipe =
      (sentWithoutData.writes.getLast?.map IpcFrame.headerBytes).getD [] ∧
    Enabled sentWithoutData (.buffer 65536) ∧ ¬ ∃ t, Step sentWithoutData (.buffer 65536) t := by
  refine ⟨.of_foldlM (.init init_freshReader) (Option.some_get sendWithoutData_isSome).symm,
    by decide, by decide, fun ⟨t, ht⟩ => ?_⟩
  have hnone : sentWithoutData.step (.buffer 65536) = none := by
    rw [← Option.isNone_iff_eq_none]
    decide
  cases hnone.symm.trans ht

end IpcReader

end LibuvWorks.Win
