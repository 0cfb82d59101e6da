import LibuvWorks.UVSocket.Server

/-!
# The clients of a server are deleted once

As long as every connection that is reported can be accepted, a `CSockData` is deleted exactly
when libuv is done with its handle.
-/
namespace LibuvWorks.UVSocket

open List

/-- The calls of `uv_close` that a handle has seen. -/
def Tcp.closes : Tcp → ℕ
  | .unset | .opened => 0
  | .closing _ | .closed => 1

def Tcp.callbacks : Tcp → ℕ
  | .closed => 1
  | _ => 0

namespace Server

open Function (update update_apply)
open Transition History

/-- A `CSockData` is deleted after the close callback of its handle. -/
def AfterClosed : Obs → List Obs → Prop
  | .delete data, older => .closed data ∈ older
  | _, _ => True

/-- A connection that is reported is accepted, under an id that no client has. -/
def Accepted (s : Server) : Event → Prop
  | .connection _ ret _ =>
    ret.tcpInit = 0 ∧ ret.accept = 0 ∧ ∀ client ∈ s.clients, client.1 ≠ nextId s.id
  | _ => True

instance (s : Server) (e : Event) : Decidable (Accepted s e) :=
  match e with
  | .connection _ _ _ => inferInstanceAs (Decidable (_ ∧ _ ∧ _))
  | .start _ | .close | .recv _ _ _ | .closed _ | .otherId => inferInstanceAs (Decidable True)

variable {s t : Server} {data : ℕ} {e : Event}

/-- What is open is listed, under its own id, and what happened to a handle agrees with what
libuv knows of it. -/
structure Owned (s : Server) : Prop where
  listed : ∀ client ∈ s.clients,
    s.handle client.2 = .opened ∧ s.clientId client.2 = client.1
  opened : ∀ data, s.handle data = .opened → (s.clientId data, data) ∈ s.clients
  ids : (s.clients.map Prod.fst).Nodup
  unset : ∀ data, s.handle data = .unset ↔ s.created ≤ data
  called : ∀ data, s.handle data ≠ .closing false
  closes : ∀ data, s.log.count (.uvClose data) = (s.handle data).closes
  closed : ∀ data, s.log.count (.closed data) = (s.handle data).callbacks
  deletes : ∀ data, s.log.count (.delete data) = (s.handle data).callbacks
  after : Justified AfterClosed s.log

theorem Owned.of_init (h : Init s) : Owned s := by
  obtain ⟨-, hclients, hcreated, hhandle, hlog⟩ := h
  refine ⟨?_, ?_, ?_, ?_, ?_, ?_, ?_, ?_, ?_⟩ <;>
    simp [hclients, hcreated, hhandle, hlog, Tcp.closes, Tcp.callbacks]

/-- `uv_close` is called on the open handles in `S`, which are no longer listed. -/
structure ClosedIn (S : ℕ → Prop) (s t : Server) : Prop where
  created : t.created = s.created
  clientId : t.clientId = s.clientId
  clients : ∀ client, client ∈ t.clients ↔ client ∈ s.clients ∧ ¬ S client.2
  sublist : t.clients.Sublist s.clients
  inside : ∀ data, S data → t.handle data = .closing true ∧
    t.log.count (.uvClose data) = s.log.count (.uvClose data) + 1
  outside : ∀ data, ¬ S data → t.handle data = s.handle data ∧
    t.log.count (.uvClose data) = s.log.count (.uvClose data)
  closed : ∀ data, t.log.count (.closed data) = s.log.count (.closed data)
  deletes : ∀ data, t.log.count (.delete data) = s.log.count (.delete data)
  after : Justified AfterClosed s.log → Justified AfterClosed t.log

theorem Owned.closedIn {S : ℕ → Prop} (h : Owned s) (hclosed : ClosedIn S s t)
    (hopened : ∀ data, S data → s.handle data = .opened) : Owned t := by
  have hhandle : ∀ data, t.handle data = .opened → ¬ S data ∧ s.handle data = .opened := by
    intro data ht
    by_cases hS : S data
    · simp [(hclosed.inside data hS).1] at ht
    · exact ⟨hS, (hclosed.outside data hS).1 ▸ ht⟩
  refine ⟨fun client hmem => ?_, fun data ht => ?_, ?_, fun data => ?_, fun data => ?_,
    fun data => ?_, fun data => ?_, fun data => ?_, hclosed.after h.after⟩
  · obtain ⟨hmem, hS⟩ := (hclosed.clients client).mp hmem
    rw [(hclosed.outside _ hS).1, hclosed.clientId]
    exact h.listed client hmem
  · obtain ⟨hS, hs⟩ := hhandle data ht
    rw [hclosed.clients, hclosed.clientId]
    exact ⟨h.opened data hs, hS⟩
  · exact h.ids.sublist (hclosed.sublist.map _)
  · rw [hclosed.created, ← h.unset]
    by_cases hS : S data
    · simp [(hclosed.inside data hS).1, hopened data hS]
    · rw [(hclosed.outside data hS).1]
  · by_cases hS : S data
    · simp [(hclosed.inside data hS).1]
    · rw [(hclosed.outside data hS).1]
      exact h.called data
  · by_cases hS : S data
    · rw [(hclosed.inside data hS).1, (hclosed.inside data hS).2, h.closes, hopened data hS]
      rfl
    · rw [(hclosed.outside data hS).1, (hclosed.outside data hS).2, h.closes]
  · rw [hclosed.closed, h.closed]
    by_cases hS : S data
    · rw [(hclosed.inside data hS).1, hopened data hS]
      rfl
    · rw [(hclosed.outside data hS).1]
  · rw [hclosed.deletes, h.deletes]
    by_cases hS : S data
    · rw [(hclosed.inside data hS).1, hopened data hS]
      rfl
    · rw [(hclosed.outside data hS).1]

/-- `uv_close` on each of some clients. -/
def closeAll (s : Server) (clients : List (ℤ × ℕ)) : Server :=
  clients.foldl (fun s client => s.uvClose client.2 true) s

theorem close_eq :
    s.close = { s.closeAll s.clients with clients := [], isinit := false } := rfl

theorem closeAll_fields (clients : List (ℤ × ℕ)) :
    (s.closeAll clients).created = s.created ∧ (s.closeAll clients).clientId = s.clientId ∧
      (s.closeAll clients).clients = s.clients := by
  induction clients generalizing s with
  | nil => exact ⟨rfl, rfl, rfl⟩
  | cons client clients ih => exact ih (s := s.uvClose client.2 true)

section

variable {clients : List (ℤ × ℕ)}

theorem closeAll_handle :
    (s.closeAll clients).handle data =
      if data ∈ clients.map Prod.snd then .closing true else s.handle data := by
  induction clients generalizing s with
  | nil => rfl
  | cons client clients ih =>
    rw [closeAll, foldl_cons, ← closeAll, ih]
    by_cases hdata : data = client.2
    · simp [hdata]
    · have hmem : data ∈ (client :: clients).map Prod.snd ↔ data ∈ clients.map Prod.snd := by
        simp [hdata]
      simp only [hmem]
      simp [hdata]

theorem closeAll_closes :
    (s.closeAll clients).log.count (.uvClose data) =
      s.log.count (.uvClose data) + (clients.map Prod.snd).count data := by
  induction clients generalizing s with
  | nil => rfl
  | cons client clients ih =>
    rw [closeAll, foldl_cons, ← closeAll, ih]
    simp [count_cons]
    omega

theorem closeAll_other {o : Obs} (ho : ∀ data, o ≠ .uvClose data) :
    (s.closeAll clients).log.count o = s.log.count o := by
  induction clients generalizing s with
  | nil => rfl
  | cons client clients ih =>
    rw [closeAll, foldl_cons, ← closeAll, ih]
    simp [(ho client.2).symm]

theorem closeAll_after (h : Justified AfterClosed s.log) :
    Justified AfterClosed (s.closeAll clients).log := by
  induction clients generalizing s with
  | nil => exact h
  | cons client clients ih =>
    apply ih (s := s.uvClose client.2 true)
    simpa [AfterClosed] using h

end

theorem Owned.nodup (h : Owned s) : (s.clients.map Prod.snd).Nodup := by
  apply (nodup_map_iff_inj_on h.ids.of_map).mpr
  intro c hc d hd heq
  have := (h.listed c hc).2
  rw [heq, (h.listed d hd).2] at this
  exact Prod.ext this.symm heq

theorem Owned.close (h : Owned s) : Owned s.close := by
  obtain ⟨hcreated, hclientId, -⟩ := closeAll_fields (s := s) s.clients
  refine h.closedIn (S := fun data => data ∈ s.clients.map Prod.snd) ?_ fun data hdata => ?_
  · refine ⟨hcreated, hclientId, fun client => ?_, nil_sublist _, fun data hdata => ?_,
      fun data hdata => ?_, fun data => closeAll_other (by simp),
        fun data => closeAll_other (by simp),
      closeAll_after⟩
    · simp only [close_eq, not_mem_nil, false_iff, not_and, not_not]
      exact fun hmem => mem_map_of_mem hmem
    · rw [close_eq]
      exact ⟨by rw [closeAll_handle, if_pos hdata],
        by rw [closeAll_closes, count_eq_one_of_mem h.nodup hdata]⟩
    · rw [close_eq]
      exact ⟨by rw [closeAll_handle, if_neg hdata],
        by rw [closeAll_closes, count_eq_zero_of_not_mem hdata, Nat.add_zero]⟩
  · obtain ⟨client, hmem, rfl⟩ := mem_map.mp hdata
    exact (h.listed client hmem).1

theorem find_of_mem {clients : List (ℤ × ℕ)} {id : ℤ} (hids : (clients.map Prod.fst).Nodup)
    (hmem : (id, data) ∈ clients) :
    clients.find? (fun client => client.1 = id) = some (id, data) := by
  induction clients with
  | nil => cases hmem
  | cons client clients ih =>
    obtain ⟨hnot, hids⟩ := nodup_cons.mp hids
    obtain rfl | hmem := mem_cons.mp hmem
    · simp
    · have hne : client.1 ≠ id := by
        rintro rfl
        exact hnot (mem_map.mpr ⟨_, hmem, rfl⟩)
      rw [List.find?_cons_of_neg (by simpa using hne)]
      exact ih hids hmem

theorem Owned.deleteClient (h : Owned s) (hdata : s.handle data = .opened) :
    Owned (s.deleteClient (s.clientId data)) := by
  have hmem := h.opened data hdata
  rw [Server.deleteClient, find_of_mem h.ids hmem]
  refine h.closedIn (S := fun d => d = data) ?_ fun d hd => hd ▸ hdata
  refine ⟨rfl, rfl, fun client => ?_, filter_sublist, ?_, fun d hd => ?_, fun d => ?_,
    fun d => ?_, fun hafter => ?_⟩
  · simp only [mem_filter, decide_eq_true_eq]
    refine and_congr_right fun hclient => not_congr ⟨fun hid => ?_, fun hd => ?_⟩
    · have heq := (inj_on_of_nodup_map h.ids) hclient hmem hid
      rw [heq]
    · rw [← hd, (h.listed client hclient).2]
  · rintro d rfl
    simp
  · simp [hd, Ne.symm hd]
  · simp
  · simp
  · simpa [AfterClosed] using hafter

/-- The server once a connection has been accepted, before `newconcb_` is called. -/
def adopted (s : Server) : Server :=
  { s.create.setHandle s.created .opened with
    clients := s.clients ++ [(nextId s.id, s.created)] }

theorem acceptConnection_eq {status : ℤ} {ret : Returns} {closes : Bool}
    (h : Accepted s (.connection status ret closes)) :
    s.acceptConnection status ret closes =
      let t := if closes then s.adopted.close else s.adopted
      if t.handle s.created = .opened ∧ ret.readStart = 0 then
        { t with reading := update t.reading s.created true }
      else t := by
  obtain ⟨hinit, haccept, hid⟩ := h
  have hinsert : insert s.clients (nextId s.id) s.created =
      s.clients ++ [(nextId s.id, s.created)] := by
    rw [insert]
    simpa using fun d hmem => hid (nextId s.id, d) hmem rfl
  simp [acceptConnection, hinit, haccept, hinsert, adopted]

theorem Owned.adopted (h : Owned s) (hid : ∀ client ∈ s.clients, client.1 ≠ nextId s.id) :
    Owned s.adopted := by
  have hnew : s.handle s.created = .unset := (h.unset _).mpr le_rfl
  have hlisted : ∀ client ∈ s.clients, client.2 ≠ s.created := by
    intro client hmem heq
    have := (h.listed client hmem).1
    rw [heq, hnew] at this
    cases this
  refine ⟨fun client hmem => ?_, fun data hdata => ?_, ?_, fun data => ?_, fun data => ?_,
    fun data => ?_, fun data => ?_, fun data => ?_, ?_⟩
  · obtain hmem | hmem := mem_append.mp hmem
    · simpa [Server.adopted, hlisted client hmem] using h.listed client hmem
    · obtain rfl := mem_singleton.mp hmem
      simp [Server.adopted]
  · by_cases hd : data = s.created
    · simp [Server.adopted, hd]
    · have hold : s.handle data = .opened := by simpa [Server.adopted, hd] using hdata
      simpa [Server.adopted, hd] using h.opened data hold
  · simpa [Server.adopted, nodup_append, h.ids] using fun id d hmem => hid (id, d) hmem
  · by_cases hd : data = s.created
    · simp [Server.adopted, hd]
    · have := h.unset data
      simp [Server.adopted, hd, this]
      omega
  · by_cases hd : data = s.created
    · simp [Server.adopted, hd]
    · simpa [Server.adopted, hd] using h.called data
  · by_cases hd : data = s.created
    · have := h.closes data
      simp_all [Server.adopted, Tcp.closes]
    · simpa [Server.adopted, hd] using h.closes data
  · by_cases hd : data = s.created
    · have := h.closed data
      simp_all [Server.adopted, Tcp.callbacks]
    · simpa [Server.adopted, hd] using h.closed data
  · by_cases hd : data = s.created
    · have := h.deletes data
      simp_all [Server.adopted, Tcp.callbacks]
    · simpa [Server.adopted, hd] using h.deletes data
  · simpa [Server.adopted, AfterClosed] using h.after

theorem Owned.acceptConnection {status : ℤ} {ret : Returns} {closes : Bool} (h : Owned s)
    (hacc : Accepted s (.connection status ret closes)) :
    Owned (s.acceptConnection status ret closes) := by
  have hadopted := h.adopted hacc.2.2
  have hcalled : Owned (if closes then s.adopted.close else s.adopted) := by
    split
    · exact hadopted.close
    · exact hadopted
  rw [acceptConnection_eq hacc]
  dsimp only
  generalize (if closes then s.adopted.close else s.adopted) = t at hcalled ⊢
  split
  · exact ⟨hcalled.1, hcalled.2, hcalled.3, hcalled.4, hcalled.5, hcalled.6, hcalled.7,
      hcalled.8, hcalled.9⟩
  · exact hcalled

theorem Owned.closeCallback (h : Owned s) (hp : s.Pending (.closed data)) :
    Owned (s.next (.closed data)) := by
  have hclosing : s.handle data = .closing true := hp.resolve_right (h.called data)
  have hother : ∀ d, s.handle d = .opened → d ≠ data := by
    rintro d hd rfl
    simp [hclosing] at hd
  simp only [next, hclosing, if_true, afterClientClose]
  refine ⟨fun client hmem => ?_, fun d hd => ?_, h.ids, fun d => ?_, fun d => ?_, fun d => ?_,
    fun d => ?_, fun d => ?_, ?_⟩
  · obtain ⟨hopen, hid⟩ := h.listed client hmem
    simp [hother _ hopen, hopen, hid]
  · have hne : d ≠ data := by
      rintro rfl
      simp at hd
    exact h.opened d (by simpa [hne] using hd)
  · by_cases hd : d = data
    · simp [hd, ← h.unset, hclosing]
    · simp [hd, h.unset]
  · by_cases hd : d = data
    · simp [hd]
    · simpa [hd] using h.called d
  · by_cases hd : d = data
    · simp [hd, h.closes, hclosing, Tcp.closes]
    · simp [hd, h.closes]
  · by_cases hd : d = data
    · simp [hd, h.closed, hclosing, Tcp.callbacks]
    · simp [hd, Ne.symm hd, h.closed]
  · by_cases hd : d = data
    · simp [hd, h.deletes, hclosing, Tcp.callbacks]
    · simp [hd, Ne.symm hd, h.deletes]
  · simpa [AfterClosed] using h.after

theorem Owned.step (h : Owned s) (hacc : Accepted s e) (hstep : Step s e t) : Owned t := by
  obtain ⟨hp, rfl⟩ : s.Pending e ∧ s.next e = t := by
    simpa [Step, Server.step] using hstep
  cases e with
  | start init =>
    have hclose := h.close
    exact ⟨hclose.1, hclose.2, hclose.3, hclose.4, hclose.5, hclose.6, hclose.7, hclose.8, hclose.9⟩
  | close => exact h.close
  | connection status ret closes => exact h.acceptConnection hacc
  | recv data nread closes =>
    simp only [next, afterServerRecv]
    split
    · exact h.deleteClient hp.1
    · split
      · exact h
      · split
        · exact h.close
        · exact h
  | closed data => exact h.closeCallback hp
  | otherId => exact ⟨h.1, h.2, h.3, h.4, h.5, h.6, h.7, h.8, h.9⟩

theorem Owned.of_reachable (h : Reachable Init (StepIf Accepted) s) : Owned s :=
  h.invariant (fun _ => .of_init) fun _ _ _ _ hs hstep => hs.step hstep.1 hstep.2

/-- In every run in which each connection that is reported can be accepted: `uv_close` is called
at most once for a handle, and never for a listed client; a `CSockData` is deleted at most once,
and after the close callback of its handle; and until then it is listed, or that callback is
due. -/
theorem deleted_once (h : Reachable Init (StepIf Accepted) s) (data : ℕ)
    (hdata : data < s.created) :
    s.log.count (.uvClose data) ≤ 1 ∧ s.log.count (.delete data) ≤ 1 ∧
      (∀ id, (id, data) ∈ s.clients → .uvClose data ∉ s.log) ∧
      (∀ newer older, s.log = newer ++ .delete data :: older → .closed data ∈ older) ∧
      ((∃ id, (id, data) ∈ s.clients) ∨ s.Pending (.closed data) ∨ .delete data ∈ s.log) := by
  have howned := Owned.of_reachable h
  have hcloses := howned.closes data
  have hdeletes := howned.deletes data
  refine ⟨?_, ?_, fun id hmem hlog => ?_, fun newer older hlog => ?_, ?_⟩
  · rw [hcloses]
    cases s.handle data <;> simp [Tcp.closes]
  · rw [hdeletes]
    cases s.handle data <;> simp [Tcp.callbacks]
  · rw [(howned.listed _ hmem).1] at hcloses
    exact List.count_eq_zero.mp hcloses hlog
  · exact howned.after newer (.delete data) older hlog
  · cases hhandle : s.handle data with
    | unset => exact absurd hdata (by simpa using (howned.unset data).mp hhandle)
    | opened => exact .inl ⟨_, howned.opened data hhandle⟩
    | closing cb =>
      cases cb
      · exact absurd hhandle (howned.called data)
      · exact .inr (.inl (.inl hhandle))
    | closed =>
      rw [hhandle] at hdeletes
      exact .inr (.inr (List.count_pos_iff.mp (by rw [hdeletes]; exact Nat.one_pos)))

/-! ### Concrete runs -/

def start : Server where
  isinit := false
  clients := []
  id := 0
  created := 0
  clientId _ := 0
  handle _ := .unset
  reading _ := false
  log := []

def Returns.ok : Returns := ⟨0, 0, 0⟩

theorem init_start : Init start := ⟨rfl, rfl, rfl, fun _ => rfl, rfl⟩

theorem reachable_of_runIf {cond : Server → Event → Prop} [∀ s e, Decidable (cond s e)]
    {es : List Event}
    (h : es.foldlM (fun s e => if cond s e then step s e else none) start = some s) :
    Reachable Init (StepIf cond) s :=
  .of_foldlM_if (.init init_start) h

/-- A client comes and goes. -/
theorem deleted_once_eof :
    ∃ s : Server, 0 < s.created ∧ s.log.count (.uvClose 0) ≤ 1 ∧ s.log.count (.delete 0) ≤ 1 ∧
      (∀ id, (id, 0) ∈ s.clients → .uvClose 0 ∉ s.log) ∧
      (∀ newer older, s.log = newer ++ .delete 0 :: older → .closed 0 ∈ older) ∧
      ((∃ id, (id, 0) ∈ s.clients) ∨ s.Pending (.closed 0) ∨ .delete 0 ∈ s.log) := by
  have hsome : ([.start true, .connection 0 .ok false, .recv 0 (-4095) false, .closed 0].foldlM
      (fun s e => if Accepted s e then step s e else none) start).isSome = true := by rfl
  exact ⟨_, Nat.one_pos,
    deleted_once (reachable_of_runIf (Option.some_get hsome).symm) 0 Nat.one_pos⟩

/-- A connection is reported with an error, and `uv_accept` returns `-EAGAIN`. -/
theorem failedAccept_deletes :
    ∃ s : Server, Reachable Init Step s ∧ s.log = [.delete 0, .uvClose 0, .create 0] ∧
      s.handle 0 = .closing false := by
  have hsome : ([.start true, .connection (-24) ⟨0, -11, 0⟩ false].foldlM step start).isSome =
      true := by rfl
  exact ⟨_, .of_foldlM (.init init_start) (Option.some_get hsome).symm, by rfl, by rfl⟩

end Server

end LibuvWorks.UVSocket
