import SomoNet.Sockets

/-!
# What a link does to its handles

A handler may call the link from inside a callback, and the rest of the libuv callback then works
on what the handler has left. `closeError` looks at `m_pTcp` again before it closes the handle;
`on_connect` does not before it starts reading.

A handle is closed by four routines, which all take it from `m_pTcp` and put `NULL` there. One of
them is the destructor, and it does not wait for what is still pending: a write that it cancels
completes later, with a pointer to the deleted link, on which `on_write` then calls `close`.
-/

namespace SomoNet

open Run

/-- The TCP handle that a call into libuv is applied to, which may be `NULL`. The timer's handle
lives as long as the link. -/
def Obs.handle : Obs → Option (Option HandleId)
  | .tcpConnect h _ | .write h _ | .uvClose h => some (some h)
  | .readStart h _ => some h
  | _ => none

/-- The call is applied to a handle that exists and is not closed, if it is applied to any. -/
def Obs.OnOpen (l : Loop) (o : Obs) : Prop :=
  ∀ h, o.handle = some h → ∃ g, h = some g ∧ l.isOpen g = true

namespace TcpSys

/-! ## After the handler returns -/

/-- The rest of the callback that called the handler. -/
def Returns : TcpEvent → Prop
  | .connectedReturn _ | .dataReturn _ | .closeReturn => True
  | _ => False

/-- After the handler has returned, every call into libuv is applied to an open handle. -/
def ReturnsSafely (s : TcpSys) (e : TcpEvent) (s' : TcpSys) : Prop :=
  Returns e → ∃ calls, s'.link.trace = s.link.trace ++ calls ∧ ∀ o ∈ calls, o.OnOpen s.loop

/-- When `on_connected` returns, the link has a handle. -/
def ReturnsConnected (s : TcpSys) (e : TcpEvent) : Prop :=
  ∀ r, e = .connectedReturn r → s.link.pTcp ≠ none

instance (s : TcpSys) (e : TcpEvent) : Decidable (s.ReturnsConnected e) :=
  match e with
  | .connectedReturn r => decidable_of_iff (s.link.pTcp ≠ none)
    ⟨fun h _ _ => h, fun h => h r rfl⟩
  | .setHandler _ | .connect _ _ _ | .send _ _ | .close | .connectDone _ _ _ | .read _ _
  | .readAgain _ | .readError _ | .dataReturn _ | .closeReturn | .writeDone _ _ | .tick _ =>
    isTrue fun _ h => by cases h

/-- `on_connected` is followed by `uv_timer_stop` and `uv_read_start` on whatever is in `m_pTcp`. -/
theorem returnsSafely_connectedReturn {s : TcpSys} (hs : SocketInv s) (r : ℤ) :
    ReturnsSafely s (.connectedReturn r) (s.connectedReturn r) ↔ s.link.pTcp ≠ none := by
  have htrace : (s.connectedReturn r).link.trace =
      s.link.trace ++ [.timerStop, .readStart s.link.pTcp r] := by
    show (connectedTail { s with link := { s.link with frame := .idle } } r).link.trace = _
    rw [connectedTail_link]
    exact List.append_assoc _ _ _
  constructor
  · intro h hnone
    obtain ⟨calls, hcalls, hopen⟩ := h trivial
    have heq : calls = [.timerStop, .readStart s.link.pTcp r] :=
      List.append_cancel_left (hcalls.symm.trans htrace)
    obtain ⟨g, hg, -⟩ := hopen (.readStart s.link.pTcp r) (by simp [heq]) s.link.pTcp rfl
    rw [hnone] at hg
    cases hg
  · intro hsome _
    obtain ⟨g, hg⟩ := Option.ne_none_iff_exists'.mp hsome
    refine ⟨_, htrace, fun o ho h hh => ?_⟩
    have hcases : o = .timerStop ∨ o = .readStart s.link.pTcp r := by simpa using ho
    rcases hcases with rfl | rfl
    · cases hh
    · cases hh
      exact ⟨g, hg, hs.isOpen hg⟩

/-- `closeError` closes only a handle that it finds in `m_pTcp` after `on_close`. -/
theorem returnsSafely_closeReturn {s : TcpSys} (hs : SocketInv s) :
    ReturnsSafely s .closeReturn s.closeReturn := by
  intro _
  have htrace : s.closeReturn.link.trace =
      s.link.trace ++ (s.link.pTcp.toList.map .uvClose ++ [.timerStop]) := by
    show (shut { s with link := { s.link with frame := .idle } }).link.trace = _
    rw [shut_link]
    exact List.append_assoc _ _ _
  refine ⟨_, htrace, fun o ho h hh => ?_⟩
  rcases List.mem_append.mp ho with hclose | hstop
  · obtain ⟨g, hg, rfl⟩ := List.mem_map.mp hclose
    cases hh
    exact ⟨g, rfl, hs.isOpen (Option.mem_toList.mp hg)⟩
  · cases List.mem_singleton.mp hstop
    cases hh

theorem returnsSafely_step {s s' : TcpSys} {e : TcpEvent} (hs : SocketInv s)
    (h : s.step e = some s') : ReturnsSafely s e s' ↔ ReturnsConnected s e := by
  cases step_case h with
  | connectedReturn r hframe =>
    rw [returnsSafely_connectedReturn hs r]
    exact ⟨fun h _ _ => h, fun h => h r rfl⟩
  | closeReturn hframe => exact iff_of_true (returnsSafely_closeReturn hs) fun _ he => by cases he
  | dataReturn c hframe =>
    refine iff_of_true (fun _ => ⟨[.handled c], ?_, fun o ho h hh => ?_⟩) fun _ he => by cases he
    · rw [dataReturn_link]
    · cases List.mem_singleton.mp ho
      cases hh
  | _ => exact iff_of_true (fun hreturns => hreturns.elim) fun _ he => by cases he

/-- **Re-entrancy.** In a run of a client or an accepted link, whatever its handler calls from
inside its callbacks, the calls into libuv that follow a callback are all applied to an open handle
if and only if the link has a handle whenever `on_connected` returns. -/
theorem returnsSafely_iff {self : LinkPtr} {loop : Loop} (hloop : loop.Fresh) {s : TcpSys}
    (hstart : s = client self loop ∨ s = accepted self loop) (es : List TcpEvent) :
    EachMove step ReturnsSafely s es ↔ EachStep step ReturnsConnected s es := by
  have hs : SocketInv s := by
    rcases hstart with rfl | rfl
    · exact socketInv_client self hloop
    · exact socketInv_accepted self hloop
  refine eachMove_iff_eachStep socketInv_step ?_ hs es
  intro s e s' hs h
  exact returnsSafely_step hs h

/-- The handler answers `on_close` with `close`. -/
def closeInCloseRun : List TcpEvent :=
  [.setHandler true, .readError 0, .close, .closeReturn]

theorem returnsSafely_closeInCloseRun :
    EachMove step ReturnsSafely (accepted 0 Loop.new) closeInCloseRun :=
  (returnsSafely_iff Loop.fresh_new (Or.inr rfl) closeInCloseRun).mpr (by decide +kernel)

/-- The handler closes the connection from inside `on_connected`. -/
def closeInConnectedRun : List TcpEvent :=
  [.setHandler true, .connect "10.0.0.1" 80 0, .connectDone 0 0 0, .close]

/-- Reading is started on `NULL`. -/
theorem not_returnsSafely_closeInConnectedRun :
    ¬ EachMove step ReturnsSafely (client 0 Loop.new)
      (closeInConnectedRun ++ [.connectedReturn 0]) := by
  intro h
  obtain ⟨hreturn, -⟩ := (h.of_append rfl) _ rfl
  obtain ⟨calls, hcalls, hopen⟩ := hreturn trivial
  have heq : calls = [.timerStop, .readStart none 0] :=
    List.append_cancel_left (hcalls.symm.trans rfl)
  obtain ⟨g, hg, -⟩ := hopen (.readStart none 0) (by simp [heq]) none rfl
  cases hg

/-! ## Closing -/

/-- The handles that `uv_close` has been called on. -/
def closedHandles (trace : List Obs) : List HandleId :=
  trace.filterMap fun o => match o with
    | .uvClose h => some h
    | _ => none

theorem closedHandles_append (trace trace' : List Obs) :
    closedHandles (trace ++ trace') = closedHandles trace ++ closedHandles trace' :=
  List.filterMap_append

theorem closedHandles_uvClose (h : Option HandleId) :
    closedHandles (h.toList.map .uvClose) = h.toList := by
  cases h <;> rfl

/-- What a step does with `uv_close`: it does not call it, or it calls it on the handle in
`m_pTcp`, if there is one, and leaves `NULL` there. -/
structure ClosesCurrent (s s' : TcpSys) : Prop where
  next_le : s.loop.nextHandle ≤ s'.loop.nextHandle
  closed : closedHandles s'.link.trace = closedHandles s.link.trace ∨
    s'.link.pTcp = none ∧
      closedHandles s'.link.trace = closedHandles s.link.trace ++ s.link.pTcp.toList

/-- The step writes other things than `uv_close` to the trace. -/
theorem ClosesCurrent.of_calls {s s' : TcpSys} (hnext : s.loop.nextHandle ≤ s'.loop.nextHandle)
    {calls : List Obs} (htrace : s'.link.trace = s.link.trace ++ calls)
    (hcalls : closedHandles calls = []) : ClosesCurrent s s' := by
  refine ⟨hnext, Or.inl ?_⟩
  rw [htrace, closedHandles_append, hcalls, List.append_nil]

theorem closesCurrent_connect (s : TcpSys) (ip : String) (port : UInt16) (r : ℤ) :
    ClosesCurrent s (s.connect ip port r).1 := by
  have hnext : s.loop.nextHandle ≤ (s.connect ip port r).1.loop.nextHandle := by
    rw [connect_loop]
    split <;> exact Nat.le_succ _
  have htrace : (s.connect ip port r).1.link.trace = s.link.trace ++
      ([.tcpConnect s.loop.nextHandle r] ++ if r = 0 then [.timerStart] else []) := by
    rw [connect_link]
    exact List.append_assoc _ _ _
  refine .of_calls hnext htrace ?_
  by_cases hr : r = 0
  · rw [if_pos hr]
    rfl
  · rw [if_neg hr]
    rfl

theorem closesCurrent_send (s : TcpSys) (data : List UInt8) (r : ℤ) :
    ClosesCurrent s (s.send data r).1 := by
  have hout := s.send_outcome data r
  generalize s.send data r = res at hout ⊢
  rcases hout with _ | _ | _ | _
  · exact .of_calls le_rfl (List.append_nil _).symm rfl
  · exact .of_calls le_rfl (List.append_nil _).symm rfl
  · exact .of_calls le_rfl (List.append_nil _).symm rfl
  · exact .of_calls le_rfl rfl rfl

theorem closesCurrent_shut (s : TcpSys) : ClosesCurrent s s.shut := by
  refine ⟨?_, Or.inr ⟨?_, ?_⟩⟩
  · rw [shut_loop]
    cases s.link.pTcp <;> exact le_rfl
  · rw [shut_link]
  · rw [shut_link]
    simp only [closedHandles_append, closedHandles_uvClose]
    exact List.append_nil _

theorem ClosesCurrent.timerStart {s s' : TcpSys} (h : ClosesCurrent s s') :
    ClosesCurrent s s'.timerStart := by
  refine ⟨h.next_le, ?_⟩
  have htrace : closedHandles s'.timerStart.link.trace = closedHandles s'.link.trace := by
    rw [timerStart_link, closedHandles_append]
    exact List.append_nil _
  rw [htrace]
  exact h.closed

theorem closesCurrent_connectedTail (s : TcpSys) (r : ℤ) :
    ClosesCurrent s (s.connectedTail r) := by
  have htrace : (s.connectedTail r).link.trace =
      s.link.trace ++ [.timerStop, .readStart s.link.pTcp r] := by
    rw [connectedTail_link]
    exact List.append_assoc _ _ _
  refine .of_calls ?_ htrace rfl
  rw [connectedTail_loop]
  split
  · split <;> exact le_rfl
  · exact le_rfl

theorem closesCurrent_step {s s' : TcpSys} {e : TcpEvent} (h : s.step e = some s') :
    ClosesCurrent s s' := by
  cases step_case h with
  | setHandler handler => exact .of_calls le_rfl (List.append_nil _).symm rfl
  | connect ip port r =>
    have hconnect := closesCurrent_connect { s with link := { s.link with asked := true } } ip port r
    exact ⟨hconnect.next_le, hconnect.closed⟩
  | send data r => exact closesCurrent_send s data r
  | close =>
    have hshut := closesCurrent_shut { s with link := { s.link with asked := false } }
    exact ⟨hshut.next_le, hshut.closed⟩
  | @connectDone q g status r hreq hidle hstatus =>
    by_cases hneg : status < 0
    · rw [onConnect_failed s q r hneg]
      exact .of_calls le_rfl (List.append_nil _).symm rfl
    by_cases hh : s.link.pHandler = true
    · rw [onConnect_handler s q r hneg hh]
      exact .of_calls le_rfl rfl rfl
    · rw [onConnect_noHandler s q r hneg hh]
      -- without a handler the rest of `on_connect` runs at once
      have htail := closesCurrent_connectedTail
        { link := { s.link with bConnecting := false, bConnected := true }
          loop := s.loop.finish q } r
      exact ⟨htail.next_le, htail.closed⟩
  | connectedReturn r hframe =>
    have htail := closesCurrent_connectedTail { s with link := { s.link with frame := .idle } } r
    exact ⟨htail.next_le, htail.closed⟩
  | @read g seg hidle hreads hne hlen =>
    have htrace := congrArg TcpLink.trace (onRead_link s hlen)
    refine .of_calls ?_ htrace ?_
    · rw [onRead_loop]
    · by_cases hh : s.link.pHandler = true
      · rw [if_pos hh]
        rfl
      · rw [if_neg hh]
        rfl
  | readAgain => exact .of_calls le_rfl (List.append_nil _).symm rfl
  | @readError g hidle hreads =>
    have hshut := closesCurrent_shut { s with loop := s.loop.setReading g false }
    -- with a handler `on_close` is called first, and `closeReturn` closes
    unfold onReadError
    dsimp only
    split
    · exact .of_calls le_rfl rfl rfl
    · unfold closeError
      split
      · exact .of_calls le_rfl rfl rfl
      · exact ⟨hshut.next_le, hshut.closed⟩
  | @dataReturn c hframe =>
    refine .of_calls ?_ (congrArg TcpLink.trace (dataReturn_link s c)) rfl
    rw [dataReturn_loop]
  | closeReturn hframe =>
    have hshut := closesCurrent_shut { s with link := { s.link with frame := .idle } }
    exact ⟨hshut.next_le, hshut.closed⟩
  | @writeDone q g mem len payload status hreq hidle hstatus =>
    by_cases hneg : status < 0
    -- `close`, and for a client the timer
    · have hshut := closesCurrent_shut { s with loop := afterWrite s.loop q mem }
      have hfailed : ClosesCurrent s (shut { s with loop := afterWrite s.loop q mem }) :=
        ⟨hshut.next_le, hshut.closed⟩
      rw [onWrite_failed s q mem hneg]
      split
      · exact hfailed.timerStart
      · exact hfailed
    · rw [onWrite_done s q mem hneg]
      exact .of_calls le_rfl (List.append_nil _).symm rfl
  | tick r hidle htimer =>
    by_cases hretry : s.link.bConnected = false ∧ s.link.bConnecting = false
    · rw [onTimer_retry s r hretry]
      exact closesCurrent_connect s _ _ r
    · rw [onTimer_busy s r hretry]
      exact .of_calls le_rfl (List.append_nil _).symm rfl

/-- `TcpLink::~TcpLink`. The timer is closed as well, whose `m_pTimer` no other object sees. -/
def destroy (s : TcpSys) : TcpSys :=
  let s := { s with link := { s.link with timerActive := false } }
  match s.link.pTcp with
  | some h =>
    if s.loop.isOpen h then
      emit { link := { s.link with pTcp := none }, loop := s.loop.uvClose h } (.uvClose h)
    else s
  | none => s

/-- The handles closed are handles that the link once had, and are sockets no more. None was
closed twice. -/
structure ClosedInv (s : TcpSys) : Prop where
  sockets : SocketInv s
  old : ∀ h ∈ closedHandles s.link.trace, h < s.loop.nextHandle
  gone : ∀ h ∈ closedHandles s.link.trace, ¬ s.Socket h
  nodup : (closedHandles s.link.trace).Nodup

/-- What a step closes are open handles of the link. -/
def ClosesOpen (s s' : TcpSys) : Prop :=
  ∃ closed, closedHandles s'.link.trace = closedHandles s.link.trace ++ closed ∧
    ∀ h ∈ closed, s.Socket h

theorem closedInv_client (self : LinkPtr) {loop : Loop} (hloop : loop.Fresh) :
    ClosedInv (client self loop) :=
  ⟨socketInv_client self hloop, fun _ h => absurd h List.not_mem_nil,
    fun _ h => absurd h List.not_mem_nil, List.nodup_nil⟩

theorem closedInv_accepted (self : LinkPtr) {loop : Loop} (hloop : loop.Fresh) :
    ClosedInv (accepted self loop) :=
  ⟨socketInv_accepted self hloop, fun _ h => absurd h List.not_mem_nil,
    fun _ h => absurd h List.not_mem_nil, List.nodup_nil⟩

/-- A closed handle never becomes a socket again: a new one has another identity. -/
theorem ClosedInv.gone_of_move {s s' : TcpSys} {e : TcpEvent} (hs : ClosedInv s)
    (hmove : SocketMove s e s') {h : HandleId} (hh : h ∈ closedHandles s.link.trace) :
    ¬ s'.Socket h := by
  intro hsocket
  have hgone := hs.gone h hh
  cases hmove with
  | keeps _ _ hkeeps => exact hgone ((hkeeps.socket h).mp hsocket)
  | opens _ hopens =>
    rcases (hopens.socket h).mp hsocket with rfl | hold
    · exact absurd (hs.old _ hh) (lt_irrefl _)
    · exact hgone hold
  | closes _ hcloses => exact hgone ((hcloses.socket h).mp hsocket).2

/-- A step that leaves `NULL` in `m_pTcp` has closed the handle that was there. -/
theorem SocketMove.gone_current {s s' : TcpSys} {e : TcpEvent} (hmove : SocketMove s e s')
    {g : HandleId} (hcur : s.link.pTcp = some g) (hnull : s'.link.pTcp = none) : ¬ s'.Socket g := by
  intro hsocket
  cases hmove with
  | keeps _ _ hkeeps =>
    rw [hkeeps.pTcp, hcur] at hnull
    cases hnull
  | opens _ hopens =>
    rw [hopens.pTcp] at hnull
    cases hnull
  | closes _ hcloses => exact ((hcloses.socket g).mp hsocket).1 hcur

theorem ClosedInv.of_move {s s' : TcpSys} {e : TcpEvent} (hs : ClosedInv s)
    (hfresh : s'.loop.Fresh) (hcloses : ClosesCurrent s s') (hmove : SocketMove s e s') :
    ClosedInv s' ∧ ClosesOpen s s' := by
  have hsockets := hmove.socketInv hs.sockets hfresh
  have hold : ∀ h ∈ closedHandles s.link.trace, h < s'.loop.nextHandle :=
    fun h hh => (hs.old h hh).trans_le hcloses.next_le
  -- the handle in `m_pTcp`, if there is one, is the only one that can have been closed
  have hsame : closedHandles s'.link.trace = closedHandles s.link.trace →
      ClosedInv s' ∧ ClosesOpen s s' := by
    intro heq
    refine ⟨⟨hsockets, ?_, ?_, ?_⟩, [], by rw [heq, List.append_nil], by simp⟩
    · rw [heq]
      exact hold
    · rw [heq]
      exact fun h hh => hs.gone_of_move hmove hh
    · rw [heq]
      exact hs.nodup
  rcases hcloses.closed with heq | ⟨hnull, heq⟩
  · exact hsame heq
  · cases hcur : s.link.pTcp with
    | none =>
      rw [hcur] at heq
      exact hsame (heq.trans (List.append_nil _))
    | some g =>
      have hg : s.Socket g := hs.sockets.current g hcur
      have hclosed : closedHandles s'.link.trace = closedHandles s.link.trace ++ [g] := by
        rw [heq, hcur]
        rfl
      have hmem : ∀ h ∈ closedHandles s'.link.trace, h ∈ closedHandles s.link.trace ∨ h = g := by
        intro h hh
        rw [hclosed] at hh
        simpa using hh
      refine ⟨⟨hsockets, fun h hh => ?_, fun h hh => ?_, ?_⟩, [g], hclosed, by simpa using hg⟩
      · rcases hmem h hh with hh | rfl
        · exact hold h hh
        · exact (hs.sockets.lt_next hg).trans_le hcloses.next_le
      · rcases hmem h hh with hh | rfl
        · exact hs.gone_of_move hmove hh
        · exact hmove.gone_current hcur hnull
      · rw [hclosed]
        refine List.Nodup.append hs.nodup (List.nodup_singleton g) ?_
        simpa using fun hh => hs.gone g hh hg

theorem closedInv_step {s s' : TcpSys} {e : TcpEvent} (hs : ClosedInv s) (h : s.step e = some s') :
    ClosedInv s' ∧ ClosesOpen s s' :=
  hs.of_move (fresh_step hs.sockets.fresh h) (closesCurrent_step h) (step_sockets h)

/-- The destructor closes the handle in `m_pTcp`, which is open if there is one. -/
theorem destroy_link {s : TcpSys} (hs : SocketInv s) :
    s.destroy.link =
      { s.link with
        timerActive := false
        pTcp := none
        trace := s.link.trace ++ s.link.pTcp.toList.map .uvClose } := by
  unfold destroy emit
  cases hcur : s.link.pTcp with
  | none => simp [hcur]
  | some g => simp [hcur, hs.isOpen hcur]

theorem destroy_loop {s : TcpSys} (hs : SocketInv s) :
    s.destroy.loop = match s.link.pTcp with
      | some h => s.loop.uvClose h
      | none => s.loop := by
  unfold destroy emit
  cases hcur : s.link.pTcp with
  | none => simp [hcur]
  | some g => simp [hcur, hs.isOpen hcur]

theorem closedInv_destroy {s : TcpSys} (hs : ClosedInv s) :
    ClosedInv s.destroy ∧ ClosesOpen s s.destroy := by
  have hlink := destroy_link hs.sockets
  have hloop := destroy_loop hs.sockets
  have hfresh : s.destroy.loop.Fresh := by
    rw [hloop]
    split
    · exact hs.sockets.fresh.uvClose _
    · exact hs.sockets.fresh
  have hcalls : ClosesCurrent s s.destroy := by
    refine ⟨?_, Or.inr ⟨by rw [hlink], ?_⟩⟩
    · rw [hloop]
      cases s.link.pTcp <;> exact le_rfl
    · rw [hlink]
      simp only [closedHandles_append, closedHandles_uvClose]
  have hcloses : ClosesSocket s s.destroy := .of_loop (by rw [hlink]) (by rw [hlink]) hloop
  exact hs.of_move hfresh hcalls (.closes (e := .close) not_false hcloses)

end TcpSys

/-! ## What is pending when a link is deleted -/

/-- What happens to a link only while it exists: the calls of its user, and of its timer, which
the destructor closes. -/
def TcpEvent.needsLink : TcpEvent → Bool
  | .setHandler _ | .connect _ _ _ | .send _ _ | .close | .tick _ => true
  | _ => false

/-- The code that runs for the event uses the link. The end of `on_read` does not if the handler has
consumed nothing, and neither does `on_write` if the write has not failed. -/
def TcpEvent.usesLink : TcpEvent → Bool
  | .dataReturn handled_len => 0 < handled_len
  | .writeDone _ status => status < 0
  | _ => true

namespace TcpSys

/-- Nothing is left that would use the link after the destructor: no callback of its handler is
running, no request of the link is pending, and no handle but the one that the destructor closes is
read for it. -/
structure Settled (s : TcpSys) : Prop where
  idle : s.link.frame = .idle
  noConnect : ∀ q h, s.loop.reqs q ≠ some (.connect s.link.self h)
  noWrite : ∀ q h mem len payload, s.loop.reqs q ≠ some (.write s.link.self h mem len payload)
  reads : ∀ h, s.Reads h → s.link.pTcp = some h

theorem reqs_destroy {s : TcpSys} (hs : SocketInv s) : s.destroy.loop.reqs = s.loop.reqs := by
  rw [destroy_loop hs]
  split <;> rfl

theorem reads_destroy {s : TcpSys} (hs : SocketInv s) (h : HandleId) :
    s.destroy.Reads h ↔ s.Reads h ∧ s.link.pTcp ≠ some h :=
  reads_of_close (by rw [destroy_link hs]) (destroy_loop hs) h

theorem Settled.destroy {s : TcpSys} (hs : SocketInv s) (h : Settled s) : Settled s.destroy := by
  have hself : s.destroy.link.self = s.link.self := by rw [destroy_link hs]
  constructor
  · rw [destroy_link hs]
    exact h.idle
  · rw [hself, reqs_destroy hs]
    exact h.noConnect
  · rw [hself, reqs_destroy hs]
    exact h.noWrite
  · intro g hreads
    obtain ⟨hold, hne⟩ := (reads_destroy hs g).mp hreads
    exact absurd (h.reads g hold) hne

/-- Nothing calls back for a settled link that has no handle. -/
theorem Settled.needsLink {s s' : TcpSys} {e : TcpEvent} (hs : Settled s)
    (hnone : s.link.pTcp = none) (h : s.step e = some s') : e.needsLink = true := by
  have hunread : ∀ g, ¬ s.Reads g := by
    intro g hreads
    have hcur := hs.reads g hreads
    rw [hnone] at hcur
    cases hcur
  have hframe : ∀ f, s.link.frame = f → f = .idle := fun f hf => hf.symm.trans hs.idle
  cases step_case h with
  | setHandler | connect | send | close | tick => rfl
  | connectDone r hreq => exact absurd hreq (hs.noConnect _ _)
  | writeDone hreq => exact absurd hreq (hs.noWrite _ _ _ _ _)
  | read hidle hreads => exact absurd hreads (hunread _)
  | readAgain hidle hreads => exact absurd hreads (hunread _)
  | readError hidle hreads => exact absurd hreads (hunread _)
  | connectedReturn r hf => cases hframe _ hf
  | dataReturn c hf => cases hframe _ hf
  | closeReturn hf => cases hframe _ hf

/-- If no callback can use the deleted link, nothing was pending. -/
theorem settled_of_unused {s : TcpSys} (hs : SocketInv s)
    (hunused : ∀ e s', s.destroy.step e = some s' → e.needsLink = false → e.usesLink = false) :
    Settled s := by
  have hlink := destroy_link hs
  have hreqs := reqs_destroy hs
  -- whatever callback is running would go on with the deleted link
  have hidle : s.link.frame = .idle := by
    cases hframe : s.link.frame with
    | idle => rfl
    | inConnected =>
      have hreturn : s.destroy.step (.connectedReturn 0) = some (s.destroy.connectedReturn 0) := by
        simp [step, hlink, hframe]
      cases hunused _ _ hreturn rfl
    | inData =>
      have hreturn : s.destroy.step (.dataReturn 1) = some (s.destroy.dataReturn 1) := by
        simp [step, hlink, hframe]
      cases hunused _ _ hreturn rfl
    | inClose =>
      have hreturn : s.destroy.step .closeReturn = some s.destroy.closeReturn := by
        simp [step, hlink, hframe]
      cases hunused _ _ hreturn rfl
  constructor
  · exact hidle
  -- a pending connect can be cancelled
  · intro q h hreq
    have hdone : s.destroy.step (.connectDone q UV_ECANCELED 0) =
        some (s.destroy.onConnect q UV_ECANCELED 0) := by
      simp [step, hreqs, hreq, hlink, hidle, StatusOk]
    cases hunused _ _ hdone rfl
  · intro q h mem len payload hreq
    have hdone : s.destroy.step (.writeDone q UV_ECANCELED) =
        some (s.destroy.onWrite q mem UV_ECANCELED) := by
      simp [step, hreqs, hreq, hlink, hidle, WriteStatusOk, StatusOk]
    cases hunused _ _ hdone rfl
  · intro h hreads
    by_contra hother
    have herror : s.destroy.step (.readError h) = some (s.destroy.onReadError h) := by
      simp [step, (reads_destroy hs h).mpr ⟨hreads, hother⟩, hlink, hidle]
    cases hunused _ _ herror rfl

end TcpSys

/-! ## Deleting the link -/

/-- A link that its user can delete. -/
structure Lived where
  sys : TcpSys
  alive : Bool
  /-- A callback has used the link after it was deleted. -/
  dangling : Bool

inductive LivedEvent
  | link (e : TcpEvent)
  | destroy
  deriving DecidableEq

namespace Lived

open TcpSys

/-- A run ends with a callback that uses the deleted link, since what that does to freed memory is
not defined. -/
def step (s : Lived) : LivedEvent → Option Lived
  | .link e =>
    if s.dangling then none
    else if s.alive then (s.sys.step e).map fun sys => { s with sys }
    else if e.needsLink then none
    else (s.sys.step e).map fun sys =>
      if e.usesLink then { s with dangling := true } else { s with sys }
  | .destroy => if s.alive then some ⟨s.sys.destroy, false, false⟩ else none

/-- No handle is closed twice, and no deleted link is used, which could close anything. -/
structure ClosesOnce (s : Lived) : Prop where
  nodup : (closedHandles s.sys.link.trace).Nodup
  defined : s.dangling = false

/-- `uv_close` is called on open handles of the link. -/
def ClosesOwn (s : Lived) (_e : LivedEvent) (s' : Lived) : Prop := ClosesOpen s.sys s'.sys

/-- The link is deleted when nothing of it is pending. -/
def DestroysSettled (s : Lived) (e : LivedEvent) : Prop := e = .destroy → Settled s.sys

/-- The run is defined so far, and if the link is deleted, nothing of it was pending. -/
structure Tidy (s : Lived) : Prop where
  closed : ClosedInv s.sys
  defined : s.dangling = false
  settled : s.alive = false → Settled s.sys ∧ s.sys.link.pTcp = none

theorem Tidy.closesOnce {s : Lived} (hs : Tidy s) : ClosesOnce s := ⟨hs.closed.nodup, hs.defined⟩

/-- Nothing happens any more to a link that was deleted with nothing pending. -/
theorem Tidy.step_none {s : Lived} (hs : Tidy s) (hdead : s.alive = false) (e : LivedEvent) :
    s.step e = none := by
  obtain ⟨hsettled, hnone⟩ := hs.settled hdead
  cases e with
  | destroy => simp [step, hdead]
  | link e =>
    cases hstep : s.sys.step e with
    | none => simp [step, hdead, hstep]
    | some t => simp [step, hdead, hsettled.needsLink hnone hstep]

theorem Tidy.destroy {s : Lived} (hs : Tidy s) (hsettled : Settled s.sys) :
    Tidy ⟨s.sys.destroy, false, false⟩ where
  closed := (closedInv_destroy hs.closed).1
  defined := rfl
  settled _ := ⟨hsettled.destroy hs.closed.sockets, by rw [destroy_link hs.closed.sockets]⟩

theorem tidy_step {s s' : Lived} {e : LivedEvent} (hs : Tidy s) (hc : DestroysSettled s e)
    (h : s.step e = some s') : Tidy s' ∧ ClosesOpen s.sys s'.sys := by
  cases halive : s.alive with
  | false =>
    rw [hs.step_none halive] at h
    cases h
  | true =>
    cases e with
    | link e =>
      simp only [step, hs.defined, halive, Bool.false_eq_true, if_false, if_true] at h
      obtain ⟨sys, hstep, rfl⟩ := Option.map_eq_some_iff.mp h
      obtain ⟨hclosed, hopen⟩ := closedInv_step hs.closed hstep
      exact ⟨⟨hclosed, rfl, fun hdead => by cases hdead⟩, hopen⟩
    | destroy =>
      simp only [step, halive, if_true] at h
      cases h
      exact ⟨hs.destroy (hc rfl), (closedInv_destroy hs.closed).2⟩

/-- As long as the link exists, the run is defined. -/
structure Sane (s : Lived) : Prop where
  closed : s.alive = true → ClosedInv s.sys
  defined : s.alive = true → s.dangling = false

theorem sane_step : Invariant step Sane := by
  intro s e s' hs h
  cases halive : s.alive with
  | false =>
    -- a deleted link stays deleted, and nothing more is asked of it
    have hdead : s'.alive = false := by
      cases e with
      | destroy => simp [step, halive] at h
      | link e =>
        simp only [step, halive, Bool.false_eq_true, if_false] at h
        split_ifs at h
        · obtain ⟨sys, -, rfl⟩ := Option.map_eq_some_iff.mp h
          rfl
        · obtain ⟨sys, -, rfl⟩ := Option.map_eq_some_iff.mp h
          rfl
    exact ⟨fun hs' => (by cases hdead.symm.trans hs'), fun hs' => (by cases hdead.symm.trans hs')⟩
  | true =>
    cases e with
    | link e =>
      simp only [step, hs.defined halive, halive, Bool.false_eq_true, if_false, if_true] at h
      obtain ⟨sys, hstep, rfl⟩ := Option.map_eq_some_iff.mp h
      exact ⟨fun _ => (closedInv_step (hs.closed halive) hstep).1, fun _ => rfl⟩
    | destroy =>
      simp only [step, halive, if_true] at h
      cases h
      exact ⟨fun hs' => (by cases hs'), fun hs' => (by cases hs')⟩

/-- Deleting the link is harmless, whatever follows, exactly when nothing is pending. -/
theorem always_destroy_iff {s : Lived} (hs : Tidy s) (halive : s.alive = true) :
    (∀ es, Always step ClosesOnce s (.destroy :: es)) ↔ Settled s.sys := by
  have hstep : s.step .destroy = some ⟨s.sys.destroy, false, false⟩ := if_pos halive
  constructor
  · intro hall
    refine settled_of_unused hs.closed.sockets fun e t he hneeds => ?_
    by_contra huses
    have huse : step ⟨s.sys.destroy, false, false⟩ (.link e) = some ⟨s.sys.destroy, false, true⟩ := by
      simp [step, he, hneeds, (Bool.not_eq_false _).mp huses]
    have hdefined := (((hall [.link e]).2 _ hstep).2 _ huse).defined
    cases hdefined
  · intro hsettled es
    have htidy := hs.destroy hsettled
    refine ⟨hs.closesOnce, fun t ht => ?_⟩
    cases hstep.symm.trans ht
    cases es with
    | nil => exact htidy.closesOnce
    | cons e es =>
      refine ⟨htidy.closesOnce, fun u hu => ?_⟩
      rw [htidy.step_none rfl] at hu
      cases hu

/-- **No double close.** In a run of a client or an accepted link, whatever its user and its handler
do, `uv_close` is called on open handles of the link only, and on none of them twice, if the link is
deleted only when nothing of it is pending. That is also needed: if anything of the link is pending
when it is deleted, then some run that follows uses the deleted link. -/
theorem closes_once_iff {self : LinkPtr} {loop : Loop} (hloop : loop.Fresh) {s : TcpSys}
    (hstart : s = client self loop ∨ s = accepted self loop) :
    (∀ es, EachStep step DestroysSettled ⟨s, true, false⟩ es →
      Always step ClosesOnce ⟨s, true, false⟩ es ∧ EachMove step ClosesOwn ⟨s, true, false⟩ es) ∧
    ∀ t, Reaches step ⟨s, true, false⟩ t → t.alive = true →
      ((∀ es, Always step ClosesOnce t (.destroy :: es)) ↔ Settled t.sys) := by
  have hs : ClosedInv s := by
    rcases hstart with rfl | rfl
    · exact closedInv_client self hloop
    · exact closedInv_accepted self hloop
  have htidy : Tidy ⟨s, true, false⟩ := ⟨hs, rfl, fun hdead => by cases hdead⟩
  constructor
  · intro es hes
    constructor
    · have hinv : Invariant step fun _ => True := fun _ _ _ _ _ => trivial
      have hall : Always step Tidy ⟨s, true, false⟩ es :=
        hes.always hinv (fun _ _ _ _ ht hc h => (tidy_step ht hc h).1) trivial htidy
      exact hall.mono fun _ ht => ht.closesOnce
    · exact hes.eachMove (fun _ _ _ ht hc h => tidy_step ht hc h) htidy
  · intro t ht halive
    have hsane : Sane t := sane_step.reaches ⟨fun _ => hs, fun _ => rfl⟩ ht
    exact always_destroy_iff
      ⟨hsane.closed halive, hsane.defined halive, fun hdead => by cases halive.symm.trans hdead⟩ halive

/-- A link is closed and deleted after its write has completed. -/
def settledRun : List LivedEvent :=
  [.link (.send [1] 0), .link (.writeDone 0 0), .link .close, .destroy]

theorem closes_once_iff_settledRun :
    Always step ClosesOnce ⟨accepted 0 Loop.new, true, false⟩ settledRun ∧
      EachMove step ClosesOwn ⟨accepted 0 Loop.new, true, false⟩ settledRun := by
  refine (closes_once_iff Loop.fresh_new (Or.inr rfl)).1 settledRun ?_
  intro t₁ h₁
  cases h₁
  refine ⟨fun he => (by cases he), fun t₂ h₂ => ?_⟩
  cases h₂
  refine ⟨fun he => (by cases he), fun t₃ h₃ => ?_⟩
  cases h₃
  refine ⟨fun he => (by cases he), fun t₄ h₄ => ⟨fun _ => ?_, trivial⟩⟩
  -- the one request is done, and the one handle is closed
  refine ⟨rfl, fun q h hreq => ?_, fun q h mem len payload hreq => ?_, fun h hreads => ?_⟩
  · cases q with
    | zero => cases hreq
    | succ q => cases hreq
  · cases q with
    | zero => cases hreq
    | succ q => cases hreq
  · cases h with
    | zero => cases hreads.1
    | succ h => cases hreads.1

/-- A link is closed and deleted while a write is pending. -/
def pendingRun : List LivedEvent := [.link (.send [1] 0), .link .close, .destroy]

/-- The cancelled write calls `close` on the deleted link. -/
theorem not_closes_once_pendingRun :
    ¬ Always step ClosesOnce ⟨accepted 0 Loop.new, true, false⟩
      (pendingRun ++ [.link (.writeDone 0 UV_ECANCELED)]) := by
  intro h
  have hlast : ClosesOnce _ := (((h.2 _ rfl).2 _ rfl).2 _ rfl).2 _ rfl
  cases hlast.defined

end Lived
end SomoNet
