import SomoNet.TcpLink

/-!
# What the operations of `TcpLink` can do

One specification lemma for each function of `SomoNet.TcpLink`, so that the invariants
of the later files never unfold them: closed forms for `connect`, `shut` and
`connectedTail`, and the case list of `send`.
-/

namespace SomoNet
namespace TcpSys

/-! ## Closed forms -/

/-- The link after `TcpLink::connect`. -/
theorem connect_link (s : TcpSys) (ip : String) (port : UInt16) (r : ℤ) :
    (s.connect ip port r).1.link =
      { s.link with
        strIP := ip
        bPort := port
        pTcp := some s.loop.nextHandle
        bConnecting := true
        bConnected := false
        timerActive := s.link.timerActive || decide (r = 0)
        trace := s.link.trace ++ [.tcpConnect s.loop.nextHandle r] ++
          (if r = 0 then [.timerStart] else []) } := by
  unfold connect emit
  by_cases hr : r = 0
  · simp [hr]
  · simp [hr]

/-- The loop after `TcpLink::connect`. -/
theorem connect_loop (s : TcpSys) (ip : String) (port : UInt16) (r : ℤ) :
    (s.connect ip port r).1.loop =
      if r = 0 then
        (s.loop.tcpInit s.link.self).submit (.connect s.link.self s.loop.nextHandle)
      else s.loop.tcpInit s.link.self := by
  unfold connect emit
  by_cases hr : r = 0
  · simp [hr]
  · simp [hr]

/-- The link after `TcpLink::close`, or after `closeError` behind its callback. -/
theorem shut_link (s : TcpSys) :
    s.shut.link =
      { s.link with
        bConnected := false
        pTcp := none
        timerActive := false
        trace := s.link.trace ++ (s.link.pTcp.toList.map .uvClose) ++ [.timerStop] } := by
  unfold shut emit
  cases h : s.link.pTcp <;> simp [h]

theorem shut_loop (s : TcpSys) :
    s.shut.loop = match s.link.pTcp with
      | some h => s.loop.uvClose h
      | none => s.loop := by
  unfold shut emit
  cases h : s.link.pTcp <;> simp [h]

/-- A link whose loop has closed the handle in `m_pTcp` reads from its other handles only. -/
theorem reads_of_close {s s' : TcpSys} (hself : s'.link.self = s.link.self)
    (hloop : s'.loop = match s.link.pTcp with
      | some h => s.loop.uvClose h
      | none => s.loop) (h : HandleId) : s'.Reads h ↔ s.Reads h ∧ s.link.pTcp ≠ some h := by
  unfold Reads
  rw [hself, hloop]
  cases hcur : s.link.pTcp with
  | none => simp
  | some g =>
    simp only [Loop.data_uvClose]
    by_cases hg : g = h
    · subst hg
      simp [Loop.isReading_uvClose_self]
    · simp [hg, Loop.isReading_uvClose_of_ne _ (Ne.symm hg)]

theorem timerStart_link (s : TcpSys) :
    s.timerStart.link = { s.link with timerActive := true, trace := s.link.trace ++ [.timerStart] } :=
  rfl

theorem timerStart_loop (s : TcpSys) : s.timerStart.loop = s.loop := rfl

theorem connectedTail_link (s : TcpSys) (r : ℤ) :
    (s.connectedTail r).link =
      { s.link with
        timerActive := false
        trace := s.link.trace ++ [.timerStop] ++ [.readStart s.link.pTcp r] } := by
  unfold connectedTail emit
  cases h : s.link.pTcp with
  | none => simp [h]
  | some h =>
    by_cases hr : r = 0 <;> simp [*]

theorem connectedTail_loop (s : TcpSys) (r : ℤ) :
    (s.connectedTail r).loop = match s.link.pTcp with
      | some h => if r = 0 then s.loop.setReading h true else s.loop
      | none => s.loop := by
  unfold connectedTail emit
  cases h : s.link.pTcp with
  | none => simp [h]
  | some h =>
    by_cases hr : r = 0 <;> simp [*]

/-! ## `send` -/

/-- What `TcpLink::send` can do: nothing, or take an item from the pool, and then have
libuv refuse the write or accept it. -/
inductive SendOutcome (s : TcpSys) (data : List UInt8) (r : ℤ) : TcpSys × ℤ → Prop
  | notConnected (h : s.link.pTcp = none ∨ s.link.bConnecting = true ∨ s.link.bConnected = false) :
    SendOutcome s data r (s, -1)
  | tooLarge {pool : MemPool} (hget : s.loop.pool.get (toInt32 data.length) = (pool, none)) :
    SendOutcome s data r (s, 0)
  | refused {h : HandleId} {pool : MemPool} {mem : MemPtr}
    (htcp : s.link.pTcp = some h) (hconn : s.link.bConnecting = false ∧ s.link.bConnected = true)
    (hget : s.loop.pool.get (toInt32 data.length) = (pool, some mem)) (hr : r ≠ 0) :
    SendOutcome s data r ({ s with loop := s.loop.withItem pool mem data }, -1)
  | accepted {h : HandleId} {pool : MemPool} {mem : MemPtr}
    (htcp : s.link.pTcp = some h) (hconn : s.link.bConnecting = false ∧ s.link.bConnected = true)
    (hget : s.loop.pool.get (toInt32 data.length) = (pool, some mem)) (hr : r = 0) :
    SendOutcome s data r
      (emit
        { s with
          loop := (s.loop.withItem pool mem data).submit
            (.write s.link.self h mem (toUInt32 data.length) data) }
        (.write h ((s.loop.withItem pool mem data).bufCells mem (toUInt32 data.length))), 0)

theorem send_outcome (s : TcpSys) (data : List UInt8) (r : ℤ) :
    SendOutcome s data r (s.send data r) := by
  unfold send
  cases htcp : s.link.pTcp with
  | none => exact .notConnected (Or.inl htcp)
  | some h =>
    by_cases hc : (s.link.bConnecting || !s.link.bConnected) = true
    · simp only [if_pos hc]
      exact .notConnected (Or.inr (by simpa using hc))
    · have hconn : s.link.bConnecting = false ∧ s.link.bConnected = true := by simpa using hc
      simp only [if_neg hc]
      rcases hget : s.loop.pool.get (toInt32 data.length) with ⟨pool, _ | mem⟩
      · exact .tooLarge hget
      · by_cases hr : r = 0
        · simp only [hr, ne_eq, not_true_eq_false, if_false]
          exact .accepted htcp hconn hget rfl
        · simp only [ne_eq, hr, not_false_eq_true, if_true]
          exact .refused htcp hconn hget hr

/-! ## The libuv callbacks, branch by branch -/

theorem onConnect_failed (s : TcpSys) (q : ReqId) {status : ℤ} (r : ℤ) (h : status < 0) :
    s.onConnect q status r =
      { link := { s.link with bConnecting := false, bConnected := false }
        loop := s.loop.finish q } := by
  simp [onConnect, h]

/-- A connection of a link with a handler: `on_connected` runs now, the rest of
`on_connect` when it returns. -/
theorem onConnect_handler (s : TcpSys) (q : ReqId) {status : ℤ} (r : ℤ) (h : ¬ status < 0)
    (hh : s.link.pHandler = true) :
    s.onConnect q status r =
      { link :=
          { s.link with
            bConnecting := false
            bConnected := true
            frame := .inConnected
            trace := s.link.trace ++ [.onConnected] }
        loop := s.loop.finish q } := by
  simp [onConnect, h, hh, emit]

theorem onConnect_noHandler (s : TcpSys) (q : ReqId) {status : ℤ} (r : ℤ) (h : ¬ status < 0)
    (hh : ¬ s.link.pHandler = true) :
    s.onConnect q status r =
      connectedTail
        { link := { s.link with bConnecting := false, bConnected := true }
          loop := s.loop.finish q } r := by
  simp [onConnect, h, hh]

/-- The bytes of a segment reach `addData` as they arrived. -/
theorem onRead_link (s : TcpSys) {seg : List UInt8} (hlen : seg.length ≤ STATIC_BUF_SIZE) :
    (s.onRead seg).link =
      { s.link with
        buf := s.link.buf.addData (cells seg)
        frame := if s.link.pHandler then .inData else s.link.frame
        trace := s.link.trace ++ .received seg ::
          (if s.link.pHandler then [.onData (s.link.buf.addData (cells seg)).offered] else []) } := by
  have hread := StaticBuf.read_receive (onAlloc s.loop) hlen
  unfold onRead emit
  by_cases hh : s.link.pHandler = true
  · simp [hh, hread]
  · simp [hh, hread]

theorem dataReturn_link (s : TcpSys) (c : ℤ) :
    (s.dataReturn c).link =
      { s.link with
        buf := if c > 0 then s.link.buf.removeData c else s.link.buf
        frame := .idle
        trace := s.link.trace ++ [.handled c] } := by
  unfold dataReturn emit
  by_cases hc : c > 0
  · simp [hc]
  · simp [hc]

theorem onRead_loop (s : TcpSys) (seg : List UInt8) :
    (s.onRead seg).loop = { s.loop with staticBuf := some ((onAlloc s.loop).receive seg) } := by
  unfold onRead emit
  by_cases hh : s.link.pHandler = true
  · simp [hh]
  · simp [hh]

theorem dataReturn_loop (s : TcpSys) (c : ℤ) : (s.dataReturn c).loop = s.loop := by
  unfold dataReturn emit
  by_cases hc : c > 0
  · simp [hc]
  · simp [hc]

/-- A client answers a read error by arming the retry timer, and keeps the handle. -/
theorem onReadError_client (s : TcpSys) (h : HandleId) (hc : s.link.bPeerLink = false) :
    s.onReadError h =
      { link :=
          { s.link with
            bConnected := false
            timerActive := true
            trace := s.link.trace ++ [.timerStart] }
        loop := s.loop.setReading h false } := by
  simp [onReadError, hc, timerStart, emit]

/-- The loop once a completed write's item is back in the pool. -/
def afterWrite (l : Loop) (q : ReqId) (mem : MemPtr) : Loop :=
  { l.finish q with pool := l.pool.free mem }

theorem onWrite_done (s : TcpSys) (q : ReqId) (mem : MemPtr) {status : ℤ} (h : ¬ status < 0) :
    s.onWrite q mem status = { s with loop := afterWrite s.loop q mem } := by
  simp [onWrite, h, afterWrite]

/-- On a failed write the link closes its current handle, whichever handle the write was
on. -/
theorem onWrite_failed (s : TcpSys) (q : ReqId) (mem : MemPtr) {status : ℤ} (h : status < 0) :
    s.onWrite q mem status =
      if !s.link.bPeerLink then timerStart (shut { s with loop := afterWrite s.loop q mem })
      else shut { s with loop := afterWrite s.loop q mem } := by
  have hpeer : (shut { s with loop := afterWrite s.loop q mem }).link.bPeerLink =
      s.link.bPeerLink := by rw [shut_link]
  rw [← hpeer]
  unfold onWrite
  rw [if_pos h]
  rfl

/-- A client arms the retry timer as well. -/
theorem onWrite_failed_client (s : TcpSys) (q : ReqId) (mem : MemPtr) {status : ℤ}
    (h : status < 0) (hc : s.link.bPeerLink = false) :
    s.onWrite q mem status =
      timerStart (shut { s with loop := afterWrite s.loop q mem }) := by
  rw [onWrite_failed s q mem h, hc]
  rfl

theorem onTimer_retry (s : TcpSys) (r : ℤ)
    (h : s.link.bConnected = false ∧ s.link.bConnecting = false) :
    s.onTimer r = (s.connect s.link.strIP s.link.bPort r).1 := by
  simp [onTimer, h]

theorem onTimer_busy (s : TcpSys) (r : ℤ)
    (h : ¬ (s.link.bConnected = false ∧ s.link.bConnecting = false)) : s.onTimer r = s := by
  unfold onTimer
  rw [if_neg]
  simpa using h

/-! ## Steps -/

/-- Every step of a link, with what it requires of the state before it. -/
inductive StepCase (s : TcpSys) : TcpEvent → TcpSys → Prop
  | setHandler (handler : Bool) :
    StepCase s (.setHandler handler) { s with link := { s.link with pHandler := handler } }
  | connect (ip : String) (port : UInt16) (r : ℤ) :
    StepCase s (.connect ip port r)
      ({ s with link := { s.link with asked := true } }.connect ip port r).1
  | send (data : List UInt8) (r : ℤ) : StepCase s (.send data r) (s.send data r).1
  | close : StepCase s .close { s with link := { s.link with asked := false } }.shut
  | connectDone {q : ReqId} {h : HandleId} {status : ℤ} (r : ℤ)
    (hreq : s.loop.reqs q = some (.connect s.link.self h)) (hidle : s.link.frame = .idle)
    (hstatus : s.StatusOk h status) :
    StepCase s (.connectDone q status r) (s.onConnect q status r)
  | connectedReturn (r : ℤ) (hframe : s.link.frame = .inConnected) :
    StepCase s (.connectedReturn r) (s.connectedReturn r)
  | read {h : HandleId} {seg : List UInt8} (hidle : s.link.frame = .idle) (hreads : s.Reads h)
    (hne : seg ≠ []) (hlen : seg.length ≤ STATIC_BUF_SIZE) :
    StepCase s (.read h seg) (s.onRead seg)
  | readAgain {h : HandleId} (hidle : s.link.frame = .idle) (hreads : s.Reads h) :
    StepCase s (.readAgain h) s
  | readError {h : HandleId} (hidle : s.link.frame = .idle) (hreads : s.Reads h) :
    StepCase s (.readError h) (s.onReadError h)
  | dataReturn (handled_len : ℤ) (hframe : s.link.frame = .inData) :
    StepCase s (.dataReturn handled_len) (s.dataReturn handled_len)
  | closeReturn (hframe : s.link.frame = .inClose) : StepCase s .closeReturn s.closeReturn
  | writeDone {q : ReqId} {h : HandleId} {mem : MemPtr} {len : ℕ} {payload : List UInt8}
    {status : ℤ} (hreq : s.loop.reqs q = some (.write s.link.self h mem len payload))
    (hidle : s.link.frame = .idle) (hstatus : s.WriteStatusOk h status) :
    StepCase s (.writeDone q status) (s.onWrite q mem status)
  | tick (r : ℤ) (hidle : s.link.frame = .idle) (htimer : s.link.timerActive = true) :
    StepCase s (.tick r) (s.onTimer r)

theorem step_case {s s' : TcpSys} {e : TcpEvent} (h : s.step e = some s') : StepCase s e s' := by
  cases e with
  | setHandler handler => cases h; exact .setHandler handler
  | connect ip port r => cases h; exact .connect ip port r
  | send data r => cases h; exact .send data r
  | close => cases h; exact .close
  | connectDone q status r =>
    simp only [step] at h
    split at h
    -- the request has to be a connect of this link
    · rename_i link g hreq
      split_ifs at h with hg
      obtain ⟨rfl, hidle, hstatus⟩ := hg
      cases h
      exact .connectDone r hreq hidle hstatus
    · cases h
  | connectedReturn r =>
    simp only [step] at h
    split_ifs at h with hg
    cases h
    exact .connectedReturn r hg
  | read g seg =>
    simp only [step] at h
    split_ifs at h with hg
    cases h
    exact .read hg.1 hg.2.1 hg.2.2.1 hg.2.2.2
  | readAgain g =>
    simp only [step] at h
    split_ifs at h with hg
    cases h
    exact .readAgain hg.1 hg.2
  | readError g =>
    simp only [step] at h
    split_ifs at h with hg
    cases h
    exact .readError hg.1 hg.2
  | dataReturn c =>
    simp only [step] at h
    split_ifs at h with hg
    cases h
    exact .dataReturn c hg
  | closeReturn =>
    simp only [step] at h
    split_ifs at h with hg
    cases h
    exact .closeReturn hg
  | writeDone q status =>
    simp only [step] at h
    split at h
    · rename_i link g mem len payload hreq
      split_ifs at h with hg
      obtain ⟨rfl, hidle, hstatus⟩ := hg
      cases h
      exact .writeDone hreq hidle hstatus
    · cases h
  | tick r =>
    simp only [step] at h
    split_ifs at h with hg
    cases h
    exact .tick r hg.1 hg.2

/-! ## Identities are never reused -/

/-- `send` observes at most its write. -/
theorem send_link (s : TcpSys) (data : List UInt8) (r : ℤ) :
    ∃ t, (s.send data r).1.link = { s.link with trace := t } := by
  have hout := s.send_outcome data r
  generalize s.send data r = res at hout ⊢
  rcases hout with _ | _ | _ | _
  · exact ⟨s.link.trace, rfl⟩
  · exact ⟨s.link.trace, rfl⟩
  · exact ⟨s.link.trace, rfl⟩
  · exact ⟨_, rfl⟩

theorem fresh_connect {s : TcpSys} (hs : s.loop.Fresh) (ip : String) (port : UInt16) (r : ℤ) :
    (s.connect ip port r).1.loop.Fresh := by
  rw [connect_loop]
  split
  · exact (hs.tcpInit _).submit _
  · exact hs.tcpInit _

theorem fresh_send {s : TcpSys} (hs : s.loop.Fresh) (data : List UInt8) (r : ℤ) :
    (s.send data r).1.loop.Fresh := by
  have hout := s.send_outcome data r
  generalize s.send data r = res at hout ⊢
  have hitem : ∀ pool mem, (s.loop.withItem pool mem data).Fresh := fun _ _ => ⟨hs.tcp, hs.reqs⟩
  rcases hout with _ | _ | _ | _
  · exact hs
  · exact hs
  · exact hitem _ _
  · exact (hitem _ _).submit _

theorem fresh_shut {s : TcpSys} (hs : s.loop.Fresh) : s.shut.loop.Fresh := by
  rw [shut_loop]
  split
  · exact hs.uvClose _
  · exact hs

theorem fresh_connectedTail {s : TcpSys} (hs : s.loop.Fresh) (r : ℤ) :
    (s.connectedTail r).loop.Fresh := by
  rw [connectedTail_loop]
  split
  · split
    · exact hs.setReading _ _
    · exact hs
  · exact hs

theorem fresh_afterWrite {l : Loop} (hl : l.Fresh) (q : ReqId) (mem : MemPtr) :
    (afterWrite l q mem).Fresh :=
  ⟨(hl.finish q).tcp, (hl.finish q).reqs⟩

theorem fresh_closeError {s : TcpSys} (hs : s.loop.Fresh) : s.closeError.loop.Fresh := by
  unfold closeError
  split
  · exact hs
  · exact fresh_shut hs

/-- **Every step keeps the identities fresh.** -/
theorem fresh_step {s s' : TcpSys} {e : TcpEvent} (hs : s.loop.Fresh) (h : s.step e = some s') :
    s'.loop.Fresh := by
  cases step_case h with
  | setHandler handler => exact hs
  | connect ip port r => exact @fresh_connect { s with link := { s.link with asked := true } } hs ip port r
  | send data r => exact fresh_send hs data r
  | close => exact @fresh_shut { s with link := { s.link with asked := false } } hs
  | @connectDone q g status r hreq hidle hstatus =>
    have hfin := hs.finish q
    by_cases hneg : status < 0
    · rw [onConnect_failed s q r hneg]
      exact hfin
    by_cases hh : s.link.pHandler = true
    · rw [onConnect_handler s q r hneg hh]
      exact hfin
    · rw [onConnect_noHandler s q r hneg hh]
      apply fresh_connectedTail
      exact hfin
  | connectedReturn r hframe =>
    apply fresh_connectedTail
    exact hs
  | read =>
    rw [onRead_loop]
    exact ⟨hs.tcp, hs.reqs⟩
  | readAgain => exact hs
  | @readError g hidle hreads =>
    unfold onReadError
    have hread := hs.setReading g false
    dsimp only
    split
    · exact hread
    · exact @fresh_closeError { s with loop := s.loop.setReading g false } hread
  | dataReturn c hframe =>
    rw [dataReturn_loop]
    exact hs
  | closeReturn hframe => exact @fresh_shut { s with link := { s.link with frame := .idle } } hs
  | @writeDone q g mem len payload status hreq hidle hstatus =>
    have hwrite := fresh_afterWrite hs q mem
    by_cases hneg : status < 0
    · rw [onWrite_failed s q mem hneg]
      have hshut := @fresh_shut { s with loop := afterWrite s.loop q mem } hwrite
      split
      · exact hshut
      · exact hshut
    · rw [onWrite_done s q mem hneg]
      exact hwrite
  | tick r hidle htimer =>
    by_cases hretry : s.link.bConnected = false ∧ s.link.bConnecting = false
    · rw [onTimer_retry s r hretry]
      exact fresh_connect hs _ _ r
    · rw [onTimer_busy s r hretry]
      exact hs

end TcpSys
end SomoNet
