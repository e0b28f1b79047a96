import SomoNet.Ownership

/-!
# Packets in flight

Every step of every link is a move of the pool, or a refused send. From it, over every run
of a process:

* a pending send holds its payload, untouched and shared with nobody, until its own
  completion (`inFlight_intact`);
* nothing leaks exactly as long as libuv refuses no send that already has its item
  (`noLeak_iff`).
-/

namespace SomoNet

open Run

/-! ## TCP links -/

/-- The request that the event completes. -/
def TcpEvent.completes : TcpEvent → Option ReqId
  | .connectDone q _ _ => some q
  | .writeDone q _ => some q
  | _ => none

namespace TcpSys

/-- `send` gets as far as `uv_write`, and `uv_write` refuses. -/
def SendRefused (s : TcpSys) : TcpEvent → Prop
  | .send data r => r ≠ 0 ∧ s.link.pTcp ≠ none ∧ s.link.bConnecting = false ∧
      s.link.bConnected = true ∧ toInt32 data.length ≤ MEM_ITEM_SIZE_MAX
  | _ => False

theorem agrees_shut (s : TcpSys) : s.loop.Agrees s.shut.loop := by
  rw [shut_loop]
  split
  · exact Loop.agrees_of_eq rfl rfl
  · exact Loop.Agrees.refl _

theorem agrees_connectedTail (s : TcpSys) (r : ℤ) : s.loop.Agrees (s.connectedTail r).loop := by
  rw [connectedTail_loop]
  split
  · split
    · exact Loop.agrees_of_eq rfl rfl
    · exact Loop.Agrees.refl _
  · exact Loop.Agrees.refl _

theorem agrees_connect {s : TcpSys} (hs : s.loop.Fresh) (ip : String) (port : UInt16) (r : ℤ) :
    s.loop.Agrees (s.connect ip port r).1.loop := by
  have hinit : s.loop.Agrees (s.loop.tcpInit s.link.self) := Loop.agrees_of_eq rfl rfl
  rw [connect_loop]
  split
  · exact hinit.trans ((hs.tcpInit _).agrees_submit_connect _ _)
  · exact hinit

/-- `send` queues a request with a new item, or leaks the item, or does nothing. -/
theorem send_move (s : TcpSys) (data : List UInt8) (r : ℤ) :
    ¬ s.SendRefused (.send data r) ∧ s.loop.Move none (s.send data r).1.loop ∨
      s.SendRefused (.send data r) ∧ s.loop.Leaks (s.send data r).1.loop := by
  have hout := s.send_outcome data r
  have hsome := s.loop.pool.get_isSome (toInt32 data.length)
  generalize s.send data r = res at hout ⊢
  rcases hout with h | hget | ⟨htcp, hconn, hget, hr⟩ | ⟨htcp, hconn, hget, hr⟩
  · refine Or.inl ⟨?_, .quiet (Loop.Agrees.refl _)⟩
    rintro ⟨-, htcp, hconnecting, hconnected, -⟩
    rcases h with h | h | h
    · exact htcp h
    · rw [hconnecting] at h
      cases h
    · rw [hconnected] at h
      cases h
  · refine Or.inl ⟨?_, .quiet (Loop.Agrees.refl _)⟩
    rintro ⟨-, -, -, -, hmax⟩
    rw [hget] at hsome
    cases hsome.mpr hmax
  · rw [hget] at hsome
    have htcp' : s.link.pTcp ≠ none := by
      rw [htcp]
      exact Option.some_ne_none _
    exact Or.inr ⟨⟨hr, htcp', hconn.1, hconn.2, hsome.mp rfl⟩,
      data, _, _, hget, Loop.Agrees.refl _⟩
  · refine Or.inl ⟨fun h => h.1 hr, ?_⟩
    exact .queued hget rfl rfl rfl (Loop.Agrees.refl _)

/-- **A step of a TCP link** is a move of the pool, or a refused send. -/
theorem step_move {s s' : TcpSys} {e : TcpEvent} (hs : s.loop.Fresh) (h : s.step e = some s') :
    ¬ s.SendRefused e ∧ s.loop.Move e.completes s'.loop ∨
      s.SendRefused e ∧ s.loop.Leaks s'.loop := by
  cases step_case h with
  | setHandler handler => exact Or.inl ⟨not_false, .quiet (Loop.Agrees.refl _)⟩
  | connect ip port r =>
    have hagree := @agrees_connect { s with link := { s.link with asked := true } } hs ip port r
    exact Or.inl ⟨not_false, .quiet hagree⟩
  | send data r => exact s.send_move data r
  | close =>
    have hagree := agrees_shut { s with link := { s.link with asked := false } }
    exact Or.inl ⟨not_false, .quiet hagree⟩
  | @connectDone q g status r hreq hidle hstatus =>
    -- a connect request holds no item
    have hfin := Loop.agrees_finish_connect hreq
    refine Or.inl ⟨not_false, .quiet ?_⟩
    by_cases hneg : status < 0
    · rw [onConnect_failed s q r hneg]
      exact hfin
    by_cases hh : s.link.pHandler = true
    · rw [onConnect_handler s q r hneg hh]
      exact hfin
    · rw [onConnect_noHandler s q r hneg hh]
      exact hfin.trans (agrees_connectedTail _ r)
  | connectedReturn r hframe =>
    have hagree := agrees_connectedTail { s with link := { s.link with frame := .idle } } r
    exact Or.inl ⟨not_false, .quiet hagree⟩
  | read =>
    refine Or.inl ⟨not_false, .quiet ?_⟩
    rw [onRead_loop]
    exact Loop.agrees_of_eq rfl rfl
  | readAgain => exact Or.inl ⟨not_false, .quiet (Loop.Agrees.refl _)⟩
  | @readError g hidle hreads =>
    have hread : s.loop.Agrees (s.loop.setReading g false) := Loop.agrees_of_eq rfl rfl
    refine Or.inl ⟨not_false, .quiet ?_⟩
    unfold onReadError closeError
    dsimp only
    split
    · exact hread
    · split
      · exact hread
      · exact hread.trans (agrees_shut { s with loop := s.loop.setReading g false })
  | dataReturn c hframe =>
    refine Or.inl ⟨not_false, .quiet ?_⟩
    rw [dataReturn_loop]
    exact Loop.Agrees.refl _
  | closeReturn hframe =>
    have hagree := agrees_shut { s with link := { s.link with frame := .idle } }
    exact Or.inl ⟨not_false, .quiet hagree⟩
  | @writeDone q g mem len payload status hreq hidle hstatus =>
    -- the write's item goes back to the pool before anything else
    refine Or.inl ⟨not_false, .done rfl ⟨_, hreq, rfl⟩ ?_⟩
    have hagree : Loop.Agrees { s.loop.finish q with pool := s.loop.pool.free mem }
        (afterWrite s.loop q mem) := Loop.Agrees.refl _
    by_cases hneg : status < 0
    · have hshut := agrees_shut { s with loop := afterWrite s.loop q mem }
      rw [onWrite_failed s q mem hneg]
      split
      · exact hagree.trans hshut
      · exact hagree.trans hshut
    · rw [onWrite_done s q mem hneg]
      exact hagree
  | tick r hidle htimer =>
    refine Or.inl ⟨not_false, .quiet ?_⟩
    by_cases hretry : s.link.bConnected = false ∧ s.link.bConnecting = false
    · rw [onTimer_retry s r hretry]
      exact agrees_connect hs _ _ r
    · rw [onTimer_busy s r hretry]
      exact Loop.Agrees.refl _

end TcpSys

/-! ## UDP links -/

/-- `MemPool::get` and `assign` for a whole payload. -/
theorem Loop.copyOut_cases (l : Loop) (data : List UInt8) :
    (l.copyOut data (toInt32 data.length) = (l, none) ∧
        ¬ toInt32 data.length ≤ MEM_ITEM_SIZE_MAX) ∨
      ∃ pool mem, l.pool.get (toInt32 data.length) = (pool, some mem) ∧
        toInt32 data.length ≤ MEM_ITEM_SIZE_MAX ∧
        l.copyOut data (toInt32 data.length) = (l.withItem pool mem data, some mem) := by
  have hsome := l.pool.get_isSome (toInt32 data.length)
  obtain ⟨⟨pool, res⟩, hget⟩ : ∃ res, l.pool.get (toInt32 data.length) = res := ⟨_, rfl⟩
  rw [hget] at hsome
  cases res with
  | none =>
    refine Or.inl ⟨Loop.copyOut_of_none hget, ?_⟩
    intro hmax
    cases hsome.mpr hmax
  | some mem => exact Or.inr ⟨pool, mem, hget, hsome.mp rfl, Loop.copyOut_of_some hget⟩

/-- `uv_udp_send` after `copyOut`: the request is queued with the item, or the item leaks. -/
theorem Loop.udpSend_move {l : Loop} {data : List UInt8} {pool : MemPool} {mem : MemPtr}
    (hget : l.pool.get (toInt32 data.length) = (pool, some mem)) (dest : Option SockAddrIn)
    (r : ℤ) :
    r = 0 ∧ l.Move none
        ((l.withItem pool mem data).udpSend mem (toUInt32 data.length) dest data r) ∨
      r ≠ 0 ∧ l.Leaks ((l.withItem pool mem data).udpSend mem (toUInt32 data.length) dest data r) := by
  unfold Loop.udpSend
  by_cases hr : r = 0
  · rw [if_pos hr]
    exact Or.inl ⟨hr, .queued hget rfl rfl rfl (Loop.Agrees.refl _)⟩
  · rw [if_neg hr]
    exact Or.inr ⟨hr, data, pool, mem, hget, Loop.Agrees.refl _⟩

/-- `UdpLink::send` gets as far as `uv_udp_send`, and `uv_udp_send` refuses. -/
def UdpLink.SendRefused (u : UdpLink) (data : List UInt8) (sent r : ℤ) : Prop :=
  u.pUdp ≠ none ∧ toInt32 data.length ≤ MEM_ITEM_SIZE_MAX ∧ sent ≤ 0 ∧ r ≠ 0

theorem UdpLink.sendTo_move (u : UdpLink) (l : Loop) (data : List UInt8)
    (dest : Option SockAddrIn) (sent r : ℤ) :
    ¬ u.SendRefused data sent r ∧ l.Move none (u.sendTo l data dest sent r).1 ∨
      u.SendRefused data sent r ∧ l.Leaks (u.sendTo l data dest sent r).1 := by
  unfold UdpLink.sendTo UdpLink.SendRefused
  cases hudp : u.pUdp with
  | none => exact Or.inl ⟨fun h => h.1 rfl, .quiet (Loop.Agrees.refl _)⟩
  | some h =>
    rcases l.copyOut_cases data with ⟨hcopy, hmax⟩ | ⟨pool, mem, hget, hmax, hcopy⟩
    · rw [hcopy]
      exact Or.inl ⟨fun h => hmax h.2.1, .quiet (Loop.Agrees.refl _)⟩
    · rw [hcopy]
      by_cases hsent : sent ≤ 0
      · simp only [if_pos hsent]
        rcases Loop.udpSend_move hget dest r with ⟨hr, hmove⟩ | ⟨hr, hleak⟩
        · exact Or.inl ⟨fun h => h.2.2.2 hr, hmove⟩
        · exact Or.inr ⟨⟨Option.some_ne_none h, hmax, hsent, hr⟩, hleak⟩
      · simp only [if_neg hsent]
        exact Or.inl ⟨fun h => hsent h.2.2.1, .sent hget (Loop.Agrees.refl _)⟩

/-- `UdpServer::answer` gets as far as `uv_udp_send`, and `uv_udp_send` refuses. -/
def UdpServer.AnswerRefused (s : UdpServer) (data : List UInt8) (r : ℤ) : Prop :=
  s.pUdp ≠ none ∧ toInt32 data.length ≤ MEM_ITEM_SIZE_MAX ∧ r ≠ 0

theorem UdpServer.answer_move (s : UdpServer) (l : Loop) (data : List UInt8) (ip : UInt32)
    (port : Int16) (r : ℤ) :
    ¬ s.AnswerRefused data r ∧ l.Move none (s.answer l data (toInt32 data.length) ip port r) ∨
      s.AnswerRefused data r ∧ l.Leaks (s.answer l data (toInt32 data.length) ip port r) := by
  unfold UdpServer.answer UdpServer.AnswerRefused
  cases hudp : s.pUdp with
  | none => exact Or.inl ⟨fun h => h.1 rfl, .quiet (Loop.Agrees.refl _)⟩
  | some h =>
    rcases l.copyOut_cases data with ⟨hcopy, hmax⟩ | ⟨pool, mem, hget, hmax, hcopy⟩
    · rw [hcopy]
      exact Or.inl ⟨fun h => hmax h.2.1, .quiet (Loop.Agrees.refl _)⟩
    · rw [hcopy, toUInt32_toInt32]
      rcases Loop.udpSend_move hget (some ⟨port.toUInt16, ip⟩) r with ⟨hr, hmove⟩ | ⟨hr, hleak⟩
      · exact Or.inl ⟨fun h => h.2.2 hr, hmove⟩
      · exact Or.inr ⟨⟨Option.some_ne_none h, hmax, hr⟩, hleak⟩

/-! ## The whole process -/

/-- The request that the event completes. -/
def WorldEvent.completes : WorldEvent → Option ReqId
  | .tcp _ e => e.completes
  | .udpDone q _ => some q
  | _ => none

namespace World

/-- A send of any link takes an item and libuv then refuses its request. -/
def SendRefused (w : World) : WorldEvent → Prop
  | .tcp l e => ∃ s, w.sys l = some s ∧ s.SendRefused e
  | .udpSend l data sent r => ∃ u, w.udp l = some u ∧ u.SendRefused data sent r
  | .udpSendAddr l data _ _ sent r => ∃ u, w.udp l = some u ∧ u.SendRefused data sent r
  | .peerSend l data r => ∃ p s, w.peer l = some p ∧ w.serverOf p = some s ∧ s.AnswerRefused data r
  | .peerSendAddr l data _ _ r =>
    ∃ p s, w.peer l = some p ∧ w.serverOf p = some s ∧ s.AnswerRefused data r
  | _ => False

theorem step_tcp {w w' : World} {l : LinkPtr} {e : TcpEvent} (h : w.step (.tcp l e) = some w') :
    ∃ s s', w.sys l = some s ∧ s.step e = some s' ∧ w' = w.withSys l s' := by
  obtain ⟨s, hs, hstep⟩ := Option.bind_eq_some_iff.mp h
  obtain ⟨s', hs', rfl⟩ := Option.map_eq_some_iff.mp hstep
  exact ⟨s, s', hs, hs', rfl⟩

theorem sys_loop {w : World} {l : LinkPtr} {s : TcpSys} (h : w.sys l = some s) :
    s.loop = w.loop := by
  obtain ⟨link, -, rfl⟩ := Option.map_eq_some_iff.mp h
  rfl

/-- Freshness does not depend on the pool. -/
theorem fresh_withPool {l : Loop} (hl : l.Fresh) (pool : MemPool) :
    Loop.Fresh { l with pool := pool } := ⟨hl.tcp, hl.reqs⟩

theorem fresh_copyOut {l : Loop} (hl : l.Fresh) (data : List UInt8) (len : ℤ) :
    (l.copyOut data len).1.Fresh := by
  unfold Loop.copyOut
  split
  · exact hl
  · exact fresh_withPool hl _

theorem fresh_udpSend {l : Loop} (hl : l.Fresh) (mem : MemPtr) (len : ℕ)
    (dest : Option SockAddrIn) (payload : List UInt8) (r : ℤ) :
    (l.udpSend mem len dest payload r).Fresh := by
  unfold Loop.udpSend
  split
  · exact hl.submit _
  · exact hl

theorem fresh_udpInit {l : Loop} (hl : l.Fresh) : l.udpInit.Fresh := by
  refine ⟨?_, hl.reqs⟩
  intro h hh
  have hle : l.nextHandle ≤ h := Nat.le_of_succ_le hh
  exact hl.tcp h hle

theorem fresh_sendTo {l : Loop} (hl : l.Fresh) (u : UdpLink) (data : List UInt8)
    (dest : Option SockAddrIn) (sent r : ℤ) : (u.sendTo l data dest sent r).1.Fresh := by
  have hcopy := fresh_copyOut hl data (toInt32 data.length)
  unfold UdpLink.sendTo
  generalize toInt32 (data.length : ℤ) = len at hcopy ⊢
  split
  · exact hl
  · split
    · rename_i heq
      rw [heq] at hcopy
      exact hcopy
    · rename_i heq
      rw [heq] at hcopy
      split
      · exact fresh_udpSend hcopy _ _ _ _ _
      · exact fresh_withPool hcopy _

theorem fresh_answer {l : Loop} (hl : l.Fresh) (s : UdpServer) (data : List UInt8) (len : ℤ)
    (ip : UInt32) (port : Int16) (r : ℤ) : (s.answer l data len ip port r).Fresh := by
  have hcopy := fresh_copyOut hl data len
  unfold UdpServer.answer
  split
  · exact hl
  · split
    · rename_i heq
      rw [heq] at hcopy
      exact hcopy
    · rename_i heq
      rw [heq] at hcopy
      exact fresh_udpSend hcopy _ _ _ _ _

/-- Identities are never reused in the process. -/
theorem fresh_step {w w' : World} {e : WorldEvent} (hw : w.loop.Fresh)
    (h : w.step e = some w') : w'.loop.Fresh := by
  cases e with
  | newTcp =>
    cases h
    exact hw
  | accept =>
    cases h
    exact (hw.tcpInit _).setReading _ _
  | tcp l e =>
    obtain ⟨s, s', hs, hstep, rfl⟩ := step_tcp h
    rw [← sys_loop hs] at hw
    exact TcpSys.fresh_step hw hstep
  | newUdp =>
    cases h
    exact hw
  | udpConnect l =>
    obtain ⟨u, -, rfl⟩ := Option.map_eq_some_iff.mp h
    exact fresh_udpInit hw
  | udpSend l data sent r =>
    obtain ⟨u, -, rfl⟩ := Option.map_eq_some_iff.mp h
    unfold UdpLink.send
    exact fresh_sendTo hw u data none sent r
  | udpSendAddr l data ip port sent r =>
    obtain ⟨u, -, rfl⟩ := Option.map_eq_some_iff.mp h
    unfold UdpLink.sendAddr
    exact fresh_sendTo hw u data (some ⟨htons port, htonl ip⟩) sent r
  | udpClose l =>
    obtain ⟨u, -, rfl⟩ := Option.map_eq_some_iff.mp h
    exact hw
  | newServer =>
    cases h
    exact fresh_udpInit hw
  | serverClose l =>
    obtain ⟨s, -, rfl⟩ := Option.map_eq_some_iff.mp h
    exact hw
  | newPeer server ip port =>
    obtain ⟨s, -, rfl⟩ := Option.map_eq_some_iff.mp h
    exact hw
  | peerSend l data r =>
    obtain ⟨p, -, h⟩ := Option.bind_eq_some_iff.mp h
    obtain ⟨s, -, rfl⟩ := Option.map_eq_some_iff.mp h
    exact fresh_answer hw s data _ _ _ r
  | peerSendAddr l data ip port r =>
    obtain ⟨p, -, h⟩ := Option.bind_eq_some_iff.mp h
    obtain ⟨s, -, rfl⟩ := Option.map_eq_some_iff.mp h
    exact fresh_answer hw s data _ _ _ r
  | udpDone q status =>
    simp only [step] at h
    split at h
    · cases h
      exact fresh_withPool (hw.finish q) _
    · cases h

/-- **A step of the process** is a move of the pool, or a refused send. -/
theorem step_move {w w' : World} {e : WorldEvent} (hw : w.loop.Fresh) (h : w.step e = some w') :
    ¬ w.SendRefused e ∧ w.loop.Move e.completes w'.loop ∨
      w.SendRefused e ∧ w.loop.Leaks w'.loop := by
  cases e with
  | newTcp =>
    cases h
    exact Or.inl ⟨not_false, .quiet (Loop.Agrees.refl _)⟩
  | accept =>
    cases h
    exact Or.inl ⟨not_false, .quiet (Loop.agrees_of_eq rfl rfl)⟩
  | tcp l e =>
    obtain ⟨s, s', hs, hstep, rfl⟩ := step_tcp h
    have hloop := sys_loop hs
    rw [← hloop] at hw ⊢
    rcases TcpSys.step_move hw hstep with ⟨hno, hmove⟩ | ⟨href, hleak⟩
    · refine Or.inl ⟨?_, hmove⟩
      rintro ⟨t, ht, href⟩
      rw [hs] at ht
      cases ht
      exact hno href
    · exact Or.inr ⟨⟨s, hs, href⟩, hleak⟩
  | newUdp =>
    cases h
    exact Or.inl ⟨not_false, .quiet (Loop.Agrees.refl _)⟩
  | udpConnect l =>
    obtain ⟨u, -, rfl⟩ := Option.map_eq_some_iff.mp h
    exact Or.inl ⟨not_false, .quiet (Loop.agrees_of_eq rfl rfl)⟩
  | udpSend l data sent r =>
    obtain ⟨u, hu, rfl⟩ := Option.map_eq_some_iff.mp h
    have hiff : w.SendRefused (.udpSend l data sent r) ↔ u.SendRefused data sent r := by
      simp [SendRefused, hu]
    rw [hiff]
    unfold UdpLink.send
    exact u.sendTo_move w.loop data none sent r
  | udpSendAddr l data ip port sent r =>
    obtain ⟨u, hu, rfl⟩ := Option.map_eq_some_iff.mp h
    have hiff : w.SendRefused (.udpSendAddr l data ip port sent r) ↔
        u.SendRefused data sent r := by
      simp [SendRefused, hu]
    rw [hiff]
    unfold UdpLink.sendAddr
    exact u.sendTo_move w.loop data (some ⟨htons port, htonl ip⟩) sent r
  | udpClose l =>
    obtain ⟨u, -, rfl⟩ := Option.map_eq_some_iff.mp h
    exact Or.inl ⟨not_false, .quiet (Loop.Agrees.refl _)⟩
  | newServer =>
    cases h
    exact Or.inl ⟨not_false, .quiet (Loop.agrees_of_eq rfl rfl)⟩
  | serverClose l =>
    obtain ⟨s, -, rfl⟩ := Option.map_eq_some_iff.mp h
    exact Or.inl ⟨not_false, .quiet (Loop.Agrees.refl _)⟩
  | newPeer server ip port =>
    obtain ⟨s, -, rfl⟩ := Option.map_eq_some_iff.mp h
    exact Or.inl ⟨not_false, .quiet (Loop.Agrees.refl _)⟩
  | peerSend l data r =>
    obtain ⟨p, hp, h⟩ := Option.bind_eq_some_iff.mp h
    obtain ⟨s, hs, rfl⟩ := Option.map_eq_some_iff.mp h
    have hiff : w.SendRefused (.peerSend l data r) ↔ s.AnswerRefused data r := by
      simp [SendRefused, hp, hs]
    rw [hiff]
    exact s.answer_move w.loop data _ _ r
  | peerSendAddr l data ip port r =>
    obtain ⟨p, hp, h⟩ := Option.bind_eq_some_iff.mp h
    obtain ⟨s, hs, rfl⟩ := Option.map_eq_some_iff.mp h
    have hiff : w.SendRefused (.peerSendAddr l data ip port r) ↔ s.AnswerRefused data r := by
      simp [SendRefused, hp, hs]
    rw [hiff]
    exact s.answer_move w.loop data _ _ r
  | udpDone q status =>
    simp only [step] at h
    split at h
    · rename_i mem len dest payload hreq
      cases h
      exact Or.inl ⟨not_false, .done rfl ⟨_, hreq, rfl⟩ (Loop.Agrees.refl _)⟩
    · cases h

/-! ## Runs -/

/-- Between any two steps. -/
structure Inv (w : World) : Prop where
  fresh : w.loop.Fresh
  sound : w.loop.Sound

theorem inv_new : Inv new := ⟨Loop.fresh_new, Loop.sound_new⟩

theorem inv_step : Invariant step Inv := by
  intro w e w' hw h
  refine ⟨fresh_step hw.fresh h, ?_⟩
  rcases step_move hw.fresh h with ⟨-, hmove⟩ | ⟨-, hleak⟩
  · exact (hw.sound.move hw.fresh hmove).1
  · exact (hw.sound.leaks hleak none).1

/-- What holds of every pending send: its item is out of the pool and still holds the
payload (of 1 to 524288 bytes), no other pending send has the item, and `get` would not
return it. -/
def InFlightIntact (w : World) : Prop :=
  ∀ q req mem, w.loop.reqs q = some req → req.mem = some mem →
    w.loop.pool.Outstanding mem ∧
    (1 ≤ req.payload.length → req.payload.length ≤ 524288 →
      w.loop.bufCells mem req.len = cells req.payload) ∧
    (∀ q', w.loop.Holds q' mem → q' = q) ∧
    ∀ size pool m, w.loop.pool.get size = (pool, some m) → m ≠ mem

/-- A step leaves every send that it does not complete pending, its item untouched. -/
def KeepsInFlight (w : World) (e : WorldEvent) (w' : World) : Prop :=
  w.loop.KeepsPending e.completes w'.loop

theorem Inv.inFlightIntact {w : World} (hw : Inv w) : InFlightIntact w := by
  intro q req mem hreq hmem
  have hout := hw.sound.attached q mem ⟨req, hreq, hmem⟩
  refine ⟨hout, hw.sound.intact q req mem hreq hmem, ?_, ?_⟩
  · intro q' hq'
    exact hw.sound.exclusive q' q mem hq' ⟨req, hreq, hmem⟩
  · intro size pool m hget he
    obtain ⟨-, hr | ⟨m', hm, -, hnot, -⟩⟩ := MemPool.get_spec hw.sound.pool hget
    · cases hr.1
    · cases hm
      rw [he] at hnot
      exact hnot hout

/-- **Packets in flight are intact**, in every state and over every step of every run. -/
theorem inFlight_intact (es : List WorldEvent) :
    Always step InFlightIntact new es ∧ EachMove step KeepsInFlight new es := by
  constructor
  · exact Always.of_invariant inv_step (fun _ hw => hw.inFlightIntact) inv_new es
  · apply EachMove.of_invariant inv_step _ inv_new
    intro w e w' hw h
    rcases step_move hw.fresh h with ⟨-, hmove⟩ | ⟨-, hleak⟩
    · exact (hw.sound.move hw.fresh hmove).2.1
    · exact (hw.sound.leaks hleak e.completes).2.1

/-- **No leak.** In a run every item that is out of the pool is always held by exactly one
pending request, if and only if libuv never refuses a send that has its item. -/
theorem noLeak_iff (es : List WorldEvent) :
    Always step (fun w => w.loop.NoLeak) new es ↔
      EachStep step (fun w e => ¬ w.SendRefused e) new es := by
  apply always_iff_eachStep inv_step
  · intro w e w' hw hn h
    rcases step_move hw.fresh h with ⟨hno, hmove⟩ | ⟨href, hleak⟩
    · exact ⟨fun _ => hno, fun _ => (hw.sound.move hw.fresh hmove).2.2 hn⟩
    · constructor
      · intro hn'
        exact absurd hn' (hw.sound.leaks hleak none).2.2
      · intro hno
        exact absurd href hno
  · exact inv_new
  · intro mem hmem
    exact absurd hmem.1 (by simp [new, Loop.new, MemPool.new])

/-- A connected link sends one byte, and `uv_write` returns `EPIPE`. -/
def refusedRun : List WorldEvent :=
  [.newTcp, .tcp 0 (.connect "10.0.0.1" 80 0), .tcp 0 (.connectDone 0 0 0),
    .tcp 0 (.send [1] (-32))]

/-- Nothing is pending afterwards, and the item is still out of the pool. -/
theorem not_noLeak_refusedRun : ¬ Always step (fun w => w.loop.NoLeak) new refusedRun := by
  intro h
  have hlast : Loop.NoLeak _ := h.last rfl
  obtain ⟨q, ⟨req, hreq, -⟩, -⟩ := hlast 0 ⟨rfl, by rintro ⟨c, hc⟩; cases c <;> cases hc⟩
  -- the only request was the connect request
  have hnone : Function.update (Function.update Loop.new.reqs 0 (some (.connect 0 0))) 0 none q
      = some req := hreq
  rw [Function.update_idem, Function.update_apply] at hnone
  split at hnone <;> cases hnone

end World
end SomoNet
