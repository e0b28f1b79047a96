import SomoNet.InFlight

/-!
# The ways of sending

Every `send` copies the payload into a `MemItem`, makes a `uv_buf_t` over the item and hands that to
libuv, and the length is converted on the way: to `int` for the pool and the item, to `unsigned int`
for the `uv_buf_t`. The functions here are those of the links with the calls into libuv that they
make, so that what libuv is given and what it does with it can be compared with what the caller is
told.
-/

namespace SomoNet

open Run

/-! ## Items and buffers -/

namespace MemItem

/-- The number of bytes that `assign` copies from the caller. -/
def copied (len : ℤ) : ℕ := if len ≤ 0 ∨ len > 1024 * 1024 then 0 else len.toNat

/-- What `assign` does, by the number of bytes that it copies. -/
theorem assign_eq (it : MemItem) (data : List UInt8) (len : ℤ) :
    it.assign data len =
      if copied len = 0 then it
      else
        { data := (if it.nCapacity < copied len then Block.alloc (copied len) else it.data).write 0
            (srcCells data (copied len))
          nLen := copied len
          nCapacity := max it.nCapacity (copied len) } := by
  unfold assign
  by_cases hrefused : len ≤ 0 ∨ len > 1024 * 1024
  · have hzero : copied len = 0 := if_pos hrefused
    rw [if_pos hzero]
    split_ifs
    · rfl
    · rfl
    · omega
    · omega
  · have hcopied : copied len = len.toNat := if_neg hrefused
    rw [if_neg (by omega), if_neg (by omega), if_neg (by omega), hcopied]
    dsimp only
    by_cases hgrow : len > it.nCapacity
    · rw [if_pos hgrow, if_pos (by omega), max_eq_right (by omega)]
    · rw [if_neg hgrow, if_neg (by omega), max_eq_left (by omega)]

/-- The item has room for what it was assigned. -/
theorem copied_le_nCapacity (it : MemItem) (data : List UInt8) (len : ℤ) :
    copied len ≤ (it.assign data len).nCapacity := by
  rw [assign_eq]
  by_cases hzero : copied len = 0
  · rw [if_pos hzero, hzero]
    exact Nat.zero_le _
  · rw [if_neg hzero]
    exact le_max_right _ _

end MemItem

/-- A `uv_buf_t` over the bytes of a `MemItem`, with the item as libuv finds it. -/
structure UvBuf where
  base : Option MemItem
  len : ℕ

namespace UvBuf

/-- The cells that libuv reads. -/
def payload (b : UvBuf) : List Cell :=
  match b.base with
  | some it => it.data.read 0 b.len
  | none => []

/-- The buffer lies inside its item, and within what `assign` copied for the length `len`. -/
def Covered (b : UvBuf) (len : ℤ) : Prop :=
  ∃ it, b.base = some it ∧ b.len ≤ it.nCapacity ∧ b.len ≤ MemItem.copied len

end UvBuf

/-- A call that hands a buffer to libuv, with what it returns. -/
inductive UvCall
  | write (buf : UvBuf) (r : ℤ)
  | trySend (buf : UvBuf) (dest : Option SockAddrIn) (sent : ℤ)
  | udpSend (buf : UvBuf) (dest : Option SockAddrIn) (r : ℤ)

namespace UvCall

def buf : UvCall → UvBuf
  | .write buf _ => buf
  | .trySend buf _ _ => buf
  | .udpSend buf _ _ => buf

/-- libuv has taken the whole payload: it is queued, or it is a datagram that was sent, which
`uv_udp_try_send` reports by the number of its bytes. -/
def Accepted : UvCall → Prop
  | .write _ r => r = 0
  | .trySend buf _ sent => sent = buf.len
  | .udpSend _ _ r => r = 0

/-- libuv has taken some of the payload. -/
def Takes : UvCall → Prop
  | .write _ r => r = 0
  | .trySend buf _ sent => sent = buf.len ∨ 0 < sent
  | .udpSend _ _ r => r = 0

instance : DecidablePred Accepted
  | .write _ r => inferInstanceAs (Decidable (r = 0))
  | .trySend buf _ sent => inferInstanceAs (Decidable (sent = buf.len))
  | .udpSend _ _ r => inferInstanceAs (Decidable (r = 0))

section

variable (buf : UvBuf) (dest : Option SockAddrIn) (sent r : ℤ)

/-- The two calls of a `UdpLink`: the whole datagram went out at once, or it is queued. -/
theorem accepted_trySend :
    (∃ c ∈ trySend buf dest sent :: (if sent ≤ 0 then [udpSend buf dest r] else []), c.Accepted) ↔
      sent = buf.len ∨ sent ≤ 0 ∧ r = 0 := by
  by_cases hsent : sent ≤ 0
  · simp [hsent, Accepted]
  · simp [hsent, Accepted]

theorem takes_trySend :
    (∃ c ∈ trySend buf dest sent :: (if sent ≤ 0 then [udpSend buf dest r] else []), c.Takes) ↔
      (sent = buf.len ∨ 0 < sent) ∨ sent ≤ 0 ∧ r = 0 := by
  by_cases hsent : sent ≤ 0
  · simp [hsent, Takes]
  · simp [hsent, Takes]

end

end UvCall

namespace Loop

/-- `uv_buf_init(mem->data(), len)` -/
def uv_buf_init (l : Loop) (mem : MemPtr) (len : ℕ) : UvBuf := ⟨l.pool.heap mem, len⟩

/-- The buffer that a send makes of `len` bytes: none if the pool has no item for them. -/
def sendBuf (l : Loop) (data : List UInt8) (len : ℤ) : Option UvBuf :=
  match l.copyOut data len with
  | (_, none) => none
  | (l, some mem) => some (l.uv_buf_init mem (toUInt32 len))

end Loop

/-! ## The sends and their calls -/

/-- `TcpLink::send` -/
def TcpSys.sendCalls (s : TcpSys) (data : List UInt8) (r : ℤ) : (TcpSys × ℤ) × List UvCall :=
  match s.link.pTcp with
  | none => ((s, -1), [])
  | some h =>
    if s.link.bConnecting || !s.link.bConnected then ((s, -1), [])
    else
      match s.loop.copyOut data (toInt32 data.length) with
      | (_, none) => ((s, 0), [])
      | (loop, some mem) =>
        let len := toUInt32 data.length
        let buf := loop.uv_buf_init mem len
        if r ≠ 0 then (({ s with loop }, -1), [.write buf r])
        else
          let s : TcpSys := { s with loop := loop.submit (.write s.link.self h mem len data) }
          ((s.emit (.write h buf.payload), 0), [.write buf r])

/-- The common body of the two `UdpLink::send`. -/
def UdpLink.sendCalls (u : UdpLink) (l : Loop) (data : List UInt8) (dest : Option SockAddrIn)
    (sent r : ℤ) : (Loop × ℤ) × List UvCall :=
  match u.pUdp with
  | none => ((l, -1), [])
  | some _ =>
    match l.copyOut data (toInt32 data.length) with
    | (l, none) => ((l, 0), [])
    | (l, some mem) =>
      let len := toUInt32 data.length
      let buf := l.uv_buf_init mem len
      -- try send first
      if sent ≤ 0 then
        ((l.udpSend mem len dest data r, sent), [.trySend buf dest sent, .udpSend buf dest r])
      else (({ l with pool := l.pool.free mem }, sent), [.trySend buf dest sent])

/-- `UdpServer::answer` -/
def UdpServer.answerCalls (s : UdpServer) (l : Loop) (data : List UInt8) (len : ℤ) (ip : UInt32)
    (port : Int16) (r : ℤ) : Loop × List UvCall :=
  match s.pUdp with
  | none => (l, [])
  | some _ =>
    match l.copyOut data len with
    | (l, none) => (l, [])
    | (l, some mem) =>
      let dest : Option SockAddrIn := some ⟨port.toUInt16, ip⟩
      (l.udpSend mem (toUInt32 len) dest data r,
        [.udpSend (l.uv_buf_init mem (toUInt32 len)) dest r])

/-- `UdpPeerLink::send(data, len)`. The result does not depend on `answer`, which has none. -/
def UdpPeerLink.sendCalls (p : UdpPeerLink) (s : UdpServer) (l : Loop) (data : List UInt8) (r : ℤ) :
    (Loop × ℤ) × List UvCall :=
  let res := s.answerCalls l data (toInt32 data.length) p.nIP p.nPort.toInt16 r
  ((res.1, 0), res.2)

/-- `UdpPeerLink::send(data, len, ip, port)` -/
def UdpPeerLink.sendAddrCalls (_p : UdpPeerLink) (s : UdpServer) (l : Loop) (data : List UInt8)
    (ip : UInt32) (port : UInt16) (r : ℤ) : (Loop × ℤ) × List UvCall :=
  let res := s.answerCalls l data (toInt32 data.length) ip port.toInt16 r
  ((res.1, 0), res.2)

/-! These are the sends of the links. -/

theorem TcpSys.sendCalls_fst (s : TcpSys) (data : List UInt8) (r : ℤ) :
    (s.sendCalls data r).1 = s.send data r := by
  unfold TcpSys.sendCalls TcpSys.send Loop.copyOut
  cases s.link.pTcp with
  | none => rfl
  | some h =>
    dsimp only
    by_cases hconn : (s.link.bConnecting || !s.link.bConnected) = true
    · rw [if_pos hconn, if_pos hconn]
    · rw [if_neg hconn, if_neg hconn]
      cases s.loop.pool.get (toInt32 data.length) with
      | mk pool res =>
        cases res with
        | none => rfl
        | some mem =>
          dsimp only
          by_cases hr : r ≠ 0
          · rw [if_pos hr, if_pos hr]
          · rw [if_neg hr, if_neg hr]
            rfl

theorem UdpLink.sendCalls_fst (u : UdpLink) (l : Loop) (data : List UInt8)
    (dest : Option SockAddrIn) (sent r : ℤ) :
    (u.sendCalls l data dest sent r).1 = u.sendTo l data dest sent r := by
  unfold UdpLink.sendCalls UdpLink.sendTo
  cases u.pUdp with
  | none => rfl
  | some h =>
    dsimp only
    cases l.copyOut data (toInt32 data.length) with
    | mk l' res =>
      cases res with
      | none => rfl
      | some mem =>
        dsimp only
        by_cases hsent : sent ≤ 0
        · rw [if_pos hsent, if_pos hsent]
        · rw [if_neg hsent, if_neg hsent]

theorem UdpServer.answerCalls_fst (s : UdpServer) (l : Loop) (data : List UInt8) (len : ℤ)
    (ip : UInt32) (port : Int16) (r : ℤ) :
    (s.answerCalls l data len ip port r).1 = s.answer l data len ip port r := by
  unfold UdpServer.answerCalls UdpServer.answer
  cases s.pUdp with
  | none => rfl
  | some h =>
    dsimp only
    cases l.copyOut data len with
    | mk l' res => cases res <;> rfl

/-! ## What a send hands to libuv -/

theorem Loop.sendBuf_isSome (l : Loop) (data : List UInt8) (len : ℤ) :
    (l.sendBuf data len).isSome = true ↔ len ≤ MEM_ITEM_SIZE_MAX := by
  rw [← l.pool.get_isSome len]
  unfold sendBuf copyOut
  cases l.pool.get len with
  | mk pool res => cases res <;> simp

theorem Loop.sendBuf_len {l : Loop} {data : List UInt8} {len : ℤ} {buf : UvBuf}
    (h : l.sendBuf data len = some buf) : buf.len = toUInt32 len := by
  unfold sendBuf at h
  cases hcopy : l.copyOut data len with
  | mk l' res =>
    rw [hcopy] at h
    cases res with
    | none => cases h
    | some mem =>
      cases h
      rfl

/-- Without a buffer the length is above what the pool has items for. -/
theorem Loop.lt_of_sendBuf_none {l : Loop} {data : List UInt8} {len : ℤ}
    (h : l.sendBuf data len = none) : MEM_ITEM_SIZE_MAX < len := by
  by_contra hmax
  have hsome := (l.sendBuf_isSome data len).mpr (not_lt.mp hmax)
  rw [h] at hsome
  cases hsome

theorem Loop.le_of_sendBuf_some {l : Loop} {data : List UInt8} {len : ℤ} {buf : UvBuf}
    (h : l.sendBuf data len = some buf) : len ≤ MEM_ITEM_SIZE_MAX := by
  rw [← l.sendBuf_isSome data, h]
  rfl

/-- The buffer of a link has the low 32 bits of the payload's length. -/
theorem Loop.sendBuf_len_payload {l : Loop} {data : List UInt8} {n : ℤ} {buf : UvBuf}
    (h : l.sendBuf data (toInt32 n) = some buf) : buf.len = toUInt32 n := by
  rw [Loop.sendBuf_len h, toUInt32_toInt32]

/-- The item behind the buffer is one that the payload was assigned to. -/
theorem Loop.sendBuf_base {l : Loop} (hl : l.pool.Valid) {data : List UInt8} {len : ℤ} {buf : UvBuf}
    (h : l.sendBuf data len = some buf) : ∃ it : MemItem, buf.base = some (it.assign data len) := by
  unfold sendBuf copyOut at h
  cases hget : l.pool.get len with
  | mk pool res =>
    rw [hget] at h
    obtain ⟨-, ⟨rfl, -⟩ | ⟨mem, rfl, -, -, hout, -⟩⟩ := MemPool.get_spec hl hget
    · cases h
    · cases h
      obtain ⟨it, hit⟩ := hout.exists_item
      refine ⟨it, ?_⟩
      simp [uv_buf_init, MemPool.assign, MemPool.setItem, hit]

/-- A connected link that `send` does not turn away. -/
def TcpLink.Ready (l : TcpLink) : Prop :=
  l.pTcp.isSome = true ∧ l.bConnecting = false ∧ l.bConnected = true

/-- `TcpLink::send` on a connected link. -/
theorem TcpSys.sendCalls_ready {s : TcpSys} (hs : s.link.Ready) (data : List UInt8) (r : ℤ) :
    s.loop.sendBuf data (toInt32 data.length) = none ∧ (s.sendCalls data r).2 = [] ∧
        (s.sendCalls data r).1.2 = 0 ∨
      ∃ buf, s.loop.sendBuf data (toInt32 data.length) = some buf ∧
        (s.sendCalls data r).2 = [.write buf r] ∧
        (s.sendCalls data r).1.2 = if r = 0 then 0 else -1 := by
  obtain ⟨htcp, hconnecting, hconnected⟩ := hs
  obtain ⟨h, hh⟩ := Option.isSome_iff_exists.mp htcp
  have hlen := toUInt32_toInt32 data.length
  unfold TcpSys.sendCalls Loop.sendBuf
  rw [hh, hconnecting, hconnected]
  dsimp only
  cases s.loop.copyOut data (toInt32 data.length) with
  | mk l res =>
    cases res with
    | none => exact Or.inl ⟨rfl, rfl, rfl⟩
    | some mem =>
      right
      refine ⟨_, rfl, ?_⟩
      rw [hlen]
      by_cases hr : r = 0
      · simp [hr]
      · simp [hr]

/-- `UdpLink::send` on an open link: the queued send is the fallback. -/
theorem UdpLink.sendCalls_open {u : UdpLink} (hu : u.pUdp.isSome = true) (l : Loop)
    (data : List UInt8) (dest : Option SockAddrIn) (sent r : ℤ) :
    l.sendBuf data (toInt32 data.length) = none ∧ (u.sendCalls l data dest sent r).2 = [] ∧
        (u.sendCalls l data dest sent r).1.2 = 0 ∨
      ∃ buf, l.sendBuf data (toInt32 data.length) = some buf ∧
        (u.sendCalls l data dest sent r).2 = .trySend buf dest sent ::
          (if sent ≤ 0 then [.udpSend buf dest r] else []) ∧
        (u.sendCalls l data dest sent r).1.2 = sent := by
  obtain ⟨h, hh⟩ := Option.isSome_iff_exists.mp hu
  have hlen := toUInt32_toInt32 data.length
  unfold UdpLink.sendCalls Loop.sendBuf
  rw [hh]
  dsimp only
  cases l.copyOut data (toInt32 data.length) with
  | mk l' res =>
    cases res with
    | none => exact Or.inl ⟨rfl, rfl, rfl⟩
    | some mem =>
      right
      refine ⟨_, rfl, ?_⟩
      rw [hlen]
      by_cases hsent : sent ≤ 0
      · simp [hsent]
      · simp [hsent]

/-- `UdpServer::answer` on an open server. -/
theorem UdpServer.answerCalls_open {s : UdpServer} (hs : s.pUdp.isSome = true) (l : Loop)
    (data : List UInt8) (len : ℤ) (ip : UInt32) (port : Int16) (r : ℤ) :
    (s.answerCalls l data len ip port r).2 =
      match l.sendBuf data len with
      | none => []
      | some buf => [.udpSend buf (some ⟨port.toUInt16, ip⟩) r] := by
  obtain ⟨h, hh⟩ := Option.isSome_iff_exists.mp hs
  unfold UdpServer.answerCalls Loop.sendBuf
  rw [hh]
  dsimp only
  cases l.copyOut data len with
  | mk l' res => cases res <;> rfl

theorem UdpServer.answerCalls_closed {s : UdpServer} (hs : s.pUdp = none) (l : Loop)
    (data : List UInt8) (len : ℤ) (ip : UInt32) (port : Int16) (r : ℤ) :
    (s.answerCalls l data len ip port r).2 = [] := by
  unfold UdpServer.answerCalls
  rw [hs]

/-! ## Within the copy -/

/-- A buffer is covered exactly when the length has not become negative on its way. -/
theorem Loop.sendBuf_covered {l : Loop} (hl : l.pool.Valid) {data : List UInt8} {len : ℤ}
    (hlo : -2147483648 ≤ len) {buf : UvBuf} (h : l.sendBuf data len = some buf) :
    buf.Covered len ↔ 0 ≤ len := by
  obtain ⟨it, hit⟩ := sendBuf_base hl h
  have hlen := sendBuf_len h
  have hmax : len ≤ MEM_ITEM_SIZE_MAX := (l.sendBuf_isSome data len).mp (by rw [h]; rfl)
  have hroom := it.copied_le_nCapacity data len
  unfold MEM_ITEM_SIZE_MAX at hmax
  unfold toUInt32 at hlen
  unfold UvBuf.Covered
  constructor
  · rintro ⟨it', -, -, hcopied⟩
    by_contra hneg
    -- a refused `assign` copies nothing
    have hzero : MemItem.copied len = 0 := if_pos (Or.inl (by omega))
    omega
  · intro hnonneg
    have hcopied : buf.len = MemItem.copied len := by
      by_cases hz : len = 0
      · have hzero : MemItem.copied len = 0 := if_pos (Or.inl hz.le)
        omega
      · have hall : MemItem.copied len = len.toNat := if_neg (by omega)
        omega
    exact ⟨_, hit, hcopied.trans_le hroom, hcopied.le⟩

/-- The calls of a send that is `ready`: each hands over the buffer made of the payload, and one is
made if there is such a buffer. -/
structure HandsOver (l : Loop) (data : List UInt8) (len : ℤ) (ready : Prop) (calls : List UvCall) :
    Prop where
  buf : ∀ c ∈ calls, ready ∧ l.sendBuf data len = some c.buf
  call : ready → ∀ buf, l.sendBuf data len = some buf → ∃ c ∈ calls, c.buf = buf

theorem TcpLink.not_ready_iff {link : TcpLink} :
    ¬ link.Ready ↔ link.pTcp = none ∨ (link.bConnecting || !link.bConnected) = true := by
  unfold Ready
  cases link.pTcp <;> cases link.bConnecting <;> cases link.bConnected <;> simp

theorem TcpSys.handsOver (s : TcpSys) (data : List UInt8) (r : ℤ) :
    HandsOver s.loop data (toInt32 data.length) s.link.Ready (s.sendCalls data r).2 := by
  by_cases hs : s.link.Ready
  · rcases s.sendCalls_ready hs data r with ⟨hnone, hcalls, -⟩ | ⟨buf, hbuf, hcalls, -⟩
    · rw [hcalls]
      exact ⟨by simp, by simp [hnone]⟩
    · rw [hcalls]
      exact ⟨by simp [hs, hbuf, UvCall.buf], by simp [hbuf, UvCall.buf]⟩
  · have hcalls : (s.sendCalls data r).2 = [] := by
      unfold TcpSys.sendCalls
      rcases TcpLink.not_ready_iff.mp hs with htcp | hconn
      · rw [htcp]
      · cases s.link.pTcp with
        | none => rfl
        | some h =>
          dsimp only
          rw [if_pos hconn]
    rw [hcalls]
    exact ⟨by simp, fun h => absurd h hs⟩

theorem UdpLink.handsOver (u : UdpLink) (l : Loop) (data : List UInt8) (dest : Option SockAddrIn)
    (sent r : ℤ) :
    HandsOver l data (toInt32 data.length) (u.pUdp.isSome = true) (u.sendCalls l data dest sent r).2 := by
  by_cases hu : u.pUdp.isSome = true
  · rcases u.sendCalls_open hu l data dest sent r with ⟨hnone, hcalls, -⟩ | ⟨buf, hbuf, hcalls, -⟩
    · rw [hcalls]
      exact ⟨by simp, by simp [hnone]⟩
    · rw [hcalls]
      constructor
      · intro c hc
        split_ifs at hc with hsent
        · rcases List.mem_pair.mp hc with rfl | rfl
          · exact ⟨hu, hbuf⟩
          · exact ⟨hu, hbuf⟩
        · rw [List.mem_singleton.mp hc]
          exact ⟨hu, hbuf⟩
      · intro _ buf' hbuf'
        rw [hbuf] at hbuf'
        cases hbuf'
        exact ⟨_, List.mem_cons_self, rfl⟩
  · have hcalls : (u.sendCalls l data dest sent r).2 = [] := by
      unfold UdpLink.sendCalls
      rw [Option.not_isSome_iff_eq_none.mp hu]
    rw [hcalls]
    exact ⟨by simp, fun h => absurd h hu⟩

theorem UdpServer.handsOver (s : UdpServer) (l : Loop) (data : List UInt8) (len : ℤ) (ip : UInt32)
    (port : Int16) (r : ℤ) :
    HandsOver l data len (s.pUdp.isSome = true) (s.answerCalls l data len ip port r).2 := by
  by_cases hs : s.pUdp.isSome = true
  · rw [s.answerCalls_open hs]
    cases hbuf : l.sendBuf data len with
    | none => exact ⟨by simp, by simp [hbuf]⟩
    | some buf => exact ⟨by simp [hs, hbuf, UvCall.buf], by simp [hbuf, UvCall.buf]⟩
  · rw [s.answerCalls_closed (Option.not_isSome_iff_eq_none.mp hs)]
    exact ⟨by simp, fun h => absurd h hs⟩

/-- A way of handing a payload to libuv, with the objects that it goes through. -/
inductive SendPath
  | tcp (link : TcpLink)
  | udp (u : UdpLink)
  | udpAddr (u : UdpLink) (ip : UInt32) (port : UInt16)
  | peer (p : UdpPeerLink) (s : UdpServer)
  | peerAddr (p : UdpPeerLink) (s : UdpServer) (ip : UInt32) (port : UInt16)
  | answer (s : UdpServer) (len : Int32) (ip : UInt32) (port : Int16)

namespace SendPath

/-- The calls into libuv. -/
def calls (path : SendPath) (l : Loop) (data : List UInt8) (sent r : ℤ) : List UvCall :=
  match path with
  | .tcp link => (TcpSys.sendCalls ⟨link, l⟩ data r).2
  | .udp u => (u.sendCalls l data none sent r).2
  | .udpAddr u ip port => (u.sendCalls l data (some ⟨htons port, htonl ip⟩) sent r).2
  | .peer p s => (p.sendCalls s l data r).2
  | .peerAddr p s ip port => (p.sendAddrCalls s l data ip port r).2
  | .answer s len ip port => (s.answerCalls l data len.toInt ip port r).2

/-- The length that `MemPool::get` and `MemItem::assign` are given. -/
def len (path : SendPath) (data : List UInt8) : ℤ :=
  match path with
  | .answer _ len _ _ => len.toInt
  | _ => toInt32 data.length

/-- The path leads to libuv. -/
def Ready : SendPath → Prop
  | .tcp link => link.Ready
  | .udp u => u.pUdp.isSome = true
  | .udpAddr u _ _ => u.pUdp.isSome = true
  | .peer _ s => s.pUdp.isSome = true
  | .peerAddr _ s _ _ => s.pUdp.isSome = true
  | .answer s _ _ _ => s.pUdp.isSome = true

end SendPath

theorem neg_le_toInt32 (x : ℤ) : -2147483648 ≤ toInt32 x := by
  unfold toInt32 toUInt32
  split <;> omega

namespace SendPath

theorem neg_le_len (path : SendPath) (data : List UInt8) : -2147483648 ≤ path.len data := by
  cases path with
  | answer s len ip port => exact len.le_toInt
  | _ => exact neg_le_toInt32 _

theorem handsOver (path : SendPath) (l : Loop) (data : List UInt8) (sent r : ℤ) :
    HandsOver l data (path.len data) path.Ready (path.calls l data sent r) := by
  cases path with
  | tcp link => exact TcpSys.handsOver ⟨link, l⟩ data r
  | udp u => exact u.handsOver l data _ sent r
  | udpAddr u ip port => exact u.handsOver l data _ sent r
  | peer p s => exact s.handsOver l data _ _ _ r
  | peerAddr p s ip port => exact s.handsOver l data _ _ _ r
  | answer s len ip port => exact s.handsOver l data _ _ _ r

/-- With a sound pool every buffer is covered exactly when none is made of a negative length. -/
theorem covered_iff {l : Loop} (hl : l.pool.Valid) (path : SendPath) (data : List UInt8)
    (sent r : ℤ) :
    (∀ c ∈ path.calls l data sent r, c.buf.Covered (path.len data)) ↔
      (path.Ready → 0 ≤ path.len data) := by
  have hover := path.handsOver l data sent r
  have hlo := path.neg_le_len data
  constructor
  · intro hcovered hready
    by_contra hneg
    -- the pool has an item for every negative size
    have hmax : path.len data ≤ MEM_ITEM_SIZE_MAX := by
      unfold MEM_ITEM_SIZE_MAX
      omega
    obtain ⟨buf, hbuf⟩ := Option.isSome_iff_exists.mp ((l.sendBuf_isSome data _).mpr hmax)
    obtain ⟨c, hc, hcbuf⟩ := hover.call hready buf hbuf
    have hcover := hcovered c hc
    rw [hcbuf] at hcover
    exact hneg ((Loop.sendBuf_covered hl hlo hbuf).mp hcover)
  · intro hnonneg c hc
    obtain ⟨hready, hbuf⟩ := hover.buf c hc
    exact (Loop.sendBuf_covered hl hlo hbuf).mpr (hnonneg hready)

/-- **Within the copy.** In a process of any links, whatever path a payload of any length takes to
libuv: the buffers handed over lie inside their items and within the bytes that were copied, if and
only if the path is not open or the length, as an `int`, is not negative. -/
theorem within_copy_iff {w : World} (hw : Reaches World.step World.new w) (path : SendPath)
    (data : List UInt8) (sent r : ℤ) :
    (∀ c ∈ path.calls w.loop data sent r, c.buf.Covered (path.len data)) ↔
      (path.Ready → 0 ≤ path.len data) :=
  covered_iff (World.inv_step.reaches World.inv_new hw).sound.pool path data sent r

/-- The process in which one connection has been accepted. -/
def acceptedWorld : World := World.new.addTcp (TcpSys.accepted 0 Loop.new)

theorem within_copy_accepted :
    ((SendPath.tcp (TcpLink.ofHandle 0 0)).calls acceptedWorld.loop [1, 2, 3] 0 0).length = 1 ∧
      ∀ c ∈ (SendPath.tcp (TcpLink.ofHandle 0 0)).calls acceptedWorld.loop [1, 2, 3] 0 0,
        c.buf.Covered 3 := by
  have hreach : Reaches World.step World.new acceptedWorld := ⟨[.accept], rfl⟩
  constructor
  · rfl
  · apply (within_copy_iff hreach (.tcp (TcpLink.ofHandle 0 0)) [1, 2, 3] 0 0).mpr
    intro _
    decide

/-- A payload of 2 GiB: libuv is told to read all of it from an item of 4 KiB. -/
theorem not_within_copy {data : List UInt8} (hdata : data.length = 2147483648) :
    ¬ ∀ c ∈ (SendPath.tcp (TcpLink.ofHandle 0 0)).calls acceptedWorld.loop data 0 0,
      c.buf.Covered ((SendPath.tcp (TcpLink.ofHandle 0 0)).len data) := by
  rw [covered_iff MemPool.valid_new]
  intro h
  have hneg := h ⟨rfl, rfl, rfl⟩
  unfold len at hneg
  rw [hdata] at hneg
  revert hneg
  decide

theorem not_within_copy_2GiB :
    ¬ ∀ c ∈ (SendPath.tcp (TcpLink.ofHandle 0 0)).calls acceptedWorld.loop
        (List.replicate 2147483648 0) 0 0,
      c.buf.Covered ((SendPath.tcp (TcpLink.ofHandle 0 0)).len (List.replicate 2147483648 0)) :=
  not_within_copy List.length_replicate

end SendPath

/-! ## What the caller is told -/

/-- An `ISNLink` of each kind, a peer link with the server that it answers through. -/
inductive ISNLink
  | tcp (link : TcpLink)
  | udp (u : UdpLink)
  | peer (p : UdpPeerLink) (s : UdpServer)

namespace ISNLink

/-- `send(data, len)`: its result and its calls into libuv. -/
def send (L : ISNLink) (l : Loop) (data : List UInt8) (sent r : ℤ) : ℤ × List UvCall :=
  match L with
  | .tcp link =>
    let res := TcpSys.sendCalls ⟨link, l⟩ data r
    (res.1.2, res.2)
  | .udp u =>
    let res := u.sendCalls l data none sent r
    (res.1.2, res.2)
  | .peer p s =>
    let res := p.sendCalls s l data r
    (res.1.2, res.2)

/-- The link is open, and connected if it is a TCP link. A peer link has no state of its own. -/
def Open : ISNLink → Prop
  | .tcp link => link.Ready
  | .udp u => u.pUdp.isSome = true
  | .peer _ _ => True

/-- A result of `send` is true of the calls that it made: it is negative exactly when libuv has not
taken the payload, and then libuv has not taken a part of it either. -/
def Truthful (res : ℤ × List UvCall) : Prop :=
  (0 ≤ res.1 ↔ ∃ c ∈ res.2, c.Accepted) ∧ (res.1 < 0 → ∀ c ∈ res.2, ¬ c.Takes)

/-- Where the three implementations tell the truth. The pool has an item for the payload; a `UdpLink`
has sent it at once, or the fallback ended as the first try did; a peer link's server is open and
libuv queues the datagram. -/
def TellsTruth (L : ISNLink) (data : List UInt8) (sent r : ℤ) : Prop :=
  match L with
  | .tcp _ => (data.length : ℤ) ≤ MEM_ITEM_SIZE_MAX
  | .udp _ => (data.length : ℤ) ≤ MEM_ITEM_SIZE_MAX ∧
    (sent = data.length ∨ sent = 0 ∧ r = 0 ∨ sent < 0 ∧ r ≠ 0)
  | .peer _ s => s.pUdp.isSome = true ∧ (data.length : ℤ) ≤ MEM_ITEM_SIZE_MAX ∧ r = 0

/-- Without a call nothing is accepted. -/
theorem not_truthful_nil {result : ℤ} (h : 0 ≤ result) : ¬ Truthful (result, []) := by
  intro htrue
  obtain ⟨c, hc, -⟩ := htrue.1.mp h
  exact absurd hc List.not_mem_nil

/-- One call, and a result that says whether libuv accepted it. -/
theorem truthful_write (buf : UvBuf) (r : ℤ) :
    Truthful (if r = 0 then 0 else -1, [.write buf r]) := by
  unfold Truthful
  by_cases hr : r = 0
  · simp [hr, UvCall.Accepted]
  · simp [hr, UvCall.Accepted, UvCall.Takes]

/-- The result of the first try, with the fallback behind it. -/
theorem truthful_trySend (buf : UvBuf) (dest : Option SockAddrIn) (sent r : ℤ) (hlen : 0 < buf.len) :
    Truthful (sent, .trySend buf dest sent :: if sent ≤ 0 then [.udpSend buf dest r] else []) ↔
      sent = buf.len ∨ sent = 0 ∧ r = 0 ∨ sent < 0 ∧ r ≠ 0 := by
  have hnone : ∀ calls : List UvCall, (∀ c ∈ calls, ¬ c.Takes) ↔ ¬ ∃ c ∈ calls, c.Takes := by
    intro calls
    simp only [not_exists, not_and]
  unfold Truthful
  rw [UvCall.accepted_trySend, hnone, UvCall.takes_trySend]
  -- the fallback decides where the first try has sent nothing
  omega

/-- The result of a peer link is always 0. -/
theorem truthful_udpSend (buf : UvBuf) (dest : Option SockAddrIn) (r : ℤ) :
    Truthful (0, [.udpSend buf dest r]) ↔ r = 0 := by
  unfold Truthful
  simp [UvCall.Accepted]

/-- **The result of `send`.** On an open link of any kind, for a payload whose length an `int` can
hold and whatever libuv answers, the result of `send` is true exactly where `TellsTruth` says. -/
theorem truthful_send_iff {L : ISNLink} (hopen : L.Open) (l : Loop) {data : List UInt8}
    (hpos : 1 ≤ data.length) (hint : data.length < 2147483648) (sent r : ℤ) :
    Truthful (L.send l data sent r) ↔ L.TellsTruth data sent r := by
  have hlen : toInt32 data.length = data.length := toInt32_of_mem (by omega) (by omega)
  have hulen : toUInt32 data.length = data.length := toUInt32_of_lt (by omega)
  -- the pool has no item, or the buffer is as long as the payload
  have hnone : l.sendBuf data (toInt32 data.length) = none →
      ¬ (data.length : ℤ) ≤ MEM_ITEM_SIZE_MAX := by
    intro h
    have hmax := Loop.lt_of_sendBuf_none h
    omega
  have hbuf : ∀ buf, l.sendBuf data (toInt32 data.length) = some buf →
      (data.length : ℤ) ≤ MEM_ITEM_SIZE_MAX ∧ buf.len = data.length := by
    intro buf h
    have hmax := Loop.le_of_sendBuf_some h
    have hblen := Loop.sendBuf_len_payload h
    omega
  cases L with
  | tcp link =>
    unfold send TellsTruth
    dsimp only
    rcases TcpSys.sendCalls_ready (s := ⟨link, l⟩) hopen data r with
      ⟨hitem, hcalls, hres⟩ | ⟨buf, hitem, hcalls, hres⟩
    · rw [hcalls, hres]
      exact iff_of_false (not_truthful_nil le_rfl) (hnone hitem)
    · rw [hcalls, hres]
      exact iff_of_true (truthful_write buf r) (hbuf buf hitem).1
  | udp u =>
    unfold send TellsTruth
    dsimp only
    rcases u.sendCalls_open hopen l data none sent r with
      ⟨hitem, hcalls, hres⟩ | ⟨buf, hitem, hcalls, hres⟩
    · rw [hcalls, hres]
      exact iff_of_false (not_truthful_nil le_rfl) fun h => hnone hitem h.1
    · obtain ⟨hmax, hblen⟩ := hbuf buf hitem
      rw [hcalls, hres, truthful_trySend buf none sent r (by omega), hblen]
      exact (and_iff_right hmax).symm
  | peer p s =>
    unfold send TellsTruth UdpPeerLink.sendCalls
    dsimp only
    by_cases hs : s.pUdp.isSome = true
    · rw [s.answerCalls_open hs]
      cases hitem : l.sendBuf data (toInt32 data.length) with
      | none => exact iff_of_false (not_truthful_nil le_rfl) fun h => hnone hitem h.2.1
      | some buf =>
        have hmax := (hbuf buf hitem).1
        rw [truthful_udpSend]
        exact ⟨fun hr => ⟨hs, hmax, hr⟩, fun h => h.2.2⟩
    · rw [s.answerCalls_closed (Option.not_isSome_iff_eq_none.mp hs)]
      exact iff_of_false (not_truthful_nil le_rfl) fun h => hs h.1

theorem truthful_send_queued :
    Truthful ((ISNLink.tcp (TcpLink.ofHandle 0 0)).send Loop.new [1, 2, 3] 0 0) :=
  (truthful_send_iff (L := .tcp (TcpLink.ofHandle 0 0)) ⟨rfl, rfl, rfl⟩ Loop.new (by decide) (by decide)
    0 0).mpr (by unfold TellsTruth; decide)

/-- `uv_udp_try_send` would block and the datagram is queued. -/
theorem not_truthful_send_eagain :
    ¬ Truthful ((ISNLink.udp ⟨some 0⟩).send Loop.new [1, 2, 3] (-11) 0) := by
  intro htrue
  have hres : ((ISNLink.udp ⟨some 0⟩).send Loop.new [1, 2, 3] (-11) 0).1 = -11 := rfl
  have hcalls : ∃ buf, .udpSend buf none 0 ∈ ((ISNLink.udp ⟨some 0⟩).send Loop.new [1, 2, 3] (-11) 0).2 :=
    ⟨_, List.mem_cons_of_mem _ List.mem_cons_self⟩
  obtain ⟨buf, hcall⟩ := hcalls
  exact htrue.2 (by rw [hres]; decide) _ hcall rfl

end ISNLink

/-! ## One datagram for each call -/

namespace UdpLink

/-- At most one datagram goes out, and the fallback is used only when the first try sent nothing. -/
def AtMostOnce (calls : List UvCall) : Prop :=
  calls.countP (fun c => decide c.Accepted) ≤ 1 ∧
    ∀ c ∈ calls, ∀ buf dest sent, c = .trySend buf dest sent → c.Accepted →
      ∀ c' ∈ calls, ∀ buf' dest' r, c' ≠ .udpSend buf' dest' r

theorem atMostOnce_trySend (buf : UvBuf) (dest : Option SockAddrIn) (sent r : ℤ) :
    AtMostOnce (.trySend buf dest sent :: if sent ≤ 0 then [.udpSend buf dest r] else []) ↔
      ¬(buf.len = 0 ∧ sent = 0) := by
  constructor
  · -- an empty datagram was sent, and its length is taken for a failure
    rintro ⟨-, honly⟩ ⟨hlen, hzero⟩
    subst hzero
    have haccepted : (UvCall.trySend buf dest 0).Accepted := by
      show (0 : ℤ) = buf.len
      omega
    exact honly _ List.mem_cons_self buf dest 0 rfl haccepted _
      (List.mem_cons_of_mem _ List.mem_cons_self) buf dest r rfl
  · intro hnot
    by_cases hsent : sent ≤ 0
    · have hrefused : ¬ (UvCall.trySend buf dest sent).Accepted := by
        show ¬ sent = buf.len
        omega
      rw [if_pos hsent]
      constructor
      · rw [List.countP_cons_of_neg (by simpa using hrefused)]
        exact List.countP_le_length
      · rintro c hc buf' dest' sent' rfl haccepted
        rcases List.mem_pair.mp hc with heq | heq
        · exact absurd (heq ▸ haccepted) hrefused
        · cases heq
    · rw [if_neg hsent]
      refine ⟨List.countP_le_length, ?_⟩
      rintro c hc buf' dest' sent' rfl - c' hc' buf'' dest'' r' rfl
      cases List.mem_singleton.mp hc'

theorem atMostOnce_nil : AtMostOnce [] := ⟨Nat.zero_le _, by simp⟩

/-- **At most once.** For a payload of any length, sent to the peer or to an address, and whatever the
first try returns: one datagram goes out at most, unless the link is open, the datagram is empty and
the first try returns 0 for having sent it. -/
theorem atMostOnce_iff (u : UdpLink) (l : Loop) (data : List UInt8) (dest : Option SockAddrIn)
    (sent r : ℤ) :
    AtMostOnce (u.sendCalls l data dest sent r).2 ↔
      ¬(u.pUdp.isSome = true ∧ toUInt32 data.length = 0 ∧ sent = 0) := by
  by_cases hu : u.pUdp.isSome = true
  · rcases u.sendCalls_open hu l data dest sent r with ⟨hitem, hcalls, -⟩ | ⟨buf, hitem, hcalls, -⟩
    · -- the pool has an item for an empty payload
      have hmax := Loop.lt_of_sendBuf_none hitem
      rw [hcalls]
      apply iff_of_true atMostOnce_nil
      rintro ⟨-, hzero, -⟩
      unfold toInt32 MEM_ITEM_SIZE_MAX at hmax
      rw [hzero] at hmax
      revert hmax
      decide
    · rw [hcalls, atMostOnce_trySend, Loop.sendBuf_len_payload hitem]
      exact not_congr (and_iff_right hu).symm
  · have hcalls : (u.sendCalls l data dest sent r).2 = [] := by
      unfold sendCalls
      rw [Option.not_isSome_iff_eq_none.mp hu]
    rw [hcalls]
    exact iff_of_true atMostOnce_nil fun h => hu h.1

/-- The empty datagram is sent, and queued again. -/
theorem not_atMostOnce_empty : ¬ AtMostOnce ((⟨some 0⟩ : UdpLink).sendCalls Loop.new [] none 0 0).2 := by
  rcases (⟨some 0⟩ : UdpLink).sendCalls_open rfl Loop.new [] none 0 0 with
    ⟨hitem, -, -⟩ | ⟨buf, hitem, hcalls, -⟩
  · cases hitem
  · rw [hcalls, atMostOnce_trySend]
    exact fun h => h ⟨Loop.sendBuf_len hitem, rfl⟩

end UdpLink

end SomoNet
