import SomoNet.Loop

/-!
# UDP links

The three ways of sending a datagram. `UdpLink` first tries to send at once and queues the
datagram when that transmits nothing; `UdpPeerLink`, a peer of a `UdpServer`, has no socket
of its own and answers through the server's, which always queues.

As for TCP, what libuv returns is an argument: `sent` for `uv_udp_try_send`, `r` for
`uv_udp_send`.
-/

namespace SomoNet

/-- `htons` on a little-endian host. -/
def htons (x : UInt16) : UInt16 := (x <<< 8) ||| (x >>> 8)

/-- `htonl` on a little-endian host. -/
def htonl (x : UInt32) : UInt32 :=
  (x <<< 24) ||| ((x <<< 8) &&& (0xff0000 : UInt32)) ||| ((x >>> 8) &&& (0xff00 : UInt32)) |||
    (x >>> 24)

namespace Loop

/-- `uv_udp_init` on a new `uv_udp_t`. -/
def udpInit (l : Loop) : Loop := { l with nextHandle := l.nextHandle + 1 }

/-- What every send path does first: `MemPool::get` for the length, and `assign`. -/
def copyOut (l : Loop) (data : List UInt8) (len : ℤ) : Loop × Option MemPtr :=
  match l.pool.get len with
  | (_, none) => (l, none)
  | (pool, some mem) => ({ l with pool := pool.assign mem data len }, some mem)

theorem copyOut_of_some {l : Loop} {data : List UInt8} {len : ℤ} {pool : MemPool} {mem : MemPtr}
    (h : l.pool.get len = (pool, some mem)) :
    l.copyOut data len = ({ l with pool := pool.assign mem data len }, some mem) := by
  unfold copyOut
  rw [h]

theorem copyOut_of_none {l : Loop} {data : List UInt8} {len : ℤ} {pool : MemPool}
    (h : l.pool.get len = (pool, none)) : l.copyOut data len = (l, none) := by
  unfold copyOut
  rw [h]

/-- `uv_udp_send` with the request's `data` set to the item. A refused request is not freed. -/
def udpSend (l : Loop) (mem : MemPtr) (len : ℕ) (dest : Option SockAddrIn)
    (payload : List UInt8) (r : ℤ) : Loop :=
  if r = 0 then l.submit (.udpSend mem len dest payload) else l

/-- `UdpLink::on_send` and `UdpServer::on_send`: the status is only logged. -/
def onSend (l : Loop) (q : ReqId) (mem : MemPtr) (_status : ℤ) : Loop :=
  { l.finish q with pool := l.pool.free mem }

end Loop

/-! ## `UdpLink` -/

structure UdpLink where
  pUdp : Option HandleId

namespace UdpLink

/-- `UdpLink::UdpLink` -/
def new : UdpLink := ⟨none⟩

/-- `UdpLink::connect`: a new socket, connected to the peer. The socket before it is not
closed. -/
def connect (_u : UdpLink) (l : Loop) : UdpLink × Loop := (⟨some l.nextHandle⟩, l.udpInit)

/-- The common body of the two `UdpLink::send`, which differ in the address they pass. -/
def sendTo (u : UdpLink) (l : Loop) (data : List UInt8) (dest : Option SockAddrIn)
    (sent r : ℤ) : Loop × ℤ :=
  match u.pUdp with
  | none => (l, -1)
  | some _ =>
    match l.copyOut data (toInt32 data.length) with
    | (l, none) => (l, 0)
    | (l, some mem) =>
      -- try send first
      if sent ≤ 0 then (l.udpSend mem (toUInt32 data.length) dest data r, sent)
      else ({ l with pool := l.pool.free mem }, sent)

/-- `UdpLink::send(data, len)` -/
def send (u : UdpLink) (l : Loop) (data : List UInt8) (sent r : ℤ) : Loop × ℤ :=
  u.sendTo l data none sent r

/-- `UdpLink::send(data, len, ip, port)` -/
def sendAddr (u : UdpLink) (l : Loop) (data : List UInt8) (ip : UInt32) (port : UInt16)
    (sent r : ℤ) : Loop × ℤ :=
  u.sendTo l data (some ⟨htons port, htonl ip⟩) sent r

/-- `UdpLink::close` -/
def close (_u : UdpLink) : UdpLink := ⟨none⟩

end UdpLink

/-! ## `UdpServer` and `UdpPeerLink` -/

structure UdpServer where
  pUdp : Option HandleId

namespace UdpServer

/-- `UdpServer::UdpServer` opens the socket that `listen` binds. -/
def new (l : Loop) : UdpServer × Loop := (⟨some l.nextHandle⟩, l.udpInit)

/-- `UdpServer::close` -/
def close (_s : UdpServer) : UdpServer := ⟨none⟩

/-- `UdpServer::answer`. The address and port go into the `sockaddr_in` as they are. -/
def answer (s : UdpServer) (l : Loop) (data : List UInt8) (len : ℤ) (ip : UInt32)
    (port : Int16) (r : ℤ) : Loop :=
  match s.pUdp with
  | none => l
  | some _ =>
    match l.copyOut data len with
    | (l, none) => l
    | (l, some mem) => l.udpSend mem (toUInt32 len) (some ⟨port.toUInt16, ip⟩) data r

end UdpServer

structure UdpPeerLink where
  pUdpServer : LinkPtr
  nIP : UInt32
  nPort : UInt16

namespace UdpPeerLink

/-- `UdpPeerLink::send(data, len)`; the length becomes an `int`, the port a `short`. The test of
`m_pUdpServer` for `NULL` is left out: only a `UdpServer` makes peer links, and passes itself. -/
def send (p : UdpPeerLink) (s : UdpServer) (l : Loop) (data : List UInt8) (r : ℤ) : Loop :=
  s.answer l data (toInt32 data.length) p.nIP p.nPort.toInt16 r

/-- `UdpPeerLink::send(data, len, ip, port)` -/
def sendAddr (_p : UdpPeerLink) (s : UdpServer) (l : Loop) (data : List UInt8) (ip : UInt32)
    (port : UInt16) (r : ℤ) : Loop :=
  s.answer l data (toInt32 data.length) ip port.toInt16 r

end UdpPeerLink

end SomoNet
