import SomoNet.SendPaths
import SomoNet.UdpPeers

/-!
# The remote endpoint of a link

Every link has `ip_str()`, `ip()` and `port()` for its remote endpoint, and four constructions fill
the fields behind them: `connect` from a text and a port in host order, `UdpPeerLink` from the fields
of a `sockaddr_in`, and a `TcpLink` made for an accepted connection from nothing. An addressed send
takes such an address back.

An address `a` is an `in_addr_t`, in network byte order; a port is in host byte order, and a
`sockaddr_in` holds both in network byte order.
-/

namespace SomoNet

/-- The functions of libc and libuv between an address and its text. -/
structure AddrText where
  inet_addr : String → UInt32
  inet_ntoa : UInt32 → String
  uv_ip4_addr : String → UInt16 → SockAddrIn

/-- The dotted form of `a` is read as `a`, in network byte order. -/
structure AddrText.Reads (t : AddrText) (a : UInt32) : Prop where
  inet_addr : t.inet_addr (t.inet_ntoa a) = a
  uv_ip4_addr : ∀ port, t.uv_ip4_addr (t.inet_ntoa a) port = ⟨htons port, a⟩

/-- What `ip_str()`, `ip()` and `port()` return; `none` where the field has never been set. -/
structure Endpoint where
  ip_str : String
  ip : Option UInt32
  port : Option UInt16
  deriving DecidableEq

/-! ## The constructions -/

/-- `netaddr::aton` -/
def AddrText.aton (t : AddrText) (ip : String) : UInt32 := t.inet_addr ip

/-- `netaddr::ntoa` -/
def AddrText.ntoa (t : AddrText) (ip : UInt32) : String := t.inet_ntoa ip

/-- The endpoint of a `TcpLink` or `UdpLink` just constructed. Both constructors of `TcpLink` leave
`m_nIP` and `m_bPort` as they find them. -/
def Endpoint.new : Endpoint := ⟨"", none, none⟩

/-- The endpoint that `TcpLink::connect` stores. -/
def Endpoint.tcpConnect (t : AddrText) (_e : Endpoint) (ip : String) (port : UInt16) : Endpoint where
  ip_str := ip
  ip := some (t.aton ip)
  port := some port

/-- `TcpLink` keeps the text and the port as `connect` is given them. -/
theorem TcpSys.connect_endpoint (t : AddrText) (e : Endpoint) (s : TcpSys) (ip : String)
    (port : UInt16) (r : ℤ) :
    (s.connect ip port r).1.link.strIP = (e.tcpConnect t ip port).ip_str ∧
      some (s.connect ip port r).1.link.bPort = (e.tcpConnect t ip port).port := by
  rw [TcpSys.connect_link]
  exact ⟨rfl, rfl⟩

/-- A `UdpLink` that has been connected, with the address that `uv_udp_connect` was given. -/
structure ConnectedUdpLink where
  link : UdpLink
  strIP : String
  nIP : UInt32
  bPort : UInt16
  connected : SockAddrIn

namespace ConnectedUdpLink

/-- `UdpLink::connect` -/
def connect (t : AddrText) (u : UdpLink) (l : Loop) (ip : String) (port : UInt16) :
    ConnectedUdpLink × Loop :=
  let (link, l) := u.connect l
  ({ link
     strIP := ip
     nIP := t.aton ip
     bPort := port
     connected := t.uv_ip4_addr ip port }, l)

def endpoint (u : ConnectedUdpLink) : Endpoint := ⟨u.strIP, some u.nIP, some u.bPort⟩

end ConnectedUdpLink

/-- `UdpPeerLink::UdpPeerLink` -/
def UdpPeerLink.endpoint (t : AddrText) (p : UdpPeerLink) : Endpoint :=
  ⟨t.ntoa p.nIP, some p.nIP, some p.nPort⟩

/-! ## One representation -/

/-- How a link came by its remote endpoint. -/
inductive Origin
  | tcpClient
  | tcpAccepted
  | udpClient
  | udpPeer
  deriving DecidableEq

/-- The endpoint of a link whose remote endpoint is the address `a` and the port `p`. -/
def Origin.endpoint (t : AddrText) (a : UInt32) (p : UInt16) : Origin → Endpoint
  | .tcpClient => Endpoint.new.tcpConnect t (t.inet_ntoa a) p
  | .tcpAccepted => Endpoint.new
  | .udpClient => (ConnectedUdpLink.connect t UdpLink.new Loop.new (t.inet_ntoa a) p).1.endpoint
  | .udpPeer =>
    -- `UdpServer::on_read` passes the fields of the datagram's `sockaddr_in` on
    let addr : SockAddrIn := ⟨htons p, a⟩
    UdpPeerLink.endpoint t ⟨0, addr.sin_addr, addr.sin_port⟩

/-- The link that a server has for the source of a datagram is such a link. -/
theorem UdpPeers.add_node_endpoint (t : AddrText) {s s' : UdpPeers} (hs : s.Inv) {a : UInt32}
    {p : UInt16} {now : UInt64} {q : Peer} (h : s.add_node a (htons p) now = (s', some q)) :
    q.link.endpoint t = Origin.udpPeer.endpoint t a p := by
  by_cases hsource : a = 0 ∨ htons p = 0
  · rw [add_node_rejected s now hsource] at h
    cases h
  · obtain ⟨s'', q', hadd, hadded⟩ := add_node_added hs now hsource
    rw [hadd] at h
    cases h
    unfold UdpPeerLink.endpoint
    rw [hadded.source.1, hadded.source.2]
    rfl

/-- Both have been given an address and a port, and these are the same. -/
def Endpoint.Same (e e' : Endpoint) : Prop :=
  ∃ ip port, e.ip = some ip ∧ e'.ip = some ip ∧ e.port = some port ∧ e'.port = some port

theorem Endpoint.same_mk (s s' : String) (ip ip' : UInt32) (port port' : UInt16) :
    Same ⟨s, some ip, some port⟩ ⟨s', some ip', some port'⟩ ↔ ip = ip' ∧ port = port' := by
  unfold Same
  simp [eq_comm]

theorem Endpoint.not_same_new (e : Endpoint) : ¬ Same new e ∧ ¬ Same e new := by
  constructor
  · rintro ⟨ip, port, h, -⟩
    cases h
  · rintro ⟨ip, port, -, h, -⟩
    cases h

/-- The links but the accepted ones: the port of a peer link is in network byte order. -/
theorem Origin.endpoint_eq {t : AddrText} {a : UInt32} (ht : t.Reads a) (p : UInt16) {k : Origin}
    (hk : k ≠ .tcpAccepted) :
    k.endpoint t a p = ⟨t.inet_ntoa a, some a, some (if k = .udpPeer then htons p else p)⟩ := by
  have hread := ht.inet_addr
  cases k with
  | tcpClient => simp [endpoint, Endpoint.tcpConnect, AddrText.aton, hread]
  | tcpAccepted => exact absurd rfl hk
  | udpClient => simp [endpoint, ConnectedUdpLink.connect, ConnectedUdpLink.endpoint, AddrText.aton, hread]
  | udpPeer => rfl

/-- **One endpoint representation.** Two links with the same remote endpoint return the same address
and the same port, and its dotted form, if and only if neither was accepted, and both are peer links
or neither is, or the two bytes of the port are the same. -/
theorem same_endpoint_iff {t : AddrText} {a : UInt32} (ht : t.Reads a) (p : UInt16) (k k' : Origin) :
    ((k.endpoint t a p).Same (k'.endpoint t a p) ∧ (k.endpoint t a p).ip_str = t.inet_ntoa a ∧
        (k'.endpoint t a p).ip_str = t.inet_ntoa a) ↔
      k ≠ .tcpAccepted ∧ k' ≠ .tcpAccepted ∧ ((k = .udpPeer ↔ k' = .udpPeer) ∨ htons p = p) := by
  by_cases hk : k = .tcpAccepted
  · subst hk
    exact iff_of_false (fun h => (Endpoint.not_same_new _).1 h.1) fun h => h.1 rfl
  by_cases hk' : k' = .tcpAccepted
  · subst hk'
    exact iff_of_false (fun h => (Endpoint.not_same_new _).2 h.1) fun h => h.2.1 rfl
  rw [Origin.endpoint_eq ht p hk, Origin.endpoint_eq ht p hk', Endpoint.same_mk]
  by_cases hpeer : k = .udpPeer
  · by_cases hpeer' : k' = .udpPeer
    · simp [hpeer, hpeer']
    · simp [hk', hpeer, hpeer']
  · by_cases hpeer' : k' = .udpPeer
    · simp [hk, hpeer, hpeer', eq_comm]
    · simp [hk, hk', hpeer, hpeer']

/-- The functions as they are on the text of 127.0.0.1. -/
def loopbackText : AddrText where
  inet_addr ip := if ip = "127.0.0.1" then 0x0100007f else 0xffffffff
  inet_ntoa _ := "127.0.0.1"
  uv_ip4_addr ip port := ⟨htons port, if ip = "127.0.0.1" then 0x0100007f else 0⟩

theorem reads_loopbackText : loopbackText.Reads 0x0100007f := ⟨rfl, fun _ => rfl⟩

theorem same_endpoint_clients :
    (Origin.tcpClient.endpoint loopbackText 0x0100007f 8080).Same
      (Origin.udpClient.endpoint loopbackText 0x0100007f 8080) :=
  ((same_endpoint_iff reads_loopbackText 8080 .tcpClient .udpClient).mpr (by decide)).1

/-- Port 8080 is 36895 to a peer link. -/
theorem not_same_endpoint_udp :
    ¬ (Origin.udpClient.endpoint loopbackText 0x0100007f 8080).Same
        (Origin.udpPeer.endpoint loopbackText 0x0100007f 8080) := by
  rw [Origin.endpoint_eq reads_loopbackText 8080 (by decide),
    Origin.endpoint_eq reads_loopbackText 8080 (by decide), Endpoint.same_mk]
  decide

/-! ## Sending to one's own peer -/

def UV_EISCONN : ℤ := -106

/-- What libuv answers on one handle to a datagram, by the address passed with it. -/
structure UdpOutcome where
  trySend : Option SockAddrIn → ℤ
  send : Option SockAddrIn → ℤ

/-- libuv refuses an explicit address on a connected handle. -/
def UdpOutcome.Connected (o : UdpOutcome) : Prop :=
  ∀ addr, o.trySend (some addr) = UV_EISCONN ∧ o.send (some addr) = UV_EISCONN

/-- An `ISNUdpLink`: a `UdpLink` after `connect`, or a peer link with its server. -/
inductive ISNUdpLink
  | udp (u : ConnectedUdpLink)
  | peer (q : UdpPeerLink) (s : UdpServer)

/-- The address passed with a call. -/
def UvCall.dest : UvCall → Option SockAddrIn
  | .write _ _ => none
  | .trySend _ dest _ => dest
  | .udpSend _ dest _ => dest

namespace ISNUdpLink

def ip : ISNUdpLink → UInt32
  | .udp u => u.nIP
  | .peer q _ => q.nIP

def port : ISNUdpLink → UInt16
  | .udp u => u.bPort
  | .peer q _ => q.nPort

/-- The calls of `send(data, len)`. -/
def send (L : ISNUdpLink) (l : Loop) (data : List UInt8) (o : UdpOutcome) : List UvCall :=
  match L with
  | .udp u => (u.link.sendCalls l data none (o.trySend none) (o.send none)).2
  | .peer q s => (q.sendCalls s l data (o.send (some ⟨q.nPort.toInt16.toUInt16, q.nIP⟩))).2

/-- The calls of `send(data, len, ip, port)`. -/
def sendAddr (L : ISNUdpLink) (l : Loop) (data : List UInt8) (ip : UInt32) (port : UInt16)
    (o : UdpOutcome) : List UvCall :=
  match L with
  | .udp u =>
    let addr : Option SockAddrIn := some ⟨htons port, htonl ip⟩
    (u.link.sendCalls l data addr (o.trySend addr) (o.send addr)).2
  | .peer q s => (q.sendAddrCalls s l data ip port (o.send (some ⟨port.toInt16.toUInt16, ip⟩))).2

/-- Where a call with this address sends to; on a connected handle none need be passed. -/
def destination (L : ISNUdpLink) (dest : Option SockAddrIn) : Option SockAddrIn :=
  match L with
  | .udp u => some (dest.getD u.connected)
  | .peer _ _ => dest

/-- The datagram that a call submits. -/
def datagram (L : ISNUdpLink) (c : UvCall) : List Cell × Option SockAddrIn :=
  (c.buf.payload, L.destination c.dest)

/-- `L.send(data, len, L.ip(), L.port())` submits what `L.send(data, len)` submits, and is accepted
if that is. -/
def Agrees (L : ISNUdpLink) (l : Loop) (data : List UInt8) (o : UdpOutcome) : Prop :=
  (∀ d, (∃ c ∈ L.send l data o, L.datagram c = d) ↔
      ∃ c ∈ L.sendAddr l data L.ip L.port o, L.datagram c = d) ∧
    ((∃ c ∈ L.send l data o, c.Accepted) → ∃ c ∈ L.sendAddr l data L.ip L.port o, c.Accepted)

/-- The link's remote endpoint is the address `a` and the port `p`. -/
def Associated (t : AddrText) (a : UInt32) (p : UInt16) : ISNUdpLink → Prop
  | .udp u => ∃ v l, u = (ConnectedUdpLink.connect t v l (t.inet_ntoa a) p).1
  | .peer q _ => q.nIP = a ∧ q.nPort = htons p

/-- What libuv answers is right for the link's handle. -/
def Possible (o : UdpOutcome) : ISNUdpLink → Prop
  | .udp _ => o.Connected
  | .peer _ _ => True

/-- A `UdpLink` agrees with itself when it submits nothing, or when its address reads the same in
both byte orders and libuv refuses the plain send too. -/
def AgreesWhen (a : UInt32) (data : List UInt8) (o : UdpOutcome) : ISNUdpLink → Prop
  | .udp _ => MEM_ITEM_SIZE_MAX < toInt32 data.length ∨
    htonl a = a ∧ o.trySend none ≠ toUInt32 data.length ∧ (o.trySend none ≤ 0 → o.send none ≠ 0)
  | .peer _ _ => True

theorem datagram_trySend (L : ISNUdpLink) (buf : UvBuf) (dest : Option SockAddrIn) (sent r : ℤ)
    (d : List Cell × Option SockAddrIn) :
    (∃ c ∈ UvCall.trySend buf dest sent :: (if sent ≤ 0 then [.udpSend buf dest r] else []),
        L.datagram c = d) ↔ (buf.payload, L.destination dest) = d := by
  by_cases hsent : sent ≤ 0
  · simp [hsent, datagram, UvCall.buf, UvCall.dest]
  · simp [hsent, datagram, UvCall.buf, UvCall.dest]

/-- A peer link passes its address and port on as they are. -/
theorem agrees_peer (q : UdpPeerLink) (s : UdpServer) (l : Loop) (data : List UInt8)
    (o : UdpOutcome) : (peer q s).Agrees l data o :=
  ⟨fun _ => Iff.rfl, fun h => h⟩

/-- What a connected `UdpLink` agrees on with itself, once there is a buffer. -/
theorem agrees_udp {u : ConnectedUdpLink} (hopen : u.link.pUdp.isSome = true) {l : Loop} {data : List UInt8}
    {o : UdpOutcome} (ho : o.Connected) :
    (udp u).Agrees l data o ↔ MEM_ITEM_SIZE_MAX < toInt32 data.length ∨
      u.connected = ⟨htons u.bPort, htonl u.nIP⟩ ∧ o.trySend none ≠ toUInt32 data.length ∧
        (o.trySend none ≤ 0 → o.send none ≠ 0) := by
  let addr : Option SockAddrIn := some ⟨htons u.bPort, htonl u.nIP⟩
  have hplain := u.link.sendCalls_open hopen l data none (o.trySend none) (o.send none)
  have haddr := u.link.sendCalls_open hopen l data addr (o.trySend addr) (o.send addr)
  obtain ⟨htry, hsend⟩ := ho ⟨htons u.bPort, htonl u.nIP⟩
  unfold Agrees
  show ((∀ d, (∃ c ∈ (u.link.sendCalls l data none (o.trySend none) (o.send none)).2,
        (udp u).datagram c = d) ↔ ∃ c ∈ (u.link.sendCalls l data addr (o.trySend addr) (o.send addr)).2,
        (udp u).datagram c = d) ∧
      ((∃ c ∈ (u.link.sendCalls l data none (o.trySend none) (o.send none)).2, c.Accepted) →
        ∃ c ∈ (u.link.sendCalls l data addr (o.trySend addr) (o.send addr)).2, c.Accepted)) ↔ _
  cases hbuf : l.sendBuf data (toInt32 data.length) with
  | none =>
    -- nothing is submitted either way
    rw [hbuf] at hplain haddr
    obtain ⟨-, hcalls, -⟩ := hplain.resolve_right (by simp)
    obtain ⟨-, hcalls', -⟩ := haddr.resolve_right (by simp)
    rw [hcalls, hcalls']
    exact iff_of_true ⟨fun _ => Iff.rfl, fun h => h⟩ (Or.inl (Loop.lt_of_sendBuf_none hbuf))
  | some buf =>
    rw [hbuf] at hplain haddr
    have hmax : ¬ MEM_ITEM_SIZE_MAX < toInt32 data.length :=
      not_lt.mpr (Loop.le_of_sendBuf_some hbuf)
    have hlen := Loop.sendBuf_len_payload hbuf
    obtain ⟨buf₁, hbuf₁, hcalls, -⟩ := hplain.resolve_left (by simp)
    obtain ⟨buf₂, hbuf₂, hcalls', -⟩ := haddr.resolve_left (by simp)
    cases hbuf₁
    cases hbuf₂
    rw [hcalls, hcalls']
    simp only [datagram_trySend, UvCall.accepted_trySend]
    rw [or_iff_right hmax, ← hlen]
    have hrefused : ¬(o.trySend addr = buf.len ∨ o.trySend addr ≤ 0 ∧ o.send addr = 0) := by
      rw [htry, hsend, UV_EISCONN]
      omega
    have hdest : (∀ d, ((buf.payload, (udp u).destination none) = d ↔
        (buf.payload, (udp u).destination addr) = d)) ↔ u.connected = ⟨htons u.bPort, htonl u.nIP⟩ := by
      constructor
      · intro h
        have heq := (h _).mp rfl
        exact (Option.some.inj (congrArg Prod.snd heq)).symm
      · intro heq d
        have hsame : (udp u).destination none = (udp u).destination addr := congrArg some heq
        rw [hsame]
    rw [hdest]
    apply and_congr_right
    intro _
    constructor
    · intro h
      have hnot := fun hacc => hrefused (h hacc)
      exact ⟨fun hall => hnot (Or.inl hall), fun hle hzero => hnot (Or.inr ⟨hle, hzero⟩)⟩
    · rintro ⟨hall, hqueued⟩ (hacc | ⟨hle, hzero⟩)
      · exact absurd hacc hall
      · exact absurd hzero (hqueued hle)

/-- **Addressed sends.** For a link of either kind with any remote endpoint, and a payload of any
length: sending to the link's own address agrees with a plain send exactly where `AgreesWhen` says,
which is always for a peer link. -/
theorem addressed_agrees_iff {t : AddrText} {a : UInt32} (ht : t.Reads a) {p : UInt16}
    {L : ISNUdpLink} (hL : L.Associated t a p) (l : Loop) (data : List UInt8) {o : UdpOutcome}
    (ho : L.Possible o) : L.Agrees l data o ↔ L.AgreesWhen a data o := by
  cases L with
  | peer q s => exact iff_of_true (agrees_peer q s l data o) trivial
  | udp u =>
    obtain ⟨v, l', rfl⟩ := hL
    rw [agrees_udp rfl ho]
    unfold AgreesWhen
    have hnIP : (ConnectedUdpLink.connect t v l' (t.inet_ntoa a) p).1.nIP = a := ht.inet_addr
    have hport : (ConnectedUdpLink.connect t v l' (t.inet_ntoa a) p).1.bPort = p := rfl
    have hconnected : (ConnectedUdpLink.connect t v l' (t.inet_ntoa a) p).1.connected = ⟨htons p, a⟩ :=
      ht.uv_ip4_addr p
    rw [hnIP, hport, hconnected]
    simp [eq_comm]

theorem addressed_agrees_peer :
    (peer ⟨0, 0x0100007f, htons 8080⟩ ⟨some 0⟩).Agrees Loop.new [1, 2, 3] ⟨fun _ => 3, fun _ => 0⟩ :=
  (addressed_agrees_iff (L := peer ⟨0, 0x0100007f, htons 8080⟩ ⟨some 0⟩) reads_loopbackText
    ⟨rfl, rfl⟩ Loop.new [1, 2, 3] trivial).mpr trivial

/-- A handle connected to 127.0.0.1 that sends three bytes to its peer and refuses an address. -/
def sendsThree : UdpOutcome where
  trySend addr := if addr = none then 3 else UV_EISCONN
  send addr := if addr = none then 0 else UV_EISCONN

/-- The address is submitted as 1.0.0.127, and refused. -/
theorem not_addressed_agrees_udp :
    ¬ (udp (ConnectedUdpLink.connect loopbackText UdpLink.new Loop.new "127.0.0.1" 8080).1).Agrees Loop.new
      [1, 2, 3] sendsThree := by
  have hrefuses : sendsThree.Connected := fun _ => ⟨rfl, rfl⟩
  rw [agrees_udp rfl hrefuses]
  decide

end ISNUdpLink

end SomoNet
