import SomoNet.TcpLinkSpec
import SomoNet.Udp

/-!
# All links of a process

Any number of links of every kind, created at any time, on one loop and one packet pool.
A step is a step of one of the links or the completion of one request; which link moves
next, and with what result, is up to the environment.
-/

namespace SomoNet

structure World where
  tcp : LinkPtr → Option TcpLink
  udp : LinkPtr → Option UdpLink
  server : LinkPtr → Option UdpServer
  peer : LinkPtr → Option UdpPeerLink
  nextLink : LinkPtr
  loop : Loop

inductive WorldEvent
  | newTcp
  | accept
  | tcp (l : LinkPtr) (e : TcpEvent)
  | newUdp
  | udpConnect (l : LinkPtr)
  | udpSend (l : LinkPtr) (data : List UInt8) (sent r : ℤ)
  | udpSendAddr (l : LinkPtr) (data : List UInt8) (ip : UInt32) (port : UInt16) (sent r : ℤ)
  | udpClose (l : LinkPtr)
  | newServer
  | serverClose (l : LinkPtr)
  | newPeer (server : LinkPtr) (ip : UInt32) (port : UInt16)
  | peerSend (l : LinkPtr) (data : List UInt8) (r : ℤ)
  | peerSendAddr (l : LinkPtr) (data : List UInt8) (ip : UInt32) (port : UInt16) (r : ℤ)
  | udpDone (q : ReqId) (status : ℤ)
  deriving DecidableEq

namespace World

/-- A process that has created no link yet. -/
def new : World where
  tcp _ := none
  udp _ := none
  server _ := none
  peer _ := none
  nextLink := 0
  loop := Loop.new

/-- The TCP link `l` and the loop. -/
def sys (w : World) (l : LinkPtr) : Option TcpSys := (w.tcp l).map fun link => ⟨link, w.loop⟩

/-- The link `l` is in state `s`. -/
def withSys (w : World) (l : LinkPtr) (s : TcpSys) : World :=
  { w with tcp := Function.update w.tcp l (some s.link), loop := s.loop }

/-- A TCP link just constructed, at the next address. -/
def addTcp (w : World) (s : TcpSys) : World :=
  { w.withSys w.nextLink s with nextLink := w.nextLink + 1 }

/-- The server that a peer link answers through. -/
def serverOf (w : World) (p : UdpPeerLink) : Option UdpServer := w.server p.pUdpServer

/-- One step, `none` if the event cannot happen now. -/
def step (w : World) : WorldEvent → Option World
  | .newTcp => some (w.addTcp (TcpSys.client w.nextLink w.loop))
  | .accept => some (w.addTcp (TcpSys.accepted w.nextLink w.loop))
  | .tcp l e => (w.sys l).bind fun s => (s.step e).map (w.withSys l)
  | .newUdp =>
    some
      { w with
        udp := Function.update w.udp w.nextLink (some UdpLink.new)
        nextLink := w.nextLink + 1 }
  | .udpConnect l =>
    (w.udp l).map fun u =>
      { w with
        udp := Function.update w.udp l (some (u.connect w.loop).1)
        loop := (u.connect w.loop).2 }
  | .udpSend l data sent r =>
    (w.udp l).map fun u => { w with loop := (u.send w.loop data sent r).1 }
  | .udpSendAddr l data ip port sent r =>
    (w.udp l).map fun u => { w with loop := (u.sendAddr w.loop data ip port sent r).1 }
  | .udpClose l =>
    (w.udp l).map fun u => { w with udp := Function.update w.udp l (some u.close) }
  | .newServer =>
    some
      { w with
        server := Function.update w.server w.nextLink (some (UdpServer.new w.loop).1)
        nextLink := w.nextLink + 1
        loop := (UdpServer.new w.loop).2 }
  | .serverClose l =>
    (w.server l).map fun s => { w with server := Function.update w.server l (some s.close) }
  | .newPeer server ip port =>
    (w.server server).map fun _ =>
      { w with
        peer := Function.update w.peer w.nextLink (some ⟨server, ip, port⟩)
        nextLink := w.nextLink + 1 }
  | .peerSend l data r =>
    (w.peer l).bind fun p => (w.serverOf p).map fun s =>
      { w with loop := p.send s w.loop data r }
  | .peerSendAddr l data ip port r =>
    (w.peer l).bind fun p => (w.serverOf p).map fun s =>
      { w with loop := p.sendAddr s w.loop data ip port r }
  | .udpDone q status =>
    match w.loop.reqs q with
    | some (.udpSend mem _ _ _) => some { w with loop := w.loop.onSend q mem status }
    | _ => none

end World
end SomoNet
