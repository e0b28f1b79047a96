import SomoNet.HttpDelivery
import SomoNet.HttpSession
import SomoNet.Lib.SortedMap

/-!
# `HttpServer` and its `TcpServer`

The `TcpServer` makes a `TcpLink` for every connection it accepts and keeps it in `m_mapLinks`.
The `HttpServer` is the handler of these links, and keeps a session for each in `m_mapLink`. Both
maps go by `linkid()`, which comes from the one `LinkidAllocator` of the process.

A callback of a link runs to its end in one step: what the HTTP handler answers to the requests
of a segment, and what `uv_write` returns for each response, is part of the event. Links that
the process creates and deletes for other purposes take part with their ids only.
-/

namespace SomoNet

open Http

/-- A `HttpPeerLink` with the members that concern its link. -/
structure Session where
  pLink : LinkPtr
  pHttpHandler : Bool
  http : HttpPeerLink

/-- `HttpPeerLink::on_data`, with the number of handler invocations that it makes. -/
def Session.on_data (session : Session) (data : Bytes) : Session × ℕ :=
  let http := session.http.on_data data
  ({ session with http },
    if session.pHttpHandler then http.invocations.length - session.http.invocations.length else 0)

structure TcpServer where
  mapLinks : SortedMap UInt32 LinkPtr

namespace TcpServer

/-- `TcpServer::get_link` -/
def get_link (s : TcpServer) (id : UInt32) : Option LinkPtr := s.mapLinks.find id

end TcpServer

structure HttpServer where
  pHttpHandler : Bool
  mapLink : SortedMap UInt32 Session

namespace HttpServer

/-- `HttpServer::on_connected` -/
def on_connected (s : HttpServer) (linkid : UInt32) (pLink : LinkPtr) : HttpServer :=
  match s.mapLink.find linkid with
  | none => { s with mapLink := s.mapLink.insert linkid ⟨pLink, s.pHttpHandler, .new⟩ }
  | some _ => s

/-- `HttpServer::on_close` -/
def on_close (s : HttpServer) (linkid : UInt32) : HttpServer :=
  if linkid = 0 then s
  else
    match s.mapLink.find linkid with
    | none => s
    | some _ => { s with mapLink := s.mapLink.erase linkid }

end HttpServer

structure ServerSys where
  loop : Loop
  /-- `LinkidAllocator::s_nLastId` -/
  nLastId : UInt32
  /-- `m_nId` of every link that is alive, of whatever kind. -/
  linkid : LinkPtr → Option UInt32
  /-- The links that the `TcpServer` has accepted and that are alive. -/
  tcp : LinkPtr → Option TcpLink
  tcpServer : TcpServer
  httpServer : HttpServer
  nextLink : LinkPtr
  /-- Specification only: how many links have been created. -/
  created : ℕ

inductive ServerEvent
  | setHandler (handler : Bool)
  | accept
  | create
  | destroy (l : LinkPtr)
  | read (l : LinkPtr) (h : HandleId) (seg : List UInt8) (answers : List (Bytes × ℤ))
  | readError (l : LinkPtr) (h : HandleId)
  | writeDone (l : LinkPtr) (q : ReqId) (status : ℤ)

namespace ServerSys

/-- A server that has accepted nothing yet, in a process that has created no link. The constructor
of `HttpServer` does not initialise `m_pHttpHandler`; it is taken to be `NULL` until
`set_handler`. -/
def new : ServerSys where
  loop := Loop.new
  nLastId := 1
  linkid _ := none
  tcp _ := none
  tcpServer := ⟨.empty⟩
  httpServer := ⟨false, .empty⟩
  nextLink := 0
  created := 0

/-- The link `l` is in state `t`. -/
def withSys (s : ServerSys) (l : LinkPtr) (t : TcpSys) : ServerSys :=
  { s with tcp := Function.update s.tcp l (some t.link), loop := t.loop }

/-- A step of an accepted link. What libuv still calls back for a link that is deleted, which
works on freed memory, is left out. -/
def tcpStep (s : ServerSys) (l : LinkPtr) (e : TcpEvent) : Option ServerSys :=
  (s.tcp l).bind fun a => (TcpSys.step ⟨a, s.loop⟩ e).map (s.withSys l)

/-- The constructor of a link: `m_nId = LinkidAllocator::next()`. -/
def create (s : ServerSys) : ServerSys :=
  { s with
    linkid := Function.update s.linkid s.nextLink (some s.nLastId)
    nLastId := s.nLastId + 1
    nextLink := s.nextLink + 1
    created := s.created + 1 }

/-- `TcpServer::on_accept`, with `HttpServer::on_connected` as its callback. -/
def accept (s : ServerSys) : ServerSys :=
  let t := TcpSys.accepted s.nextLink s.loop
  { s.create with
    tcp := Function.update s.tcp s.nextLink (some { t.link with pHandler := true })
    loop := t.loop
    tcpServer := ⟨s.tcpServer.mapLinks.insert s.nLastId s.nextLink⟩
    httpServer := s.httpServer.on_connected s.nLastId s.nextLink }

/-- The `uv_close` of `TcpLink::~TcpLink`. -/
def closeHandle (l : Loop) (a : TcpLink) : Loop := (a.pTcp.map l.uvClose).getD l

/-- `delete` of a link. Nothing in the servers' maps is told of it. -/
def destroy (s : ServerSys) (l : LinkPtr) : ServerSys :=
  { s with
    linkid := Function.update s.linkid l none
    tcp := Function.update s.tcp l none
    loop := ((s.tcp l).map (closeHandle s.loop)).getD s.loop }

/-- `HttpPeerLink::on_complete` for one invocation: `send` and `close` on the session's link. -/
def respond (s : ServerSys) (pLink : LinkPtr) (answer : Bytes × ℤ) : ServerSys :=
  match s.tcp pLink with
  | none => s
  | some a => s.withSys pLink (TcpSys.respond ⟨a, s.loop⟩ answer.1 answer.2)

/-- `HttpServer::on_data` and the end of `TcpLink::on_read`. -/
def on_data (s : ServerSys) (l : LinkPtr) (linkid : UInt32) (data : Bytes)
    (answers : List (Bytes × ℤ)) : Option ServerSys :=
  match s.httpServer.mapLink.find linkid with
  | none => if answers = [] then s.tcpStep l (.dataReturn 0) else none
  | some session =>
    let (session', invocations) := session.on_data data
    if answers.length = invocations then
      let s :=
        { s with
          httpServer :=
            { s.httpServer with mapLink := s.httpServer.mapLink.insert linkid session' } }
      tcpStep (answers.foldl (fun s answer => s.respond session.pLink answer) s) l
        (.dataReturn data.length)
    else none

/-- `TcpLink::on_read` of the link `l` with `nread > 0`. -/
def read (s : ServerSys) (l : LinkPtr) (h : HandleId) (seg : List UInt8)
    (answers : List (Bytes × ℤ)) : Option ServerSys :=
  (s.linkid l).bind fun linkid => (s.tcp l).bind fun a =>
    (TcpSys.step ⟨a, s.loop⟩ (.read h seg)).bind fun t =>
      (s.withSys l t).on_data l linkid (t.link.buf.offered.map fun c => c.getD 0) answers

/-- `TcpLink::on_read` of the link `l` with `nread < 0`: `closeError`, with `HttpServer::on_close`
as its callback. -/
def readError (s : ServerSys) (l : LinkPtr) (h : HandleId) : Option ServerSys :=
  (s.linkid l).bind fun linkid => (s.tcpStep l (.readError h)).bind fun s =>
    tcpStep { s with httpServer := s.httpServer.on_close linkid } l .closeReturn

def step (s : ServerSys) : ServerEvent → Option ServerSys
  | .setHandler handler =>
    some { s with httpServer := { s.httpServer with pHttpHandler := handler } }
  | .accept => some s.accept
  | .create => some s.create
  | .destroy l => if (s.linkid l).isSome then some (s.destroy l) else none
  | .read l h seg answers => s.read l h seg answers
  | .readError l h => s.readError l h
  | .writeDone l q status => s.tcpStep l (.writeDone q status)

end ServerSys
end SomoNet
