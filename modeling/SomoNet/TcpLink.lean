import SomoNet.Loop
import SomoNet.Lib.Run

/-!
# `TcpLink`

One TCP link and the loop it lives in. The functions are the member functions and libuv
callbacks of `TcpLink`; what the environment decides (return codes, statuses, received
bytes, what the handler returns) is an argument.

A handler callback is not one step: the handler may call the link again before it
returns. `onConnect`, `onRead` and `closeError` therefore stop where they call the
handler, leaving a `frame` that says what is still to be done, and `connectedReturn`,
`dataReturn` and `closeReturn` are the rest of them. The link's user (the handler
included) may call `connect`, `send` and `close` in any frame; libuv runs no callback
of the link inside another.

Counters and values that only feed the log are left out.
-/

namespace SomoNet

/-- The handler callback that is running. -/
inductive Frame
  | idle
  | inConnected
  | inData
  | inClose
  deriving DecidableEq, Repr

/-- What a link does that can be observed from outside it: its calls into libuv, its
calls of the handler, and the bytes and results that come back. -/
inductive Obs
  | tcpConnect (h : HandleId) (r : ℤ)
  | write (h : HandleId) (buf : List Cell)
  | uvClose (h : HandleId)
  | readStart (h : Option HandleId) (r : ℤ)
  | timerStart
  | timerStop
  | onConnected
  | onClose
  | received (seg : List UInt8)
  | onData (data : List Cell)
  | handled (len : ℤ)
  deriving DecidableEq

structure TcpLink where
  self : LinkPtr
  pTcp : Option HandleId
  /-- `m_pTimer` is active, with `on_timer` as its callback. -/
  timerActive : Bool
  strIP : String
  bPort : UInt16
  bPeerLink : Bool
  /-- `m_pHandler != NULL` -/
  pHandler : Bool
  bConnected : Bool
  bConnecting : Bool
  buf : RecvBuffer
  frame : Frame
  /-- Specification only: the last of `connect` and `close` that the user called is
  `connect`. -/
  asked : Bool
  /-- Specification only: everything the link did so far. -/
  trace : List Obs

structure TcpSys where
  link : TcpLink
  loop : Loop

namespace TcpLink

/-- `TcpLink::TcpLink()` -/
def new (self : LinkPtr) : TcpLink where
  self := self
  pTcp := none
  timerActive := false
  strIP := ""
  bPort := 0
  bPeerLink := false
  pHandler := false
  bConnected := false
  bConnecting := false
  buf := RecvBuffer.new
  frame := .idle
  asked := false
  trace := []

/-- `TcpLink::TcpLink(uv_tcp_s*)` on the handle `h`. -/
def ofHandle (self : LinkPtr) (h : HandleId) : TcpLink :=
  { new self with
    pTcp := some h
    bPeerLink := true
    bConnected := true
    trace := [.readStart (some h) 0] }

end TcpLink

namespace TcpSys

/-- A client link just constructed. -/
def client (self : LinkPtr) (loop : Loop) : TcpSys := ⟨TcpLink.new self, loop⟩

/-- A link just constructed by `TcpServer::on_accept` on a new handle. -/
def accepted (self : LinkPtr) (loop : Loop) : TcpSys where
  link := TcpLink.ofHandle self loop.nextHandle
  loop := (loop.tcpInit self).setReading loop.nextHandle true

def emit (s : TcpSys) (o : Obs) : TcpSys :=
  { s with link := { s.link with trace := s.link.trace ++ [o] } }

/-! ## Member functions -/

/-- `TcpLink::connect`; `r` is what `uv_tcp_connect` returns. -/
def connect (s : TcpSys) (ip : String) (port : UInt16) (r : ℤ) : TcpSys × ℤ :=
  let h := s.loop.nextHandle
  let s : TcpSys :=
    { link :=
        { s.link with
          strIP := ip
          bPort := port
          pTcp := some h
          bConnecting := true
          bConnected := false }
      loop := s.loop.tcpInit s.link.self }
  let s := s.emit (.tcpConnect h r)
  if r ≠ 0 then (s, -1)
  else
    let s : TcpSys :=
      { link := { s.link with timerActive := true }
        loop := s.loop.submit (.connect s.link.self h) }
    (s.emit .timerStart, 0)

/-- `TcpLink::send`; `r` is what `uv_write` returns. -/
def send (s : TcpSys) (data : List UInt8) (r : ℤ) : TcpSys × ℤ :=
  match s.link.pTcp with
  | none => (s, -1)
  | some h =>
    if s.link.bConnecting || !s.link.bConnected then (s, -1)
    else
      match s.loop.pool.get (toInt32 data.length) with
      | (_, none) => (s, 0)
      | (pool, some mem) =>
        let loop := { s.loop with pool := pool.assign mem data (toInt32 data.length) }
        let len := toUInt32 data.length
        let buf := loop.bufCells mem len
        if r ≠ 0 then ({ s with loop }, -1)
        else
          let s : TcpSys := { s with loop := loop.submit (.write s.link.self h mem len data) }
          (s.emit (.write h buf), 0)

/-- The common body of `TcpLink::close` and of `TcpLink::closeError` behind its callback. -/
def shut (s : TcpSys) : TcpSys :=
  let s := { s with link := { s.link with bConnected := false } }
  let s : TcpSys :=
    match s.link.pTcp with
    | some h =>
      emit { link := { s.link with pTcp := none }, loop := s.loop.uvClose h } (.uvClose h)
    | none => s
  { s with link := { s.link with timerActive := false } }.emit .timerStop

/-- `TcpLink::close` -/
def close (s : TcpSys) : TcpSys × ℤ := (s.shut, 0)

/-- `uv_timer_start(m_pTimer, on_timer, 1000, 1000)` -/
def timerStart (s : TcpSys) : TcpSys :=
  { s with link := { s.link with timerActive := true } }.emit .timerStart

/-! ## libuv callbacks -/

/-- The end of `TcpLink::on_connect`, after the handler; `r` is what `uv_read_start`
returns. -/
def connectedTail (s : TcpSys) (r : ℤ) : TcpSys :=
  let s := { s with link := { s.link with timerActive := false } }.emit .timerStop
  let s := s.emit (.readStart s.link.pTcp r)
  match s.link.pTcp with
  | some h => if r = 0 then { s with loop := s.loop.setReading h true } else s
  | none => s

/-- `TcpLink::on_connect`. Without a handler it runs to its end. -/
def onConnect (s : TcpSys) (q : ReqId) (status : ℤ) (r : ℤ) : TcpSys :=
  let s : TcpSys :=
    { link := { s.link with bConnecting := false }, loop := s.loop.finish q }
  if status < 0 then { s with link := { s.link with bConnected := false } }
  else
    let s := { s with link := { s.link with bConnected := true } }
    if s.link.pHandler then
      { s with link := { s.link with frame := .inConnected } }.emit .onConnected
    else s.connectedTail r

def connectedReturn (s : TcpSys) (r : ℤ) : TcpSys :=
  { s with link := { s.link with frame := .idle } }.connectedTail r

/-- `TcpLink::on_alloc`: the shared static buffer, allocated on first use. -/
def onAlloc (l : Loop) : StaticBuf := l.staticBuf.getD StaticBuf.alloc

/-- `TcpLink::on_alloc`, the kernel's bytes, and `TcpLink::on_read` with `nread > 0`. -/
def onRead (s : TcpSys) (seg : List UInt8) : TcpSys :=
  let base := (onAlloc s.loop).receive seg
  let s : TcpSys :=
    { link := { s.link with buf := s.link.buf.addData (base.1.read 0 seg.length) }
      loop := { s.loop with staticBuf := some base } }
  let s := s.emit (.received seg)
  if s.link.pHandler then
    { s with link := { s.link with frame := .inData } }.emit (.onData s.link.buf.offered)
  else s

def dataReturn (s : TcpSys) (handled_len : ℤ) : TcpSys :=
  let s := { s with link := { s.link with frame := .idle } }.emit (.handled handled_len)
  if handled_len > 0 then
    { s with link := { s.link with buf := s.link.buf.removeData handled_len } }
  else s

/-- `TcpLink::closeError`, up to and including its call of the handler. -/
def closeError (s : TcpSys) : TcpSys :=
  if s.link.pHandler then
    { s with link := { s.link with frame := .inClose } }.emit .onClose
  else s.shut

def closeReturn (s : TcpSys) : TcpSys :=
  { s with link := { s.link with frame := .idle } }.shut

/-- `TcpLink::on_read` with `nread < 0` on the handle `h`. -/
def onReadError (s : TcpSys) (h : HandleId) : TcpSys :=
  let s := { s with loop := s.loop.setReading h false }
  if !s.link.bPeerLink then
    { s with link := { s.link with bConnected := false } }.timerStart
  else s.closeError

/-- `TcpLink::on_write` for a request that holds `mem`. -/
def onWrite (s : TcpSys) (q : ReqId) (mem : MemPtr) (status : ℤ) : TcpSys :=
  let s : TcpSys :=
    { s with loop := { s.loop.finish q with pool := s.loop.pool.free mem } }
  if status < 0 then
    let s := s.shut
    if !s.link.bPeerLink then s.timerStart else s
  else s

/-- `TcpLink::on_timer`; `r` is what `uv_tcp_connect` returns if it is called. -/
def onTimer (s : TcpSys) (r : ℤ) : TcpSys :=
  if !s.link.bConnected && !s.link.bConnecting then (s.connect s.link.strIP s.link.bPort r).1
  else s

end TcpSys

/-! ## The transition function -/

/-- What can happen to a link next: a call by its user, a libuv callback, or the return
of the handler callback that is running. -/
inductive TcpEvent
  | setHandler (handler : Bool)
  | connect (ip : String) (port : UInt16) (r : ℤ)
  | send (data : List UInt8) (r : ℤ)
  | close
  | connectDone (q : ReqId) (status : ℤ) (r : ℤ)
  | connectedReturn (r : ℤ)
  | read (h : HandleId) (seg : List UInt8)
  | readAgain (h : HandleId)
  | readError (h : HandleId)
  | dataReturn (handled_len : ℤ)
  | closeReturn
  | writeDone (q : ReqId) (status : ℤ)
  | tick (r : ℤ)
  deriving DecidableEq

namespace TcpSys

/-- A status libuv may complete a request on `h` with. -/
def StatusOk (s : TcpSys) (h : HandleId) (status : ℤ) : Prop :=
  s.loop.isOpen h = true ∨ status = UV_ECANCELED

instance (s : TcpSys) (h : HandleId) (status : ℤ) : Decidable (s.StatusOk h status) :=
  inferInstanceAs (Decidable (_ ∨ _))

/-- A write whose bytes the kernel had taken before `uv_close` still completes with 0. -/
def WriteStatusOk (s : TcpSys) (h : HandleId) (status : ℤ) : Prop :=
  s.StatusOk h status ∨ status = 0

instance (s : TcpSys) (h : HandleId) (status : ℤ) : Decidable (s.WriteStatusOk h status) :=
  inferInstanceAs (Decidable (_ ∨ _))

/-- libuv calls `on_read` for `h`, a handle of this link. -/
def Reads (s : TcpSys) (h : HandleId) : Prop :=
  s.loop.isReading h = true ∧ (s.loop.tcp h).map UvTcp.data = some s.link.self

instance (s : TcpSys) (h : HandleId) : Decidable (s.Reads h) :=
  inferInstanceAs (Decidable (_ ∧ _))

/-- One step of the link, `none` if the event cannot happen now. -/
def step (s : TcpSys) : TcpEvent → Option TcpSys
  | .setHandler handler => some { s with link := { s.link with pHandler := handler } }
  | .connect ip port r =>
    some ({ s with link := { s.link with asked := true } }.connect ip port r).1
  | .send data r => some (s.send data r).1
  | .close => some ({ s with link := { s.link with asked := false } }.close).1
  | .connectDone q status r =>
    match s.loop.reqs q with
    | some (.connect link h) =>
      if link = s.link.self ∧ s.link.frame = .idle ∧ s.StatusOk h status then
        some (s.onConnect q status r)
      else none
    | _ => none
  | .connectedReturn r => if s.link.frame = .inConnected then some (s.connectedReturn r) else none
  | .read h seg =>
    if s.link.frame = .idle ∧ s.Reads h ∧ seg ≠ [] ∧ seg.length ≤ STATIC_BUF_SIZE then
      some (s.onRead seg)
    else none
  | .readAgain h => if s.link.frame = .idle ∧ s.Reads h then some s else none
  | .readError h => if s.link.frame = .idle ∧ s.Reads h then some (s.onReadError h) else none
  | .dataReturn handled_len =>
    if s.link.frame = .inData then some (s.dataReturn handled_len) else none
  | .closeReturn => if s.link.frame = .inClose then some s.closeReturn else none
  | .writeDone q status =>
    match s.loop.reqs q with
    | some (.write link h mem _ _) =>
      if link = s.link.self ∧ s.link.frame = .idle ∧ s.WriteStatusOk h status then
        some (s.onWrite q mem status)
      else none
    | _ => none
  | .tick r =>
    if s.link.frame = .idle ∧ s.link.timerActive = true then some (s.onTimer r) else none

end TcpSys
end SomoNet
