import SomoNet.MemPool
import SomoNet.RecvBuffer

/-!
# The event loop

What the links of one process share: the packet pool, the static receive buffer, and
libuv's loop with its TCP handles and pending requests.

The environment is libuv as its documentation describes it. A request that libuv accepts
stays pending until its one completion callback; a request refused synchronously never
becomes pending. `uv_close` on a handle makes every request still pending on it complete
with `UV_ECANCELED`, except a write whose bytes the kernel has already taken, which completes
with 0. A stream delivers nothing more after it has reported an error or the end of the stream.
-/

namespace SomoNet

/-- A `TcpLink*`, an identity that no other link object has. -/
abbrev LinkPtr := ℕ

/-- A `uv_tcp_t*` or `uv_udp_t*`. -/
abbrev HandleId := ℕ

/-- A `uv_connect_t*`, `uv_write_t*` or `uv_udp_send_t*`. -/
abbrev ReqId := ℕ

def UV_ECANCELED : ℤ := -125

/-- A `uv_tcp_t`: the link in its `data` field, whether it has not been passed to
`uv_close`, and whether `on_read` is being called for it. -/
structure UvTcp where
  data : LinkPtr
  isOpen : Bool
  reading : Bool
  deriving DecidableEq

/-- The two fields of a `sockaddr_in`, as they stand in memory. -/
structure SockAddrIn where
  sin_port : UInt16
  sin_addr : UInt32
  deriving DecidableEq

/-- A pending request with what its `data` field points to. A send also records the
length in its `uv_buf_t` and, for the specification only, the bytes the caller passed. -/
inductive Req
  | connect (link : LinkPtr) (h : HandleId)
  | write (link : LinkPtr) (h : HandleId) (mem : MemPtr) (len : ℕ) (payload : List UInt8)
  | udpSend (mem : MemPtr) (len : ℕ) (dest : Option SockAddrIn) (payload : List UInt8)
  deriving DecidableEq

/-- The item a pending send holds. -/
def Req.mem : Req → Option MemPtr
  | .connect _ _ => none
  | .write _ _ mem _ _ => some mem
  | .udpSend mem _ _ _ => some mem

/-- The length in the `uv_buf_t` of a send. -/
def Req.len : Req → ℕ
  | .connect _ _ => 0
  | .write _ _ _ len _ => len
  | .udpSend _ len _ _ => len

/-- The bytes the caller passed to the send. -/
def Req.payload : Req → List UInt8
  | .connect _ _ => []
  | .write _ _ _ _ payload => payload
  | .udpSend _ _ _ payload => payload

/-- The block behind `TcpLink::s_pStaticBuf`. -/
def StaticBuf : Type := { b : Block // b.size = STATIC_BUF_SIZE }

/-- `malloc(64*1024)` -/
def StaticBuf.alloc : StaticBuf := ⟨Block.alloc STATIC_BUF_SIZE, rfl⟩

/-- The kernel's bytes arriving in the buffer. -/
def StaticBuf.receive (b : StaticBuf) (seg : List UInt8) : StaticBuf :=
  ⟨b.1.write 0 (cells seg), b.2⟩

/-- The bytes just received are what is read back. -/
theorem StaticBuf.read_receive (b : StaticBuf) {seg : List UInt8}
    (h : seg.length ≤ STATIC_BUF_SIZE) : (b.receive seg).1.read 0 seg.length = cells seg := by
  have hread := Block.read_write b.1 0 (cells seg) (by rw [b.2, List.length_map]; omega)
  rwa [List.length_map] at hread

structure Loop where
  /-- `MemPool::Ins()` -/
  pool : MemPool
  /-- `TcpLink::s_pStaticBuf`, `NULL` until the first `on_alloc`. -/
  staticBuf : Option StaticBuf
  tcp : HandleId → Option UvTcp
  nextHandle : HandleId
  reqs : ReqId → Option Req
  nextReq : ReqId

namespace Loop

def new : Loop where
  pool := MemPool.new
  staticBuf := none
  tcp _ := none
  nextHandle := 0
  reqs _ := none
  nextReq := 0

/-- `uv_tcp_init` on a new `uv_tcp_t` whose `data` is set to the link. -/
def tcpInit (l : Loop) (link : LinkPtr) : Loop :=
  { l with
    tcp := Function.update l.tcp l.nextHandle (some ⟨link, true, false⟩)
    nextHandle := l.nextHandle + 1 }

/-- `uv_close` -/
def uvClose (l : Loop) (h : HandleId) : Loop :=
  { l with
    tcp := Function.update l.tcp h
      ((l.tcp h).map fun t => { t with isOpen := false, reading := false }) }

/-- `uv_read_start`, when it succeeds; `reading` is also how libuv stops after an error. -/
def setReading (l : Loop) (h : HandleId) (on : Bool) : Loop :=
  { l with tcp := Function.update l.tcp h ((l.tcp h).map fun t => { t with reading := on }) }

/-- libuv accepts a request. -/
def submit (l : Loop) (req : Req) : Loop :=
  { l with reqs := Function.update l.reqs l.nextReq (some req), nextReq := l.nextReq + 1 }

/-- libuv is done with a request: its callback runs and frees it. -/
def finish (l : Loop) (q : ReqId) : Loop := { l with reqs := Function.update l.reqs q none }

/-- The handle exists and has not been passed to `uv_close`. -/
def isOpen (l : Loop) (h : HandleId) : Bool := (l.tcp h).any UvTcp.isOpen

/-- The handle is open and `on_read` is being called for it. -/
def isReading (l : Loop) (h : HandleId) : Bool := (l.tcp h).any fun t => t.isOpen && t.reading

/-- The cells a `uv_buf_t` over the first `len` bytes of an item designates. -/
def bufCells (l : Loop) (mem : MemPtr) (len : ℕ) : List Cell :=
  match l.pool.heap mem with
  | some it => it.data.read 0 len
  | none => []

/-- The loop once `get` has returned an item and the payload has been copied into it. -/
def withItem (l : Loop) (pool : MemPool) (mem : MemPtr) (data : List UInt8) : Loop :=
  { l with pool := pool.assign mem data (toInt32 data.length) }

/-- Identities still to be used belong to nothing yet. -/
structure Fresh (l : Loop) : Prop where
  tcp : ∀ h, l.nextHandle ≤ h → l.tcp h = none
  reqs : ∀ q, l.nextReq ≤ q → l.reqs q = none

theorem fresh_new : new.Fresh := ⟨fun _ _ => rfl, fun _ _ => rfl⟩

section

variable {l : Loop} (hl : l.Fresh)
include hl

theorem Fresh.tcpInit (link : LinkPtr) : (l.tcpInit link).Fresh where
  tcp h hh := by
    have hlt : l.nextHandle < h := hh
    simpa [Loop.tcpInit, hlt.ne'] using hl.tcp h hlt.le
  reqs := hl.reqs

theorem Fresh.uvClose (h : HandleId) : (l.uvClose h).Fresh where
  tcp h' hh := by
    have hnone := hl.tcp h' hh
    unfold Loop.uvClose
    by_cases he : h' = h
    · subst he
      simp [hnone]
    · simpa [he] using hnone
  reqs := hl.reqs

theorem Fresh.setReading (h : HandleId) (on : Bool) : (l.setReading h on).Fresh where
  tcp h' hh := by
    have hnone := hl.tcp h' hh
    unfold Loop.setReading
    by_cases he : h' = h
    · subst he
      simp [hnone]
    · simpa [he] using hnone
  reqs := hl.reqs

theorem Fresh.submit (req : Req) : (l.submit req).Fresh where
  tcp := hl.tcp
  reqs q hq := by
    have hlt : l.nextReq < q := hq
    simpa [Loop.submit, hlt.ne'] using hl.reqs q hlt.le

theorem Fresh.finish (q : ReqId) : (l.finish q).Fresh where
  tcp := hl.tcp
  reqs q' hq := by
    have hnone := hl.reqs q' hq
    unfold Loop.finish
    by_cases he : q' = q
    · simp [he]
    · simpa [he] using hnone

/-- An accepted request takes no other request's place. -/
theorem Fresh.submit_eq_some (req : Req) {q : ReqId} {r : Req} :
    (l.submit req).reqs q = some r ↔ q = l.nextReq ∧ r = req ∨ l.reqs q = some r := by
  unfold Loop.submit
  by_cases he : q = l.nextReq
  · subst he
    simp [hl.reqs _ le_rfl, eq_comm]
  · simp [he]

end

theorem finish_eq_some {l : Loop} {q q' : ReqId} {r : Req} :
    (l.finish q).reqs q' = some r ↔ q' ≠ q ∧ l.reqs q' = some r := by
  unfold finish
  by_cases he : q' = q
  · simp [he]
  · simp [he]

/-! ## What is pending for a link -/

/-- A connect request of the link that libuv accepted has not completed. -/
def ConnectPending (l : Loop) (link : LinkPtr) : Prop := ∃ q h, l.reqs q = some (.connect link h)

/-- A connect request of the link other than `q` has not completed. -/
def OtherConnectPending (l : Loop) (link : LinkPtr) (q : ReqId) : Prop :=
  ∃ q' h, q' ≠ q ∧ l.reqs q' = some (.connect link h)

theorem connectPending_congr {l l' : Loop} (h : l'.reqs = l.reqs) (link : LinkPtr) :
    l'.ConnectPending link ↔ l.ConnectPending link := by
  unfold ConnectPending
  rw [h]

theorem Fresh.connectPending_submit {l : Loop} (hl : l.Fresh) (link : LinkPtr) (h : HandleId) :
    (l.submit (.connect link h)).ConnectPending link :=
  ⟨l.nextReq, h, (hl.submit_eq_some _).mpr (Or.inl ⟨rfl, rfl⟩)⟩

theorem Fresh.connectPending_submit_write {l : Loop} (hl : l.Fresh) (link link' : LinkPtr)
    (h : HandleId) (mem : MemPtr) (len : ℕ) (payload : List UInt8) :
    (l.submit (.write link' h mem len payload)).ConnectPending link ↔ l.ConnectPending link := by
  unfold ConnectPending
  simp only [hl.submit_eq_some, reduceCtorEq, and_false, false_or]

theorem connectPending_finish {l : Loop} (link : LinkPtr) (q : ReqId) :
    (l.finish q).ConnectPending link ↔ l.OtherConnectPending link q := by
  unfold ConnectPending OtherConnectPending
  simp only [finish_eq_some]

/-- The completion of a write leaves every connect request pending. -/
theorem otherConnectPending_write {l : Loop} {link link' : LinkPtr} {q : ReqId} {h : HandleId}
    {mem : MemPtr} {len : ℕ} {payload : List UInt8}
    (hq : l.reqs q = some (.write link' h mem len payload)) :
    l.OtherConnectPending link q ↔ l.ConnectPending link := by
  constructor
  · rintro ⟨q', h', -, hq'⟩
    exact ⟨q', h', hq'⟩
  · rintro ⟨q', h', hq'⟩
    refine ⟨q', h', ?_, hq'⟩
    rintro rfl
    rw [hq] at hq'
    cases hq'

@[simp] theorem reqs_tcpInit (l : Loop) (link : LinkPtr) : (l.tcpInit link).reqs = l.reqs := rfl

@[simp] theorem pool_submit (l : Loop) (req : Req) : (l.submit req).pool = l.pool := rfl

/-- A closed handle is neither open nor read. -/
theorem isOpen_uvClose_self (l : Loop) (h : HandleId) : (l.uvClose h).isOpen h = false := by
  unfold isOpen uvClose
  cases l.tcp h <;> simp

theorem isOpen_uvClose_of_ne (l : Loop) {h h' : HandleId} (hne : h' ≠ h) :
    (l.uvClose h).isOpen h' = l.isOpen h' := by
  simp [isOpen, uvClose, hne]

theorem isReading_uvClose_self (l : Loop) (h : HandleId) : (l.uvClose h).isReading h = false := by
  unfold isReading uvClose
  cases l.tcp h <;> simp

theorem isReading_uvClose_of_ne (l : Loop) {h h' : HandleId} (hne : h' ≠ h) :
    (l.uvClose h).isReading h' = l.isReading h' := by
  simp [isReading, uvClose, hne]

/-- `uv_close` leaves the handle's `data` alone. -/
theorem data_uvClose (l : Loop) (h h' : HandleId) :
    ((l.uvClose h).tcp h').map UvTcp.data = (l.tcp h').map UvTcp.data := by
  unfold uvClose
  by_cases he : h' = h
  · subst he
    cases l.tcp h' <;> simp
  · simp [he]

end Loop
end SomoNet
