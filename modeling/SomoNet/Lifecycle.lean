import SomoNet.Lib.Ledger

/-!
# The lives of the servers

`TcpServer`, `UdpServer` and `HttpServer` each have their own way of owning things. `TcpServer` and
`UdpServer` put `NULL` in place of the handle that `close` closes, but the destructor of the first
and `listen` of both use the handle without looking. `HttpServer` owns a whole `TcpServer` and
deletes it in `close`, in `listen` and in its destructor, without forgetting it.

A life is a list of calls of `listen` and `close` between construction and destruction, and what
is told of it is the log of its calls into libuv and of `new` and `delete`. Connections do not
come into it.

`uv_tcp_close_reset` closes its handle as `uv_close` does, but it sets an option of the handle's
socket first, and where that fails it returns the error and leaves the handle open. A handle has no
socket until it is bound.
-/

namespace SomoNet
namespace Lifecycle

open Ledger

/-- A libuv handle or an object made by `new`. -/
abbrev Ptr := ℕ

/-- A call into libuv, or `new` or `delete` of an object. A handle that is passed may be `NULL`. -/
inductive Call
  | uv_tcp_init (h : Ptr)
  | uv_udp_init (h : Ptr)
  | uv_timer_init (h : Ptr)
  | uv_tcp_bind (h : Option Ptr) (port : UInt16)
  | uv_listen (h : Option Ptr)
  | uv_udp_bind (h : Option Ptr) (port : UInt16)
  | uv_udp_recv_start (h : Option Ptr)
  /-- The handle is closed if it has a socket. -/
  | uv_tcp_close_reset (h : Option Ptr) (socket : Bool)
  | uv_close (h : Option Ptr)
  | new (o : Ptr)
  | delete (o : Ptr)
  deriving DecidableEq

/-- What the call does with its handle or object. -/
def Call.act : Call → Act Ptr
  | .uv_tcp_init h | .uv_udp_init h | .uv_timer_init h => .acquire h
  | .uv_tcp_bind h _ | .uv_listen h | .uv_udp_bind h _ | .uv_udp_recv_start h => .use h
  | .uv_tcp_close_reset h socket => if socket then .release h else .use h
  | .uv_close h => .release h
  | .new o => .acquire o
  | .delete o => .release (some o)

/-- The process: the next pointer that `malloc` and `new` return, and the calls so far. -/
structure Env where
  next : Ptr
  log : List Call

namespace Env

def start : Env := ⟨0, []⟩

def call (e : Env) (c : Call) : Env := { e with log := e.log ++ [c] }

/-- The call is given the pointer of something new. -/
def make (e : Env) (c : Ptr → Call) : Env := { next := e.next + 1, log := e.log ++ [c e.next] }

def acts (e : Env) : List (Act Ptr) := e.log.map Call.act

end Env

/-! ## The servers -/

/-- A `uv_tcp_t`: where it is, and whether libuv has a socket for it. -/
structure UvTcp where
  ptr : Ptr
  socket : Bool

structure TcpServer where
  pTcp : Option UvTcp

namespace TcpServer

/-- `m_pTcp` -/
def ptr (s : TcpServer) : Option Ptr := s.pTcp.map UvTcp.ptr

/-- `TcpServer::TcpServer` -/
def new (e : Env) : TcpServer × Env := (⟨some ⟨e.next, false⟩⟩, e.make .uv_tcp_init)

/-- `TcpServer::listen`; `socket` says whether the system has a socket for a handle that is without
one. What `uv_listen` returns is only logged. -/
def listen (s : TcpServer) (port : UInt16) (socket : Bool) (e : Env) : TcpServer × Env :=
  (⟨s.pTcp.map fun h => { h with socket := h.socket || socket }⟩,
    (e.call (.uv_tcp_bind s.ptr port)).call (.uv_listen s.ptr))

/-- `TcpServer::close` -/
def close (s : TcpServer) (e : Env) : TcpServer × Env :=
  match s.pTcp with
  | some h => (⟨none⟩, e.call (.uv_tcp_close_reset (some h.ptr) h.socket))
  | none => (s, e)

/-- `TcpServer::~TcpServer` -/
def destroy (s : TcpServer) (e : Env) : TcpServer × Env :=
  (⟨none⟩, e.call (.uv_tcp_close_reset s.ptr (s.pTcp.any UvTcp.socket)))

end TcpServer

structure Timer where
  pTimer : Option Ptr

namespace Timer

/-- `Timer::Timer` -/
def new (e : Env) : Timer × Env := (⟨some e.next⟩, e.make .uv_timer_init)

/-- `Timer::~Timer` -/
def destroy (t : Timer) (e : Env) : Timer × Env :=
  match t.pTimer with
  | some h => (⟨none⟩, e.call (.uv_close (some h)))
  | none => (t, e)

end Timer

structure UdpServer where
  pUdp : Option Ptr
  /-- `m_pTimer`, with the object that it points to. -/
  pTimer : Ptr × Timer

namespace UdpServer

/-- `UdpServer::UdpServer` -/
def new (e : Env) : UdpServer × Env :=
  let pUdp := e.next
  let e := e.make .uv_udp_init
  let pTimer := e.next
  let (timer, e) := Timer.new (e.make .new)
  (⟨some pUdp, pTimer, timer⟩, e)

/-- `UdpServer::listen` -/
def listen (s : UdpServer) (port : UInt16) (_socket : Bool) (e : Env) : UdpServer × Env :=
  (s, (e.call (.uv_udp_bind s.pUdp port)).call (.uv_udp_recv_start s.pUdp))

/-- `UdpServer::close` -/
def close (s : UdpServer) (e : Env) : UdpServer × Env :=
  match s.pUdp with
  | some h => ({ s with pUdp := none }, e.call (.uv_close (some h)))
  | none => (s, e)

/-- `UdpServer::~UdpServer` -/
def destroy (s : UdpServer) (e : Env) : UdpServer × Env :=
  let (timer, e) := s.pTimer.2.destroy e
  let e := e.call (.delete s.pTimer.1)
  let s := { s with pTimer := (s.pTimer.1, timer) }
  match s.pUdp with
  | some h => ({ s with pUdp := none }, e.call (.uv_close (some h)))
  | none => (s, e)

end UdpServer

structure HttpServer where
  /-- `m_pTcpServer`, with the object that it points to, or pointed to before it was deleted. -/
  pTcpServer : Option (Ptr × TcpServer)

namespace HttpServer

/-- `HttpServer::HttpServer` -/
def new (e : Env) : HttpServer × Env := (⟨none⟩, e)

/-- `HttpServer::close`: `m_pTcpServer` is deleted and keeps its value. -/
def close (s : HttpServer) (e : Env) : HttpServer × Env :=
  match s.pTcpServer with
  | some (o, tcp) =>
    let (tcp, e) := tcp.destroy e
    (⟨some (o, tcp)⟩, e.call (.delete o))
  | none => (s, e)

/-- `HttpServer::~HttpServer`, which has the body of `close`. -/
def destroy (s : HttpServer) (e : Env) : HttpServer × Env := s.close e

/-- `HttpServer::listen` -/
def listen (s : HttpServer) (port : UInt16) (socket : Bool) (e : Env) : HttpServer × Env :=
  let (_, e) := s.close e
  let o := e.next
  let (tcp, e) := TcpServer.new (e.make .new)
  let (tcp, e) := tcp.listen port socket e
  (⟨some (o, tcp)⟩, e)

end HttpServer

/-! ## Lives -/

/-- The public interface of a server. -/
structure ServerClass (σ : Type) where
  new : Env → σ × Env
  listen : σ → UInt16 → Bool → Env → σ × Env
  close : σ → Env → σ × Env
  destroy : σ → Env → σ × Env

def tcpServer : ServerClass TcpServer :=
  ⟨TcpServer.new, TcpServer.listen, TcpServer.close, TcpServer.destroy⟩

def udpServer : ServerClass UdpServer :=
  ⟨UdpServer.new, UdpServer.listen, UdpServer.close, UdpServer.destroy⟩

def httpServer : ServerClass HttpServer :=
  ⟨HttpServer.new, HttpServer.listen, HttpServer.close, HttpServer.destroy⟩

/-- A call of the user. `socket` is the system's answer when libuv needs a socket to bind. -/
inductive Op
  | listen (port : UInt16) (socket : Bool)
  | close
  deriving DecidableEq

namespace ServerClass

variable {σ : Type} (C : ServerClass σ)

def step (s : σ × Env) : Op → σ × Env
  | .listen port socket => C.listen s.1 port socket s.2
  | .close => C.close s.1 s.2

/-- The server after the calls. -/
def after (ops : List Op) : σ × Env := ops.foldl C.step (C.new Env.start)

/-- What is done with handles and objects in a whole life. -/
def life (ops : List Op) : List (Act Ptr) :=
  (C.destroy (C.after ops).1 (C.after ops).2).2.acts

theorem after_concat (ops : List Op) (op : Op) :
    C.after (ops ++ [op]) = C.step (C.after ops) op := List.foldl_concat ..

end ServerClass

/-! ## What is held -/

namespace Env

/-- Nothing has gone wrong so far, and the handles and objects that are left to release are those
that `P` holds of. -/
structure Holds (e : Env) (P : Ptr → Prop) : Prop where
  sound : Sound e.acts
  fresh : ∀ r ∈ acquired e.acts, r < e.next
  held : ∀ r, Held e.acts r ↔ P r

/-- Something has gone wrong. -/
def Broken (e : Env) : Prop := ¬ Sound e.acts

theorem acts_call (e : Env) (c : Call) : (e.call c).acts = e.acts ++ [c.act] := List.map_append

theorem acts_make (e : Env) (c : Ptr → Call) : (e.make c).acts = e.acts ++ [(c e.next).act] :=
  List.map_append

theorem holds_start : start.Holds fun _ => False where
  sound := sound_nil
  fresh _ h := absurd h List.not_mem_nil
  held _ := iff_of_false (fun h => absurd h.1 List.not_mem_nil) not_false

section

variable {e : Env} {P : Ptr → Prop} (he : e.Holds P)
include he

theorem Holds.congr {Q : Ptr → Prop} (h : ∀ r, P r ↔ Q r) : e.Holds Q :=
  ⟨he.sound, he.fresh, fun r => (he.held r).trans (h r)⟩

theorem Holds.make {c : Ptr → Call} (hc : ∀ r, (c r).act = .acquire r) :
    (e.make c).Holds fun r => r = e.next ∨ P r := by
  have hnew : e.next ∉ acquired e.acts := fun h => absurd (he.fresh _ h) (lt_irrefl _)
  constructor
  · rw [acts_make, hc, sound_concat]
    exact ⟨he.sound, hnew⟩
  · intro r hr
    rw [acts_make, hc, acquired_append] at hr
    rcases List.mem_append.mp hr with hr | hr
    · exact (he.fresh r hr).trans (Nat.lt_succ_self _)
    · rw [List.mem_singleton.mp hr]
      exact Nat.lt_succ_self _
  · intro r
    rw [acts_make, hc, held_acquire he.sound hnew, he.held r]

/-- A call that acquires nothing. -/
theorem Holds.keep {c : Call} {Q : Ptr → Prop} (hsound : c.act.Sound e.acts)
    (hnone : acquired [c.act] = []) (hheld : ∀ q, Held (e.acts ++ [c.act]) q ↔ Q q) :
    (e.call c).Holds Q := by
  constructor
  · rw [acts_call, sound_concat]
    exact ⟨he.sound, hsound⟩
  · intro q hq
    rw [acts_call, acquired_append, hnone, List.append_nil] at hq
    exact he.fresh q hq
  · intro q
    rw [acts_call]
    exact hheld q

theorem Holds.use {c : Call} {r : Ptr} (hc : c.act = .use (some r)) (hr : P r) :
    (e.call c).Holds P := by
  apply he.keep <;> rw [hc]
  · exact ⟨r, rfl, (he.held r).mpr hr⟩
  · rfl
  · intro q
    rw [held_use, he.held q]

theorem Holds.release {c : Call} {r : Ptr} (hc : c.act = .release (some r)) (hr : P r) :
    (e.call c).Holds fun q => P q ∧ q ≠ r := by
  apply he.keep <;> rw [hc]
  · exact ⟨r, rfl, (he.held r).mpr hr⟩
  · rfl
  · intro q
    rw [held_release, he.held q]

/-- A life that ends with nothing held has released everything. -/
theorem Holds.released (hP : ∀ r, ¬ P r) : Released e.acts :=
  released_iff.mpr ⟨he.sound, fun r hr => hP r ((he.held r).mp hr)⟩

end

theorem Broken.call {e : Env} (he : e.Broken) (c : Call) : (e.call c).Broken := by
  intro h
  rw [acts_call, sound_concat] at h
  exact he h.1

theorem Broken.make {e : Env} (he : e.Broken) (c : Ptr → Call) : (e.make c).Broken := by
  intro h
  rw [acts_make, sound_concat] at h
  exact he h.1

theorem Broken.not_released {e : Env} (he : e.Broken) : ¬ Released e.acts := fun h => he h.sound

/-- A call that is given `NULL` goes wrong. -/
theorem broken_null (e : Env) {c : Call} (hc : c.act = .use none ∨ c.act = .release none) :
    (e.call c).Broken := by
  intro h
  rw [acts_call, sound_concat] at h
  obtain ⟨-, hsound⟩ := h
  rcases hc with hc | hc
  · rw [hc] at hsound
    obtain ⟨q, hq, -⟩ := hsound
    cases hq
  · rw [hc] at hsound
    obtain ⟨q, hq, -⟩ := hsound
    cases hq

/-- So does deleting what is not held. -/
theorem broken_delete {e : Env} {o : Ptr} (ho : ¬ Held e.acts o) : (e.call (.delete o)).Broken := by
  intro h
  rw [acts_call, sound_concat] at h
  obtain ⟨-, q, hq, hheld⟩ := h
  cases hq
  exact ho hheld

end Env

/-! ## `TcpServer` -/

/-- Some call of `listen` gave its handle a socket. -/
def GetsSocket (ops : List Op) : Prop := ∃ port, .listen port true ∈ ops

instance (ops : List Op) : Decidable (GetsSocket ops) :=
  decidable_of_iff (ops.any fun op => match op with
      | .listen _ socket => socket
      | .close => false) <| by
    unfold GetsSocket
    rw [List.any_eq_true]
    constructor
    · rintro ⟨op, hop, hsocket⟩
      cases op with
      | listen port socket =>
        cases hsocket
        exact ⟨port, hop⟩
      | close => cases hsocket
    · rintro ⟨port, hop⟩
      exact ⟨_, hop, rfl⟩

theorem getsSocket_concat_listen (ops : List Op) (port : UInt16) (socket : Bool) :
    GetsSocket (ops ++ [.listen port socket]) ↔ GetsSocket ops ∨ socket = true := by
  unfold GetsSocket
  simp only [List.mem_append, List.mem_singleton, Op.listen.injEq, exists_or]
  exact or_congr_right ⟨fun ⟨_, _, hsocket⟩ => hsocket.symm, fun hsocket => ⟨port, rfl, hsocket.symm⟩⟩

theorem TcpServer.close_of_some {s : TcpServer} {h : UvTcp} (hcur : s.pTcp = some h) (e : Env) :
    s.close e = (⟨none⟩, e.call (.uv_tcp_close_reset (some h.ptr) h.socket)) := by
  unfold TcpServer.close
  rw [hcur]

theorem TcpServer.close_of_none {s : TcpServer} (hcur : s.pTcp = none) (e : Env) :
    s.close e = (s, e) := by
  unfold TcpServer.close
  rw [hcur]

/-- A server that has not been closed holds its handle; one that has been holds nothing that its
destructor could close. -/
theorem tcpServer_after (ops : List Op) :
    (.close ∉ ops ∧ ∃ h, (tcpServer.after ops).1.pTcp = some h ∧
        (h.socket = true ↔ GetsSocket ops) ∧ (tcpServer.after ops).2.Holds fun r => r = h.ptr) ∨
      .close ∈ ops ∧ (tcpServer.after ops).1.pTcp = none := by
  induction ops using List.reverseRecOn with
  | nil =>
    have hnew := Env.holds_start.make (c := .uv_tcp_init) fun _ => rfl
    exact Or.inl ⟨List.not_mem_nil, ⟨0, false⟩, rfl, by decide,
      hnew.congr fun _ => or_iff_left not_false⟩
  | append_singleton ops op ih =>
    rw [ServerClass.after_concat]
    rcases ih with ⟨hno, h, hcur, hsocket, hholds⟩ | ⟨hclosed, hcur⟩
    · cases op with
      | listen port socket =>
        -- `listen` uses the handle, and may give it a socket
        have hptr : (tcpServer.after ops).1.ptr = some h.ptr := congrArg (Option.map UvTcp.ptr) hcur
        have hbind := hholds.use (c := .uv_tcp_bind (some h.ptr) port) rfl rfl
        have hlisten := hbind.use (c := .uv_listen (some h.ptr)) rfl rfl
        rw [← hptr] at hlisten
        refine Or.inl ⟨by simpa using hno, { h with socket := h.socket || socket }, ?_, ?_, hlisten⟩
        · exact congrArg (Option.map fun h : UvTcp => { h with socket := h.socket || socket }) hcur
        · rw [getsSocket_concat_listen, ← hsocket]
          exact Bool.or_eq_true_iff
      | close =>
        have hclose := TcpServer.close_of_some hcur (tcpServer.after ops).2
        exact Or.inr ⟨by simp, congrArg (fun s => s.1.pTcp) hclose⟩
    · refine Or.inr ⟨List.mem_append_left _ hclosed, ?_⟩
      cases op with
      | listen port socket => exact congrArg (Option.map _) hcur
      | close =>
        -- there is no handle to close any more
        have hclose := TcpServer.close_of_none hcur (tcpServer.after ops).2
        exact (congrArg (fun s => s.1.pTcp) hclose).trans hcur

theorem tcpServer_released_iff (ops : List Op) :
    Released (tcpServer.life ops) ↔ .close ∉ ops ∧ GetsSocket ops := by
  have hlife : tcpServer.life ops = ((tcpServer.after ops).2.call
      (.uv_tcp_close_reset (tcpServer.after ops).1.ptr
        ((tcpServer.after ops).1.pTcp.any UvTcp.socket))).acts := rfl
  rw [hlife, TcpServer.ptr]
  rcases tcpServer_after ops with ⟨hno, h, hcur, hsocket, hholds⟩ | ⟨hclosed, hcur⟩
  · rw [hcur, ← hsocket]
    cases hs : h.socket with
    | true =>
      have hclose := hholds.release (c := .uv_tcp_close_reset (some h.ptr) true) rfl rfl
      rw [Option.map_some, Option.any_some, hs]
      exact iff_of_true (hclose.released fun r hr => hr.2 hr.1) ⟨hno, rfl⟩
    | false =>
      -- the handle stays open for good
      have huse := hholds.use (c := .uv_tcp_close_reset (some h.ptr) false) rfl rfl
      rw [Option.map_some, Option.any_some, hs]
      refine iff_of_false (fun hrel => ?_) fun hcond => by cases hcond.2
      exact (released_iff.mp hrel).2 h.ptr ((huse.held h.ptr).mpr rfl)
  · rw [hcur]
    have hnull := (tcpServer.after ops).2.broken_null (c := .uv_tcp_close_reset none false)
      (Or.inl rfl)
    exact iff_of_false hnull.not_released fun hcond => hcond.1 hclosed

/-! ## `UdpServer` -/

/-- The calls of `listen` all come before those of `close`. -/
def ListensFirst (ops : List Op) : Prop :=
  EachAfter (fun pre op => ∀ port socket, op = .listen port socket → .close ∉ pre) ops

namespace UdpServer

/-- The server holds its timer, the timer's handle, and its own handle until it is closed. -/
def Owns (s : UdpServer) (e : Env) : Prop :=
  ∃ t, s.pTimer.2.pTimer = some t ∧ s.pTimer.1 ≠ t ∧
    (∀ h, s.pUdp = some h → h ≠ s.pTimer.1 ∧ h ≠ t) ∧
    e.Holds fun r => s.pUdp = some r ∨ r = s.pTimer.1 ∨ r = t

theorem close_of_some {s : UdpServer} {h : Ptr} (hcur : s.pUdp = some h) (e : Env) :
    s.close e = ({ s with pUdp := none }, e.call (.uv_close (some h))) := by
  unfold UdpServer.close
  rw [hcur]

theorem close_of_none {s : UdpServer} (hcur : s.pUdp = none) (e : Env) : s.close e = (s, e) := by
  unfold UdpServer.close
  rw [hcur]

theorem owns_new : (udpServer.after []).1.Owns (udpServer.after []).2 := by
  have hudp := Env.holds_start.make (c := .uv_udp_init) fun _ => rfl
  have hobject := hudp.make (c := .new) fun _ => rfl
  have htimer := hobject.make (c := .uv_timer_init) fun _ => rfl
  refine ⟨2, rfl, by decide, fun h hh => ?_, htimer.congr fun r => ?_⟩
  · cases hh
    decide
  · show r = 2 ∨ r = 1 ∨ r = 0 ∨ False ↔ some 0 = some r ∨ r = 1 ∨ r = 2
    rw [Option.some.injEq, eq_comm (a := 0)]
    tauto

section

variable {s : UdpServer} {e : Env} (hs : s.Owns e)
include hs

theorem Owns.listen {h : Ptr} (hcur : s.pUdp = some h) (port : UInt16) (socket : Bool) :
    (s.listen port socket e).1.Owns (s.listen port socket e).2 := by
  obtain ⟨t, ht, hne, hudp, hholds⟩ := hs
  have hbind := hholds.use (c := .uv_udp_bind (some h) port) rfl (Or.inl hcur)
  have hrecv := hbind.use (c := .uv_udp_recv_start (some h)) rfl (Or.inl hcur)
  refine ⟨t, ht, hne, hudp, ?_⟩
  show ((e.call (.uv_udp_bind s.pUdp port)).call (.uv_udp_recv_start s.pUdp)).Holds
    fun r => s.pUdp = some r ∨ r = s.pTimer.1 ∨ r = t
  rw [hcur] at hrecv ⊢
  exact hrecv

theorem Owns.close : (s.close e).1.Owns (s.close e).2 ∧ (s.close e).1.pUdp = none := by
  cases hcur : s.pUdp with
  | none =>
    rw [close_of_none hcur]
    exact ⟨hs, hcur⟩
  | some h =>
    rw [close_of_some hcur]
    obtain ⟨t, ht, hne, hudp, hholds⟩ := hs
    obtain ⟨hobject, htimer⟩ := hudp h hcur
    have hclose := hholds.release (c := .uv_close (some h)) rfl (Or.inl hcur)
    refine ⟨⟨t, ht, hne, fun _ hh => (by cases hh), hclose.congr fun r => ?_⟩, rfl⟩
    -- the timer's two are not the handle that was closed
    show (s.pUdp = some r ∨ r = s.pTimer.1 ∨ r = t) ∧ r ≠ h ↔
      none = some r ∨ r = s.pTimer.1 ∨ r = t
    rw [hcur]
    constructor
    · rintro ⟨hr | hr, hnot⟩
      · exact absurd (Option.some_injective _ hr).symm hnot
      · exact Or.inr hr
    · rintro (hr | rfl | rfl)
      · cases hr
      · exact ⟨Or.inr (Or.inl rfl), hobject.symm⟩
      · exact ⟨Or.inr (Or.inr rfl), htimer.symm⟩

theorem Owns.destroy : Released (s.destroy e).2.acts := by
  obtain ⟨t, ht, hne, hudp, hholds⟩ := hs
  have htimer := hholds.release (c := .uv_close (some t)) rfl (Or.inr (Or.inr rfl))
  have hdelete := htimer.release (c := .delete s.pTimer.1) rfl ⟨Or.inr (Or.inl rfl), hne⟩
  unfold UdpServer.destroy Timer.destroy
  rw [ht]
  dsimp only
  cases hcur : s.pUdp with
  | none =>
    refine hdelete.released ?_
    rintro r ⟨⟨hr | hr | hr, hnott⟩, hnoto⟩
    · rw [hcur] at hr
      cases hr
    · exact hnoto hr
    · exact hnott hr
  | some h =>
    obtain ⟨hobject, hhandle⟩ := hudp h hcur
    have hclose := hdelete.release (c := .uv_close (some h)) rfl
      ⟨⟨Or.inl hcur, hhandle⟩, hobject⟩
    refine hclose.released ?_
    rintro r ⟨⟨⟨hr | hr | hr, hnott⟩, hnoto⟩, hnoth⟩
    · rw [hcur] at hr
      exact hnoth (Option.some_injective _ hr).symm
    · exact hnoto hr
    · exact hnott hr

end

/-- Nothing a server does mends a log in which something has gone wrong. -/
theorem broken_destroy (s : UdpServer) {e : Env} (he : e.Broken) : (s.destroy e).2.Broken := by
  have htimer : (s.pTimer.2.destroy e).2.Broken := by
    unfold Timer.destroy
    split
    · exact he.call _
    · exact he
  unfold UdpServer.destroy
  dsimp only
  split
  · exact (htimer.call _).call _
  · exact htimer.call _

theorem broken_step (s : UdpServer) {e : Env} (he : e.Broken) (op : Op) :
    (udpServer.step (s, e) op).2.Broken := by
  cases op with
  | listen port socket => exact (he.call _).call _
  | close =>
    show (s.close e).2.Broken
    unfold UdpServer.close
    split
    · exact he.call _
    · exact he

end UdpServer

/-- While every `listen` comes before any `close`, the server has what it owns, and its handle until
it is closed. The first other `listen` passes `NULL`. -/
theorem udpServer_after (ops : List Op) :
    (ListensFirst ops ∧ (udpServer.after ops).1.Owns (udpServer.after ops).2 ∧
        ((udpServer.after ops).1.pUdp = none ↔ .close ∈ ops)) ∨
      ¬ ListensFirst ops ∧ (udpServer.after ops).2.Broken := by
  induction ops using List.reverseRecOn with
  | nil => exact Or.inl ⟨EachAfter.nil, UdpServer.owns_new, by decide⟩
  | append_singleton ops op ih =>
    rw [ServerClass.after_concat]
    have hcond : ListensFirst (ops ++ [op]) ↔ ListensFirst ops ∧
        ∀ port socket, op = .listen port socket → .close ∉ ops := EachAfter.concat_iff
    rcases ih with ⟨hfirst, howns, hnull⟩ | ⟨hnot, hbroken⟩
    · cases op with
      | listen port socket =>
        cases hcur : (udpServer.after ops).1.pUdp with
        | none =>
          -- the handle is gone, and `listen` binds `NULL`
          have hbind := (udpServer.after ops).2.broken_null (c := .uv_udp_bind none port)
            (Or.inl rfl)
          refine Or.inr ⟨fun h => (hcond.mp h).2 port socket rfl (hnull.mp hcur), ?_⟩
          rw [← hcur] at hbind
          exact hbind.call _
        | some h =>
          have hopen : .close ∉ ops := by
            intro hclosed
            rw [hnull.mpr hclosed] at hcur
            cases hcur
          refine Or.inl ⟨hcond.mpr ⟨hfirst, fun _ _ _ => hopen⟩, howns.listen hcur port socket, ?_⟩
          have hmem : .close ∈ ops ++ [Op.listen port socket] ↔ .close ∈ ops := by simp
          rw [hmem]
          exact hnull
      | close =>
        obtain ⟨hclosed, hnone⟩ := howns.close
        exact Or.inl ⟨hcond.mpr ⟨hfirst, fun _ _ h => by cases h⟩, hclosed,
          iff_of_true hnone (by simp)⟩
    · exact Or.inr ⟨fun h => hnot (hcond.mp h).1, UdpServer.broken_step _ hbroken op⟩

theorem udpServer_released_iff (ops : List Op) :
    Released (udpServer.life ops) ↔ ListensFirst ops := by
  rcases udpServer_after ops with ⟨hfirst, howns, -⟩ | ⟨hnot, hbroken⟩
  · exact iff_of_true howns.destroy hfirst
  · exact iff_of_false (UdpServer.broken_destroy _ hbroken).not_released hnot

/-! ## `HttpServer` -/

/-- No call of `close` comes after one of `listen`. -/
def ClosesFirst (ops : List Op) : Prop :=
  EachAfter (fun pre op => op = .close → ∀ port socket, .listen port socket ∉ pre) ops

/-- Every call of `listen` got a socket. -/
def AllGetSockets (ops : List Op) : Prop := ∀ port, .listen port false ∉ ops

theorem allGetSockets_concat_listen (ops : List Op) (port : UInt16) (socket : Bool) :
    AllGetSockets (ops ++ [.listen port socket]) ↔ AllGetSockets ops ∧ socket = true := by
  unfold AllGetSockets
  simp only [List.mem_append, List.mem_singleton, Op.listen.injEq, not_or, forall_and]
  refine and_congr_right fun _ => ⟨fun h => ?_, fun h port' hand => ?_⟩
  · by_contra hfalse
    exact h port ⟨rfl, ((Bool.not_eq_true _).mp hfalse).symm⟩
  · rw [h] at hand
    cases hand.2

theorem allGetSockets_concat_close (ops : List Op) :
    AllGetSockets (ops ++ [.close]) ↔ AllGetSockets ops := by
  simp [AllGetSockets]

namespace HttpServer

/-- The server has no `TcpServer` yet, or it holds one and that one's handle, which has a
socket. -/
def Owns (s : HttpServer) (e : Env) : Prop :=
  (s.pTcpServer = none ∧ e.Holds fun _ => False) ∨
    ∃ o h, s.pTcpServer = some (o, ⟨some ⟨h, true⟩⟩) ∧ o ≠ h ∧ e.Holds fun r => r = o ∨ r = h

/-- The server has a pointer to a `TcpServer` that is deleted. -/
def Dangles (s : HttpServer) (e : Env) : Prop :=
  ∃ o tcp, s.pTcpServer = some (o, tcp) ∧ ¬ Held e.acts o

/-- Something is held that the server has no way to release. -/
def Leaks (s : HttpServer) (e : Env) : Prop :=
  ∃ r, Held e.acts r ∧ r < e.next ∧ ∀ o tcp, s.pTcpServer = some (o, tcp) →
    r ≠ o ∧ ∀ h, tcp.pTcp = some h → h.socket = true → r ≠ h.ptr

theorem close_of_some {s : HttpServer} {o : Ptr} {tcp : TcpServer}
    (hcur : s.pTcpServer = some (o, tcp)) (e : Env) :
    s.close e = (⟨some (o, ⟨none⟩)⟩,
      (e.call (.uv_tcp_close_reset tcp.ptr (tcp.pTcp.any UvTcp.socket))).call (.delete o)) := by
  unfold HttpServer.close
  rw [hcur]
  rfl

theorem close_of_none {s : HttpServer} (hcur : s.pTcpServer = none) (e : Env) :
    s.close e = (s, e) := by
  unfold HttpServer.close
  rw [hcur]

/-- A `TcpServer` is deleted with its handle, and nothing else is left. -/
theorem Owns.close {s : HttpServer} {e : Env} (hs : s.Owns e) :
    (s.close e).2.Holds (fun _ => False) ∧ (s.pTcpServer = none ∨ (s.close e).1.Dangles (s.close e).2) := by
  rcases hs with ⟨hcur, hholds⟩ | ⟨o, h, hcur, hne, hholds⟩
  · rw [close_of_none hcur]
    exact ⟨hholds, Or.inl hcur⟩
  · rw [close_of_some hcur]
    have hclose := hholds.release (c := .uv_tcp_close_reset (some h) true) rfl (Or.inr rfl)
    have hdelete := hclose.release (c := .delete o) rfl ⟨Or.inl rfl, hne⟩
    have hnone : Env.Holds _ fun _ => False := hdelete.congr fun r => by tauto
    exact ⟨hnone, Or.inr ⟨o, ⟨none⟩, rfl, (hnone.held o).mp⟩⟩

/-- A deleted `TcpServer` is deleted again. -/
theorem Dangles.close {s : HttpServer} {e : Env} (hs : s.Dangles e) : (s.close e).2.Broken := by
  obtain ⟨o, tcp, hcur, hnot⟩ := hs
  rw [close_of_some hcur]
  refine Env.broken_delete fun hheld => hnot ?_
  rw [Env.acts_call] at hheld
  unfold Call.act at hheld
  dsimp only at hheld
  split at hheld
  · exact hheld.of_release
  · exact held_use.mp hheld

/-- What the server has no way to release stays held. -/
theorem Leaks.close {s : HttpServer} {e : Env} (hs : s.Leaks e) :
    (s.close e).1.Leaks (s.close e).2 := by
  obtain ⟨r, hheld, hlt, hother⟩ := hs
  cases hcur : s.pTcpServer with
  | none =>
    rw [close_of_none hcur]
    exact ⟨r, hheld, hlt, hother⟩
  | some p =>
    obtain ⟨o, tcp⟩ := p
    obtain ⟨hobject, hhandle⟩ := hother o tcp hcur
    rw [close_of_some hcur]
    refine ⟨r, ?_, hlt, fun o' tcp' heq => ?_⟩
    · rw [Env.acts_call, Env.acts_call]
      refine (hheld.concat ?_).concat ?_
      · intro hact
        unfold Call.act at hact
        cases htcp : tcp.pTcp with
        | none => simp [htcp] at hact
        | some h =>
          cases hsocket : h.socket with
          | false => simp [htcp, hsocket] at hact
          | true =>
            have hptr : h.ptr = r := by simpa [TcpServer.ptr, htcp, hsocket] using hact
            exact hhandle h htcp hsocket hptr.symm
      · intro hact
        cases hact
        exact hobject rfl
    · cases heq
      exact ⟨hobject, fun h hh => by cases hh⟩

theorem broken_close (s : HttpServer) {e : Env} (he : e.Broken) : (s.close e).2.Broken := by
  cases hcur : s.pTcpServer with
  | none =>
    rw [close_of_none hcur]
    exact he
  | some p =>
    obtain ⟨o, tcp⟩ := p
    rw [close_of_some hcur]
    exact (he.call _).call _

/-- `listen` closes and makes a new `TcpServer`, whose handle may get a socket. -/
theorem listen_eq (s : HttpServer) (port : UInt16) (socket : Bool) (e : Env) :
    s.listen port socket e =
      (⟨some ((s.close e).2.next, ⟨some ⟨(s.close e).2.next + 1, socket⟩⟩)⟩,
        ((((s.close e).2.make .new).make .uv_tcp_init).call
          (.uv_tcp_bind (some ((s.close e).2.next + 1)) port)).call
            (.uv_listen (some ((s.close e).2.next + 1)))) := rfl

theorem broken_listen (s : HttpServer) (port : UInt16) (socket : Bool) {e : Env}
    (he : (s.close e).2.Broken) : (s.listen port socket e).2.Broken := by
  rw [listen_eq]
  exact ((((he.make _).make _).call _).call _)

/-- After `listen` the server holds the new `TcpServer` and its handle. -/
theorem Owns.holds_listen {s : HttpServer} {e : Env} (hs : s.Owns e) (port : UInt16)
    (socket : Bool) : (s.listen port socket e).2.Holds
      fun r => r = (s.close e).2.next ∨ r = (s.close e).2.next + 1 := by
  have hnew := hs.close.1.make (c := .new) fun _ => rfl
  have hinit := hnew.make (c := .uv_tcp_init) fun _ => rfl
  have hbind := hinit.use (c := .uv_tcp_bind (some ((s.close e).2.next + 1)) port) rfl (Or.inl rfl)
  have hlisten := hbind.use (c := .uv_listen (some ((s.close e).2.next + 1))) rfl (Or.inl rfl)
  rw [listen_eq]
  refine hlisten.congr fun r => ?_
  show r = (s.close e).2.next + 1 ∨ r = (s.close e).2.next ∨ False ↔ _
  tauto

theorem Owns.listen {s : HttpServer} {e : Env} (hs : s.Owns e) (port : UInt16) :
    (s.listen port true e).1.Owns (s.listen port true e).2 :=
  Or.inr ⟨(s.close e).2.next, (s.close e).2.next + 1, rfl, (Nat.lt_succ_self _).ne,
    hs.holds_listen port true⟩

/-- A handle without a socket is never closed. -/
theorem Owns.leaks_listen {s : HttpServer} {e : Env} (hs : s.Owns e) (port : UInt16) :
    (s.listen port false e).1.Leaks (s.listen port false e).2 := by
  have hholds := hs.holds_listen port false
  have hheld := (hholds.held ((s.close e).2.next + 1)).mpr (Or.inr rfl)
  refine ⟨_, hheld, hholds.fresh _ hheld.1, fun o tcp heq => ?_⟩
  rw [listen_eq] at heq
  cases heq
  exact ⟨(Nat.lt_succ_self _).ne', fun h hh hsocket => by cases hh; cases hsocket⟩

theorem Leaks.listen {s : HttpServer} {e : Env} (hs : s.Leaks e) (port : UInt16) (socket : Bool) :
    (s.listen port socket e).1.Leaks (s.listen port socket e).2 := by
  obtain ⟨r, hheld, hlt, -⟩ := hs.close
  rw [listen_eq]
  refine ⟨r, ?_, hlt.trans (Nat.lt_add_of_pos_right two_pos), fun o tcp heq => ?_⟩
  · rw [Env.acts_call, Env.acts_call, Env.acts_make, Env.acts_make]
    exact (((hheld.concat fun h => by cases h).concat fun h => by cases h).concat
      fun h => by cases h).concat fun h => by cases h
  · cases heq
    refine ⟨hlt.ne, fun h hh _ => ?_⟩
    cases hh
    exact (hlt.trans (Nat.lt_succ_self _)).ne

theorem Leaks.not_released {s : HttpServer} {e : Env} (hs : s.Leaks e) : ¬ Released e.acts := by
  obtain ⟨r, hheld, -⟩ := hs
  exact fun h => (released_iff.mp h).2 r hheld

end HttpServer

/-- While every `close` comes before any `listen` and every `listen` gets a socket, the server has
what it owns. After the first other `close` it has a pointer to a deleted `TcpServer`, and whatever
is called next deletes that again; after the first other `listen` it has a handle that is never
closed. -/
theorem httpServer_after (ops : List Op) :
    ((ClosesFirst ops ∧ AllGetSockets ops) ∧
        (httpServer.after ops).1.Owns (httpServer.after ops).2 ∧
        ((httpServer.after ops).1.pTcpServer = none ↔ ∀ port socket, .listen port socket ∉ ops)) ∨
      ¬ (ClosesFirst ops ∧ AllGetSockets ops) ∧
        ((httpServer.after ops).1.Dangles (httpServer.after ops).2 ∨
          (httpServer.after ops).2.Broken ∨
          (httpServer.after ops).1.Leaks (httpServer.after ops).2) := by
  induction ops using List.reverseRecOn with
  | nil =>
    exact Or.inl ⟨⟨EachAfter.nil, fun _ => List.not_mem_nil⟩, Or.inl ⟨rfl, Env.holds_start⟩,
      iff_of_true rfl fun _ _ => List.not_mem_nil⟩
  | append_singleton ops op ih =>
    rw [ServerClass.after_concat]
    have hcond : ClosesFirst (ops ++ [op]) ↔ ClosesFirst ops ∧
        (op = .close → ∀ port socket, .listen port socket ∉ ops) := EachAfter.concat_iff
    -- as long as all is well the next call decides; afterwards nothing can be repaired
    rcases ih with ⟨⟨hfirst, hsockets⟩, howns, hnull⟩ | ⟨hnot, hwrong⟩
    · cases op with
      | listen port socket =>
        have hlistens : ¬ ∀ port' socket', .listen port' socket' ∉ ops ++ [Op.listen port socket] :=
          fun h => h port socket (by simp)
        -- a handle that gets no socket is never closed
        cases socket with
        | true =>
          exact Or.inl ⟨⟨hcond.mpr ⟨hfirst, fun h => by cases h⟩,
            (allGetSockets_concat_listen ops port true).mpr ⟨hsockets, rfl⟩⟩, howns.listen port,
            iff_of_false (fun h => by cases h) hlistens⟩
        | false =>
          refine Or.inr ⟨fun h => ?_, Or.inr (Or.inr (howns.leaks_listen port))⟩
          cases ((allGetSockets_concat_listen ops port false).mp h.2).2
      | close =>
        obtain ⟨hheld, hcur | hdangles⟩ := howns.close
        · -- there is nothing to close yet
          have hsame := HttpServer.close_of_none hcur (httpServer.after ops).2
          have hstep : httpServer.step (httpServer.after ops) .close = httpServer.after ops := hsame
          refine Or.inl ⟨⟨hcond.mpr ⟨hfirst, fun _ => hnull.mp hcur⟩,
            (allGetSockets_concat_close ops).mpr hsockets⟩, ?_, ?_⟩
          · rw [hstep]
            exact howns
          · rw [hstep, hnull]
            simp
        · by_cases hcur : (httpServer.after ops).1.pTcpServer = none
          · have hsame := HttpServer.close_of_none hcur (httpServer.after ops).2
            rw [hsame] at hdangles
            obtain ⟨o, tcp, hsome, -⟩ := hdangles
            rw [hcur] at hsome
            cases hsome
          · exact Or.inr ⟨fun h => hcur (hnull.mpr ((hcond.mp h.1).2 rfl)), Or.inl hdangles⟩
    · have hnot' : ¬ (ClosesFirst (ops ++ [op]) ∧ AllGetSockets (ops ++ [op])) := by
        intro ⟨hfirst, hsockets⟩
        exact hnot ⟨(hcond.mp hfirst).1, fun port h => hsockets port (List.mem_append_left _ h)⟩
      refine Or.inr ⟨hnot', Or.inr ?_⟩
      -- `listen` closes first, and so does the destructor
      have hclose : ((httpServer.after ops).1.close (httpServer.after ops).2).2.Broken ∨
          (httpServer.after ops).1.Leaks (httpServer.after ops).2 := by
        rcases hwrong with hdangles | hbroken | hleaks
        · exact Or.inl hdangles.close
        · exact Or.inl (HttpServer.broken_close _ hbroken)
        · exact Or.inr hleaks
      cases op with
      | listen port socket =>
        exact hclose.imp (HttpServer.broken_listen _ port socket) fun h => h.listen port socket
      | close => exact hclose.imp_right HttpServer.Leaks.close

theorem httpServer_released_iff (ops : List Op) :
    Released (httpServer.life ops) ↔ ClosesFirst ops ∧ AllGetSockets ops := by
  rcases httpServer_after ops with ⟨hfirst, howns, -⟩ | ⟨hnot, hdangles | hbroken | hleaks⟩
  · exact iff_of_true (howns.close.1.released fun _ h => h) hfirst
  · exact iff_of_false hdangles.close.not_released hnot
  · exact iff_of_false (HttpServer.broken_close _ hbroken).not_released hnot
  · exact iff_of_false hleaks.close.not_released hnot

/-! ## Lives -/

/-- **Lives of the servers.** In a whole life, from construction through any calls of `listen` and
`close` to destruction, everything is released exactly once and no call is given `NULL` or something
already released: for a `TcpServer` if and only if it is never closed before it is destroyed and
gets a socket, for a `UdpServer` if and only if it does not listen after a `close`, and for an
`HttpServer` if and only if it is not closed after a `listen` and every `listen` gets a socket. -/
theorem released_lives_iff (ops : List Op) :
    (Released (tcpServer.life ops) ↔ .close ∉ ops ∧ GetsSocket ops) ∧
      (Released (udpServer.life ops) ↔ ListensFirst ops) ∧
      (Released (httpServer.life ops) ↔ ClosesFirst ops ∧ AllGetSockets ops) :=
  ⟨tcpServer_released_iff ops, udpServer_released_iff ops, httpServer_released_iff ops⟩

/-- The servers closed in their own ways: a `TcpServer` is destroyed without a call of `listen`,
another is closed and destroyed, a `UdpServer` listens again after `close`, an `HttpServer` is closed
after `listen` and destroyed. -/
theorem not_released_lives :
    ¬ Released (tcpServer.life []) ∧
      ¬ Released (tcpServer.life [.listen 80 true, .close]) ∧
      ¬ Released (udpServer.life [.listen 80 true, .close, .listen 80 true]) ∧
      ¬ Released (httpServer.life [.listen 80 true, .close]) := by
  refine ⟨fun h => ?_, fun h => ?_, fun h => ?_, fun h => ?_⟩
  · -- the handle is never closed
    cases h.once 0 (by decide)
  · -- the destructor's `uv_tcp_close_reset`
    obtain ⟨q, hq, -⟩ := h.sound
      [.acquire 0, .use (some 0), .use (some 0), .release (some 0)] (.use none) [] rfl
    cases hq
  · -- the second `uv_udp_bind`
    obtain ⟨q, hq, -⟩ := h.sound
      [.acquire 0, .acquire 1, .acquire 2, .use (some 0), .use (some 0), .release (some 0)]
      (.use none) [.use none, .release (some 2), .release (some 1)] rfl
    cases hq
  · -- the `uv_tcp_close_reset` of the `TcpServer` that is deleted for the second time
    obtain ⟨q, hq, -⟩ := h.sound
      [.acquire 0, .acquire 1, .use (some 1), .use (some 1), .release (some 1), .release (some 0)]
      (.use none) [.release (some 0)] rfl
    cases hq

end Lifecycle
end SomoNet
