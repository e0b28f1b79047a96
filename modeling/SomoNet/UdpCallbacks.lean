import SomoNet.UdpPeers

/-!
# The last call for a UDP link

A handler is told not to use a link after `on_close`. Neither UDP link remembers that it has been
closed: `UdpLink::close` and `UdpPeerLink::close` call `on_close` whenever there is a handler, and
so do the destructors, which call `close`. A closed `UdpPeerLink` stays in its server's table,
where datagrams still find it.

A handler that calls `close` from inside a callback makes the calls that it would make after it:
no callback here is followed by anything that looks at the link.
-/

namespace SomoNet

open Run

/-- The link that the handler is called with. -/
def UdpObs.link : UdpObs → Option LinkPtr
  | .onData _ link => link
  | .onClose link => some link

/-- No call with a link comes after `on_close` for it. -/
def ClosesLast (trace : List UdpObs) : Prop :=
  trace.Pairwise fun o o' => ∀ link, o = .onClose link → o'.link ≠ some link

/-- Further calls keep the property if and only if they do among themselves and none is for a link
that is closed. -/
theorem closesLast_append {trace calls : List UdpObs} :
    ClosesLast (trace ++ calls) ↔ ClosesLast trace ∧ ClosesLast calls ∧
      ∀ o ∈ calls, ∀ link, o.link = some link → .onClose link ∉ trace := by
  unfold ClosesLast
  rw [List.pairwise_append]
  refine and_congr_right fun _ => and_congr_right fun _ => ?_
  constructor
  · intro h o ho link hlink hmem
    exact h _ hmem o ho link rfl hlink
  · intro h o ho o' ho' link hclose hlink
    exact h o' ho' link hlink (hclose ▸ ho)

theorem closesLast_nil : ClosesLast [] := List.Pairwise.nil

theorem closesLast_singleton (o : UdpObs) : ClosesLast [o] := List.pairwise_singleton _ _

/-! ## `UdpLink` -/

/-- A `UdpLink` with its sockets and its handler. -/
structure UdpClient where
  self : LinkPtr
  link : UdpLink
  pHandler : Bool
  loop : Loop
  /-- The sockets that the link has opened and not closed; libuv reads all of them. -/
  sockets : List HandleId
  /-- The link has not been deleted. -/
  alive : Bool
  /-- `close` has run with a handler set. -/
  closed : Bool
  trace : List UdpObs

inductive UdpClientEvent
  | setHandler (handler : Bool)
  | connect
  | close
  /-- A datagram arrives at a socket. -/
  | read (h : HandleId) (data : List UInt8)
  | destroy
  deriving DecidableEq

namespace UdpClient

def new (self : LinkPtr) (loop : Loop) : UdpClient where
  self := self
  link := UdpLink.new
  pHandler := false
  loop := loop
  sockets := []
  alive := true
  closed := false
  trace := []

/-- `UdpLink::connect`, which opens a socket and forgets the one before. -/
def connect (s : UdpClient) : UdpClient :=
  let (link, loop) := s.link.connect s.loop
  { s with link, loop, sockets := s.loop.nextHandle :: s.sockets }

/-- `UdpLink::close`; the destructor calls it too. -/
def close (s : UdpClient) : UdpClient :=
  { s with
    trace := if s.pHandler then s.trace ++ [.onClose s.self] else s.trace
    closed := s.closed || s.pHandler
    sockets := s.sockets.filter fun h => some h ≠ s.link.pUdp
    link := s.link.close }

/-- `UdpLink::on_alloc`, the kernel's bytes, and `UdpLink::on_read` with `nread > 0`. -/
def on_read (s : UdpClient) (data : List UInt8) : UdpClient :=
  let base := (s.loop.staticBuf.getD StaticBuf.alloc).receive data
  let s := { s with loop := { s.loop with staticBuf := some base } }
  if s.pHandler then
    { s with trace := s.trace ++ [.onData (base.1.read 0 data.length) (some s.self)] }
  else s

def step (s : UdpClient) : UdpClientEvent → Option UdpClient
  | .setHandler handler => if s.alive then some { s with pHandler := handler } else none
  | .connect => if s.alive then some s.connect else none
  | .close => if s.alive then some s.close else none
  | .read h data =>
    if h ∈ s.sockets ∧ data ≠ [] ∧ data.length ≤ STATIC_BUF_SIZE then some (s.on_read data) else none
  | .destroy => if s.alive then some { s.close with alive := false } else none

/-- `close` runs, called by the user or by the destructor, or a datagram arrives. -/
def Calls : UdpClientEvent → Prop
  | .close | .destroy | .read _ _ => True
  | .setHandler _ | .connect => False

/-- The flag says whether `on_close` has been called. -/
def Inv (s : UdpClient) : Prop := s.closed = true ↔ .onClose s.self ∈ s.trace

/-- With a handler, `close` does not run a second time and no datagram arrives after it. -/
def ClosedOnce (s : UdpClient) (e : UdpClientEvent) : Prop :=
  Calls e → s.pHandler = true → s.closed = false

/-- What a step adds to the calls of the handler. -/
theorem step_trace {s s' : UdpClient} {e : UdpClientEvent} (h : s.step e = some s') :
    s'.self = s.self ∧
      ((s'.trace = s.trace ∧ s'.closed = s.closed ∧ ¬(Calls e ∧ s.pHandler = true)) ∨
        ∃ o, s'.trace = s.trace ++ [o] ∧ o.link = some s.self ∧ Calls e ∧ s.pHandler = true ∧
          ((o = .onClose s.self ∧ s'.closed = true) ∨
            ((∃ data, o = .onData data (some s.self)) ∧ s'.closed = s.closed))) := by
  -- `close` calls `on_close` each time it finds a handler; the destructor is another `close`
  have hclose : s.close.self = s.self ∧
      ((s.close.trace = s.trace ∧ s.close.closed = s.closed ∧ s.pHandler = false) ∨
        (s.close.trace = s.trace ++ [.onClose s.self] ∧ s.close.closed = true ∧
          s.pHandler = true)) := by
    unfold close
    cases s.pHandler <;> simp
  cases e with
  | setHandler handler =>
    simp only [step] at h
    split_ifs at h
    cases h
    exact ⟨rfl, Or.inl ⟨rfl, rfl, fun hc => hc.1⟩⟩
  | connect =>
    simp only [step] at h
    split_ifs at h
    cases h
    exact ⟨rfl, Or.inl ⟨rfl, rfl, fun hc => hc.1⟩⟩
  | close =>
    simp only [step] at h
    split_ifs at h
    cases h
    rcases hclose with ⟨hself, ⟨htrace, hclosed, hh⟩ | ⟨htrace, hclosed, hh⟩⟩
    · exact ⟨hself, Or.inl ⟨htrace, hclosed, by simp [hh]⟩⟩
    · exact ⟨hself, Or.inr ⟨_, htrace, rfl, trivial, hh, Or.inl ⟨rfl, hclosed⟩⟩⟩
  | destroy =>
    simp only [step] at h
    split_ifs at h
    cases h
    rcases hclose with ⟨hself, ⟨htrace, hclosed, hh⟩ | ⟨htrace, hclosed, hh⟩⟩
    · exact ⟨hself, Or.inl ⟨htrace, hclosed, by simp [hh]⟩⟩
    · exact ⟨hself, Or.inr ⟨_, htrace, rfl, trivial, hh, Or.inl ⟨rfl, hclosed⟩⟩⟩
  | read handle data =>
    simp only [step] at h
    split_ifs at h
    cases h
    unfold on_read
    dsimp only
    split_ifs with hh
    · exact ⟨rfl, Or.inr ⟨_, rfl, rfl, trivial, hh, Or.inr ⟨⟨_, rfl⟩, rfl⟩⟩⟩
    · exact ⟨rfl, Or.inl ⟨rfl, rfl, fun hc => hh hc.2⟩⟩

theorem inv_step : Invariant step Inv := by
  intro s e s' hs h
  obtain ⟨hself, ⟨htrace, hclosed, -⟩ | ⟨o, htrace, -, -, -, ho⟩⟩ := step_trace h
  · unfold Inv
    rw [hself, htrace, hclosed]
    exact hs
  · unfold Inv
    rw [hself, htrace]
    rcases ho with ⟨rfl, hclosed⟩ | ⟨⟨data, rfl⟩, hclosed⟩
    · simp [hclosed]
    · rw [hclosed]
      simpa [Inv] using hs

theorem inv_new (self : LinkPtr) (loop : Loop) : (new self loop).Inv := by
  simp [Inv, new]

/-- A step keeps `on_close` last if and only if it meets the condition. -/
theorem closesLast_step {s s' : UdpClient} {e : UdpClientEvent} (hs : s.Inv)
    (hlast : ClosesLast s.trace) (h : s.step e = some s') :
    ClosesLast s'.trace ↔ s.ClosedOnce e := by
  obtain ⟨-, ⟨htrace, -, hno⟩ | ⟨o, htrace, hlink, hcalls, hh, -⟩⟩ := step_trace h
  · rw [htrace]
    exact iff_of_true hlast fun hcalls hh => absurd ⟨hcalls, hh⟩ hno
  · rw [htrace, closesLast_append]
    have hclosed : .onClose s.self ∉ s.trace ↔ s.closed = false := by
      rw [← not_congr hs, Bool.not_eq_true]
    constructor
    · intro hafter _ _
      exact hclosed.mp (hafter.2.2 o List.mem_cons_self s.self hlink)
    · intro hcond
      refine ⟨hlast, closesLast_singleton o, fun o' ho' link hlink' => ?_⟩
      have ho : o' = o := List.mem_singleton.mp ho'
      have hself : s.self = link := Option.some_injective _ (hlink.symm.trans (ho ▸ hlink'))
      exact hself ▸ hclosed.mpr (hcond hcalls hh)

end UdpClient

/-! ## `UdpPeerLink` -/

/-- `UdpPeerLink::close` -/
def Peer.close (p : Peer) : List UdpObs := if p.pHandler then [.onClose p.ptr] else []

/-- A server, its peers, and what the user does with them. -/
structure PeerCalls where
  peers : UdpPeers
  /-- The links that the user has closed while they had a handler. -/
  closed : List LinkPtr

/-- A link exists as long as it is in the table, so a call of the user's names it by its key. -/
inductive PeerCallsEvent
  | server (e : UdpEvent)
  | setHandler (node : UInt64) (handler : Bool)
  | close (node : UInt64)
  deriving DecidableEq

namespace PeerCalls

def new (self : LinkPtr) (h : HandleId) : PeerCalls := ⟨UdpPeers.new self h, []⟩

/-- `set_handler` of a link. -/
def setHandler (s : PeerCalls) (node : UInt64) (p : Peer) (handler : Bool) : PeerCalls :=
  { s with
    peers := { s.peers with
      mapLink := s.peers.mapLink.insert node { p with pHandler := handler } } }

/-- The user closes a link. -/
def close (s : PeerCalls) (p : Peer) : PeerCalls where
  peers := { s.peers with trace := s.peers.trace ++ p.close }
  closed := if p.pHandler then p.ptr :: s.closed else s.closed

def step (s : PeerCalls) : PeerCallsEvent → Option PeerCalls
  | .server e => (s.peers.step e).map fun peers => { s with peers }
  | .setHandler node handler => (s.peers.mapLink.find node).map fun p => s.setHandler node p handler
  | .close node => (s.peers.mapLink.find node).map s.close

/-- What a link must not do once the user has closed it with a handler set: be closed again, be
the link of a datagram that reaches the server's handler, or expire with a handler set. -/
def ClosedOnce (s : PeerCalls) : PeerCallsEvent → Prop
  | .close node => ∀ p, s.peers.mapLink.find node = some p → p.pHandler = true → p.ptr ∉ s.closed
  | .server (.read _ ip port _) => s.peers.pHandler = true → ¬(ip = 0 ∨ port = 0) →
      ∀ p, s.peers.mapLink.find (UdpServer.create_node ip port) = some p → p.ptr ∉ s.closed
  | .server (.timer now) => ∀ node p, s.peers.mapLink.find node = some p → p.expired now = true →
      p.pHandler = true → p.ptr ∉ s.closed
  | _ => True

/-- The links called and closed are those of the past, and a link of the table is closed if and
only if the user closed it. -/
structure Inv (s : PeerCalls) : Prop where
  table : s.peers.Inv
  called : ∀ o ∈ s.peers.trace, ∀ link, o.link = some link → link < s.peers.nextLink
  closed_old : ∀ link ∈ s.closed, link < s.peers.nextLink
  closed_iff : ∀ node p, s.peers.mapLink.find node = some p →
    (.onClose p.ptr ∈ s.peers.trace ↔ p.ptr ∈ s.closed)

theorem inv_new (self : LinkPtr) (h : HandleId) : (new self h).Inv where
  table := UdpPeers.inv_new self h
  called o ho := absurd ho List.not_mem_nil
  closed_old link h := absurd h List.not_mem_nil
  closed_iff node p hp := by cases hp

/-- The calls that a step makes keep `on_close` last. -/
def Fits (s : PeerCalls) (calls : List UdpObs) : Prop :=
  ClosesLast calls ∧ ∀ o ∈ calls, ∀ link, o.link = some link → .onClose link ∉ s.peers.trace

theorem fits_nil (s : PeerCalls) : s.Fits [] := ⟨closesLast_nil, by simp⟩

theorem fits_singleton {s : PeerCalls} {o : UdpObs} :
    s.Fits [o] ↔ ∀ link, o.link = some link → .onClose link ∉ s.peers.trace := by
  unfold Fits
  simp [closesLast_singleton]

/-- A step makes some calls, and they keep `on_close` last if and only if the step meets the
condition. -/
structure Steps (s : PeerCalls) (e : PeerCallsEvent) (s' : PeerCalls) (calls : List UdpObs) :
    Prop where
  trace : s'.peers.trace = s.peers.trace ++ calls
  inv : s'.Inv
  fits : s.Fits calls ↔ s.ClosedOnce e

section

variable {s s' : PeerCalls} (hs : s.Inv)
include hs

/-- The link under a key is the only one with its pointer. -/
theorem Inv.same_link {node node' : UInt64} {p p' : Peer}
    (hp : s.peers.mapLink.find node = some p) (hp' : s.peers.mapLink.find node' = some p')
    (hptr : p.ptr = p'.ptr) : node = node' ∧ p = p' := by
  have hnode : node = node' := hs.table.once node node' p.ptr ⟨p, hp, rfl⟩ ⟨p', hp', hptr.symm⟩
  subst hnode
  exact ⟨rfl, Option.some_injective _ (hp.symm.trans hp')⟩

theorem Inv.of_same (hmap : s'.peers.mapLink = s.peers.mapLink)
    (hnext : s'.peers.nextLink = s.peers.nextLink) (htrace : s'.peers.trace = s.peers.trace)
    (hclosed : s'.closed = s.closed) : s'.Inv := by
  refine ⟨hs.table.of_mapLink hmap hnext, ?_, ?_, ?_⟩
  · rw [htrace, hnext]
    exact hs.called
  · rw [hclosed, hnext]
    exact hs.closed_old
  · rw [hmap, htrace, hclosed]
    exact hs.closed_iff

/-- A link that has not been made yet has not been closed. -/
theorem Inv.nextLink_fresh : .onClose s.peers.nextLink ∉ s.peers.trace ∧
    s.peers.nextLink ∉ s.closed :=
  ⟨fun h => (hs.called _ h _ rfl).ne rfl, fun h => (hs.closed_old _ h).ne rfl⟩

/-- The links called are those of the past if the calls of the step are for such links. -/
theorem Inv.called_append {n : LinkPtr} (hle : s.peers.nextLink ≤ n) {calls : List UdpObs}
    (hcalls : ∀ o ∈ calls, ∀ link, o.link = some link → link < n) :
    ∀ o ∈ s.peers.trace ++ calls, ∀ link, o.link = some link → link < n := by
  intro o ho link hlink
  rcases List.mem_append.mp ho with ho | ho
  · exact (hs.called o ho link hlink).trans_le hle
  · exact hcalls o ho link hlink

/-- The link that a datagram is for is the source's old one, or it is new and nothing is known of
it. -/
theorem Inv.closed_iff_added {ip : UInt32} {port : UInt16} {t : UdpPeers} {p : Peer}
    (hadded : s.peers.Added ip port t p) :
    (.onClose p.ptr ∈ s.peers.trace ↔ p.ptr ∈ s.closed) ∧
      ((∀ q, s.peers.mapLink.find (UdpServer.create_node ip port) = some q → q.ptr ∉ s.closed) ↔
        p.ptr ∉ s.closed) := by
  rcases hadded.which with ⟨⟨q, hq, hptr⟩, -⟩ | ⟨hnone, hptr, -⟩
  · rw [← hptr]
    refine ⟨hs.closed_iff _ q hq, fun h => h q hq, fun h q' hq' => ?_⟩
    cases Option.some_injective _ (hq.symm.trans hq')
    exact h
  · rw [hptr]
    refine ⟨iff_of_false hs.nextLink_fresh.1 hs.nextLink_fresh.2, iff_of_true ?_ hs.nextLink_fresh.2⟩
    intro q hq
    rw [hnone] at hq
    cases hq

theorem steps_read {data : List UInt8} {ip : UInt32} {port : UInt16} {now : UInt64}
    {peers : UdpPeers} (hreads : UdpPeers.Reads s.peers data ip port peers) :
    ∃ calls, s.Steps (.server (.read data ip port now)) { s with peers } calls := by
  cases hreads with
  | noHandler hh hmap hnext htrace =>
    refine ⟨[], htrace.trans (List.append_nil _).symm, hs.of_same hmap hnext htrace rfl, ?_⟩
    exact iff_of_true s.fits_nil fun htrue => absurd (hh.symm.trans htrue) Bool.false_ne_true
  | rejected hh hsource hmap hnext htrace =>
    -- `on_data` with no link: the only call that names none
    refine ⟨_, htrace, ⟨hs.table.of_mapLink hmap hnext, ?_, ?_, ?_⟩, ?_⟩
    · rw [htrace]
      exact hs.called_append hnext.ge (by simp [UdpObs.link])
    · show ∀ link ∈ s.closed, link < peers.nextLink
      rw [hnext]
      exact hs.closed_old
    · intro node p hp
      rw [hmap] at hp
      rw [htrace]
      simpa using hs.closed_iff node p hp
    · refine iff_of_true (fits_singleton.mpr fun link hlink => by cases hlink) ?_
      exact fun _ hno => absurd hsource hno
  | @delivers hh hsource t p hadded hmap hnext htrace =>
    -- the link is new or was there before; in both cases it is in the table now
    have htable : peers.Inv := (hadded.inv hs.table).of_mapLink hmap hnext
    have hle : s.peers.nextLink ≤ peers.nextLink := hnext ▸ hadded.next_le
    have hfind : ∀ node, peers.mapLink.find node =
        if node = UdpServer.create_node ip port then some p else s.peers.mapLink.find node := by
      intro node
      rw [hmap, hadded.find]
    have hlt : p.ptr < peers.nextLink :=
      htable.old _ _ ⟨p, (hfind _).trans (if_pos rfl), rfl⟩
    obtain ⟨hclosed, hsourceClosed⟩ := hs.closed_iff_added hadded
    refine ⟨_, htrace, ⟨htable, ?_, fun link h => ?_, fun node q hq => ?_⟩, ?_⟩
    · rw [htrace]
      exact hs.called_append hle (by simpa [UdpObs.link] using hlt)
    · exact (hs.closed_old link h).trans_le hle
    · have hiff : .onClose q.ptr ∈ s.peers.trace ↔ q.ptr ∈ s.closed := by
        rw [hfind] at hq
        split_ifs at hq
        · cases hq
          exact hclosed
        · exact hs.closed_iff node q hq
      rw [htrace]
      simpa using hiff
    · rw [fits_singleton]
      constructor
      · intro h _ _
        exact hsourceClosed.mpr fun hmem => h p.ptr rfl (hclosed.mpr hmem)
      · intro hcond link hlink
        cases hlink
        exact fun hmem => hsourceClosed.mp (hcond hh hsource) (hclosed.mp hmem)

theorem steps_setHandler {node : UInt64} {p : Peer} (hp : s.peers.mapLink.find node = some p)
    (handler : Bool) : s.Steps (.setHandler node handler) (s.setHandler node p handler) [] := by
  have hfind : ∀ node', (s.setHandler node p handler).peers.mapLink.find node' =
      if node' = node then some { p with pHandler := handler } else s.peers.mapLink.find node' :=
    fun node' => s.peers.mapLink.find_insert node node' _
  -- the table has the same links under the same keys
  have hat : ∀ node' link, (s.setHandler node p handler).peers.At node' link ↔
      s.peers.At node' link := by
    intro node' link
    unfold UdpPeers.At
    rw [hfind]
    split_ifs with hnode
    · subst hnode
      simp [hp]
    · exact Iff.rfl
  refine ⟨(List.append_nil _).symm, ⟨⟨fun node' q hq => ?_, ?_, ?_⟩, hs.called, hs.closed_old, ?_⟩,
    iff_of_true s.fits_nil trivial⟩
  · rw [hfind] at hq
    split_ifs at hq with hnode
    · cases hq
      exact (hs.table.keyed node p hp).trans hnode.symm
    · exact hs.table.keyed node' q hq
  · intro node' link h
    exact hs.table.old node' link ((hat node' link).mp h)
  · intro node' node'' link h h'
    exact hs.table.once node' node'' link ((hat node' link).mp h) ((hat node'' link).mp h')
  · intro node' q hq
    rw [hfind] at hq
    split_ifs at hq
    · cases hq
      exact hs.closed_iff node p hp
    · exact hs.closed_iff node' q hq

omit hs in
theorem mem_close {p : Peer} {o : UdpObs} :
    o ∈ p.close ↔ p.pHandler = true ∧ o = .onClose p.ptr := by
  unfold Peer.close
  split_ifs with hh <;> simp [hh]

theorem steps_close {node : UInt64} {p : Peer} (hp : s.peers.mapLink.find node = some p) :
    s.Steps (.close node) (s.close p) p.close := by
  have hclosed : ∀ link, link ∈ (s.close p).closed ↔
      (p.pHandler = true ∧ link = p.ptr) ∨ link ∈ s.closed := by
    intro link
    unfold close
    dsimp only
    split_ifs with hh <;> simp [hh]
  refine ⟨rfl, ⟨hs.table.of_mapLink rfl rfl, hs.called_append le_rfl fun o ho link hlink => ?_,
    fun link h => ?_, fun node' q hq => ?_⟩, ?_⟩
  · cases (mem_close.mp ho).2
    cases hlink
    exact hs.table.old node p.ptr ⟨p, hp, rfl⟩
  · rcases (hclosed link).mp h with ⟨-, rfl⟩ | h
    · exact hs.table.old node p.ptr ⟨p, hp, rfl⟩
    · exact hs.closed_old link h
  · have hiff := hs.closed_iff node' q hq
    show .onClose q.ptr ∈ s.peers.trace ++ p.close ↔ _
    rw [hclosed, List.mem_append, mem_close, hiff]
    simp only [UdpObs.onClose.injEq]
    exact or_comm
  · constructor
    · intro h q hq hh
      cases Option.some_injective _ (hq.symm.trans hp)
      rw [← hs.closed_iff node p hp]
      exact h.2 _ (mem_close.mpr ⟨hh, rfl⟩) p.ptr rfl
    · intro hcond
      -- there is at most one call, and it is the last one
      have hlast : ClosesLast p.close := by
        unfold Peer.close
        split_ifs
        · exact closesLast_singleton _
        · exact closesLast_nil
      refine ⟨hlast, fun o ho link hlink => ?_⟩
      obtain ⟨hh, rfl⟩ := mem_close.mp ho
      cases hlink
      rw [hs.closed_iff node p hp]
      exact hcond p hp hh

/-- The calls of `on_timer`. -/
def expiryCalls (peers : UdpPeers) (now : UInt64) : List UdpObs :=
  (((peers.mapLink.entries.map Prod.snd).filter fun p => p.expired now).filter Peer.pHandler).map
    fun p => .onClose p.ptr

omit hs in
theorem mem_expiryCalls {peers : UdpPeers} {now : UInt64} {o : UdpObs} :
    o ∈ expiryCalls peers now ↔ ∃ node p, peers.mapLink.find node = some p ∧
      p.expired now = true ∧ p.pHandler = true ∧ o = .onClose p.ptr := by
  unfold expiryCalls
  simp only [List.mem_map, List.mem_filter, SortedMap.find_eq_some]
  constructor
  · rintro ⟨p, ⟨⟨⟨⟨node, p'⟩, hmem, rfl⟩, hexp⟩, hh⟩, rfl⟩
    exact ⟨node, p', hmem, hexp, hh, rfl⟩
  · rintro ⟨node, p, hmem, hexp, hh, rfl⟩
    exact ⟨p, ⟨⟨⟨(node, p), hmem, rfl⟩, hexp⟩, hh⟩, rfl⟩

/-- Different links expire with different calls. -/
theorem closesLast_expiryCalls (now : UInt64) : ClosesLast (expiryCalls s.peers now) := by
  have hdistinct : (s.peers.mapLink.entries.map Prod.snd).Pairwise fun p q => p.ptr ≠ q.ptr := by
    refine List.pairwise_map.mpr (s.peers.mapLink.sorted.imp_of_mem ?_)
    rintro ⟨node, p⟩ ⟨node', q⟩ hmem hmem' hlt hptr
    have hsame := hs.same_link (SortedMap.find_eq_some.mpr hmem)
      (SortedMap.find_eq_some.mpr hmem') hptr
    exact hlt.ne hsame.1
  refine List.pairwise_map.mpr (((hdistinct.filter _).filter _).imp ?_)
  rintro p q hne link hclose hlink
  cases hclose
  exact hne (Option.some_injective _ hlink).symm

theorem steps_timer (now : UInt64) :
    s.Steps (.server (.timer now)) { s with peers := s.peers.on_timer now }
      (expiryCalls s.peers now) := by
  have hstep : s.peers.step (.timer now) = some (s.peers.on_timer now) := rfl
  -- a link that is left was there before and has not expired
  have hfind : ∀ node p, (s.peers.on_timer now).mapLink.find node = some p →
      s.peers.mapLink.find node = some p ∧ p.expired now = false := by
    intro node p hp
    have hp' : (s.peers.mapLink.filter fun _ p => !p.expired now).find node = some p := hp
    rw [SortedMap.find_filter, Option.filter_eq_some_iff] at hp'
    exact ⟨hp'.1, by simpa using hp'.2⟩
  refine ⟨rfl, ⟨UdpPeers.inv_step _ _ _ hs.table hstep,
    hs.called_append le_rfl fun o ho link hlink => ?_, hs.closed_old, fun node p hp => ?_⟩, ?_⟩
  · obtain ⟨node, p, hp, -, -, rfl⟩ := mem_expiryCalls.mp ho
    cases hlink
    exact hs.table.old node p.ptr ⟨p, hp, rfl⟩
  · -- a link that stays is none of those that expired
    obtain ⟨hold, hlive⟩ := hfind node p hp
    have hnot : .onClose p.ptr ∉ expiryCalls s.peers now := by
      intro h
      obtain ⟨node', q, hq, hexp, -, hclose⟩ := mem_expiryCalls.mp h
      obtain ⟨-, rfl⟩ := hs.same_link hold hq (UdpObs.onClose.inj hclose)
      exact absurd (hlive.symm.trans hexp) Bool.false_ne_true
    have hiff := hs.closed_iff node p hold
    show .onClose p.ptr ∈ s.peers.trace ++ expiryCalls s.peers now ↔ _
    rw [List.mem_append, or_iff_left hnot]
    exact hiff
  · constructor
    · intro h node p hp hexp hh
      rw [← hs.closed_iff node p hp]
      exact h.2 _ (mem_expiryCalls.mpr ⟨node, p, hp, hexp, hh, rfl⟩) p.ptr rfl
    · intro hcond
      refine ⟨closesLast_expiryCalls hs now, fun o ho link hlink => ?_⟩
      obtain ⟨node, p, hp, hexp, hh, rfl⟩ := mem_expiryCalls.mp ho
      cases hlink
      rw [hs.closed_iff node p hp]
      exact hcond node p hp hexp hh

theorem steps_of_step {e : PeerCallsEvent} (h : s.step e = some s') :
    ∃ calls, s.Steps e s' calls := by
  cases e with
  | server e =>
    obtain ⟨peers, hstep, rfl⟩ := Option.map_eq_some_iff.mp h
    cases e with
    | setHandler handler =>
      cases hstep
      exact ⟨[], (List.append_nil _).symm, hs.of_same rfl rfl rfl rfl,
        iff_of_true s.fits_nil trivial⟩
    | close =>
      cases hstep
      exact ⟨[], (List.append_nil _).symm, hs.of_same rfl rfl rfl rfl,
        iff_of_true s.fits_nil trivial⟩
    | read data ip port now =>
      simp only [UdpPeers.step] at hstep
      split_ifs at hstep with hg
      cases hstep
      exact steps_read hs (UdpPeers.on_read_reads hs.table hg.2.2 ip port now)
    | timer now =>
      cases hstep
      exact ⟨_, steps_timer hs now⟩
  | setHandler node handler =>
    obtain ⟨p, hp, rfl⟩ := Option.map_eq_some_iff.mp h
    exact ⟨[], steps_setHandler hs hp handler⟩
  | close node =>
    obtain ⟨p, hp, rfl⟩ := Option.map_eq_some_iff.mp h
    exact ⟨_, steps_close hs hp⟩

end

theorem inv_step : Invariant step Inv := by
  intro s e s' hs h
  obtain ⟨calls, hsteps⟩ := steps_of_step hs h
  exact hsteps.inv

theorem closesLast_step {s s' : PeerCalls} {e : PeerCallsEvent} (hs : s.Inv)
    (hlast : ClosesLast s.peers.trace) (h : s.step e = some s') :
    ClosesLast s'.peers.trace ↔ s.ClosedOnce e := by
  obtain ⟨calls, hsteps⟩ := steps_of_step hs h
  rw [hsteps.trace, closesLast_append, ← hsteps.fits]
  exact and_iff_right hlast

end PeerCalls

/-! ## Runs -/

/-- **The last call.** In every run of a `UdpLink`, and in every run of a server with its peers,
no call for a link comes after its `on_close` if and only if every step meets the condition of its
system: a link that was closed with a handler set is not closed again, by the user, the destructor
or the timer, and no datagram of it reaches the handler. -/
theorem closesLast_iff (self server : LinkPtr) (loop : Loop) (h : HandleId)
    (linkEvents : List UdpClientEvent) (serverEvents : List PeerCallsEvent) :
    (Always UdpClient.step (fun s => ClosesLast s.trace) (UdpClient.new self loop) linkEvents ↔
      EachStep UdpClient.step UdpClient.ClosedOnce (UdpClient.new self loop) linkEvents) ∧
    (Always PeerCalls.step (fun s => ClosesLast s.peers.trace) (PeerCalls.new server h) serverEvents ↔
      EachStep PeerCalls.step PeerCalls.ClosedOnce (PeerCalls.new server h) serverEvents) := by
  constructor
  · exact always_iff_eachStep UdpClient.inv_step
      (fun _ _ _ hs hlast h => UdpClient.closesLast_step hs hlast h)
      (UdpClient.inv_new self loop) closesLast_nil linkEvents
  · exact always_iff_eachStep PeerCalls.inv_step
      (fun _ _ _ hs hlast h => PeerCalls.closesLast_step hs hlast h)
      (PeerCalls.inv_new server h) closesLast_nil serverEvents

/-- A `UdpLink` is closed and then deleted: two `on_close`. A peer is closed, and its source sends
again: `on_data` after `on_close`. -/
theorem not_closesLast_closedLinks :
    ¬ Always UdpClient.step (fun s => ClosesLast s.trace) (UdpClient.new 0 Loop.new)
        [.setHandler true, .connect, .close, .destroy] ∧
      ¬ Always PeerCalls.step (fun s => ClosesLast s.peers.trace) (PeerCalls.new 0 0)
        [.server (.setHandler true), .server (.read [1] 0x0100007f 0x3930 0),
          .close (UdpServer.create_node 0x0100007f 0x3930),
          .server (.read [2] 0x0100007f 0x3930 0)] := by
  constructor
  · intro h
    have hlast := h.last (show exec UdpClient.step _ _ = some _ from rfl)
    have htrace : ClosesLast [.onClose 0, .onClose 0] := hlast
    simp [ClosesLast, UdpObs.link] at htrace
  · intro h
    have hlast := h.last (show exec PeerCalls.step _ _ = some _ from rfl)
    have htrace : ClosesLast [.onData (cells [1]) (some 0), .onClose 0,
        .onData (cells [2]) (some 0)] := hlast
    simp [ClosesLast, UdpObs.link] at htrace

end SomoNet
