import SomoNet.InFlight
import SomoNet.Lib.Run
import SomoNet.Lib.SortedMap

/-!
# The peers of a `UdpServer`

A `UdpServer` makes a `UdpPeerLink` for every source that it receives a datagram from, keeps
it in `m_mapLink` under the source's address and port, and deletes it when a minute has gone
by without another datagram. The link answers to the address it was made for.

The handler's own calls are left out, but for `send` on a link. A callback with a negative
`nread` or without data is only logged.
-/

namespace SomoNet

open Run

/-- `UDP_EXPIRE` -/
def UDP_EXPIRE : UInt64 := 1000 * 60

/-- A `UdpPeerLink` object of a server. -/
structure Peer where
  ptr : LinkPtr
  link : UdpPeerLink
  pHandler : Bool
  stamp : UInt64

/-- A call of the handler. -/
inductive UdpObs
  | onData (data : List Cell) (link : Option LinkPtr)
  | onClose (link : LinkPtr)
  deriving DecidableEq

/-- A `UdpServer` with its peers. -/
structure UdpPeers where
  self : LinkPtr
  server : UdpServer
  pHandler : Bool
  mapLink : SortedMap UInt64 Peer
  /-- `UdpServer::s_pStaticBuf` -/
  staticBuf : Option StaticBuf
  /-- The address of the next `UdpPeerLink`. -/
  nextLink : LinkPtr
  trace : List UdpObs

inductive UdpEvent
  | setHandler (handler : Bool)
  | read (data : List UInt8) (ip : UInt32) (port : UInt16) (now : UInt64)
  | timer (now : UInt64)
  | close
  deriving DecidableEq

/-- `UdpServer::create_node` -/
def UdpServer.create_node (ip : UInt32) (port : UInt16) : UInt64 :=
  (ip.toUInt64 <<< 32) + port.toUInt64

open UdpServer (create_node)

/-- The stamp of the peer is a minute old. -/
def Peer.expired (p : Peer) (now : UInt64) : Bool := now ≥ p.stamp + UDP_EXPIRE

namespace UdpPeers

/-- `UdpServer::UdpServer`, with its socket. -/
def new (self : LinkPtr) (h : HandleId) : UdpPeers where
  self := self
  server := ⟨some h⟩
  pHandler := false
  mapLink := .empty
  staticBuf := none
  nextLink := 0
  trace := []

/-- `UdpServer::add_node`, at the time `now`. -/
def add_node (s : UdpPeers) (ip : UInt32) (port : UInt16) (now : UInt64) : UdpPeers × Option Peer :=
  if ip = 0 ∨ port = 0 then (s, none)
  else
    let node := create_node ip port
    match s.mapLink.find node with
    | some p =>
      let p := { p with stamp := now }
      ({ s with mapLink := s.mapLink.insert node p }, some p)
    | none =>
      let p : Peer := ⟨s.nextLink, ⟨s.self, ip, port⟩, s.pHandler, now⟩
      ({ s with mapLink := s.mapLink.insert node p, nextLink := s.nextLink + 1 }, some p)

/-- `UdpServer::on_alloc`, the kernel's bytes, and `UdpServer::on_read` with `nread > 0`. -/
def on_read (s : UdpPeers) (data : List UInt8) (ip : UInt32) (port : UInt16) (now : UInt64) :
    UdpPeers :=
  let base := (s.staticBuf.getD StaticBuf.alloc).receive data
  let s := { s with staticBuf := some base }
  if s.pHandler then
    let (s, link) := s.add_node ip port now
    { s with trace := s.trace ++ [.onData (base.1.read 0 data.length) (link.map Peer.ptr)] }
  else s

/-- `UdpServer::on_timer`: the links that have expired are deleted, which calls `on_close`. -/
def on_timer (s : UdpPeers) (now : UInt64) : UdpPeers :=
  let expires := (s.mapLink.entries.map Prod.snd).filter fun p => p.expired now
  { s with
    mapLink := s.mapLink.filter fun _ p => !p.expired now
    trace := s.trace ++ (expires.filter Peer.pHandler).map fun p => .onClose p.ptr }

def step (s : UdpPeers) : UdpEvent → Option UdpPeers
  | .setHandler handler => some { s with pHandler := handler }
  | .read data ip port now =>
    if s.server.pUdp.isSome ∧ data ≠ [] ∧ data.length ≤ STATIC_BUF_SIZE then
      some (s.on_read data ip port now)
    else none
  | .timer now => some (s.on_timer now)
  | .close => some { s with server := s.server.close }

end UdpPeers

/-! ## Keys -/

theorem toNat_create_node (ip : UInt32) (port : UInt16) :
    (create_node ip port).toNat = ip.toNat * 2 ^ 32 + port.toNat := by
  have hip := ip.toNat_lt
  have hport := port.toNat_lt
  have hshift : (ip.toUInt64 <<< 32).toNat = ip.toNat * 2 ^ 32 := by
    rw [UInt64.toNat_shiftLeft, UInt32.toNat_toUInt64, Nat.shiftLeft_eq]
    apply Nat.mod_eq_of_lt
    show ip.toNat * 2 ^ 32 < 2 ^ 64
    omega
  rw [UdpServer.create_node, UInt64.toNat_add, hshift, UInt16.toNat_toUInt64]
  apply Nat.mod_eq_of_lt
  omega

/-- Different sources have different keys. -/
theorem create_node_inj {ip ip' : UInt32} {port port' : UInt16}
    (h : create_node ip port = create_node ip' port') : ip = ip' ∧ port = port' := by
  have hport := port.toNat_lt
  have hport' := port'.toNat_lt
  have hnat := congrArg UInt64.toNat h
  rw [toNat_create_node, toNat_create_node] at hnat
  exact ⟨UInt32.toNat_inj.mp (by omega), UInt16.toNat_inj.mp (by omega)⟩

namespace UdpPeers

/-! ## The table -/

/-- The link `ptr` is in the table, under the key `k`. -/
def At (s : UdpPeers) (k : UInt64) (ptr : LinkPtr) : Prop :=
  ∃ p, s.mapLink.find k = some p ∧ p.ptr = ptr

structure Inv (s : UdpPeers) : Prop where
  keyed : ∀ k p, s.mapLink.find k = some p → create_node p.link.nIP p.link.nPort = k
  old : ∀ k ptr, s.At k ptr → ptr < s.nextLink
  once : ∀ k k' ptr, s.At k ptr → s.At k' ptr → k = k'

/-- What `add_node` does for a source that it accepts: the source's link is in the table
afterwards, the one that was there or a new one, and the other links stay. -/
structure Added (s : UdpPeers) (ip : UInt32) (port : UInt16) (s' : UdpPeers) (p : Peer) : Prop where
  find : ∀ k, s'.mapLink.find k = if k = create_node ip port then some p else s.mapLink.find k
  source : p.link.nIP = ip ∧ p.link.nPort = port
  which : s.At (create_node ip port) p.ptr ∧ s'.nextLink = s.nextLink ∨
    s.mapLink.find (create_node ip port) = none ∧ p.ptr = s.nextLink ∧ s'.nextLink = s.nextLink + 1
  trace : s'.trace = s.trace

theorem add_node_rejected (s : UdpPeers) {ip : UInt32} {port : UInt16} (now : UInt64)
    (h : ip = 0 ∨ port = 0) : s.add_node ip port now = (s, none) := if_pos h

theorem add_node_added {s : UdpPeers} (hs : s.Inv) {ip : UInt32} {port : UInt16} (now : UInt64)
    (h : ¬(ip = 0 ∨ port = 0)) :
    ∃ s' p, s.add_node ip port now = (s', some p) ∧ s.Added ip port s' p := by
  unfold add_node
  rw [if_neg h]
  dsimp only
  cases hfind : s.mapLink.find (create_node ip port) with
  | some p =>
    have hkey := hs.keyed _ p hfind
    refine ⟨_, _, rfl, fun k => s.mapLink.find_insert _ k _, create_node_inj hkey, ?_, rfl⟩
    exact Or.inl ⟨⟨p, hfind, rfl⟩, rfl⟩
  | none =>
    exact ⟨_, _, rfl, fun k => s.mapLink.find_insert _ k _, ⟨rfl, rfl⟩,
      Or.inr ⟨hfind, rfl, rfl⟩, rfl⟩

theorem Added.at_iff {s s' : UdpPeers} {ip : UInt32} {port : UInt16} {p : Peer}
    (h : s.Added ip port s' p) (k : UInt64) (ptr : LinkPtr) :
    s'.At k ptr ↔ if k = create_node ip port then p.ptr = ptr else s.At k ptr := by
  unfold At
  rw [h.find]
  split <;> simp

/-- Links stay where they are. -/
theorem Added.mono {s s' : UdpPeers} {ip : UInt32} {port : UInt16} {p : Peer}
    (h : s.Added ip port s' p) {k : UInt64} {ptr : LinkPtr} (hat : s.At k ptr) : s'.At k ptr := by
  rw [h.at_iff]
  split
  next hk =>
    subst hk
    rcases h.which with ⟨⟨q, hq, hptr⟩, -⟩ | ⟨hnone, -⟩
    · obtain ⟨q', hq', rfl⟩ := hat
      rw [hq] at hq'
      cases hq'
      exact hptr.symm
    · obtain ⟨q', hq', -⟩ := hat
      rw [hnone] at hq'
      cases hq'
  next => exact hat

/-- A link in the table was there, or it is the source's new one. -/
theorem Added.old_or_new {s s' : UdpPeers} {ip : UInt32} {port : UInt16} {p : Peer}
    (h : s.Added ip port s' p) {k : UInt64} {ptr : LinkPtr} (hat : s'.At k ptr) :
    s.At k ptr ∨ k = create_node ip port ∧ ptr = s.nextLink ∧ s'.nextLink = s.nextLink + 1 := by
  rw [h.at_iff] at hat
  split at hat
  next hk =>
    rcases h.which with ⟨hold, -⟩ | ⟨-, hptr, hnext⟩
    · rw [hat] at hold
      exact Or.inl (hk ▸ hold)
    · exact Or.inr ⟨hk, hat.symm.trans hptr, hnext⟩
  next => exact Or.inl hat

theorem Added.next_le {s s' : UdpPeers} {ip : UInt32} {port : UInt16} {p : Peer}
    (h : s.Added ip port s' p) : s.nextLink ≤ s'.nextLink := by
  rcases h.which with ⟨-, hnext⟩ | ⟨-, -, hnext⟩
  · rw [hnext]
  · rw [hnext]
    exact Nat.le_succ _

theorem Added.inv {s s' : UdpPeers} {ip : UInt32} {port : UInt16} {p : Peer} (hs : s.Inv)
    (h : s.Added ip port s' p) : s'.Inv where
  keyed k q hq := by
    rw [h.find] at hq
    split at hq
    next hk =>
      cases hq
      rw [h.source.1, h.source.2, hk]
    next => exact hs.keyed k q hq
  old k ptr hat := by
    rcases h.old_or_new hat with hold | ⟨-, rfl, hnext⟩
    · exact (hs.old k ptr hold).trans_le h.next_le
    · rw [hnext]
      exact Nat.lt_succ_self _
  once k k' ptr hat hat' := by
    rcases h.old_or_new hat with hold | ⟨rfl, rfl, -⟩
    · rcases h.old_or_new hat' with hold' | ⟨-, rfl, -⟩
      · exact hs.once k k' ptr hold hold'
      · exact absurd (hs.old k _ hold) (lt_irrefl _)
    · rcases h.old_or_new hat' with hold' | ⟨rfl, -, -⟩
      · exact absurd (hs.old k' _ hold') (lt_irrefl _)
      · rfl

/-- The two states have the same table. -/
theorem Inv.of_mapLink {s s' : UdpPeers} (hs : s.Inv) (hmap : s'.mapLink = s.mapLink)
    (hnext : s'.nextLink = s.nextLink) : s'.Inv := by
  constructor
  · rw [hmap]
    exact hs.keyed
  · unfold At
    rw [hmap, hnext]
    exact hs.old
  · unfold At
    rw [hmap]
    exact hs.once

/-! ## Reading -/

/-- What `on_read` does: without a handler nothing but the receiving, with a handler one call
with the datagram, for the source's link or, where `add_node` rejects the source, for none. -/
inductive Reads (s : UdpPeers) (data : List UInt8) (ip : UInt32) (port : UInt16) (s' : UdpPeers) :
    Prop
  | noHandler (hh : s.pHandler = false) (hmap : s'.mapLink = s.mapLink)
      (hnext : s'.nextLink = s.nextLink) (htrace : s'.trace = s.trace)
  | rejected (hh : s.pHandler = true) (hsource : ip = 0 ∨ port = 0) (hmap : s'.mapLink = s.mapLink)
      (hnext : s'.nextLink = s.nextLink) (htrace : s'.trace = s.trace ++ [.onData (cells data) none])
  | delivers (hh : s.pHandler = true) (hsource : ¬(ip = 0 ∨ port = 0)) {t : UdpPeers} {p : Peer}
      (hadded : s.Added ip port t p) (hmap : s'.mapLink = t.mapLink) (hnext : s'.nextLink = t.nextLink)
      (htrace : s'.trace = s.trace ++ [.onData (cells data) (some p.ptr)])

theorem on_read_reads {s : UdpPeers} (hs : s.Inv) {data : List UInt8}
    (hlen : data.length ≤ STATIC_BUF_SIZE) (ip : UInt32) (port : UInt16) (now : UInt64) :
    Reads s data ip port (s.on_read data ip port now) := by
  have hread := StaticBuf.read_receive (s.staticBuf.getD StaticBuf.alloc) hlen
  have hs' : Inv { s with staticBuf := some ((s.staticBuf.getD StaticBuf.alloc).receive data) } :=
    hs.of_mapLink rfl rfl
  unfold on_read
  dsimp only
  by_cases hh : s.pHandler = true
  · rw [if_pos hh, hread]
    by_cases hsource : ip = 0 ∨ port = 0
    · rw [add_node_rejected _ now hsource]
      exact .rejected hh hsource rfl rfl rfl
    · obtain ⟨t, p, hadd, hadded⟩ := add_node_added hs' now hsource
      rw [hadd]
      refine .delivers hh hsource (t := t) ⟨hadded.find, hadded.source, hadded.which, hadded.trace⟩ rfl rfl ?_
      show t.trace ++ _ = _
      rw [hadded.trace]
      rfl
  · rw [if_neg hh]
    exact .noHandler (by simpa using hh) rfl rfl rfl

/-! ## Steps -/

/-- The event removes the link from the table. -/
def Expires (s : UdpPeers) (ptr : LinkPtr) : UdpEvent → Prop
  | .timer now => ∃ k p, s.mapLink.find k = some p ∧ p.ptr = ptr ∧ p.expired now = true
  | _ => False

/-- What a step does to the table: it stays as it is, a datagram arrives, or the expired links
go. -/
inductive TableMove (s : UdpPeers) (e : UdpEvent) (s' : UdpPeers) : Prop
  | keeps (he : e = .close ∨ ∃ handler, e = .setHandler handler)
      (hmap : s'.mapLink = s.mapLink) (hnext : s'.nextLink = s.nextLink)
  | reads {data : List UInt8} {ip : UInt32} {port : UInt16} {now : UInt64}
      (he : e = .read data ip port now) (hreads : Reads s data ip port s')
  | expires {now : UInt64} (he : e = .timer now)
      (hmap : s'.mapLink = s.mapLink.filter fun _ p => !p.expired now)
      (hnext : s'.nextLink = s.nextLink)

theorem step_table {s s' : UdpPeers} {e : UdpEvent} (hs : s.Inv) (h : s.step e = some s') :
    TableMove s e s' := by
  cases e with
  | setHandler handler =>
    cases h
    exact .keeps (Or.inr ⟨handler, rfl⟩) rfl rfl
  | read data ip port now =>
    simp only [step] at h
    split_ifs at h with hg
    cases h
    exact .reads rfl (on_read_reads hs hg.2.2 ip port now)
  | timer now =>
    cases h
    exact .expires rfl rfl rfl
  | close =>
    cases h
    exact .keeps (Or.inl rfl) rfl rfl

theorem at_filter {s s' : UdpPeers} {now : UInt64}
    (hmap : s'.mapLink = s.mapLink.filter fun _ p => !p.expired now) (k : UInt64) (ptr : LinkPtr) :
    s'.At k ptr ↔ ∃ p, s.mapLink.find k = some p ∧ p.ptr = ptr ∧ p.expired now = false := by
  unfold At
  rw [hmap]
  simp only [SortedMap.find_filter, Option.filter_eq_some_iff]
  constructor
  · rintro ⟨p, ⟨hp, hlive⟩, hptr⟩
    exact ⟨p, hp, hptr, by simpa using hlive⟩
  · rintro ⟨p, hp, hptr, hlive⟩
    exact ⟨p, ⟨hp, by simpa using hlive⟩, hptr⟩

theorem inv_step : Invariant step Inv := by
  intro s e s' hs h
  cases step_table hs h with
  | keeps _ hmap hnext => exact hs.of_mapLink hmap hnext
  | reads _ hreads =>
    cases hreads with
    | noHandler _ hmap hnext _ => exact hs.of_mapLink hmap hnext
    | rejected _ _ hmap hnext _ => exact hs.of_mapLink hmap hnext
    | delivers _ _ hadded hmap hnext _ => exact (hadded.inv hs).of_mapLink hmap hnext
  | expires _ hmap hnext =>
    have hsub : ∀ k ptr, s'.At k ptr → s.At k ptr := by
      intro k ptr hat
      obtain ⟨p, hp, hptr, -⟩ := (at_filter hmap k ptr).mp hat
      exact ⟨p, hp, hptr⟩
    refine ⟨fun k p hp => ?_, fun k ptr hat => ?_, fun k k' ptr hat hat' => ?_⟩
    · rw [hmap, SortedMap.find_filter, Option.filter_eq_some_iff] at hp
      exact hs.keyed k p hp.1
    · rw [hnext]
      exact hs.old k ptr (hsub k ptr hat)
    · exact hs.once k k' ptr (hsub k ptr hat) (hsub k' ptr hat')

/-- **A link stays in the table** until it expires. -/
theorem at_step {s s' : UdpPeers} {e : UdpEvent} (hs : s.Inv) {k : UInt64} {ptr : LinkPtr}
    (hat : s.At k ptr) (h : s.step e = some s') : s'.At k ptr ↔ ¬s.Expires ptr e := by
  have hsame : s'.mapLink = s.mapLink → s'.At k ptr := by
    intro hmap
    unfold At
    rw [hmap]
    exact hat
  cases step_table hs h with
  | keeps he hmap _ =>
    refine ⟨fun _ => ?_, fun _ => hsame hmap⟩
    rcases he with rfl | ⟨handler, rfl⟩ <;> exact not_false
  | reads he hreads =>
    refine ⟨fun _ => by rw [he]; exact not_false, fun _ => ?_⟩
    cases hreads with
    | noHandler _ hmap _ _ => exact hsame hmap
    | rejected _ _ hmap _ _ => exact hsame hmap
    | delivers _ _ hadded hmap _ _ =>
      -- a link that is there stays there when another one is added
      have hnew := hadded.mono hat
      unfold At at hnew ⊢
      rw [hmap]
      exact hnew
  | @expires now he hmap _ =>
    subst he
    -- `on_timer` keeps exactly the entries that have not expired
    rw [at_filter hmap]
    obtain ⟨p, hp, hptr⟩ := hat
    constructor
    · rintro ⟨q, hq, -, hlive⟩ ⟨k', p', hp', hptr', hexp⟩
      have hk := hs.once k' k ptr ⟨p', hp', hptr'⟩ ⟨p, hp, hptr⟩
      subst hk
      rw [hq] at hp'
      cases hp'
      rw [hlive] at hexp
      cases hexp
    · intro hno
      refine ⟨p, hp, hptr, ?_⟩
      by_contra hexp
      exact hno ⟨k, p, hp, hptr, by simpa using hexp⟩

theorem next_step {s s' : UdpPeers} {e : UdpEvent} (hs : s.Inv) (h : s.step e = some s') :
    s.nextLink ≤ s'.nextLink := by
  cases step_table hs h with
  | keeps _ _ hnext => rw [hnext]
  | reads _ hreads =>
    cases hreads with
    | noHandler _ _ hnext _ => rw [hnext]
    | rejected _ _ _ hnext _ => rw [hnext]
    | delivers _ _ hadded _ hnext _ =>
      rw [hnext]
      exact hadded.next_le
  | expires _ _ hnext => rw [hnext]

/-- A link that is in the table after a step was there before, or it is new. -/
theorem at_back {s s' : UdpPeers} {e : UdpEvent} (hs : s.Inv) (h : s.step e = some s')
    {k : UInt64} {ptr : LinkPtr} (hat : s'.At k ptr) : s.At k ptr ∨ s.nextLink ≤ ptr := by
  have hsame : s'.mapLink = s.mapLink → s.At k ptr := by
    intro hmap
    unfold At at hat ⊢
    rw [hmap] at hat
    exact hat
  cases step_table hs h with
  | keeps _ hmap _ => exact Or.inl (hsame hmap)
  | reads _ hreads =>
    cases hreads with
    | noHandler _ hmap _ _ => exact Or.inl (hsame hmap)
    | rejected _ _ hmap _ _ => exact Or.inl (hsame hmap)
    | delivers _ _ hadded hmap _ _ =>
      unfold At at hat
      rw [hmap] at hat
      rcases hadded.old_or_new hat with hold | ⟨-, hptr, -⟩
      · exact Or.inl hold
      · exact Or.inr hptr.ge
  | expires _ hmap _ =>
    obtain ⟨p, hp, hptr, -⟩ := (at_filter hmap k ptr).mp hat
    exact Or.inl ⟨p, hp, hptr⟩

/-- A link that has been made and is not in the table. -/
def Gone (s : UdpPeers) (ptr : LinkPtr) : Prop := ptr < s.nextLink ∧ ∀ k, ¬s.At k ptr

/-- It does not come back. -/
theorem gone_exec {s s' : UdpPeers} {es : List UdpEvent} (hs : s.Inv) {ptr : LinkPtr}
    (hgone : s.Gone ptr) (h : exec step s es = some s') : s'.Gone ptr := by
  have hinv : Invariant step fun s => s.Inv ∧ s.Gone ptr := by
    intro s e s' ⟨hs, hlt, hnot⟩ h
    refine ⟨inv_step s e s' hs h, hlt.trans_le (next_step hs h), fun k hat => ?_⟩
    rcases at_back hs h hat with hold | hnew
    · exact hnot k hold
    · exact absurd hlt hnew.not_gt
  exact (hinv.exec ⟨hs, hgone⟩ h).2

theorem at_or_gone_step {s s' : UdpPeers} {e : UdpEvent} (hs : s.Inv) {k : UInt64} {ptr : LinkPtr}
    (hat : s.At k ptr) (h : s.step e = some s') : s'.At k ptr ∨ s'.Gone ptr := by
  by_cases hstill : s'.At k ptr
  · exact Or.inl hstill
  · have hlt := hs.old k ptr hat
    refine Or.inr ⟨hlt.trans_le (next_step hs h), fun k' hat' => ?_⟩
    rcases at_back hs h hat' with hold | hnew
    · exact hstill (hs.once k' k ptr hold hat ▸ hat')
    · exact absurd hlt hnew.not_gt

/-- A link of the table stays under its key or leaves for good. -/
theorem at_or_gone_exec {s s' : UdpPeers} {es : List UdpEvent} (hs : s.Inv) {k : UInt64}
    {ptr : LinkPtr} (hat : s.At k ptr) (h : exec step s es = some s') :
    s'.At k ptr ∨ s'.Gone ptr := by
  induction es generalizing s with
  | nil =>
    cases h
    exact Or.inl hat
  | cons e es ih =>
    obtain ⟨t, ht, htail⟩ := exec_cons_some.mp h
    have htinv := inv_step s e t hs ht
    rcases at_or_gone_step hs hat ht with hstill | hgone
    · exact ih htinv hstill htail
    · exact Or.inr (gone_exec htinv hgone htail)

/-- **Over a run**: a link is in the table at the end if and only if it has not expired in
between. -/
theorem at_exec {s s' : UdpPeers} {es : List UdpEvent} (hs : s.Inv) {k : UInt64} {ptr : LinkPtr}
    (hat : s.At k ptr) (h : exec step s es = some s') :
    s'.At k ptr ↔ EachStep step (fun s e => ¬s.Expires ptr e) s es := by
  induction es generalizing s with
  | nil =>
    cases h
    exact ⟨fun _ => trivial, fun _ => hat⟩
  | cons e es ih =>
    obtain ⟨t, ht, htail⟩ := exec_cons_some.mp h
    have hstep := at_step hs hat ht
    have htinv := inv_step s e t hs ht
    constructor
    · intro hend u hu
      obtain rfl : t = u := Option.some.inj (ht.symm.trans hu)
      rcases at_or_gone_step hs hat ht with hstill | hgone
      · exact ⟨hstep.mp hstill, (ih htinv hstill htail).mp hend⟩
      · exact absurd hend ((gone_exec htinv hgone htail).2 k)
    · intro hall
      obtain ⟨hno, hrest⟩ := hall t ht
      exact (ih htinv (hstep.mpr hno) htail).mpr hrest

theorem inv_new (self : LinkPtr) (h : HandleId) : Inv (new self h) where
  keyed k p hp := by cases hp
  old k ptr hat := by
    obtain ⟨p, hp, -⟩ := hat
    cases hp
  once k k' ptr hat := by
    obtain ⟨p, hp, -⟩ := hat
    cases hp

/-! ## What the handler is given -/

/-- The handler is called once, with the datagram and with a link of the server that has the
datagram's source for its address, or it is not called. -/
def Delivered (s : UdpPeers) (data : List UInt8) (ip : UInt32) (port : UInt16) (s' : UdpPeers) :
    Prop :=
  s'.trace = s.trace ∨ ∃ k p, s'.mapLink.find k = some p ∧ p.link.nIP = ip ∧ p.link.nPort = port ∧
    s'.trace = s.trace ++ [.onData (cells data) (some p.ptr)]

/-- **Datagrams and links.** In every reachable state with a handler, a datagram reaches the
handler with a link to its source, or not at all, if and only if neither the address nor the
port of the source is 0. -/
theorem delivered_iff {self : LinkPtr} {h : HandleId} {s s' : UdpPeers}
    (hs : Reaches step (new self h) s) (hh : s.pHandler = true) {data : List UInt8} {ip : UInt32}
    {port : UInt16} {now : UInt64} (hread : s.step (.read data ip port now) = some s') :
    Delivered s data ip port s' ↔ ip ≠ 0 ∧ port ≠ 0 := by
  have hinv : s.Inv := inv_step.reaches (inv_new self h) hs
  cases step_table hinv hread with
  | keeps he => rcases he with he | ⟨_, he⟩ <;> cases he
  | expires he => cases he
  | reads he hreads =>
    cases he
    cases hreads with
    | noHandler hno =>
      rw [hh] at hno
      cases hno
    | rejected _ hsource hmap _ htrace =>
      refine ⟨fun hdel => ?_, fun ⟨hip, hport⟩ => ?_⟩
      · rcases hdel with hsame | ⟨k, p, -, -, -, hcall⟩
        · rw [htrace] at hsame
          simp at hsame
        · rw [htrace] at hcall
          simp at hcall
      · exact (hsource.elim hip hport).elim
    | delivers _ hsource hadded hmap _ htrace =>
      refine ⟨fun _ => not_or.mp hsource, fun _ => Or.inr ?_⟩
      refine ⟨create_node ip port, _, ?_, hadded.source.1, hadded.source.2, htrace⟩
      rw [hmap, hadded.find, if_pos rfl]

/-- A server with a handler, before its first datagram. -/
def listening : UdpPeers := { new 0 0 with pHandler := true }

theorem delivered_iff_loopback :
    Delivered listening [1] 0x0100007f 0x3930 (listening.on_read [1] 0x0100007f 0x3930 0) ↔
      (0x0100007f : UInt32) ≠ 0 ∧ (0x3930 : UInt16) ≠ 0 := by
  have hs : Reaches step (new 0 0) listening := ⟨[.setHandler true], rfl⟩
  have hread : listening.step (.read [1] 0x0100007f 0x3930 0) =
      some (listening.on_read [1] 0x0100007f 0x3930 0) := rfl
  exact delivered_iff hs rfl hread

/-- A datagram from port 0 is delivered with no link. -/
theorem not_delivered_port_zero :
    Reaches step (new 0 0) listening ∧ listening.pHandler = true ∧
      ∃ s', listening.step (.read [1] 0x0100007f 0 0) = some s' ∧
        s'.trace = [.onData (cells [1]) none] ∧ ¬Delivered listening [1] 0x0100007f 0 s' := by
  have htrace : (listening.on_read [1] 0x0100007f 0 0).trace = [.onData (cells [1]) none] := by
    decide +kernel
  refine ⟨⟨[.setHandler true], rfl⟩, rfl, _, rfl, htrace, fun h => ?_⟩
  rcases h with hsame | ⟨k, p, -, -, -, hcall⟩
  · rw [htrace] at hsame
    cases hsame
  · rw [htrace] at hcall
    cases hcall

/-! ## One link for each source -/

/-- The datagram arrives and the handler is called for it with the link. -/
def Delivers (s : UdpPeers) (data : List UInt8) (ip : UInt32) (port : UInt16) (now : UInt64)
    (ptr : LinkPtr) (s' : UdpPeers) : Prop :=
  s.step (.read data ip port now) = some s' ∧
    s'.trace = s.trace ++ [.onData (cells data) (some ptr)]

/-- The link that a datagram is delivered with is the one in the table for its source. -/
theorem Delivers.at_source {s s' : UdpPeers} (hs : s.Inv) {data : List UInt8} {ip : UInt32}
    {port : UInt16} {now : UInt64} {ptr : LinkPtr} (h : s.Delivers data ip port now ptr s') :
    s'.At (create_node ip port) ptr := by
  obtain ⟨hstep, hcall⟩ := h
  cases step_table hs hstep with
  | keeps he => rcases he with he | ⟨_, he⟩ <;> cases he
  | expires he => cases he
  | reads he hreads =>
    cases he
    cases hreads with
    | noHandler _ _ _ htrace =>
      rw [htrace] at hcall
      simp at hcall
    | rejected _ _ _ _ htrace =>
      rw [htrace] at hcall
      simp at hcall
    | @delivers _ _ t p hadded hmap _ htrace =>
      rw [htrace] at hcall
      have hptr : p.ptr = ptr := by simpa using hcall
      refine ⟨p, ?_, hptr⟩
      rw [hmap, hadded.find, if_pos rfl]

/-- The link that a delivery leaves in the table has the datagram's source for its address, for
as long as it is in the table. -/
theorem Delivers.same_key {s t s' : UdpPeers} (hs : s.Inv) {data : List UInt8} {ip : UInt32}
    {port : UInt16} {now : UInt64} {ptr : LinkPtr} (h : s.Delivers data ip port now ptr t)
    {es : List UdpEvent} (hes : exec step t es = some s') {k : UInt64} (hat : s'.At k ptr) :
    k = create_node ip port := by
  have htinv : t.Inv := inv_step _ _ _ hs h.1
  rcases at_or_gone_exec htinv (h.at_source hs) hes with hstill | hgone
  · exact (inv_step.exec htinv hes).once _ _ ptr hat hstill
  · exact absurd hat (hgone.2 k)

/-- **Demultiplexing**: of two datagrams that are delivered one after the other, both have the
same link if and only if they are from the same source and the first one's link has not expired
in between. -/
theorem same_link_iff {s₁ t₁ s₂ t₂ : UdpPeers} (hs : s₁.Inv) {d₁ d₂ : List UInt8}
    {ip₁ ip₂ : UInt32} {port₁ port₂ : UInt16} {now₁ now₂ : UInt64} {p₁ p₂ : LinkPtr}
    (h₁ : s₁.Delivers d₁ ip₁ port₁ now₁ p₁ t₁) {es : List UdpEvent}
    (hes : exec step t₁ es = some s₂) (h₂ : s₂.Delivers d₂ ip₂ port₂ now₂ p₂ t₂) :
    p₁ = p₂ ↔
      (ip₁ = ip₂ ∧ port₁ = port₂) ∧ EachStep step (fun s e => ¬s.Expires p₁ e) t₁ es := by
  have ht₁ : t₁.Inv := inv_step _ _ _ hs h₁.1
  have hs₂ : s₂.Inv := inv_step.exec ht₁ hes
  have ht₂ : t₂.Inv := inv_step _ _ _ hs₂ h₂.1
  have hat₁ := h₁.at_source hs
  have hat₂ := h₂.at_source hs₂
  -- a datagram does not remove a link
  have hread : ∀ k ptr, s₂.At k ptr → t₂.At k ptr := fun k ptr hat =>
    (at_step hs₂ hat h₂.1).mpr not_false
  constructor
  · rintro rfl
    rcases at_or_gone_exec ht₁ hat₁ hes with hstill | hgone
    · have hkey := ht₂.once _ _ p₁ (hread _ _ hstill) hat₂
      exact ⟨create_node_inj hkey, (at_exec ht₁ hat₁ hes).mp hstill⟩
    · -- the link has gone, and the second datagram cannot have brought it back
      have hlater : exec step s₂ [.read d₂ ip₂ port₂ now₂] = some t₂ := by
        rw [exec_cons, h₂.1]
        rfl
      exact absurd hat₂ ((gone_exec hs₂ hgone hlater).2 _)
  · rintro ⟨⟨rfl, rfl⟩, hno⟩
    have hstill := hread _ _ ((at_exec ht₁ hat₁ hes).mpr hno)
    obtain ⟨p, hp, rfl⟩ := hstill
    obtain ⟨q, hq, rfl⟩ := hat₂
    rw [hp] at hq
    rw [Option.some.inj hq]

/-! ## Answering -/

/-- The port survives its way through a `short`. -/
theorem toUInt16_toInt16 (port : UInt16) : port.toInt16.toUInt16 = port := by
  simp

/-- **Replies**: a send of a length in `1..524288` submits a datagram to the link's address. -/
theorem send_submits (p : UdpPeerLink) {s : UdpServer} (hopen : s.pUdp.isSome = true) (l : Loop)
    {data : List UInt8} (hlen : data.length ≤ 524288) (r : ℤ) :
    ∃ pool mem, l.pool.get data.length = (pool, some mem) ∧
      p.send s l data r =
        (l.withItem pool mem data).udpSend mem data.length (some ⟨p.nPort, p.nIP⟩) data r := by
  obtain ⟨h, hudp⟩ := Option.isSome_iff_exists.mp hopen
  have hint : toInt32 data.length = data.length := toInt32_of_mem (by omega) (by omega)
  have huint : toUInt32 data.length = data.length := toUInt32_of_lt (by omega)
  unfold UdpPeerLink.send UdpServer.answer
  rw [hudp]
  dsimp only
  rcases l.copyOut_cases data with ⟨-, hmax⟩ | ⟨pool, mem, hget, -, hcopy⟩
  · rw [hint] at hmax
    have hfits : (data.length : ℤ) ≤ MEM_ITEM_SIZE_MAX := by
      unfold MEM_ITEM_SIZE_MAX
      omega
    exact absurd hfits hmax
  · refine ⟨pool, mem, by rw [← hint, hget], ?_⟩
    rw [hcopy, toUInt32_toInt32, huint, toUInt16_toInt16]

/-- A datagram that is taken is pending. -/
theorem reqs_udpSend (l : Loop) (mem : MemPtr) (len : ℕ) (dest : Option SockAddrIn)
    (payload : List UInt8) :
    (l.udpSend mem len dest payload 0).reqs l.nextReq = some (.udpSend mem len dest payload) :=
  Function.update_self _ _ _

/-- A server tells its sources apart: a link is in the table under the key of its address, two
datagrams have the same link exactly when they are from the same source and the link has not
expired in between, and what is sent on a link that is in the table goes to the source of the
datagrams that were delivered with it. -/
structure Demultiplexes (s₀ : UdpPeers) : Prop where
  keyed : ∀ s, Reaches step s₀ s → ∀ k p, s.mapLink.find k = some p →
    create_node p.link.nIP p.link.nPort = k
  same_link : ∀ s₁, Reaches step s₀ s₁ → ∀ d₁ ip₁ port₁ now₁ p₁ t₁,
    s₁.Delivers d₁ ip₁ port₁ now₁ p₁ t₁ → ∀ es s₂, exec step t₁ es = some s₂ →
    ∀ d₂ ip₂ port₂ now₂ p₂ t₂, s₂.Delivers d₂ ip₂ port₂ now₂ p₂ t₂ →
    (p₁ = p₂ ↔
      (ip₁ = ip₂ ∧ port₁ = port₂) ∧ EachStep step (fun s e => ¬s.Expires p₁ e) t₁ es)
  replies : ∀ s, Reaches step s₀ s → ∀ d ip port now ptr t, s.Delivers d ip port now ptr t →
    ∀ es s', exec step t es = some s' → ∀ k p, s'.mapLink.find k = some p → p.ptr = ptr →
    s'.server.pUdp.isSome = true → ∀ l data r, 1 ≤ data.length → data.length ≤ 524288 →
    ∃ pool mem, l.pool.get data.length = (pool, some mem) ∧
      p.link.send s'.server l data r =
        (l.withItem pool mem data).udpSend mem data.length (some ⟨port, ip⟩) data r ∧
      (r = 0 → (p.link.send s'.server l data r).reqs l.nextReq =
        some (.udpSend mem data.length (some ⟨port, ip⟩) data))

theorem demultiplexes (self : LinkPtr) (h : HandleId) : Demultiplexes (new self h) where
  keyed _ hs := (inv_step.reaches (inv_new self h) hs).keyed
  same_link _ hs _ _ _ _ _ _ h₁ _ _ hes _ _ _ _ _ _ h₂ :=
    same_link_iff (inv_step.reaches (inv_new self h) hs) h₁ hes h₂
  replies s hs d ip port now ptr t hdel es s' hes k p hp hptr hopen l data r _ hlen := by
    have hinv : s.Inv := inv_step.reaches (inv_new self h) hs
    have hinv' : s'.Inv := inv_step.exec (inv_step _ _ _ hinv hdel.1) hes
    have hkey := hdel.same_key hinv hes ⟨p, hp, hptr⟩
    obtain ⟨hip, hport⟩ := create_node_inj ((hinv'.keyed k p hp).trans hkey)
    obtain ⟨pool, mem, hget, hsend⟩ := send_submits p.link hopen l hlen r
    rw [hip, hport] at hsend
    refine ⟨pool, mem, hget, hsend, ?_⟩
    rintro rfl
    rw [hsend]
    exact reqs_udpSend (l.withItem pool mem data) mem data.length (some ⟨port, ip⟩) data

/-- A datagram from `127.0.0.1:12345` is answered. -/
theorem demultiplexes_loopback :
    ∃ t p, listening.Delivers [1] 0x0100007f 0x3930 0 0 t ∧
      t.mapLink.find (create_node 0x0100007f 0x3930) = some p ∧
      ∃ pool mem, Loop.new.pool.get 1 = (pool, some mem) ∧
        p.link.send t.server Loop.new [2] 0 =
          (Loop.new.withItem pool mem [2]).udpSend mem 1 (some ⟨0x3930, 0x0100007f⟩) [2] 0 ∧
        (p.link.send t.server Loop.new [2] 0).reqs 0 =
          some (.udpSend mem 1 (some ⟨0x3930, 0x0100007f⟩) [2]) := by
  have hs : Reaches step (new 0 0) listening := ⟨[.setHandler true], rfl⟩
  have hdel : listening.Delivers [1] 0x0100007f 0x3930 0 0
      (listening.on_read [1] 0x0100007f 0x3930 0) := ⟨rfl, by decide +kernel⟩
  have hfind : (listening.on_read [1] 0x0100007f 0x3930 0).mapLink.find
      (create_node 0x0100007f 0x3930) = some ⟨0, ⟨0, 0x0100007f, 0x3930⟩, true, 0⟩ := rfl
  refine ⟨_, _, hdel, hfind, ?_⟩
  obtain ⟨pool, mem, hget, hsend, hpending⟩ := (demultiplexes 0 0).replies listening hs _ _ _ _ _ _
    hdel [] _ rfl _ _ hfind rfl rfl Loop.new [2] 0 (le_refl 1) (by decide)
  exact ⟨pool, mem, hget, hsend, hpending rfl⟩

end UdpPeers
end SomoNet
