import SomoNet.Lib.Leases
import SomoNet.UdpPeers

/-!
# The leases of a `UdpServer`

The table of a `UdpServer` is a table of leases. A datagram from a source renews the lease of the
source, provided that there is a handler and that neither its address nor its port is zero, and
`on_timer` sweeps out the leases that are a minute old. At any moment the server has a link for
exactly those sources whose lease lasts (`leased_iff`).
-/

namespace SomoNet
namespace UdpPeers

open Run Leases
open UdpServer (create_node)

/-- When the peers were last heard of. -/
def stamps (s : UdpPeers) (k : UInt64) : Option UInt64 := (s.mapLink.find k).map Peer.stamp

/-- Whether there is a handler after the event. -/
def handlerAfter (handler : Bool) : UdpEvent → Bool
  | .setHandler handler => handler
  | .read .. | .timer _ | .close => handler

/-- What an event does to the leases; without a handler `on_read` does not look at the source. -/
def lease (handler : Bool) : UdpEvent → Leases.Event UInt64 UInt64
  | .read _ ip port now =>
    if handler = true ∧ ip ≠ 0 ∧ port ≠ 0 then .renew (create_node ip port) now else .idle
  | .timer now => .sweep fun stamp => now ≥ stamp + UDP_EXPIRE
  | .setHandler _ | .close => .idle

/-- What some events do to the leases. -/
def leases : Bool → List UdpEvent → List (Leases.Event UInt64 UInt64)
  | _, [] => []
  | handler, e :: es => lease handler e :: leases (handlerAfter handler e) es

/-! ## One event -/

theorem stamps_insert {s s' : UdpPeers} {k : UInt64} {p : Peer}
    (h : s'.mapLink = s.mapLink.insert k p) :
    s'.stamps = act s.stamps (.renew k p.stamp) := by
  funext k'
  unfold stamps act
  rw [h, SortedMap.find_insert]
  by_cases hk : k' = k
  · subst hk
    simp
  · simp [hk]

theorem stamps_add_node (s : UdpPeers) {ip : UInt32} {port : UInt16} (now : UInt64)
    (h : ¬(ip = 0 ∨ port = 0)) :
    (s.add_node ip port now).1.stamps = act s.stamps (.renew (create_node ip port) now) := by
  unfold add_node
  rw [if_neg h]
  dsimp only
  cases s.mapLink.find (create_node ip port) with
  | some p => exact stamps_insert (p := { p with stamp := now }) rfl
  | none => exact stamps_insert (p := ⟨s.nextLink, ⟨s.self, ip, port⟩, s.pHandler, now⟩) rfl

theorem stamps_on_timer (s : UdpPeers) (now : UInt64) :
    (s.on_timer now).stamps = act s.stamps (.sweep fun stamp => now ≥ stamp + UDP_EXPIRE) := by
  funext k
  show ((s.mapLink.filter fun _ p => !p.expired now).find k).map Peer.stamp =
    (s.stamps k).filter fun stamp => !decide (now ≥ stamp + UDP_EXPIRE)
  unfold stamps
  rw [SortedMap.find_filter]
  cases s.mapLink.find k with
  | none => rfl
  | some p => simp [Option.filter, Peer.expired, apply_ite]

theorem stamps_on_read (s : UdpPeers) (data : List UInt8) (ip : UInt32) (port : UInt16)
    (now : UInt64) :
    (s.on_read data ip port now).stamps = act s.stamps (lease s.pHandler (.read data ip port now)) := by
  unfold on_read lease
  dsimp only
  by_cases hh : s.pHandler = true
  · rw [if_pos hh]
    by_cases hsource : ip = 0 ∨ port = 0
    · rw [add_node_rejected _ now hsource, if_neg (by tauto)]
      rfl
    · rw [if_pos ⟨hh, not_or.mp hsource⟩]
      exact stamps_add_node _ now hsource
  · rw [if_neg hh, if_neg (by simp [hh])]
    rfl

theorem pHandler_on_read (s : UdpPeers) (data : List UInt8) (ip : UInt32) (port : UInt16)
    (now : UInt64) : (s.on_read data ip port now).pHandler = s.pHandler := by
  unfold on_read add_node
  dsimp only
  split
  · split
    · rfl
    · split <;> rfl
  · rfl

/-- A step of the server is a step of its leases. -/
theorem stamps_step {s s' : UdpPeers} {e : UdpEvent} (h : s.step e = some s') :
    s'.stamps = act s.stamps (lease s.pHandler e) ∧ s'.pHandler = handlerAfter s.pHandler e := by
  cases e with
  | setHandler handler =>
    cases h
    exact ⟨rfl, rfl⟩
  | read data ip port now =>
    simp only [step] at h
    split_ifs at h
    cases h
    exact ⟨stamps_on_read s data ip port now, pHandler_on_read s data ip port now⟩
  | timer now =>
    cases h
    exact ⟨stamps_on_timer s now, rfl⟩
  | close =>
    cases h
    exact ⟨rfl, rfl⟩

/-! ## Runs -/

/-- A run of the server is a run of its leases. -/
theorem stamps_exec {s s' : UdpPeers} {es : List UdpEvent} (h : exec step s es = some s') :
    s'.stamps = (leases s.pHandler es).foldl act s.stamps := by
  induction es generalizing s with
  | nil =>
    cases h
    rfl
  | cons e es ih =>
    obtain ⟨t, hstep, hexec⟩ := exec_cons_some.mp h
    obtain ⟨hstamps, hhandler⟩ := stamps_step hstep
    rw [ih hexec, hstamps, hhandler]
    rfl

/-- **Who has a link**, at any moment of any run: the sources that were heard of and not found silent
for a minute by an `on_timer` since, each with the time when it was last heard of. -/
theorem leased_iff {self : LinkPtr} {h : HandleId} {es : List UdpEvent} {s : UdpPeers}
    (hrun : exec step (new self h) es = some s) (ip : UInt32) (port : UInt16) (t : UInt64) :
    (∃ p, s.mapLink.find (create_node ip port) = some p ∧ p.link.nIP = ip ∧ p.link.nPort = port ∧
      p.stamp = t) ↔ Lasts (leases false es) (create_node ip port) t := by
  have hstamps : s.stamps = held (leases false es) := stamps_exec hrun
  have hinv : s.Inv := (inv_step).exec (inv_new self h) hrun
  rw [← held_eq_some_iff, ← hstamps]
  unfold stamps
  rw [Option.map_eq_some_iff]
  refine exists_congr fun p => ⟨fun hp => ⟨hp.1, hp.2.2.2⟩, fun hp => ?_⟩
  obtain ⟨hip, hport⟩ := create_node_inj (hinv.keyed _ p hp.1)
  exact ⟨hp.1, hip, hport, hp.2⟩

/-- 127.0.0.1 has a link for 60 seconds. -/
theorem leased_iff_loopback :
    (∃ p, ((({ new 0 0 with pHandler := true } : UdpPeers).on_read [1] 0x0100007f 0x1f90 5).on_timer
        60004).mapLink.find (create_node 0x0100007f 0x1f90) = some p ∧
      p.link.nIP = 0x0100007f ∧ p.link.nPort = 0x1f90 ∧ p.stamp = 5) ↔
    Lasts (leases false [.setHandler true, .read [1] 0x0100007f 0x1f90 5, .timer 60004])
      (create_node 0x0100007f 0x1f90) 5 :=
  @leased_iff 0 0 _ _ rfl 0x0100007f 0x1f90 5

end UdpPeers
end SomoNet
