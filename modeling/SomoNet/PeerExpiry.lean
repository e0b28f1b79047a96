import SomoNet.UdpCallbacks

/-!
# The expiry of peers

`UdpServer::on_timer` goes over its table twice. The first loop deletes the links that have expired,
which calls their handlers, and collects their keys; the second erases what the first collected. In
between the table holds pointers to deleted links.
-/

namespace SomoNet

/-! ## The two loops -/

/-- What the first loop of `on_timer` has done so far. -/
structure Sweep where
  /-- `std::set<uint64_t> expires` -/
  expires : SortedMap UInt64 Unit
  deleted : List LinkPtr
  calls : List UdpObs

namespace Sweep

def new : Sweep := ⟨.empty, [], []⟩

/-- `delete it->second`, whose destructor calls `close`. -/
def delete (w : Sweep) (p : Peer) : Sweep :=
  { w with deleted := w.deleted ++ [p.ptr], calls := w.calls ++ p.close }

/-- The body of the first loop. -/
def visit (now : UInt64) (w : Sweep) (it : UInt64 × Peer) : Sweep :=
  if it.2.expired now then
    let w := w.delete it.2
    { w with expires := w.expires.insert it.1 () }
  else w

/-- **The first loop**: the expired links are deleted in the order of their keys, and their keys are
collected. -/
theorem visit_all (now : UInt64) (its : List (UInt64 × Peer)) (w : Sweep) :
    (its.foldl (visit now) w).deleted =
        w.deleted ++ (its.filter fun it => it.2.expired now).map (fun it => it.2.ptr) ∧
      (its.foldl (visit now) w).calls =
        w.calls ++ (its.filter fun it => it.2.expired now).flatMap (fun it => it.2.close) ∧
      ∀ k, (∃ u, (its.foldl (visit now) w).expires.find k = some u) ↔
        (∃ u, w.expires.find k = some u) ∨ ∃ p, (k, p) ∈ its ∧ p.expired now = true := by
  induction its generalizing w with
  | nil => simp
  | cons it its ih =>
    obtain ⟨node, p⟩ := it
    obtain ⟨hdeleted, hcalls, hexpires⟩ := ih (visit now w (node, p))
    rw [List.foldl_cons]
    by_cases hexp : p.expired now = true
    -- an expired peer is deleted and its key is noted
    · have hvisit : visit now w (node, p) =
          { w.delete p with expires := w.expires.insert node () } := if_pos hexp
      rw [hvisit] at hdeleted hcalls hexpires ⊢
      refine ⟨?_, ?_, fun k => ?_⟩
      · rw [hdeleted]
        simp [delete, hexp]
      · rw [hcalls]
        simp [delete, hexp]
      · rw [hexpires]
        show (∃ u, (w.expires.insert node ()).find k = some u) ∨ _ ↔ _
        rw [SortedMap.find_insert]
        by_cases hk : k = node
        · subst hk
          exact iff_of_true (Or.inl ⟨(), if_pos rfl⟩) (Or.inr ⟨p, List.mem_cons_self, hexp⟩)
        · simp [hk]
    -- any other one is passed over
    · have hvisit : visit now w (node, p) = w := if_neg hexp
      rw [hvisit] at hdeleted hcalls hexpires ⊢
      refine ⟨?_, ?_, fun k => ?_⟩
      · rw [hdeleted]
        simp [hexp]
      · rw [hcalls]
        simp [hexp]
      · rw [hexpires]
        refine or_congr Iff.rfl ⟨fun ⟨q, hmem, hq⟩ => ⟨q, List.mem_cons_of_mem _ hmem, hq⟩, ?_⟩
        rintro ⟨q, hmem, hq⟩
        rcases List.mem_cons.mp hmem with heq | hmem
        · cases heq
          exact absurd hq hexp
        · exact ⟨q, hmem, hq⟩

end Sweep

namespace UdpPeers

def sweep (s : UdpPeers) (now : UInt64) : Sweep := s.mapLink.entries.foldl (Sweep.visit now) Sweep.new

/-- `UdpServer::on_timer`, loop by loop, with the links that it deletes. -/
def timerLoops (s : UdpPeers) (now : UInt64) : UdpPeers × List LinkPtr :=
  let w := s.sweep now
  ({ s with
     mapLink := (w.expires.entries.map Prod.fst).foldl SortedMap.erase s.mapLink
     trace := s.trace ++ w.calls }, w.deleted)

/-- The keys collected are those of the expired links. -/
theorem mem_expires_iff (s : UdpPeers) (now : UInt64) (k : UInt64) :
    k ∈ (s.sweep now).expires.entries.map Prod.fst ↔
      ∃ p, s.mapLink.find k = some p ∧ p.expired now = true := by
  rw [SortedMap.mem_keys_iff]
  refine ((Sweep.visit_all now s.mapLink.entries Sweep.new).2.2 k).trans ?_
  have hnone : ¬ ∃ u, Sweep.new.expires.find k = some u := by
    rintro ⟨u, hu⟩
    cases hu
  rw [or_iff_right hnone]
  simp only [SortedMap.find_eq_some]

theorem sweep_calls (s : UdpPeers) (now : UInt64) :
    (s.sweep now).calls = PeerCalls.expiryCalls s now := by
  have hclose : ∀ ps : List (UInt64 × Peer), ps.flatMap (fun it => it.2.close) =
      ((ps.map Prod.snd).filter Peer.pHandler).map fun p => .onClose p.ptr := by
    intro ps
    induction ps with
    | nil => rfl
    | cons it ps ih =>
      rw [List.flatMap_cons, ih]
      unfold Peer.close
      by_cases hh : it.2.pHandler = true
      · simp [hh]
      · simp [hh]
  have hexpired : (s.mapLink.entries.filter fun it => it.2.expired now).map Prod.snd =
      (s.mapLink.entries.map Prod.snd).filter fun p => p.expired now := by
    simp only [List.filter_map, Function.comp_def]
  unfold sweep PeerCalls.expiryCalls
  rw [(Sweep.visit_all now s.mapLink.entries Sweep.new).2.1, hclose, hexpired]
  exact List.nil_append _

/-- **The two loops together** do what the table's invariant is stated for: the expired links go. -/
theorem timerLoops_eq (s : UdpPeers) (now : UInt64) : (s.timerLoops now).1 = s.on_timer now := by
  have hmap : ((s.sweep now).expires.entries.map Prod.fst).foldl SortedMap.erase s.mapLink =
      s.mapLink.filter fun _ p => !p.expired now := by
    apply SortedMap.ext_entries
    rw [SortedMap.entries_foldl_erase]
    apply List.filter_congr
    rintro ⟨node, p⟩ hmem
    have hp := SortedMap.find_eq_some.mpr hmem
    -- a key has one link, which has expired or not
    have hexpires : node ∈ (s.sweep now).expires.entries.map Prod.fst ↔ p.expired now = true := by
      rw [mem_expires_iff, hp]
      simp
    simp [hexpires]
  unfold timerLoops on_timer
  dsimp only
  rw [hmap, sweep_calls]
  rfl

/-! ## Exactly the idle peers -/

/-- The peer has been heard of within the last minute, or the clock has been set back. -/
def Fresh (p : Peer) (now : UInt64) : Prop := now.toNat < p.stamp.toNat + 60000

/-- What one call of `on_timer` at the time `now` leaves and deletes. -/
structure ExpiresIdle (s : UdpPeers) (now : UInt64) (s' : UdpPeers) (deleted : List LinkPtr) :
    Prop where
  kept : ∀ k p, s'.mapLink.find k = some p ↔ s.mapLink.find k = some p ∧ Fresh p now
  removed : ∀ ptr, ptr ∈ deleted ↔ ∃ k p, s.mapLink.find k = some p ∧ ¬ Fresh p now ∧ p.ptr = ptr
  once : deleted.Nodup
  calls : ∃ calls, s'.trace = s.trace ++ calls ∧ calls.Nodup ∧
    ∀ o, o ∈ calls ↔
      ∃ k p, s.mapLink.find k = some p ∧ ¬ Fresh p now ∧ p.pHandler = true ∧ o = .onClose p.ptr
  live : ∀ k p, s'.mapLink.find k = some p → p.ptr ∉ deleted

/-- The comparison of `on_timer`, when the sum does not wrap. -/
theorem expired_iff {p : Peer} (hstamp : p.stamp.toNat < 2 ^ 63) (now : UInt64) :
    p.expired now = true ↔ ¬ Fresh p now := by
  have hsum : (p.stamp + UDP_EXPIRE).toNat = p.stamp.toNat + 60000 := by
    rw [UInt64.toNat_add]
    show (p.stamp.toNat + 60000) % 2 ^ 64 = _
    omega
  unfold Peer.expired Fresh
  rw [decide_eq_true_iff, ge_iff_le, UInt64.le_iff_toNat_le, hsum, not_lt]

/-- Different entries hold different links. -/
theorem Inv.distinct {s : UdpPeers} (hs : s.Inv) :
    s.mapLink.entries.Pairwise fun a b => a.2.ptr ≠ b.2.ptr := by
  refine s.mapLink.sorted.imp_of_mem ?_
  rintro ⟨node, p⟩ ⟨node', q⟩ hmem hmem' hlt hptr
  have hsame := hs.once node node' q.ptr ⟨p, SortedMap.find_eq_some.mpr hmem, hptr⟩
    ⟨q, SortedMap.find_eq_some.mpr hmem', rfl⟩
  exact hlt.ne hsame

theorem mem_deleted_iff (s : UdpPeers) (now : UInt64) (ptr : LinkPtr) :
    ptr ∈ (s.timerLoops now).2 ↔
      ∃ k p, s.mapLink.find k = some p ∧ p.expired now = true ∧ p.ptr = ptr := by
  unfold timerLoops sweep
  dsimp only
  rw [(Sweep.visit_all now s.mapLink.entries Sweep.new).1]
  simp only [Sweep.new, List.nil_append, List.mem_map, List.mem_filter, SortedMap.find_eq_some]
  constructor
  · rintro ⟨⟨k, p⟩, ⟨hmem, hexp⟩, rfl⟩
    exact ⟨k, p, hmem, hexp, rfl⟩
  · rintro ⟨k, p, hmem, hexp, rfl⟩
    exact ⟨(k, p), ⟨hmem, hexp⟩, rfl⟩

section

variable {s : UdpPeers}
  (hstamps : ∀ k p, s.mapLink.find k = some p → p.stamp.toNat < 2 ^ 63) (now : UInt64)
include hstamps

/-- The entries left are the fresh ones, as they were. -/
theorem kept_iff (k : UInt64) (p : Peer) :
    (s.timerLoops now).1.mapLink.find k = some p ↔ s.mapLink.find k = some p ∧ Fresh p now := by
  rw [timerLoops_eq]
  show (s.mapLink.filter fun _ p => !p.expired now).find k = some p ↔ _
  rw [SortedMap.find_filter, Option.filter_eq_some_iff]
  apply and_congr_right
  intro hp
  rw [Bool.not_eq_true', ← Bool.not_eq_true, expired_iff (hstamps k p hp), not_not]

theorem deleted_iff (ptr : LinkPtr) :
    ptr ∈ (s.timerLoops now).2 ↔
      ∃ k p, s.mapLink.find k = some p ∧ ¬ Fresh p now ∧ p.ptr = ptr := by
  rw [mem_deleted_iff]
  refine exists_congr fun k => exists_congr fun p => and_congr_right fun hp => ?_
  rw [expired_iff (hstamps k p hp)]

theorem called_iff (o : UdpObs) :
    o ∈ PeerCalls.expiryCalls s now ↔
      ∃ k p, s.mapLink.find k = some p ∧ ¬ Fresh p now ∧ p.pHandler = true ∧ o = .onClose p.ptr := by
  rw [PeerCalls.mem_expiryCalls]
  refine exists_congr fun k => exists_congr fun p => and_congr_right fun hp => ?_
  rw [expired_iff (hstamps k p hp)]

end

/-- The links deleted are those of different entries. -/
theorem Inv.nodup_deleted {s : UdpPeers} (hs : s.Inv) (now : UInt64) :
    (s.timerLoops now).2.Nodup := by
  unfold timerLoops sweep
  dsimp only
  rw [(Sweep.visit_all now s.mapLink.entries Sweep.new).1]
  exact List.pairwise_map.mpr (hs.distinct.filter _)

theorem Inv.nodup_expiryCalls {s : UdpPeers} (hs : s.Inv) (now : UInt64) :
    (PeerCalls.expiryCalls s now).Nodup := by
  have hdistinct : (s.mapLink.entries.map Prod.snd).Pairwise fun p q => p.ptr ≠ q.ptr :=
    List.pairwise_map.mpr hs.distinct
  apply List.pairwise_map.mpr
  apply ((hdistinct.filter _).filter _).imp
  intro p q hne heq
  exact hne (UdpObs.onClose.inj heq)

/-- **Expiry.** In a table whose stamps are below 2^63, whatever the clock says: `on_timer` removes
exactly the idle peers, deletes each of their links once and calls the handler of each once, and no
deleted link is left in the table. -/
theorem expires_idle {s : UdpPeers} (hs : s.Inv)
    (hstamps : ∀ k p, s.mapLink.find k = some p → p.stamp.toNat < 2 ^ 63) (now : UInt64) :
    ExpiresIdle s now (s.timerLoops now).1 (s.timerLoops now).2 := by
  constructor
  · exact kept_iff hstamps now
  · exact deleted_iff hstamps now
  · exact hs.nodup_deleted now
  · have htrace : (s.timerLoops now).1.trace = s.trace ++ PeerCalls.expiryCalls s now := by
      rw [timerLoops_eq]
      rfl
    exact ⟨_, htrace, hs.nodup_expiryCalls now, called_iff hstamps now⟩
  · intro k p hp hmem
    obtain ⟨hold, hfresh⟩ := (kept_iff hstamps now k p).mp hp
    obtain ⟨k', q, hq, hidle, hptr⟩ := (deleted_iff hstamps now p.ptr).mp hmem
    -- a link of the table is under one key
    have hk : k = k' := hs.once k k' p.ptr ⟨p, hold, rfl⟩ ⟨q, hq, hptr⟩
    subst hk
    rw [hold] at hq
    cases hq
    exact hidle hfresh

/-- A server with a handler. -/
def handled : UdpPeers := { new 0 0 with pHandler := true }

/-- A server that has been sent one datagram. -/
def onePeer : UdpPeers := handled.on_read [1] 0x0100007f 0x1f90 5

/-- Another datagram, from another address, a little before the timer. -/
def twoPeers : UdpPeers := onePeer.on_read [2] 0x0200007f 0x1f90 69999

theorem inv_twoPeers : twoPeers.Inv := by
  have hhandler : (new 0 0).step (.setHandler true) = some handled := rfl
  have hread : handled.step (.read [1] 0x0100007f 0x1f90 5) = some onePeer := by
    unfold step
    exact if_pos (by decide)
  have hread' : onePeer.step (.read [2] 0x0200007f 0x1f90 69999) = some twoPeers := by
    unfold step
    exact if_pos (by decide)
  exact inv_step _ _ _ (inv_step _ _ _ (inv_step _ _ _ (inv_new 0 0) hhandler) hread) hread'

/-- The second peer is left, and the first one is deleted. -/
theorem expires_idle_twoPeers :
    ExpiresIdle twoPeers 70000 (twoPeers.timerLoops 70000).1 (twoPeers.timerLoops 70000).2 ∧
      (twoPeers.timerLoops 70000).2 = [0] := by
  refine ⟨?_, by decide +kernel⟩
  apply expires_idle inv_twoPeers
  intro k p hp
  have hmem : (k, p) ∈ [(UdpServer.create_node 0x0100007f 0x1f90,
      (⟨0, ⟨0, 0x0100007f, 0x1f90⟩, true, 5⟩ : Peer)),
      (UdpServer.create_node 0x0200007f 0x1f90,
      (⟨1, ⟨0, 0x0200007f, 0x1f90⟩, true, 69999⟩ : Peer))] := SortedMap.find_eq_some.mp hp
  simp only [List.mem_cons, List.not_mem_nil, or_false] at hmem
  rcases hmem with h | h
  · cases h
    decide
  · cases h
    decide

end UdpPeers
end SomoNet
