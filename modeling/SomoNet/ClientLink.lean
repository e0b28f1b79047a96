import SomoNet.TcpLinkSpec

/-!
# Client links

A client link is made by `TcpLink::TcpLink()` and connects by itself: `connect` starts an
attempt and arms the retry timer, `on_connect` stops the timer, read and write errors arm
it again, and `on_timer` starts the next attempt.

`ClientInv` is what every reachable state of a client link satisfies. The rest of the file
is the reconnect law: when the user has asked for a connection, the link is connected, or
is being connected, or will try again (`Trying`).
-/

namespace SomoNet

open Run

namespace TcpSys

/-! ## The invariant -/

structure ClientInv (s : TcpSys) : Prop where
  fresh : s.loop.Fresh
  client : s.link.bPeerLink = false
  notBoth : s.link.bConnected = true → s.link.bConnecting = false
  noClose : s.link.frame ≠ .inClose
  /-- While `on_connected` runs the link is connected, or its handler has called `close`
  or `connect`. -/
  handling : s.link.frame = .inConnected → s.link.asked = true →
    s.link.bConnected = true ∨ s.link.bConnecting = true

theorem clientInv_client (self : LinkPtr) {loop : Loop} (hloop : loop.Fresh) :
    ClientInv (client self loop) where
  fresh := hloop
  client := rfl
  notBoth h := by cases h
  noClose h := by cases h
  handling h := by cases h

/-- `connect` establishes what it does not keep. -/
theorem clientInv_connect {s : TcpSys} (hfresh : s.loop.Fresh) (hclient : s.link.bPeerLink = false)
    (hframe : s.link.frame ≠ .inClose) (ip : String) (port : UInt16) (r : ℤ) :
    ClientInv (s.connect ip port r).1 := by
  refine ⟨fresh_connect hfresh ip port r, ?_, ?_, ?_, ?_⟩ <;> rw [connect_link]
  · exact hclient
  · intro h
    cases h
  · exact hframe
  · intro _ _
    exact Or.inr rfl

/-- **Every step of a client link keeps its invariant.** -/
theorem clientInv_step : Invariant step ClientInv := by
  intro s e s' hs h
  have hfresh := fresh_step hs.fresh h
  cases step_case h with
  | setHandler handler => exact ⟨hfresh, hs.client, hs.notBoth, hs.noClose, hs.handling⟩
  | connect ip port r =>
    apply clientInv_connect
    · exact hs.fresh
    · exact hs.client
    · exact hs.noClose
  | send data r =>
    obtain ⟨t, ht⟩ := s.send_link data r
    refine ⟨hfresh, ?_, ?_, ?_, ?_⟩ <;> rw [ht]
    · exact hs.client
    · exact hs.notBoth
    · exact hs.noClose
    · exact hs.handling
  | close =>
    refine ⟨hfresh, ?_, ?_, ?_, ?_⟩ <;> rw [shut_link]
    · exact hs.client
    · intro h
      cases h
    · exact hs.noClose
    · intro _ h
      cases h
  | @connectDone q g status r hreq hidle hstatus =>
    -- an attempt ends: it is the one that `m_bConnecting` stands for
    by_cases hneg : status < 0
    · rw [onConnect_failed s q r hneg] at hfresh ⊢
      refine ⟨hfresh, hs.client, fun _ => rfl, hs.noClose, ?_⟩
      intro hframe
      cases hidle.symm.trans hframe
    by_cases hh : s.link.pHandler = true
    · rw [onConnect_handler s q r hneg hh] at hfresh ⊢
      refine ⟨hfresh, hs.client, fun _ => rfl, ?_, fun _ _ => Or.inl rfl⟩
      intro hf
      cases hf
    · rw [onConnect_noHandler s q r hneg hh] at hfresh ⊢
      refine ⟨hfresh, ?_, ?_, ?_, ?_⟩ <;> rw [connectedTail_link]
      · exact hs.client
      · intro _
        rfl
      · exact hs.noClose
      · intro _ _
        exact Or.inl rfl
  | connectedReturn r hframe =>
    refine ⟨hfresh, ?_, ?_, ?_, ?_⟩ <;> rw [connectedReturn, connectedTail_link]
    · exact hs.client
    · exact hs.notBoth
    · intro hf
      cases hf
    · intro hf
      cases hf
  | @read g seg hidle hreads hne hlen =>
    -- a callback of the handler begins only where none is running
    refine ⟨hfresh, ?_, ?_, ?_, ?_⟩ <;> rw [onRead_link s hlen]
    · exact hs.client
    · exact hs.notBoth
    · intro hf
      have hframe : (if s.link.pHandler then Frame.inData else s.link.frame) = .inClose := hf
      split at hframe
      · cases hframe
      · exact hs.noClose hframe
    · intro hf
      have hframe : (if s.link.pHandler then Frame.inData else s.link.frame) = .inConnected := hf
      split at hframe
      · cases hframe
      · exact hs.handling hframe
  | readAgain => exact hs
  | @readError g hidle hreads =>
    rw [onReadError_client s g hs.client] at hfresh ⊢
    refine ⟨hfresh, hs.client, ?_, hs.noClose, ?_⟩
    · intro h
      cases h
    · intro hframe
      cases hidle.symm.trans hframe
  | dataReturn c hframe =>
    refine ⟨hfresh, ?_, ?_, ?_, ?_⟩ <;> rw [dataReturn_link]
    · exact hs.client
    · exact hs.notBoth
    · intro hf
      cases hf
    · intro hf
      cases hf
  -- a client link never calls `on_close`
  | closeReturn hframe => exact absurd hframe hs.noClose
  | @writeDone q g mem len payload status hreq hidle hstatus =>
    -- `close` and, as the link is a client, `uv_timer_start` for the next attempt
    by_cases hneg : status < 0
    · rw [onWrite_failed_client s q mem hneg hs.client] at hfresh ⊢
      refine ⟨hfresh, ?_, ?_, ?_, ?_⟩ <;>
        rw [timerStart_link, shut_link]
      · exact hs.client
      · intro h
        cases h
      · exact hs.noClose
      · intro hframe
        cases hidle.symm.trans hframe
    · rw [onWrite_done s q mem hneg] at hfresh ⊢
      exact ⟨hfresh, hs.client, hs.notBoth, hs.noClose, hs.handling⟩
  | tick r hidle htimer =>
    by_cases hretry : s.link.bConnected = false ∧ s.link.bConnecting = false
    · rw [onTimer_retry s r hretry]
      exact clientInv_connect hs.fresh hs.client hs.noClose _ _ r
    · rw [onTimer_busy s r hretry]
      exact hs

/-! ## Reconnecting -/

/-- If the user wants a connection, there is one, or an attempt is in flight, or the timer
is going to start one. -/
def Trying (s : TcpSys) : Prop :=
  s.link.asked = true → s.link.bConnected = true ∨ s.loop.ConnectPending s.link.self ∨
    s.link.timerActive = true ∧ s.link.bConnecting = false

/-- The steps that keep a link trying: an attempt is accepted by libuv unless another one
is in flight, and an attempt that fails leaves the timer or another attempt behind. -/
def KeepsTrying (s : TcpSys) : TcpEvent → Prop
  | .connect _ _ r => r = 0 ∨ s.loop.ConnectPending s.link.self
  | .tick r => s.link.asked = true → s.link.bConnected = false → s.link.bConnecting = false →
      r = 0 ∨ s.loop.ConnectPending s.link.self
  | .connectDone q status _ => status < 0 → s.link.asked = true →
      s.link.timerActive = true ∨ s.loop.OtherConnectPending s.link.self q
  | _ => True

/-- An attempt is in flight after `connect` if libuv accepted it or another one was. -/
theorem connectPending_connect {s : TcpSys} (hs : s.loop.Fresh) (ip : String) (port : UInt16)
    (r : ℤ) : (s.connect ip port r).1.loop.ConnectPending s.link.self ↔
      r = 0 ∨ s.loop.ConnectPending s.link.self := by
  rw [connect_loop]
  by_cases hr : r = 0
  · rw [if_pos hr]
    have hpend := (hs.tcpInit s.link.self).connectPending_submit s.link.self s.loop.nextHandle
    exact ⟨fun _ => Or.inl hr, fun _ => hpend⟩
  · rw [if_neg hr, Loop.connectPending_congr (Loop.reqs_tcpInit _ _)]
    exact ⟨Or.inr, fun h => h.resolve_left hr⟩

theorem connectPending_send {s : TcpSys} (hs : s.loop.Fresh) (data : List UInt8) (r : ℤ) :
    (s.send data r).1.loop.ConnectPending s.link.self ↔ s.loop.ConnectPending s.link.self := by
  have hout := s.send_outcome data r
  generalize s.send data r = res at hout ⊢
  have hitem : ∀ pool mem, (s.loop.withItem pool mem data).Fresh := fun _ _ => ⟨hs.tcp, hs.reqs⟩
  rcases hout with _ | _ | _ | _
  · rfl
  · rfl
  · rfl
  · exact (hitem _ _).connectPending_submit_write _ _ _ _ _ _

theorem reqs_shut (s : TcpSys) : s.shut.loop.reqs = s.loop.reqs := by
  rw [shut_loop]
  split <;> rfl

theorem reqs_connectedTail (s : TcpSys) (r : ℤ) : (s.connectedTail r).loop.reqs = s.loop.reqs := by
  rw [connectedTail_loop]
  split
  · split <;> rfl
  · rfl

/-- `connect` clears `m_bConnected` and sets `m_bConnecting`, so only an attempt in flight
is left of the law. -/
theorem trying_connect {s : TcpSys} (hs : s.loop.Fresh) (ip : String) (port : UInt16) (r : ℤ) :
    Trying (s.connect ip port r).1 ↔
      (s.link.asked = true → r = 0 ∨ s.loop.ConnectPending s.link.self) := by
  unfold Trying
  rw [show (s.connect ip port r).1.link.self = s.link.self by rw [connect_link],
    connectPending_connect hs, connect_link]
  constructor
  · intro h hask
    rcases h hask with h | h | ⟨-, h⟩
    · cases h
    · exact h
    · cases h
  · intro h hask
    exact Or.inr (Or.inl (h hask))

/-- **One step of the reconnect law**: a step that can happen keeps it if and only if it
meets `KeepsTrying`. -/
theorem trying_step {s s' : TcpSys} {e : TcpEvent} (hs : ClientInv s) (htry : Trying s)
    (h : s.step e = some s') : Trying s' ↔ KeepsTrying s e := by
  cases step_case h with
  | setHandler handler => exact ⟨fun _ => trivial, fun _ => htry⟩
  | connect ip port r =>
    have hiff := @trying_connect { s with link := { s.link with asked := true } } hs.fresh ip port r
    rw [hiff]
    exact ⟨fun h => h rfl, fun h _ => h⟩
  | send data r =>
    refine ⟨fun _ => trivial, fun _ => ?_⟩
    obtain ⟨t, ht⟩ := s.send_link data r
    unfold Trying
    rw [ht, connectPending_send hs.fresh]
    exact htry
  | close =>
    refine ⟨fun _ => trivial, fun _ hask => ?_⟩
    rw [shut_link] at hask
    cases hask
  | @connectDone q g status r hreq hidle hstatus =>
    by_cases hneg : status < 0
    · -- a failed attempt: what is left is the timer or another attempt
      rw [onConnect_failed s q r hneg]
      unfold Trying KeepsTrying
      dsimp only
      rw [Loop.connectPending_finish]
      constructor
      · intro h _ hask
        rcases h hask with h | h | ⟨h, -⟩
        · cases h
        · exact Or.inr h
        · exact Or.inl h
      · intro h hask
        rcases h hneg hask with h | h
        · exact Or.inr (Or.inr ⟨h, rfl⟩)
        · exact Or.inr (Or.inl h)
    · refine ⟨fun _ hneg' => absurd hneg' hneg, fun _ _ => Or.inl ?_⟩
      by_cases hh : s.link.pHandler = true
      · rw [onConnect_handler s q r hneg hh]
      · rw [onConnect_noHandler s q r hneg hh, connectedTail_link]
  | connectedReturn r hframe =>
    refine ⟨fun _ => trivial, fun _ hask => ?_⟩
    have hreqs : (s.connectedReturn r).loop.reqs = s.loop.reqs := reqs_connectedTail _ r
    rw [Loop.connectPending_congr hreqs]
    rw [connectedReturn, connectedTail_link] at hask ⊢
    -- the timer is stopped; the link is connected or its handler has called `connect`
    rcases hs.handling hframe hask with hc | hc
    · exact Or.inl hc
    · rcases htry hask with h | h | ⟨-, h⟩
      · exact Or.inl h
      · exact Or.inr (Or.inl h)
      · rw [hc] at h
        cases h
  | @read g seg hidle hreads hne hlen =>
    refine ⟨fun _ => trivial, fun _ => ?_⟩
    unfold Trying
    rw [onRead_loop, onRead_link s hlen]
    exact htry
  | readAgain => exact ⟨fun _ => trivial, fun _ => htry⟩
  | @readError g hidle hreads =>
    refine ⟨fun _ => trivial, fun _ hask => ?_⟩
    rw [onReadError_client s g hs.client] at hask ⊢
    rcases htry hask with h | h | ⟨-, h⟩
    · exact Or.inr (Or.inr ⟨rfl, hs.notBoth h⟩)
    · exact Or.inr (Or.inl h)
    · exact Or.inr (Or.inr ⟨rfl, h⟩)
  | dataReturn c hframe =>
    refine ⟨fun _ => trivial, fun _ => ?_⟩
    unfold Trying
    rw [dataReturn_loop, dataReturn_link]
    exact htry
  | closeReturn hframe => exact absurd hframe hs.noClose
  | @writeDone q g mem len payload status hreq hidle hstatus =>
    refine ⟨fun _ => trivial, fun _ => ?_⟩
    have hpend : (afterWrite s.loop q mem).ConnectPending s.link.self ↔
        s.loop.ConnectPending s.link.self := by
      rw [← Loop.otherConnectPending_write hreq]
      exact Loop.connectPending_finish _ q
    by_cases hneg : status < 0
    · rw [onWrite_failed_client s q mem hneg hs.client]
      intro hask
      rw [timerStart_loop,
        Loop.connectPending_congr (reqs_shut { s with loop := afterWrite s.loop q mem })]
      rw [timerStart_link, shut_link] at hask ⊢
      rcases htry hask with h | h | ⟨-, h⟩
      · exact Or.inr (Or.inr ⟨rfl, hs.notBoth h⟩)
      · exact Or.inr (Or.inl (hpend.mpr h))
      · exact Or.inr (Or.inr ⟨rfl, h⟩)
    · rw [onWrite_done s q mem hneg]
      unfold Trying
      rw [hpend]
      exact htry
  | tick r hidle htimer =>
    by_cases hretry : s.link.bConnected = false ∧ s.link.bConnecting = false
    · rw [onTimer_retry s r hretry, trying_connect hs.fresh]
      exact ⟨fun h hask _ _ => h hask, fun h hask => h hask hretry.1 hretry.2⟩
    · rw [onTimer_busy s r hretry]
      exact ⟨fun _ _ hc hg => absurd ⟨hc, hg⟩ hretry, fun _ => htry⟩

/-- **Reconnect law.** A run of a client link keeps trying in every state if and only if
every step of it meets `KeepsTrying`. -/
theorem trying_iff (self : LinkPtr) {loop : Loop} (hloop : loop.Fresh) (es : List TcpEvent) :
    Always step Trying (client self loop) es ↔ EachStep step KeepsTrying (client self loop) es := by
  apply always_iff_eachStep clientInv_step
  · intro s e s' hs htry h
    exact trying_step hs htry h
  · exact clientInv_client self hloop
  · intro hask
    cases hask

/-- The first attempt fails, and the retry fails at once (`ENETUNREACH`). -/
def unreachableRun : List TcpEvent :=
  [.connect "10.0.0.1" 80 0, .connectDone 0 (-111) 0, .tick (-101)]

theorem trying_iff_unreachableRun :
    Always step Trying (client 0 Loop.new) unreachableRun ↔
      EachStep step KeepsTrying (client 0 Loop.new) unreachableRun :=
  trying_iff 0 Loop.fresh_new unreachableRun

/-- After it `m_bConnecting` is set with no attempt in flight, and no tick retries. -/
theorem not_trying_unreachableRun : ¬ Always step Trying (client 0 Loop.new) unreachableRun := by
  intro h
  have hlast : Trying _ := h.last rfl
  rcases hlast rfl with hc | ⟨q, g, hq⟩ | ⟨-, hc⟩
  · cases hc
  · -- the only request is the failed first attempt
    have hnone : Function.update (Function.update Loop.new.reqs 0 (some (.connect 0 0))) 0 none q
        = some (.connect 0 g) := hq
    rw [Function.update_idem, Function.update_apply] at hnone
    split at hnone <;> cases hnone
  · cases hc

end TcpSys
end SomoNet
