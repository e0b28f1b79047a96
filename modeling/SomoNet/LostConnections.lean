import SomoNet.TcpLinkSpec

/-!
# Reporting lost connections

`on_close` is called in one place, `closeError`, and `closeError` in one place, the read error of
an accepted link. A client link that loses its connection goes straight to its retry timer,
and a failed write closes the link by way of `close`, which reports nothing.
-/

namespace SomoNet

open Run

/-- How often the handler has been told of a closed connection. -/
def closes (t : List Obs) : ℕ := t.count .onClose

namespace TcpSys

/-! ## Where `on_close` is called -/

/-- The step calls `on_close`. -/
def CallsOnClose (s : TcpSys) : TcpEvent → Prop
  | .readError _ => s.link.bPeerLink = true ∧ s.link.pHandler = true
  | _ => False

instance (s : TcpSys) : ∀ e, Decidable (s.CallsOnClose e)
  | .readError _ => inferInstanceAs (Decidable (_ ∧ _))
  | .setHandler _ | .connect _ _ _ | .tick _ | .send _ _ | .close | .connectDone _ _ _
  | .connectedReturn _ | .read _ _ | .readAgain _ | .dataReturn _ | .closeReturn
  | .writeDone _ _ => isFalse not_false

theorem closes_connect (s : TcpSys) (ip : String) (port : UInt16) (r : ℤ) :
    closes (s.connect ip port r).1.link.trace = closes s.link.trace := by
  rw [connect_link]
  unfold closes
  split <;> simp

theorem closes_shut (s : TcpSys) : closes s.shut.link.trace = closes s.link.trace := by
  rw [shut_link]
  unfold closes
  cases s.link.pTcp <;> simp

theorem closes_connectedTail (s : TcpSys) (r : ℤ) :
    closes (s.connectedTail r).link.trace = closes s.link.trace := by
  rw [connectedTail_link]
  simp [closes]

theorem closes_send (s : TcpSys) (data : List UInt8) (r : ℤ) :
    closes (s.send data r).1.link.trace = closes s.link.trace := by
  have hout := s.send_outcome data r
  generalize s.send data r = res at hout ⊢
  rcases hout with _ | _ | _ | _
  · rfl
  · rfl
  · rfl
  · simp [closes, emit]

/-- **Every step** but the read error of an accepted link with a handler leaves the handler
without an `on_close`. -/
theorem step_closes {s s' : TcpSys} {e : TcpEvent} (h : s.step e = some s') :
    closes s'.link.trace = closes s.link.trace + if s.CallsOnClose e then 1 else 0 := by
  cases step_case h with
  | setHandler handler => rfl
  | connect ip port r => exact closes_connect _ ip port r
  | send data r => exact closes_send s data r
  | close => exact closes_shut _
  | @connectDone q g status r hreq hidle hstatus =>
    by_cases hneg : status < 0
    · rw [onConnect_failed s q r hneg]
      rfl
    by_cases hh : s.link.pHandler = true
    · rw [onConnect_handler s q r hneg hh]
      simp [closes, CallsOnClose]
    · rw [onConnect_noHandler s q r hneg hh]
      exact closes_connectedTail _ r
  | connectedReturn r hframe => exact closes_connectedTail _ r
  | @read g seg hidle hreads hne hlen =>
    rw [onRead_link s hlen]
    unfold closes
    by_cases hh : s.link.pHandler = true
    · simp [hh, CallsOnClose]
    · simp [hh, CallsOnClose]
  | readAgain => rfl
  | @readError g hidle hreads =>
    -- only an accepted link calls `closeError`, and that calls `on_close` if there is a handler
    by_cases hpeer : s.link.bPeerLink = true
    · have hread : s.onReadError g = closeError { s with loop := s.loop.setReading g false } := by
        simp [onReadError, hpeer]
      rw [hread]
      by_cases hh : s.link.pHandler = true
      · rw [if_pos ⟨hpeer, hh⟩]
        simp [closeError, hh, closes, emit]
      · rw [if_neg fun hc => hh hc.2]
        unfold closeError
        rw [if_neg hh]
        exact closes_shut _
    · rw [if_neg fun hc => hpeer hc.1, onReadError_client s g (by simpa using hpeer)]
      simp [closes]
  | dataReturn c hframe =>
    rw [dataReturn_link]
    simp [closes, CallsOnClose]
  | closeReturn hframe => exact closes_shut _
  | @writeDone q g mem len payload status hreq hidle hstatus =>
    -- after a failed write there is no `on_close`
    by_cases hneg : status < 0
    · rw [onWrite_failed s q mem hneg]
      have hshut := closes_shut { s with loop := afterWrite s.loop q mem }
      split
      · rw [timerStart_link]
        simpa [closes, CallsOnClose] using hshut
      · exact hshut
    · rw [onWrite_done s q mem hneg]
      rfl
  | tick r hidle htimer =>
    by_cases hretry : s.link.bConnected = false ∧ s.link.bConnecting = false
    · rw [onTimer_retry s r hretry]
      exact closes_connect s _ _ r
    · rw [onTimer_busy s r hretry]
      rfl

end TcpSys

/-! ## The connections of a link -/

/-- An error callback of libuv: the connection is broken. -/
def TcpEvent.isError : TcpEvent → Bool
  | .readError _ => true
  | .writeDone _ status => status < 0
  | _ => false

/-- A link with the history of its connections: whether one has been established and has not
ended yet, and how many have ended by an error while a handler was set. -/
structure Watched where
  sys : TcpSys
  up : Bool
  lost : ℕ

namespace Watched

/-- Whether there is a connection after the event: a connect request that completes
successfully establishes one, `close` and errors end it. -/
def upAfter (up : Bool) : TcpEvent → Bool
  | .connectDone _ status _ => if status < 0 then up else true
  | .close => false
  | .readError _ => false
  | .writeDone _ status => if status < 0 then false else up
  | _ => up

/-- The event ends a connection that the handler is to hear of. -/
def Loses (w : Watched) (e : TcpEvent) : Prop :=
  e.isError = true ∧ w.up = true ∧ w.sys.link.pHandler = true

instance (w : Watched) (e : TcpEvent) : Decidable (w.Loses e) :=
  inferInstanceAs (Decidable (_ ∧ _ ∧ _))

def step (w : Watched) (e : TcpEvent) : Option Watched :=
  (w.sys.step e).map fun s' => ⟨s', upAfter w.up e, w.lost + if w.Loses e then 1 else 0⟩

def client (self : LinkPtr) (loop : Loop) : Watched := ⟨.client self loop, false, 0⟩

/-- An accepted link begins with its connection. -/
def accepted (self : LinkPtr) (loop : Loop) : Watched := ⟨.accepted self loop, true, 0⟩

/-- The handler has been told once of every connection lost, and of no other. -/
def Reported (w : Watched) : Prop := closes w.sys.link.trace = w.lost

instance : DecidablePred Reported := fun _ => inferInstanceAs (Decidable (_ = _))

/-- While a handler is set, a read error finds an accepted link whose connection is up, or a
client link without one, and a failed write finds no connection up. -/
def Reports (w : Watched) : TcpEvent → Prop
  | .readError _ => w.sys.link.pHandler = true → w.up = w.sys.link.bPeerLink
  | .writeDone _ status => status < 0 → w.sys.link.pHandler = true → w.up = false
  | _ => True

instance (w : Watched) : ∀ e, Decidable (w.Reports e)
  | .readError _ => inferInstanceAs (Decidable (_ → _))
  | .writeDone _ _ => inferInstanceAs (Decidable (_ → _))
  | .setHandler _ | .connect _ _ _ | .tick _ | .send _ _ | .close | .connectDone _ _ _
  | .connectedReturn _ | .read _ _ | .readAgain _ | .dataReturn _ | .closeReturn => isTrue trivial

/-- The condition says that the errors that end a connection are those that are reported. -/
theorem reports_iff (w : Watched) (e : TcpEvent) : w.Reports e ↔ (w.Loses e ↔ w.sys.CallsOnClose e) := by
  cases e with
  | readError g =>
    simp only [Reports, Loses, TcpSys.CallsOnClose, TcpEvent.isError]
    cases w.up <;> cases w.sys.link.bPeerLink <;> simp
  | writeDone q status =>
    simp only [Reports, Loses, TcpSys.CallsOnClose, TcpEvent.isError]
    cases w.up <;> simp
  | _ => simp [Reports, Loses, TcpSys.CallsOnClose, TcpEvent.isError]

/-- **One step**: a step that can happen keeps the account if and only if it meets
`Reports`. -/
theorem reported_step {w w' : Watched} {e : TcpEvent} (hw : w.Reported) (h : w.step e = some w') :
    w'.Reported ↔ w.Reports e := by
  obtain ⟨s', hstep, rfl⟩ := Option.map_eq_some_iff.mp h
  have hcloses := TcpSys.step_closes hstep
  unfold Reported at hw ⊢
  rw [hcloses, hw, reports_iff]
  by_cases hloses : w.Loses e
  · by_cases hcalls : w.sys.CallsOnClose e
    · simp [hloses, hcalls]
    · simp [hloses, hcalls]
  · by_cases hcalls : w.sys.CallsOnClose e
    · simp [hloses, hcalls]
    · simp [hloses, hcalls]

/-- An accepted link whose peer closes the connection. -/
def endRun : List TcpEvent := [.setHandler true, .read 0 [1], .dataReturn 1, .readError 0, .closeReturn]

/-- A client link loses its connection, connects again and reports the second connection. -/
def lostRun : List TcpEvent :=
  [.setHandler true, .connect "10.0.0.1" 80 0, .connectDone 0 0 0, .connectedReturn 0, .readError 0,
    .tick 0, .connectDone 1 0 0]

/-- A write of an accepted link fails. -/
def failedWriteRun : List TcpEvent := [.setHandler true, .send [1] 0, .writeDone 0 (-104)]

end Watched
end SomoNet
