import SomoNet.ClientLink

/-!
# The sockets of a link

`connect` makes a new handle each time, also on a retry, and puts it in `m_pTcp` whatever was
there before. `close`, `closeError` and a failed write close the handle that is in `m_pTcp`.
So a link has one socket as long as `connect` finds `m_pTcp` empty, and the retry after a
failed attempt or a read error does not.
-/

namespace SomoNet

open Run

namespace Loop

/-- The handle belongs to the link and has not been passed to `uv_close`. -/
def owns (l : Loop) (link : LinkPtr) (h : HandleId) : Bool :=
  (l.tcp h).any fun t => t.isOpen && t.data = link

theorem owns_isOpen {l : Loop} {link : LinkPtr} {h : HandleId} (hown : l.owns link h = true) :
    l.isOpen h = true := by
  unfold owns at hown
  unfold isOpen
  cases htcp : l.tcp h with
  | none =>
    rw [htcp] at hown
    cases hown
  | some t =>
    rw [htcp] at hown
    simp only [Option.any_some, Bool.and_eq_true] at hown
    exact hown.1

theorem owns_tcpInit (l : Loop) (link : LinkPtr) (h : HandleId) :
    (l.tcpInit link).owns link h = (h = l.nextHandle || l.owns link h) := by
  unfold owns tcpInit
  by_cases hh : h = l.nextHandle
  · simp [hh]
  · simp [hh]

theorem owns_uvClose (l : Loop) (link : LinkPtr) (g h : HandleId) :
    (l.uvClose g).owns link h = (h ≠ g && l.owns link h) := by
  unfold owns uvClose
  by_cases hh : h = g
  · subst hh
    cases l.tcp h <;> simp
  · simp [hh]

theorem owns_setReading (l : Loop) (link : LinkPtr) (g : HandleId) (on : Bool) (h : HandleId) :
    (l.setReading g on).owns link h = l.owns link h := by
  unfold owns setReading
  by_cases hh : h = g
  · subst hh
    cases l.tcp h <;> simp
  · simp [hh]

theorem Fresh.not_owns {l : Loop} (hl : l.Fresh) (link : LinkPtr) {h : HandleId}
    (hh : l.nextHandle ≤ h) : l.owns link h = false := by
  unfold owns
  rw [hl.tcp h hh]
  rfl

end Loop

namespace TcpSys

/-- A handle that the link's `connect` created (or that it was accepted on) and that is open. -/
def Socket (s : TcpSys) (h : HandleId) : Prop := s.loop.owns s.link.self h = true

/-! ## What a step does to the sockets -/

/-- The sockets stay as they are. -/
structure KeepsSockets (s s' : TcpSys) : Prop where
  self : s'.link.self = s.link.self
  pTcp : s'.link.pTcp = s.link.pTcp
  socket : ∀ h, s'.Socket h ↔ s.Socket h

/-- A new handle becomes the current one. -/
structure OpensSocket (s s' : TcpSys) : Prop where
  self : s'.link.self = s.link.self
  pTcp : s'.link.pTcp = some s.loop.nextHandle
  socket : ∀ h, s'.Socket h ↔ h = s.loop.nextHandle ∨ s.Socket h

/-- The current handle, if any, is closed. -/
structure ClosesSocket (s s' : TcpSys) : Prop where
  self : s'.link.self = s.link.self
  pTcp : s'.link.pTcp = none
  socket : ∀ h, s'.Socket h ↔ s.link.pTcp ≠ some h ∧ s.Socket h

theorem KeepsSockets.of_owns {s s' : TcpSys} (hself : s'.link.self = s.link.self)
    (htcp : s'.link.pTcp = s.link.pTcp)
    (howns : ∀ h, s'.loop.owns s.link.self h = s.loop.owns s.link.self h) : KeepsSockets s s' := by
  refine ⟨hself, htcp, fun h => ?_⟩
  unfold Socket
  rw [hself, howns]

theorem KeepsSockets.closes {s t s' : TcpSys} (h : KeepsSockets s t) (h' : ClosesSocket t s') :
    ClosesSocket s s' where
  self := h'.self.trans h.self
  pTcp := h'.pTcp
  socket g := by rw [h'.socket, h.pTcp, h.socket]

theorem opensSocket_connect (s : TcpSys) (ip : String) (port : UInt16) (r : ℤ) :
    OpensSocket s (s.connect ip port r).1 := by
  have hlink := s.connect_link ip port r
  refine ⟨by rw [hlink], by rw [hlink], fun h => ?_⟩
  have howns : (s.connect ip port r).1.loop.owns s.link.self h =
      (s.loop.tcpInit s.link.self).owns s.link.self h := by
    rw [connect_loop]
    split <;> rfl
  unfold Socket
  rw [hlink, howns, Loop.owns_tcpInit]
  simp

/-- The loop has closed the handle that was in `m_pTcp`. -/
theorem ClosesSocket.of_loop {s s' : TcpSys} (hself : s'.link.self = s.link.self)
    (htcp : s'.link.pTcp = none)
    (hloop : s'.loop = match s.link.pTcp with
      | some h => s.loop.uvClose h
      | none => s.loop) : ClosesSocket s s' := by
  refine ⟨hself, htcp, fun h => ?_⟩
  unfold Socket
  rw [hself, hloop]
  cases hcur : s.link.pTcp with
  | none => simp
  | some g =>
    simp only [Loop.owns_uvClose, Option.some.injEq, ne_eq, Bool.and_eq_true, decide_eq_true_eq]
    rw [eq_comm]

theorem closesSocket_shut (s : TcpSys) : ClosesSocket s s.shut :=
  .of_loop (by rw [shut_link]) (by rw [shut_link]) s.shut_loop

theorem keepsSockets_connectedTail (s : TcpSys) (r : ℤ) : KeepsSockets s (s.connectedTail r) := by
  have hlink := s.connectedTail_link r
  refine .of_owns (by rw [hlink]) (by rw [hlink]) fun h => ?_
  rw [connectedTail_loop]
  split
  · split
    · exact Loop.owns_setReading _ _ _ _ _
    · rfl
  · rfl

theorem keepsSockets_send (s : TcpSys) (data : List UInt8) (r : ℤ) :
    KeepsSockets s (s.send data r).1 := by
  obtain ⟨t, ht⟩ := s.send_link data r
  refine .of_owns (by rw [ht]) (by rw [ht]) fun h => ?_
  have hout := s.send_outcome data r
  generalize s.send data r = res at hout ⊢
  rcases hout with _ | _ | _ | _ <;> rfl

/-- The step is a call of `connect`, by the user or by `on_timer`. -/
def Connects (s : TcpSys) : TcpEvent → Prop
  | .connect _ _ _ => True
  | .tick _ => s.link.bConnected = false ∧ s.link.bConnecting = false
  | _ => False

instance (s : TcpSys) : ∀ e, Decidable (s.Connects e)
  | .connect _ _ _ => isTrue trivial
  | .tick _ => inferInstanceAs (Decidable (_ ∧ _))
  | .setHandler _ | .send _ _ | .close | .connectDone _ _ _ | .connectedReturn _ | .read _ _
  | .readAgain _ | .readError _ | .dataReturn _ | .closeReturn | .writeDone _ _ => isFalse not_false

/-- What a step does to the sockets of the link. -/
inductive SocketMove (s : TcpSys) (e : TcpEvent) (s' : TcpSys) : Prop
  | keeps (hconnects : ¬ s.Connects e) (hclose : e ≠ .close) (hkeeps : KeepsSockets s s')
  | opens (hconnects : s.Connects e) (hopens : OpensSocket s s')
  | closes (hconnects : ¬ s.Connects e) (hcloses : ClosesSocket s s')

theorem step_sockets {s s' : TcpSys} {e : TcpEvent} (h : s.step e = some s') :
    SocketMove s e s' := by
  cases step_case h with
  | setHandler handler => exact .keeps not_false (by simp) (.of_owns rfl rfl fun _ => rfl)
  | connect ip port r =>
    have hopens := opensSocket_connect { s with link := { s.link with asked := true } } ip port r
    exact .opens trivial ⟨hopens.self, hopens.pTcp, hopens.socket⟩
  | send data r => exact .keeps not_false (by simp) (keepsSockets_send s data r)
  | close =>
    have hcloses := closesSocket_shut { s with link := { s.link with asked := false } }
    exact .closes not_false ⟨hcloses.self, hcloses.pTcp, hcloses.socket⟩
  | @connectDone q g status r hreq hidle hstatus =>
    -- the handle that was opened by `connect` stays the link's, connected or not
    refine .keeps not_false (by simp) ?_
    by_cases hneg : status < 0
    · rw [onConnect_failed s q r hneg]
      exact .of_owns rfl rfl fun _ => rfl
    by_cases hh : s.link.pHandler = true
    · rw [onConnect_handler s q r hneg hh]
      exact .of_owns rfl rfl fun _ => rfl
    · rw [onConnect_noHandler s q r hneg hh]
      have htail := keepsSockets_connectedTail
        { link := { s.link with bConnecting := false, bConnected := true }
          loop := s.loop.finish q } r
      exact ⟨htail.self, htail.pTcp, htail.socket⟩
  | connectedReturn r hframe =>
    have htail := keepsSockets_connectedTail { s with link := { s.link with frame := .idle } } r
    exact .keeps not_false (by simp) ⟨htail.self, htail.pTcp, htail.socket⟩
  | @read g seg hidle hreads hne hlen =>
    refine .keeps not_false (by simp) (.of_owns ?_ ?_ fun h => ?_)
    · rw [onRead_link s hlen]
    · rw [onRead_link s hlen]
    · rw [onRead_loop]
      rfl
  | readAgain => exact .keeps not_false (by simp) (.of_owns rfl rfl fun _ => rfl)
  | @readError g hidle hreads =>
    -- the handle stops reading; only `closeError` without a handler closes it at once
    have hread : KeepsSockets s { s with loop := s.loop.setReading g false } :=
      .of_owns rfl rfl fun _ => Loop.owns_setReading _ _ _ _ _
    unfold onReadError
    dsimp only
    split
    · exact .keeps not_false (by simp) ⟨hread.self, hread.pTcp, hread.socket⟩
    · unfold closeError
      split
      · exact .keeps not_false (by simp) ⟨hread.self, hread.pTcp, hread.socket⟩
      · exact .closes not_false (hread.closes (closesSocket_shut _))
  | @dataReturn c hframe =>
    refine .keeps not_false (by simp) (.of_owns ?_ ?_ fun h => ?_)
    · rw [dataReturn_link]
    · rw [dataReturn_link]
    · rw [dataReturn_loop]
  | closeReturn hframe =>
    have hcloses := closesSocket_shut { s with link := { s.link with frame := .idle } }
    exact .closes not_false ⟨hcloses.self, hcloses.pTcp, hcloses.socket⟩
  | @writeDone q g mem len payload status hreq hidle hstatus =>
    -- the request is done; after an error `close` follows
    have hdone : KeepsSockets s { s with loop := afterWrite s.loop q mem } :=
      .of_owns rfl rfl fun _ => rfl
    by_cases hneg : status < 0
    · rw [onWrite_failed s q mem hneg]
      have hcloses := hdone.closes (closesSocket_shut _)
      refine .closes not_false ?_
      split
      · exact ⟨hcloses.self, hcloses.pTcp, hcloses.socket⟩
      · exact hcloses
    · rw [onWrite_done s q mem hneg]
      exact .keeps not_false (by simp) hdone
  | tick r hidle htimer =>
    by_cases hretry : s.link.bConnected = false ∧ s.link.bConnecting = false
    · rw [onTimer_retry s r hretry]
      exact .opens hretry (opensSocket_connect s _ _ r)
    · rw [onTimer_busy s r hretry]
      exact .keeps hretry (by simp) (.of_owns rfl rfl fun _ => rfl)

/-! ## One socket at a time -/

structure SocketInv (s : TcpSys) : Prop where
  fresh : s.loop.Fresh
  current : ∀ h, s.link.pTcp = some h → s.Socket h

/-- An identity that is not in use yet is no socket's. -/
theorem SocketInv.lt_next {s : TcpSys} (hs : SocketInv s) {g : HandleId} (hg : s.Socket g) :
    g < s.loop.nextHandle := by
  by_contra hge
  have hno := hs.fresh.not_owns s.link.self (not_lt.mp hge)
  exact absurd (hno.symm.trans hg) Bool.false_ne_true

theorem SocketInv.isOpen {s : TcpSys} (hs : SocketInv s) {h : HandleId}
    (hcur : s.link.pTcp = some h) : s.loop.isOpen h = true :=
  Loop.owns_isOpen (hs.current h hcur)

theorem socketInv_client (self : LinkPtr) {loop : Loop} (hloop : loop.Fresh) :
    SocketInv (client self loop) := by
  refine ⟨hloop, fun h hh => ?_⟩
  cases hh

theorem socketInv_accepted (self : LinkPtr) {loop : Loop} (hloop : loop.Fresh) :
    SocketInv (accepted self loop) := by
  refine ⟨(hloop.tcpInit self).setReading _ _, fun h hh => ?_⟩
  have hnext : loop.nextHandle = h := Option.some_injective _ hh
  show ((loop.tcpInit self).setReading loop.nextHandle true).owns self h = true
  rw [Loop.owns_setReading, Loop.owns_tcpInit, hnext]
  simp

/-- No socket of the link has got lost. -/
def OnlyCurrent (s : TcpSys) : Prop := ∀ h, s.Socket h → s.link.pTcp = some h

/-- The handle in `m_pTcp` is a socket of the link after a step too. -/
theorem SocketMove.socketInv {s s' : TcpSys} {e : TcpEvent} (hmove : SocketMove s e s')
    (hs : SocketInv s) (hfresh : s'.loop.Fresh) : SocketInv s' := by
  refine ⟨hfresh, fun g hg => ?_⟩
  cases hmove with
  | keeps _ _ hkeeps =>
    rw [hkeeps.pTcp] at hg
    exact (hkeeps.socket g).mpr (hs.current g hg)
  | opens _ hopens =>
    rw [hopens.pTcp] at hg
    exact (hopens.socket g).mpr (Or.inl (Option.some.inj hg).symm)
  | closes _ hcloses =>
    rw [hcloses.pTcp] at hg
    cases hg

theorem socketInv_step : Invariant step SocketInv := by
  intro s e s' hs h
  exact (step_sockets h).socketInv hs (fresh_step hs.fresh h)

/-- `connect` finds no handle in `m_pTcp`. -/
def ConnectsEmpty (s : TcpSys) (e : TcpEvent) : Prop := s.Connects e → s.link.pTcp = none

instance (s : TcpSys) (e : TcpEvent) : Decidable (s.ConnectsEmpty e) :=
  inferInstanceAs (Decidable (_ → _))

/-- Without a `connect` no socket gets lost, and `m_pTcp` is not set. -/
theorem SocketMove.onlyCurrent {s s' : TcpSys} {e : TcpEvent} (hmove : SocketMove s e s')
    (hnot : ¬ s.Connects e) (honly : OnlyCurrent s) :
    OnlyCurrent s' ∧ (s'.link.pTcp ≠ none → s.link.pTcp ≠ none) := by
  cases hmove with
  | keeps _ _ hkeeps =>
    rw [← hkeeps.pTcp]
    refine ⟨fun g hg => ?_, id⟩
    rw [hkeeps.pTcp]
    exact honly g ((hkeeps.socket g).mp hg)
  | opens hconnects => exact absurd hconnects hnot
  | closes _ hcloses =>
    refine ⟨fun g hg => ?_, fun hne => absurd hcloses.pTcp hne⟩
    obtain ⟨hother, hsocket⟩ := (hcloses.socket g).mp hg
    exact absurd (honly g hsocket) hother

/-- **One step**: a step that can happen loses no socket if and only if it does not call
`connect` over a handle. -/
theorem onlyCurrent_step {s s' : TcpSys} {e : TcpEvent} (hs : SocketInv s) (honly : OnlyCurrent s)
    (h : s.step e = some s') : OnlyCurrent s' ↔ s.ConnectsEmpty e := by
  have hmove := step_sockets h
  by_cases hconnects : s.Connects e
  · cases hmove with
    | keeps hnot => exact absurd hconnects hnot
    | closes hnot => exact absurd hconnects hnot
    | opens _ hopens =>
      constructor
      · intro hnew _
        by_contra hne
        obtain ⟨g, hg⟩ := Option.ne_none_iff_exists'.mp hne
        have hsocket := hs.current g hg
        have hcurrent := hnew g ((hopens.socket g).mpr (Or.inr hsocket))
        rw [hopens.pTcp] at hcurrent
        -- the handle in `m_pTcp` would be the one that has just been made
        exact absurd (Option.some.inj hcurrent) (hs.lt_next hsocket).ne'
      · intro hempty g hg
        rw [hopens.pTcp]
        rcases (hopens.socket g).mp hg with rfl | hsocket
        · rfl
        · have hnone := hempty hconnects
          rw [honly g hsocket] at hnone
          cases hnone
  · exact iff_of_true (hmove.onlyCurrent hconnects honly).1 fun hc => absurd hc hconnects

/-- At most one handle of the link is open. -/
def OneSocket (s : TcpSys) : Prop := ∀ h h', s.Socket h → s.Socket h' → h = h'

/-- After `close` no handle of the link is open. -/
def CloseLeavesNone (_s : TcpSys) (e : TcpEvent) (s' : TcpSys) : Prop :=
  e = .close → ∀ h, ¬ s'.Socket h

theorem OnlyCurrent.oneSocket {s : TcpSys} (h : OnlyCurrent s) : OneSocket s := by
  intro g g' hg hg'
  have hcurrent := h g hg
  rw [h g' hg'] at hcurrent
  exact (Option.some.inj hcurrent).symm

/-- As long as there is one socket, it is the current one. -/
theorem onlyCurrent_of_oneSocket {s s' : TcpSys} {e : TcpEvent} (honly : OnlyCurrent s)
    (h : s.step e = some s') (hone : OneSocket s') : OnlyCurrent s' := by
  have hmove := step_sockets h
  by_cases hconnects : s.Connects e
  · cases hmove with
    | keeps hnot => exact absurd hconnects hnot
    | closes hnot => exact absurd hconnects hnot
    | opens _ hopens =>
      intro g hg
      rw [hopens.pTcp, hone g s.loop.nextHandle hg ((hopens.socket _).mpr (Or.inl rfl))]
  · exact (hmove.onlyCurrent hconnects honly).1

theorem closeLeavesNone_step {s s' : TcpSys} {e : TcpEvent} (honly : OnlyCurrent s)
    (h : s.step e = some s') : CloseLeavesNone s e s' := by
  rintro rfl g hg
  cases step_sockets h with
  | keeps _ hclose _ => exact hclose rfl
  | opens hconnects _ => exact hconnects
  | closes _ hcloses =>
    obtain ⟨hne, hsocket⟩ := (hcloses.socket g).mp hg
    exact hne (honly g hsocket)

/-- **Sockets of a client link.** In every state of a run at most one of the link's handles is
open, and none after a `close`, if and only if `connect` is never called over a handle. -/
theorem one_socket_iff (self : LinkPtr) {loop : Loop} (hloop : loop.Fresh)
    (hnew : ∀ h, loop.owns self h = false) (es : List TcpEvent) :
    Always step OneSocket (client self loop) es ∧
        EachMove step CloseLeavesNone (client self loop) es ↔
      EachStep step ConnectsEmpty (client self loop) es := by
  have hstart : OnlyCurrent (client self loop) := by
    intro h hh
    cases (hnew h).symm.trans hh
  rw [← always_iff_eachStep socketInv_step
    (fun s e s' hs hP h => onlyCurrent_step hs hP h) (socketInv_client self hloop)
    hstart es]
  constructor
  · intro ⟨hone, _⟩
    exact hone.strengthen (I := fun _ => True) (fun _ _ _ _ _ => trivial)
      (fun s e s' _ hP h hQ => onlyCurrent_of_oneSocket hP h hQ) trivial hstart
  · intro honly
    refine ⟨honly.mono fun s => OnlyCurrent.oneSocket, EachMove.of_always ?_ honly⟩
    intro s e s' hP h
    exact closeLeavesNone_step hP h

/-- A write fails, the link closes its socket and connects again. -/
def writeErrorRun : List TcpEvent :=
  [.connect "10.0.0.1" 80 0, .connectDone 0 0 0, .send [1] 0, .writeDone 1 (-104), .tick 0, .close]

theorem one_socket_writeErrorRun :
    Always step OneSocket (client 0 Loop.new) writeErrorRun ∧
      EachMove step CloseLeavesNone (client 0 Loop.new) writeErrorRun :=
  (one_socket_iff 0 Loop.fresh_new (fun _ => rfl) writeErrorRun).mpr (by decide +kernel)

/-- The first attempt fails, and the timer makes the next one. -/
def retryRun : List TcpEvent := [.connect "10.0.0.1" 80 0, .connectDone 0 (-111) 0, .tick 0]

/-- The handle of the failed attempt is still open. -/
theorem not_one_socket_retryRun : ¬ Always step OneSocket (client 0 Loop.new) retryRun := by
  intro h
  have hlast : OneSocket _ := h.last rfl
  cases hlast 0 1 rfl rfl

end TcpSys
end SomoNet
