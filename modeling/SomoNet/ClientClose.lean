import SomoNet.ClientLink

/-!
# Closing a client link

`close` closes the current handle and stops the timer. Whether that is final depends on
what is still out: `on_write` arms the timer again for every failed write, also for those
that `close` itself has cancelled, and handles that `connect` replaced are not closed at
all (`Quiet`).

The same branch of `on_write` closes the link's *current* handle, on whichever handle the
write was issued. The last section says what a write of an earlier connection does to the
one that replaced it.
-/

namespace SomoNet

open Run

/-- The user calls `connect`. -/
def TcpEvent.isConnect : TcpEvent → Bool
  | .connect _ _ _ => true
  | _ => false

/-- A connection attempt is started, or the handler is told of a connection. -/
def Obs.isAttempt : Obs → Bool
  | .tcpConnect _ _ => true
  | .onConnected => true
  | _ => false

namespace TcpSys

/-! ## A link that will stay closed -/

/-- Nothing is left that libuv could wake the link with, other than the cancellation of a
connect request. -/
structure Silent (s : TcpSys) : Prop where
  client : s.link.bPeerLink = false
  noClose : s.link.frame ≠ .inClose
  noTcp : s.link.pTcp = none
  noTimer : s.link.timerActive = false
  noWrite : ∀ q h mem len payload, s.loop.reqs q ≠ some (.write s.link.self h mem len payload)
  closedConnect : ∀ q h, s.loop.reqs q = some (.connect s.link.self h) → s.loop.isOpen h = false
  noRead : ∀ h, ¬ s.Reads h

/-- The link goes on from `l` to `l'` without a connection attempt. -/
def NoAttempt (l l' : TcpLink) : Prop :=
  ∃ os, l'.trace = l.trace ++ os ∧ ∀ o ∈ os, o.isAttempt = false

theorem noAttempt_refl (l : TcpLink) : NoAttempt l l := ⟨[], by simp, by simp⟩

/-- `shut` on a link without a handle. -/
theorem shut_noTcp {s : TcpSys} (h : s.link.pTcp = none) :
    s.shut =
      { s with
        link :=
          { s.link with
            bConnected := false
            pTcp := none
            timerActive := false
            trace := s.link.trace ++ [.timerStop] } } := by
  have hlink := s.shut_link
  have hloop := s.shut_loop
  rw [h] at hlink hloop
  calc s.shut = ⟨s.shut.link, s.shut.loop⟩ := rfl
    _ = _ := by rw [hlink, hloop]; simp

theorem connectedTail_noTcp {s : TcpSys} (h : s.link.pTcp = none) (r : ℤ) :
    s.connectedTail r =
      { s with
        link :=
          { s.link with
            timerActive := false
            trace := s.link.trace ++ [.timerStop] ++ [.readStart none r] } } := by
  have hlink := s.connectedTail_link r
  have hloop := s.connectedTail_loop r
  rw [h] at hlink hloop
  calc s.connectedTail r = ⟨(s.connectedTail r).link, (s.connectedTail r).loop⟩ := rfl
    _ = _ := by rw [hlink, hloop]

/-- **A silent link stays silent** until the user calls `connect`. -/
theorem silent_step {s s' : TcpSys} {e : TcpEvent} (hs : Silent s) (he : e.isConnect = false)
    (h : s.step e = some s') : Silent s' ∧ NoAttempt s.link s'.link := by
  cases step_case h with
  | setHandler handler =>
    exact ⟨⟨hs.client, hs.noClose, hs.noTcp, hs.noTimer, hs.noWrite, hs.closedConnect, hs.noRead⟩,
      noAttempt_refl _⟩
  | connect => cases he
  | send data r =>
    have hsend : (s.send data r).1 = s := by simp [send, hs.noTcp]
    rw [hsend]
    exact ⟨hs, noAttempt_refl _⟩
  | close =>
    rw [@shut_noTcp { s with link := { s.link with asked := false } } hs.noTcp]
    exact ⟨⟨hs.client, hs.noClose, rfl, rfl, hs.noWrite, hs.closedConnect, hs.noRead⟩,
      [.timerStop], rfl, by simp [Obs.isAttempt]⟩
  | @connectDone q g status r hreq hidle hstatus =>
    -- the handle is closed, so all that can come is the cancellation
    have hopen := hs.closedConnect q g hreq
    have hneg : status < 0 := by
      rcases hstatus with hop | hcancel
      · rw [hopen] at hop
        cases hop
      · rw [hcancel]
        decide
    rw [onConnect_failed s q r hneg]
    refine ⟨⟨hs.client, hs.noClose, hs.noTcp, hs.noTimer, ?_, ?_, hs.noRead⟩, noAttempt_refl _⟩
    · intro q' g' mem len payload hq'
      exact hs.noWrite q' g' mem len payload (Loop.finish_eq_some.mp hq').2
    · intro q' g' hq'
      exact hs.closedConnect q' g' (Loop.finish_eq_some.mp hq').2
  | connectedReturn r hframe =>
    rw [connectedReturn,
      @connectedTail_noTcp { s with link := { s.link with frame := .idle } } hs.noTcp r]
    refine ⟨⟨hs.client, ?_, hs.noTcp, rfl, hs.noWrite, hs.closedConnect, hs.noRead⟩,
      [.timerStop, .readStart none r], by simp, by simp [Obs.isAttempt]⟩
    intro hf
    cases hf
  | read hidle hreads => exact absurd hreads (hs.noRead _)
  | readAgain => exact ⟨hs, noAttempt_refl _⟩
  | readError hidle hreads => exact absurd hreads (hs.noRead _)
  | dataReturn c hframe =>
    have hlink := s.dataReturn_link c
    have hloop := s.dataReturn_loop c
    generalize s.dataReturn c = s' at hlink hloop ⊢
    obtain ⟨link', loop'⟩ := s'
    cases hlink
    cases hloop
    refine ⟨⟨hs.client, ?_, hs.noTcp, hs.noTimer, hs.noWrite, hs.closedConnect, hs.noRead⟩,
      [.handled c], rfl, by simp [Obs.isAttempt]⟩
    intro hf
    cases hf
  | closeReturn hframe => exact absurd hframe hs.noClose
  | writeDone hreq => exact absurd hreq (hs.noWrite _ _ _ _ _)
  | tick r hidle htimer =>
    rw [hs.noTimer] at htimer
    cases htimer

/-- What `close` promises of every later state, `n` observations having been made at the
close: the timer is off, no attempt was started and no connection reported. -/
def StaysClosed (n : ℕ) (s : TcpSys) : Prop :=
  s.link.timerActive = false ∧ ∀ o ∈ s.link.trace.drop n, o.isAttempt = false

theorem staysClosed_of_silent {s : TcpSys} (hs : Silent s) {es : List TcpEvent}
    (hes : ∀ e ∈ es, e.isConnect = false) :
    Always step (StaysClosed s.link.trace.length) s es := by
  have hrun := @EachStep.always TcpSys TcpEvent step (fun _ => True)
    (fun t => Silent t ∧ NoAttempt s.link t.link) (fun _ e => e.isConnect = false)
    (fun _ _ _ _ _ => trivial) (fun t e t' _ hP he h => ?_) s trivial
    ⟨hs, noAttempt_refl _⟩ es (EachStep.of_mem hes s)
  · apply hrun.mono
    rintro t ⟨ht, os, htr, hos⟩
    refine ⟨ht.noTimer, ?_⟩
    rw [htr, List.drop_left]
    exact hos
  · obtain ⟨ht, os, htr, hos⟩ := hP
    obtain ⟨ht', os', htr', hos'⟩ := silent_step ht he h
    refine ⟨ht', os ++ os', by rw [htr', htr, List.append_assoc], ?_⟩
    intro o ho
    rcases List.mem_append.mp ho with ho | ho
    · exact hos o ho
    · exact hos' o ho

/-! ## When `close` is final -/

/-- Before the close, no write of the link is pending, and every other handle of the link
is out of use: no connect request is pending on it while it is open, and it is not being
read. -/
structure Quiet (s : TcpSys) : Prop where
  noWrite : ∀ q h mem len payload, s.loop.reqs q ≠ some (.write s.link.self h mem len payload)
  connects : ∀ q h, s.loop.reqs q = some (.connect s.link.self h) →
    s.link.pTcp = some h ∨ s.loop.isOpen h = false
  reads : ∀ h, s.Reads h → s.link.pTcp = some h

/-- The state after the user's `close`. -/
def afterClose (s : TcpSys) : TcpSys := { s with link := { s.link with asked := false } }.shut

theorem afterClose_link (s : TcpSys) :
    s.afterClose.link =
      { s.link with
        asked := false
        bConnected := false
        pTcp := none
        timerActive := false
        trace := s.link.trace ++ (s.link.pTcp.toList.map .uvClose) ++ [.timerStop] } := by
  rw [afterClose, shut_link]

theorem reqs_afterClose (s : TcpSys) : s.afterClose.loop.reqs = s.loop.reqs :=
  reqs_shut _

/-- `close` closes the current handle and no other. -/
theorem isOpen_afterClose (s : TcpSys) (h : HandleId) :
    s.afterClose.loop.isOpen h = if s.link.pTcp = some h then false else s.loop.isOpen h := by
  rw [afterClose, shut_loop]
  cases htcp : s.link.pTcp with
  | none => simp
  | some g =>
    by_cases hg : g = h
    · subst hg
      simp [Loop.isOpen_uvClose_self]
    · simp [hg, Loop.isOpen_uvClose_of_ne _ (Ne.symm hg)]

theorem reads_afterClose (s : TcpSys) (h : HandleId) :
    s.afterClose.Reads h ↔ s.Reads h ∧ s.link.pTcp ≠ some h :=
  reads_of_close (by rw [afterClose_link]) (by rw [afterClose, shut_loop]) h

/-- A quiet link is silent once it is closed. -/
theorem silent_afterClose {s : TcpSys} (hs : ClientInv s) (hq : Quiet s) : Silent s.afterClose := by
  have hreqs := s.reqs_afterClose
  have hlink := s.afterClose_link
  constructor
  · rw [hlink]
    exact hs.client
  · rw [hlink]
    exact hs.noClose
  · rw [hlink]
  · rw [hlink]
  · rw [hlink, hreqs]
    exact hq.noWrite
  · rw [hlink, hreqs]
    intro q h hreq
    rw [isOpen_afterClose]
    rcases hq.connects q h hreq with hp | hp
    · rw [if_pos hp]
    · rw [hp, ite_self]
  · intro h hreads
    obtain ⟨hr, hne⟩ := (reads_afterClose s h).mp hreads
    exact hne (hq.reads h hr)

/-- The link lets a running handler callback return, which changes nothing but the trace. -/
theorem settle {s : TcpSys} (hs : ClientInv s) (hnone : s.link.pTcp = none) :
    ∃ es t, exec step s es = some t ∧ (∀ e ∈ es, e.isConnect = false) ∧ t.link.frame = .idle ∧
      t.loop = s.loop ∧ t.link.self = s.link.self ∧ t.link.bPeerLink = false ∧
      ∃ os, t.link.trace = s.link.trace ++ os := by
  cases hframe : s.link.frame with
  | idle =>
    refine ⟨[], s, rfl, by simp, hframe, rfl, rfl, hs.client, [], by simp⟩
  | inConnected =>
    have htail := @connectedTail_noTcp { s with link := { s.link with frame := .idle } } hnone 0
    refine ⟨[.connectedReturn 0], s.connectedReturn 0, ?_, by simp [TcpEvent.isConnect], ?_⟩
    · simp [exec_cons, step, hframe]
    · rw [connectedReturn, htail]
      exact ⟨rfl, rfl, rfl, hs.client, _, List.append_assoc _ _ _⟩
  | inData =>
    have hlink := s.dataReturn_link 0
    refine ⟨[.dataReturn 0], s.dataReturn 0, ?_, by simp [TcpEvent.isConnect], ?_⟩
    · simp [exec_cons, step, hframe]
    · rw [hlink, dataReturn_loop]
      exact ⟨rfl, rfl, rfl, hs.client, _, rfl⟩
  | inClose => exact absurd hframe hs.noClose

/-- If every run from a closed link leaves it closed, the link was quiet. -/
theorem quiet_of_staysClosed {s : TcpSys} (hs : ClientInv s)
    (hall : ∀ es : List TcpEvent, (∀ e ∈ es, e.isConnect = false) →
      Always step (StaysClosed s.afterClose.link.trace.length) s.afterClose es) : Quiet s := by
  have hclosed : ClientInv s.afterClose := clientInv_step s .close _ hs rfl
  have hnone : s.afterClose.link.pTcp = none := by rw [afterClose_link]
  have hself : s.afterClose.link.self = s.link.self := by rw [afterClose_link]
  obtain ⟨es, t, hes, hnc, hidle, hloop, htself, hpeer, os, htrace⟩ := settle hclosed hnone
  rw [hself] at htself
  have hreqs : t.loop.reqs = s.loop.reqs := by rw [hloop, reqs_afterClose]
  -- one more event from `t` still leaves the link closed
  have hnext : ∀ es' u, exec step t es' = some u → (∀ e ∈ es', e.isConnect = false) →
      StaysClosed s.afterClose.link.trace.length u := by
    intro es' u hu hnc'
    have hrun : exec step s.afterClose (es ++ es') = some u := by
      rw [exec_append, hes]
      exact hu
    apply (hall (es ++ es') ?_).last hrun
    intro e he
    rcases List.mem_append.mp he with he | he
    · exact hnc e he
    · exact hnc' e he
  constructor
  · -- the cancellation of a pending write arms the timer
    intro q h mem len payload hreq
    rw [← hreqs, ← htself] at hreq
    have hstep : t.step (.writeDone q UV_ECANCELED) = some (t.onWrite q mem UV_ECANCELED) := by
      simp [step, hreq, hidle, WriteStatusOk, StatusOk]
    have hu := hnext [.writeDone q UV_ECANCELED] _ (by rw [exec_cons, hstep]; rfl)
      (by simp [TcpEvent.isConnect])
    rw [onWrite_failed_client t q mem (by decide) hpeer] at hu
    cases hu.1
  · -- a connect request on an open handle succeeds
    intro q h hreq
    by_contra hcon
    rw [not_or] at hcon
    have hopen : t.loop.isOpen h = true := by
      rw [hloop, isOpen_afterClose, if_neg hcon.1]
      simpa using hcon.2
    rw [← hreqs, ← htself] at hreq
    have hset : t.step (.setHandler true) = some { t with link := { t.link with pHandler := true } } :=
      rfl
    have hdone : step { t with link := { t.link with pHandler := true } } (.connectDone q 0 0) =
        some (onConnect { t with link := { t.link with pHandler := true } } q 0 0) := by
      simp [step, hreq, hidle, StatusOk, hopen]
    have hu := hnext [.setHandler true, .connectDone q 0 0] _
      (by rw [exec_cons, hset, Option.bind_some, exec_cons, hdone]; rfl)
      (by simp [TcpEvent.isConnect])
    rw [onConnect_handler _ q 0 (by decide) rfl] at hu
    have hmem : Obs.onConnected ∈ (t.link.trace ++ [Obs.onConnected]).drop
        s.afterClose.link.trace.length := by
      rw [htrace, List.append_assoc, List.drop_left]
      simp
    cases hu.2 _ hmem
  · -- a handle that is still read reports an error, which arms the timer
    intro h hreads
    by_contra hcon
    have hread : t.Reads h := by
      have hr := (reads_afterClose s h).mpr ⟨hreads, hcon⟩
      unfold Reads at hr ⊢
      rw [hloop, htself, ← hself]
      exact hr
    have hstep : t.step (.readError h) = some (t.onReadError h) := by
      simp [step, hidle, hread]
    have hu := hnext [.readError h] _ (by rw [exec_cons, hstep]; rfl) (by simp [TcpEvent.isConnect])
    rw [onReadError_client t h hpeer] at hu
    cases hu.1

/-- **`close` is final** for a reachable state of a client link, over every run that
follows without a `connect` of the user, if and only if the link was quiet. -/
theorem close_final_iff {self : LinkPtr} {loop : Loop} (hloop : loop.Fresh) {s s' : TcpSys}
    (hs : Reaches step (client self loop) s) (hclose : s.step .close = some s') :
    (∀ es : List TcpEvent, (∀ e ∈ es, e.isConnect = false) →
      Always step (StaysClosed s'.link.trace.length) s' es) ↔ Quiet s := by
  have hinv : ClientInv s := clientInv_step.reaches (clientInv_client self hloop) hs
  have hs' : s' = s.afterClose := by
    cases hclose
    rfl
  rw [hs']
  constructor
  · intro hall
    exact quiet_of_staysClosed hinv hall
  · intro hq es hes
    exact staysClosed_of_silent (silent_afterClose hinv hq) hes

/-- The peer resets a connection with one write pending, the link connects again, and the write
completes. Nothing reads the handle of the first connection any more, which is still open. -/
def reconnectedRun : List TcpEvent :=
  [.connect "10.0.0.1" 80 0, .connectDone 0 0 0, .send [1] 0, .readError 0, .tick 0,
    .connectDone 2 0 0, .writeDone 1 0]

theorem close_final_iff_reconnectedRun :
    ∃ s s', exec step (client 0 Loop.new) reconnectedRun = some s ∧ s.step .close = some s' ∧
      s.link.pTcp = some 1 ∧ s.loop.isOpen 0 = true ∧
      ∀ es : List TcpEvent, (∀ e ∈ es, e.isConnect = false) →
        Always step (StaysClosed s'.link.trace.length) s' es := by
  have hrun : Reaches step (client 0 Loop.new) _ := ⟨reconnectedRun, rfl⟩
  refine ⟨_, _, rfl, rfl, rfl, rfl,
    (close_final_iff Loop.fresh_new hrun rfl).mpr ⟨?_, ?_, ?_⟩⟩
  · intro q h mem len payload hreq
    match q with
    | 0 | 1 | 2 | _ + 3 => cases hreq
  · intro q h hreq
    match q with
    | 0 | 1 | 2 | _ + 3 => cases hreq
  · intro h hreads
    match h with
    | 0 | _ + 2 => cases hreads.1
    | 1 => rfl

/-- The user closes a connection with one write pending. -/
def closeRun : List TcpEvent :=
  [.connect "10.0.0.1" 80 0, .connectDone 0 0 0, .send [1] 0, .close]

/-- The cancelled write arms the timer, and the next tick connects again. -/
theorem not_close_final_closeRun :
    ∃ s, exec step (client 0 Loop.new) closeRun = some s ∧
      ¬ Always step (StaysClosed s.link.trace.length) s
        [.writeDone 1 UV_ECANCELED, .tick 0] := by
  refine ⟨_, rfl, ?_⟩
  intro h
  have hfirst : StaysClosed _ _ := (h.2 _ rfl).head
  cases hfirst.1

/-! ## Writes of an earlier connection -/

/-- The event completes a write of the link on a handle that is not its current one. -/
def StaleWrite (s : TcpSys) : TcpEvent → Prop
  | .writeDone q _ => ∃ h mem len payload,
      s.loop.reqs q = some (.write s.link.self h mem len payload) ∧ s.link.pTcp ≠ some h
  | _ => False

/-- A stale completion leaves `m_bConnected`, `m_pTcp` and the current handle as they are. -/
def StaleHarmless (s : TcpSys) (e : TcpEvent) (s' : TcpSys) : Prop :=
  s.StaleWrite e → s'.link.bConnected = s.link.bConnected ∧ s'.link.pTcp = s.link.pTcp ∧
    ∀ h, s.link.pTcp = some h → s'.loop.isOpen h = s.loop.isOpen h

/-- A stale completion reports success, or finds a link that is not connected and has no
handle. -/
def StaleSpared (s : TcpSys) (e : TcpEvent) : Prop :=
  s.StaleWrite e → ∀ q status, e = .writeDone q status →
    0 ≤ status ∨ s.link.pTcp = none ∧ s.link.bConnected = false

theorem staleHarmless_iff {s s' : TcpSys} {e : TcpEvent} (hs : ClientInv s)
    (h : s.step e = some s') : StaleHarmless s e s' ↔ StaleSpared s e := by
  by_cases hstale : s.StaleWrite e
  swap
  · exact ⟨fun _ h => absurd h hstale, fun _ h => absurd h hstale⟩
  cases step_case h with
  | @writeDone q g mem len payload status hreq hidle hstatus =>
    by_cases hneg : status < 0
    · -- `on_write` closes the link, so the link must have been closed already
      have hlink : (s.onWrite q mem status).link.bConnected = false ∧
          (s.onWrite q mem status).link.pTcp = none := by
        rw [onWrite_failed_client s q mem hneg hs.client, timerStart_link, shut_link]
        exact ⟨rfl, rfl⟩
      constructor
      · intro hharm _ _ _ _
        obtain ⟨hc, hp, -⟩ := hharm hstale
        exact Or.inr ⟨hp.symm.trans hlink.2, hc.symm.trans hlink.1⟩
      · intro hspared _
        rcases hspared hstale q status rfl with h | ⟨hp, hc⟩
        · exact absurd hneg (not_lt.mpr h)
        · refine ⟨hlink.1.trans hc.symm, hlink.2.trans hp.symm, ?_⟩
          intro h hcur
          rw [hp] at hcur
          cases hcur
    · constructor
      · intro _ _ q' status' he
        cases he
        exact Or.inl (not_lt.mp hneg)
      · intro _ _
        rw [onWrite_done s q mem hneg]
        exact ⟨rfl, rfl, fun _ _ => rfl⟩
  | _ => exact absurd hstale not_false

/-- **Writes of an earlier connection.** In a run of a client link every stale write
completion is harmless if and only if every one of them is spared. -/
theorem stale_iff (self : LinkPtr) {loop : Loop} (hloop : loop.Fresh) (es : List TcpEvent) :
    EachMove step StaleHarmless (client self loop) es ↔
      EachStep step StaleSpared (client self loop) es := by
  apply eachMove_iff_eachStep clientInv_step
  · intro s e s' hs h
    exact staleHarmless_iff hs h
  · exact clientInv_client self hloop

/-- A write is pending when the peer resets the connection; the link reconnects, and then
the old write fails. -/
def staleRun : List TcpEvent :=
  [.connect "10.0.0.1" 80 0, .connectDone 0 0 0, .send [1] 0, .readError 0, .tick 0,
    .connectDone 2 0 0, .writeDone 1 (-104)]

theorem stale_iff_staleRun :
    EachMove step StaleHarmless (client 0 Loop.new) staleRun ↔
      EachStep step StaleSpared (client 0 Loop.new) staleRun :=
  stale_iff 0 Loop.fresh_new staleRun

/-- The new connection is closed. -/
theorem not_stale_staleRun : ¬ EachMove step StaleHarmless (client 0 Loop.new) staleRun := by
  intro h
  have hlast := ((((((h _ rfl).2 _ rfl).2 _ rfl).2 _ rfl).2 _ rfl).2 _ rfl).2 _ rfl
  have hcurrent : (some 1 : Option HandleId) ≠ some 0 := by decide
  have hchanged := (hlast.1 ⟨0, 0, 1, [1], rfl, hcurrent⟩).1
  cases hchanged

end TcpSys
end SomoNet
