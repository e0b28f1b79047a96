import SomoNet.Sockets

/-!
# What the connected flag says

`on_connect` knows the link whose attempt has completed, and not the handle: `m_bConnected` and
`m_bConnecting` are set for whatever handle is in `m_pTcp` by then. The flags tell the truth
as long as the completions that come are those of the attempt that is current.
-/

namespace SomoNet

open Run

namespace TcpSys

/-! ## What a step does to the attempts -/

/-- The connect requests of the link stay as they are. -/
structure KeepsAttempts (s s' : TcpSys) : Prop where
  self : s'.link.self = s.link.self
  reqs : ∀ q h, s'.loop.reqs q = some (.connect s.link.self h) ↔
    s.loop.reqs q = some (.connect s.link.self h)
  next : s.loop.nextHandle ≤ s'.loop.nextHandle

/-- `connect` makes a new attempt, with a pending request unless libuv refuses it. -/
structure StartsAttempt (s s' : TcpSys) : Prop where
  self : s'.link.self = s.link.self
  pTcp : s'.link.pTcp = some s.loop.nextHandle
  connected : s'.link.bConnected = false
  connecting : s'.link.bConnecting = true
  reqs : ∀ q h, s'.loop.reqs q = some (.connect s.link.self h) →
    q = s.loop.nextReq ∧ h = s.loop.nextHandle ∨ s.loop.reqs q = some (.connect s.link.self h)
  next : s'.loop.nextHandle = s.loop.nextHandle + 1

/-- The flags, the current handle and the connect requests of a client link, in a step. -/
inductive AttemptMove (s : TcpSys) (e : TcpEvent) (s' : TcpSys) : Prop
  | starts (he : ∀ q status r, e ≠ .connectDone q status r) (hstarts : StartsAttempt s s')
  /-- An attempt completes. -/
  | completes {q : ReqId} {status r : ℤ} {g : HandleId} (he : e = .connectDone q status r)
      (hreq : s.loop.reqs q = some (.connect s.link.self g)) (hstatus : s.StatusOk g status)
      (hself : s'.link.self = s.link.self) (htcp : s'.link.pTcp = s.link.pTcp)
      (hconnected : s'.link.bConnected = decide (0 ≤ status))
      (hconnecting : s'.link.bConnecting = false)
      (hreqs : ∀ q' h, s'.loop.reqs q' = some (.connect s.link.self h) ↔
        q' ≠ q ∧ s.loop.reqs q' = some (.connect s.link.self h))
      (hnext : s'.loop.nextHandle = s.loop.nextHandle)
  /-- The link is disconnected, and its handle closed or kept. -/
  | ends (he : ∀ q status r, e ≠ .connectDone q status r) (hkeeps : KeepsAttempts s s')
      (htcp : s'.link.pTcp = none ∨ s'.link.pTcp = s.link.pTcp)
      (hconnected : s'.link.bConnected = false)
      (hconnecting : s'.link.bConnecting = s.link.bConnecting)
  | keeps (he : ∀ q status r, e ≠ .connectDone q status r) (hkeeps : KeepsAttempts s s')
      (htcp : s'.link.pTcp = s.link.pTcp)
      (hconnected : s'.link.bConnected = s.link.bConnected)
      (hconnecting : s'.link.bConnecting = s.link.bConnecting)

theorem KeepsAttempts.of_reqs {s s' : TcpSys} (hself : s'.link.self = s.link.self)
    (hreqs : s'.loop.reqs = s.loop.reqs) (hnext : s'.loop.nextHandle = s.loop.nextHandle) :
    KeepsAttempts s s' :=
  ⟨hself, fun q h => by rw [hreqs], hnext.ge⟩

theorem nextHandle_shut (s : TcpSys) : s.shut.loop.nextHandle = s.loop.nextHandle := by
  rw [shut_loop]
  split <;> rfl

theorem nextHandle_connectedTail (s : TcpSys) (r : ℤ) :
    (s.connectedTail r).loop.nextHandle = s.loop.nextHandle := by
  rw [connectedTail_loop]
  split
  · split <;> rfl
  · rfl

theorem startsAttempt_connect {s : TcpSys} (hs : s.loop.Fresh) (ip : String) (port : UInt16)
    (r : ℤ) : StartsAttempt s (s.connect ip port r).1 := by
  have hlink := s.connect_link ip port r
  refine ⟨by rw [hlink], by rw [hlink], by rw [hlink], by rw [hlink], ?_, ?_⟩
  · intro q h hq
    rw [connect_loop] at hq
    split at hq
    · rcases ((hs.tcpInit _).submit_eq_some _).mp hq with ⟨hqn, hreq⟩ | hold
      · cases hreq
        exact Or.inl ⟨hqn, rfl⟩
      · exact Or.inr hold
    · exact Or.inr hq
  · rw [connect_loop]
    split <;> rfl

theorem keepsAttempts_send {s : TcpSys} (hs : s.loop.Fresh) (data : List UInt8) (r : ℤ) :
    KeepsAttempts s (s.send data r).1 := by
  obtain ⟨t, ht⟩ := s.send_link data r
  refine ⟨by rw [ht], fun q h => ?_, ?_⟩
  · have hout := s.send_outcome data r
    generalize s.send data r = res at hout ⊢
    have hitem : ∀ pool mem, (s.loop.withItem pool mem data).Fresh := fun _ _ => ⟨hs.tcp, hs.reqs⟩
    rcases hout with _ | _ | _ | _
    · rfl
    · rfl
    · rfl
    · refine ((hitem _ _).submit_eq_some _).trans ?_
      simp [Loop.withItem]
  · have hout := s.send_outcome data r
    generalize s.send data r = res at hout ⊢
    rcases hout with _ | _ | _ | _ <;> exact le_rfl

theorem step_attempts {s s' : TcpSys} {e : TcpEvent} (hs : ClientInv s)
    (h : s.step e = some s') : AttemptMove s e s' := by
  cases step_case h with
  | setHandler handler => exact .keeps (by simp) (.of_reqs rfl rfl rfl) rfl rfl rfl
  | connect ip port r =>
    have hstarts := @startsAttempt_connect { s with link := { s.link with asked := true } }
      hs.fresh ip port r
    exact .starts (by simp) ⟨hstarts.self, hstarts.pTcp, hstarts.connected, hstarts.connecting,
      hstarts.reqs, hstarts.next⟩
  | send data r =>
    obtain ⟨t, ht⟩ := s.send_link data r
    exact .keeps (by simp) (keepsAttempts_send hs.fresh data r) (by rw [ht]) (by rw [ht]) (by rw [ht])
  | close =>
    have hlink := shut_link { s with link := { s.link with asked := false } }
    refine .ends (by simp) (.of_reqs ?_ (reqs_shut _) (nextHandle_shut _)) (Or.inl ?_) ?_ ?_
    · rw [hlink]
    · rw [hlink]
    · rw [hlink]
    · rw [hlink]
  | @connectDone q g status r hreq hidle hstatus =>
    -- the request is taken out of the loop, whatever its status
    by_cases hneg : status < 0
    · rw [onConnect_failed s q r hneg]
      exact .completes rfl hreq hstatus rfl rfl (by simpa using hneg) rfl
        (fun q' h => Loop.finish_eq_some) rfl
    have hpos : (true : Bool) = decide (0 ≤ status) := by simpa using hneg
    by_cases hh : s.link.pHandler = true
    · rw [onConnect_handler s q r hneg hh]
      exact .completes rfl hreq hstatus rfl rfl hpos rfl (fun q' h => Loop.finish_eq_some) rfl
    · rw [onConnect_noHandler s q r hneg hh]
      have hlink := connectedTail_link
        { link := { s.link with bConnecting := false, bConnected := true }
          loop := s.loop.finish q } r
      refine .completes rfl hreq hstatus ?_ ?_ ?_ ?_ (fun q' h => ?_) (nextHandle_connectedTail _ r)
      · rw [hlink]
      · rw [hlink]
      · rw [hlink]
        exact hpos
      · rw [hlink]
      · rw [reqs_connectedTail]
        exact Loop.finish_eq_some
  | connectedReturn r hframe =>
    have hlink := connectedTail_link { s with link := { s.link with frame := .idle } } r
    refine .keeps (by simp) (.of_reqs ?_ (reqs_connectedTail _ r) (nextHandle_connectedTail _ r)) ?_ ?_ ?_
    · rw [connectedReturn, hlink]
    · rw [connectedReturn, hlink]
    · rw [connectedReturn, hlink]
    · rw [connectedReturn, hlink]
  | @read g seg hidle hreads hne hlen =>
    have hlink := onRead_link s hlen
    refine .keeps (by simp) (.of_reqs ?_ ?_ ?_) ?_ ?_ ?_
    · rw [hlink]
    · rw [onRead_loop]
    · rw [onRead_loop]
    · rw [hlink]
    · rw [hlink]
    · rw [hlink]
  | readAgain => exact .keeps (by simp) (.of_reqs rfl rfl rfl) rfl rfl rfl
  | @readError g hidle hreads =>
    rw [onReadError_client s g hs.client]
    exact .ends (by simp) (.of_reqs rfl rfl rfl) (Or.inr rfl) rfl rfl
  | dataReturn c hframe =>
    have hlink := s.dataReturn_link c
    refine .keeps (by simp) (.of_reqs ?_ ?_ ?_) ?_ ?_ ?_
    · rw [hlink]
    · rw [dataReturn_loop]
    · rw [dataReturn_loop]
    · rw [hlink]
    · rw [hlink]
    · rw [hlink]
  | closeReturn hframe => exact absurd hframe hs.noClose
  | @writeDone q g mem len payload status hreq hidle hstatus =>
    -- the write's request is none of the connect requests
    have hreqs : ∀ q' h, (afterWrite s.loop q mem).reqs q' = some (.connect s.link.self h) ↔
        s.loop.reqs q' = some (.connect s.link.self h) := by
      intro q' h
      refine Loop.finish_eq_some.trans ⟨fun hq => hq.2, fun hq => ⟨?_, hq⟩⟩
      rintro rfl
      rw [hreq] at hq
      cases hq
    by_cases hneg : status < 0
    · rw [onWrite_failed_client s q mem hneg hs.client]
      have hlink := shut_link { s with loop := afterWrite s.loop q mem }
      refine .ends (by simp) ⟨?_, ?_, (nextHandle_shut { s with loop := afterWrite s.loop q mem }).ge⟩
        (Or.inl ?_) ?_ ?_
      · rw [timerStart_link, hlink]
      · intro q' h
        rw [timerStart_loop, reqs_shut]
        exact hreqs q' h
      · rw [timerStart_link, hlink]
      · rw [timerStart_link, hlink]
      · rw [timerStart_link, hlink]
    · rw [onWrite_done s q mem hneg]
      exact .keeps (by simp) ⟨rfl, hreqs, le_rfl⟩ rfl rfl rfl
  | tick r hidle htimer =>
    by_cases hretry : s.link.bConnected = false ∧ s.link.bConnecting = false
    · rw [onTimer_retry s r hretry]
      exact .starts (by simp) (startsAttempt_connect hs.fresh _ _ r)
    · rw [onTimer_busy s r hretry]
      exact .keeps (by simp) (.of_reqs rfl rfl rfl) rfl rfl rfl

end TcpSys

/-! ## The handles that are connected -/

/-- A link with the handles whose connect request has completed successfully. -/
structure Attempts where
  sys : TcpSys
  done : List HandleId

namespace Attempts

/-- The handle whose connect request completes successfully with the event. -/
def completed (s : TcpSys) : TcpEvent → List HandleId
  | .connectDone q status _ =>
    match s.loop.reqs q with
    | some (.connect _ h) => if status < 0 then [] else [h]
    | _ => []
  | _ => []

def step (t : Attempts) (e : TcpEvent) : Option Attempts :=
  (t.sys.step e).map fun s' => ⟨s', completed t.sys e ++ t.done⟩

def client (self : LinkPtr) (loop : Loop) : Attempts := ⟨.client self loop, []⟩

/-- No connect request is pending on the handle in `m_pTcp`. -/
def Settled (t : Attempts) : Prop :=
  ∀ q h, t.sys.link.pTcp = some h → t.sys.loop.reqs q ≠ some (.connect t.sys.link.self h)

/-- What the flags say is so. -/
structure Truthful (t : Attempts) : Prop where
  connected : t.sys.link.bConnected = true →
    ∃ h, t.sys.link.pTcp = some h ∧ t.sys.loop.isOpen h = true ∧ h ∈ t.done
  idle : t.sys.link.bConnected = false → t.sys.link.bConnecting = false → t.Settled

/-- The completion of an attempt finds the handle of that attempt in `m_pTcp`, or it leaves
the flags true: a success finds a handle there that is connected already, and a failure none on
which an attempt is pending. -/
def Answers (t : Attempts) : TcpEvent → Prop
  | .connectDone q status _ => ∀ h, t.sys.loop.reqs q = some (.connect t.sys.link.self h) →
      t.sys.link.pTcp = some h ∨
        if status < 0 then t.Settled else ∃ g, t.sys.link.pTcp = some g ∧ g ∈ t.done
  | _ => True

structure Inv (t : Attempts) : Prop where
  client : t.sys.ClientInv
  sockets : t.sys.SocketInv
  once : ∀ q q' h, t.sys.loop.reqs q = some (.connect t.sys.link.self h) →
    t.sys.loop.reqs q' = some (.connect t.sys.link.self h) → q = q'
  old : ∀ q h, t.sys.loop.reqs q = some (.connect t.sys.link.self h) → h < t.sys.loop.nextHandle
  done : ∀ h ∈ t.done, h < t.sys.loop.nextHandle ∧
    ∀ q, t.sys.loop.reqs q ≠ some (.connect t.sys.link.self h)

theorem completed_of_ne {s : TcpSys} {e : TcpEvent}
    (he : ∀ q status r, e ≠ .connectDone q status r) : completed s e = [] := by
  cases e with
  | connectDone q status r => exact absurd rfl (he q status r)
  | _ => rfl

theorem completed_done {s : TcpSys} {q : ReqId} {status r : ℤ} {g : HandleId}
    (hreq : s.loop.reqs q = some (.connect s.link.self g)) :
    completed s (.connectDone q status r) = if status < 0 then [] else [g] := by
  simp only [completed, hreq]

theorem inv_step : Invariant step Inv := by
  intro t e t' ht h
  obtain ⟨s', hstep, rfl⟩ := Option.map_eq_some_iff.mp h
  have hclient := TcpSys.clientInv_step _ _ _ ht.client hstep
  have hsockets := TcpSys.socketInv_step _ _ _ ht.sockets hstep
  have hkeeps : TcpSys.KeepsAttempts t.sys s' → completed t.sys e = [] →
      Inv ⟨s', completed t.sys e ++ t.done⟩ := by
    intro hk hc
    rw [hc, List.nil_append]
    refine ⟨hclient, hsockets, ?_, ?_, ?_⟩
    · intro q q' g hq hq'
      rw [hk.self, hk.reqs] at hq hq'
      exact ht.once q q' g hq hq'
    · intro q g hq
      rw [hk.self, hk.reqs] at hq
      exact (ht.old q g hq).trans_le hk.next
    · intro g hg
      refine ⟨(ht.done g hg).1.trans_le hk.next, fun q hq => ?_⟩
      rw [hk.self, hk.reqs] at hq
      exact (ht.done g hg).2 q hq
  cases TcpSys.step_attempts ht.client hstep with
  | starts he hs =>
    rw [completed_of_ne he, List.nil_append]
    -- the new attempt is on a handle that no request is on
    have hnew : ∀ q, t.sys.loop.reqs q ≠ some (.connect t.sys.link.self t.sys.loop.nextHandle) :=
      fun q hq => absurd (ht.old q _ hq) (lt_irrefl _)
    refine ⟨hclient, hsockets, ?_, ?_, ?_⟩
    · intro q q' g hq hq'
      rw [hs.self] at hq hq'
      rcases hs.reqs q g hq with ⟨rfl, rfl⟩ | hold
      · rcases hs.reqs q' _ hq' with ⟨rfl, -⟩ | hold'
        · rfl
        · exact absurd hold' (hnew q')
      · rcases hs.reqs q' g hq' with ⟨-, rfl⟩ | hold'
        · exact absurd hold (hnew q)
        · exact ht.once q q' g hold hold'
    · intro q g hq
      rw [hs.self] at hq
      rw [hs.next]
      rcases hs.reqs q g hq with ⟨-, rfl⟩ | hold
      · exact Nat.lt_succ_self _
      · exact Nat.lt_succ_of_lt (ht.old q g hold)
    · intro g hg
      obtain ⟨hlt, hnone⟩ := ht.done g hg
      refine ⟨by rw [hs.next]; exact Nat.lt_succ_of_lt hlt, fun q hq => ?_⟩
      rw [hs.self] at hq
      rcases hs.reqs q g hq with ⟨-, rfl⟩ | hold
      · exact lt_irrefl _ hlt
      · exact hnone q hold
  | @completes q status r g he hreq _ hself _ _ _ hreqs hnext =>
    refine ⟨hclient, hsockets, ?_, ?_, ?_⟩
    · intro q₁ q₂ g' hq hq'
      rw [hself, hreqs] at hq hq'
      exact ht.once q₁ q₂ g' hq.2 hq'.2
    · intro q₁ g' hq
      rw [hself, hreqs] at hq
      rw [hnext]
      exact ht.old q₁ g' hq.2
    · intro g' hg'
      rw [he, completed_done hreq] at hg'
      rw [hnext, hself]
      rcases List.mem_append.mp hg' with hg' | hg'
      · -- the request that completes was the only one on its handle
        have heq : g' = g := by
          split at hg'
          · cases hg'
          · exact List.mem_singleton.mp hg'
        refine ⟨heq ▸ ht.old q g hreq, fun q' hq' => ?_⟩
        obtain ⟨hne, hq'⟩ := (hreqs q' g').mp hq'
        rw [heq] at hq'
        exact hne (ht.once q' q g hq' hreq)
      · obtain ⟨hlt, hnone⟩ := ht.done g' hg'
        exact ⟨hlt, fun q' hq' => hnone q' ((hreqs q' g').mp hq').2⟩
  | ends he hk _ _ _ => exact hkeeps hk (completed_of_ne he)
  | keeps he hk _ _ _ => exact hkeeps hk (completed_of_ne he)

/-- The requests stay, and the current handle stays or goes. -/
theorem Settled.of_keeps {t t' : Attempts} (h : t.Settled)
    (hk : TcpSys.KeepsAttempts t.sys t'.sys)
    (htcp : t'.sys.link.pTcp = none ∨ t'.sys.link.pTcp = t.sys.link.pTcp) : t'.Settled := by
  intro q g hg hq
  rw [hk.self, hk.reqs] at hq
  rcases htcp with htcp | htcp
  · rw [htcp] at hg
    cases hg
  · rw [htcp] at hg
    exact h q g hg hq

theorem settled_of_connected {t : Attempts} (ht : t.Inv) {h : HandleId}
    (htcp : t.sys.link.pTcp = some h) (hdone : h ∈ t.done) : t.Settled := by
  intro q g hg
  rw [htcp] at hg
  cases hg
  exact (ht.done h hdone).2 q

theorem isOpen_pTcp {t : Attempts} (ht : t.Inv) {h : HandleId} (htcp : t.sys.link.pTcp = some h) :
    t.sys.loop.isOpen h = true :=
  Loop.owns_isOpen (ht.sockets.current h htcp)

/-- What `Answers` says of the completion of an attempt on `g`. -/
theorem answers_connectDone {t : Attempts} {q : ReqId} {status r : ℤ} {g : HandleId}
    (hreq : t.sys.loop.reqs q = some (.connect t.sys.link.self g)) :
    t.Answers (.connectDone q status r) ↔ t.sys.link.pTcp = some g ∨
      if status < 0 then t.Settled else ∃ g, t.sys.link.pTcp = some g ∧ g ∈ t.done := by
  constructor
  · intro hall
    exact hall g hreq
  · intro hor g' hreq'
    rw [hreq] at hreq'
    cases hreq'
    exact hor

/-- A failed attempt on `g`. -/
theorem truthful_failed {t t' : Attempts} {q : ReqId} {g : HandleId} (ht : t.Inv)
    (hreq : t.sys.loop.reqs q = some (.connect t.sys.link.self g))
    (hself : t'.sys.link.self = t.sys.link.self) (htcp : t'.sys.link.pTcp = t.sys.link.pTcp)
    (hconnected : t'.sys.link.bConnected = false) (hconnecting : t'.sys.link.bConnecting = false)
    (hreqs : ∀ q' h, t'.sys.loop.reqs q' = some (.connect t.sys.link.self h) ↔
      q' ≠ q ∧ t.sys.loop.reqs q' = some (.connect t.sys.link.self h)) :
    t'.Truthful ↔ t.sys.link.pTcp = some g ∨ t.Settled := by
  constructor
  · intro htrue'
    by_cases hcurrent : t.sys.link.pTcp = some g
    · exact Or.inl hcurrent
    right
    intro q' g' hg' hq'
    refine htrue'.idle hconnected hconnecting q' g' (htcp.trans hg') ?_
    rw [hself, hreqs]
    refine ⟨?_, hq'⟩
    rintro rfl
    rw [hreq] at hq'
    cases hq'
    exact hcurrent hg'
  · intro hor
    refine ⟨fun hc => ?_, fun _ _ q' g' hg' hq' => ?_⟩
    · cases hconnected.symm.trans hc
    · rw [hself, hreqs] at hq'
      rw [htcp] at hg'
      rcases hor with hcurrent | hsettled
      · rw [hcurrent] at hg'
        cases hg'
        -- one attempt at a time is made on a handle
        exact hq'.1 (ht.once q' q g hq'.2 hreq)
      · exact hsettled q' g' hg' hq'.2

/-- A successful attempt on `g`. -/
theorem truthful_done {t t' : Attempts} {g : HandleId} (ht' : t'.Inv)
    (htcp : t'.sys.link.pTcp = t.sys.link.pTcp) (hconnected : t'.sys.link.bConnected = true)
    (hdone : t'.done = g :: t.done) :
    t'.Truthful ↔ t.sys.link.pTcp = some g ∨ ∃ g, t.sys.link.pTcp = some g ∧ g ∈ t.done := by
  constructor
  · intro htrue'
    obtain ⟨h', hh', -, hmem⟩ := htrue'.connected hconnected
    rw [hdone] at hmem
    rw [htcp] at hh'
    rcases List.mem_cons.mp hmem with rfl | hmem
    · exact Or.inl hh'
    · exact Or.inr ⟨h', hh', hmem⟩
  · intro hor
    refine ⟨fun _ => ?_, fun hc => ?_⟩
    · rcases hor with hcurrent | ⟨g', hg', hmem⟩
      · have hpt : t'.sys.link.pTcp = some g := htcp.trans hcurrent
        exact ⟨g, hpt, isOpen_pTcp ht' hpt, by rw [hdone]; exact List.mem_cons_self⟩
      · have hpt : t'.sys.link.pTcp = some g' := htcp.trans hg'
        exact ⟨g', hpt, isOpen_pTcp ht' hpt, by rw [hdone]; exact List.mem_cons_of_mem _ hmem⟩
    · cases hconnected.symm.trans hc

/-- **One step**: a step that can happen leaves the flags true if and only if it meets
`Answers`. -/
theorem truthful_step {t t' : Attempts} {e : TcpEvent} (ht : t.Inv) (htrue : t.Truthful)
    (h : t.step e = some t') : t'.Truthful ↔ t.Answers e := by
  have ht' := inv_step t e t' ht h
  obtain ⟨s', hstep, rfl⟩ := Option.map_eq_some_iff.mp h
  have hanswers : (∀ q status r, e ≠ .connectDone q status r) → t.Answers e := by
    intro he
    cases e with
    | connectDone q status r => exact absurd rfl (he q status r)
    | _ => trivial
  cases TcpSys.step_attempts ht.client hstep with
  | starts he hs =>
    refine ⟨fun _ => hanswers he, fun _ => ⟨fun hc => ?_, fun _ hc => ?_⟩⟩
    · have hno := hs.connected
      rw [hc] at hno
      cases hno
    · have hyes := hs.connecting
      rw [hc] at hyes
      cases hyes
  | @completes q status r g he hreq hstatus hself htcp hconnected hconnecting hreqs hnext =>
    subst he
    rw [answers_connectDone hreq]
    by_cases hneg : status < 0
    · rw [if_pos hneg]
      have hno : s'.link.bConnected = false := by
        rw [hconnected]
        simpa using hneg
      exact truthful_failed ht hreq hself htcp hno hconnecting hreqs
    · rw [if_neg hneg]
      have hyes : s'.link.bConnected = true := by
        rw [hconnected]
        simpa using hneg
      have hdone : completed t.sys (.connectDone q status r) ++ t.done = g :: t.done := by
        rw [completed_done hreq, if_neg hneg]
        rfl
      exact truthful_done ht' htcp hyes hdone
  | ends he hk htcp hconnected hconnecting =>
    refine ⟨fun _ => hanswers he, fun _ => ⟨fun hc => ?_, fun _ hc => ?_⟩⟩
    · cases hconnected.symm.trans hc
    · refine Settled.of_keeps ?_ hk htcp
      change s'.link.bConnecting = false at hc
      rw [hconnecting] at hc
      -- a link that was connected has no attempt pending on its handle
      cases hwas : t.sys.link.bConnected with
      | false => exact htrue.idle hwas hc
      | true =>
        obtain ⟨g, hg, -, hmem⟩ := htrue.connected hwas
        exact settled_of_connected ht hg hmem
  | keeps he hk htcp hconnected hconnecting =>
    refine ⟨fun _ => hanswers he, fun _ => ⟨fun hc => ?_, fun hc hc' => ?_⟩⟩
    · change s'.link.bConnected = true at hc
      rw [hconnected] at hc
      obtain ⟨g, hg, -, hmem⟩ := htrue.connected hc
      have hpt : s'.link.pTcp = some g := htcp.trans hg
      exact ⟨g, hpt, isOpen_pTcp ht' hpt, List.mem_append_right _ hmem⟩
    · change s'.link.bConnected = false at hc
      change s'.link.bConnecting = false at hc'
      rw [hconnected] at hc
      rw [hconnecting] at hc'
      exact Settled.of_keeps (htrue.idle hc hc') hk (Or.inr htcp)

/-- **The connected flag.** The flags of a client link tell the truth in every state of a run
if and only if every completion of an attempt in it meets `Answers`. -/
theorem truthful_iff (self : LinkPtr) {loop : Loop} (hloop : loop.Fresh)
    (hnew : ∀ q h, loop.reqs q ≠ some (.connect self h)) (es : List TcpEvent) :
    Always step Truthful (client self loop) es ↔ EachStep step Answers (client self loop) es := by
  apply always_iff_eachStep inv_step
  · intro t e t' ht htrue h
    exact truthful_step ht htrue h
  · refine ⟨TcpSys.clientInv_client self hloop, ⟨hloop, fun h hh => ?_⟩, ?_, ?_, ?_⟩
    · cases hh
    · intro q q' h hq
      exact absurd hq (hnew q h)
    · intro q h hq
      exact absurd hq (hnew q h)
    · intro h hh
      cases hh
  · refine ⟨fun hc => ?_, fun _ _ q h hh => ?_⟩
    · cases hc
    · cases hh

/-- The user closes the link during a slow handshake and connects again: the cancellation of the
first attempt makes the timer start a third one, and then the second one succeeds. -/
def slowRun : List TcpEvent :=
  [.connect "10.0.0.1" 80 0, .close, .connect "10.0.0.1" 80 0, .connectDone 0 UV_ECANCELED 0,
    .tick 0, .connectDone 1 0 0]

theorem truthful_iff_slowRun :
    Always step Truthful (client 0 Loop.new) slowRun ↔
      EachStep step Answers (client 0 Loop.new) slowRun :=
  truthful_iff 0 Loop.fresh_new (fun _ _ h => by cases h) slowRun

/-- The link is connected, and its handle is the one of the third attempt. -/
theorem not_truthful_slowRun : ¬ Always step Truthful (client 0 Loop.new) slowRun := by
  intro h
  have hlast : Truthful _ := h.last rfl
  obtain ⟨g, hg, -, hmem⟩ := hlast.connected rfl
  cases hg
  revert hmem
  decide

end Attempts
end SomoNet
