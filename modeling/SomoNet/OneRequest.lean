import SomoNet.HttpDelivery
import SomoNet.Isolation
import SomoNet.RecvStream
import SomoNet.Sockets

/-!
# One request for each connection

A session has no keep-alive: `on_complete` answers a request and closes the link. The parser does
not know that. It goes on with the bytes of the segment, and where these hold another complete
request, the handler is invoked for it on the closed link. It does go on because `on_complete`,
which has no `return`, is taken to give 0 (`HttpPeerLink.settings`).
-/

namespace SomoNet

open Run Http Execution

namespace HttpPeerLink

/-! ## The requests of one segment -/

/-- The session that holds `link` serves a request with which the bytes begin. -/
def Serves (link : HttpPeerLink) (data : Bytes) : Prop :=
  ((Record.ofBytes data).invocation link).isSome = true

instance (link : HttpPeerLink) (data : Bytes) : Decidable (link.Serves data) :=
  inferInstanceAs (Decidable (_ = true))

/-- Where the parser would go on to another request, no complete one follows the first. -/
def SingleRequest (link : HttpPeerLink) (seg : Bytes) : Prop :=
  ∀ pre post, seg = pre ++ post → link.Serves pre → (link.parse pre).Awaits →
    ¬ (link.parse pre).user.Serves post

instance {σ : Type*} (r : Execution σ) : Decidable r.Awaits :=
  inferInstanceAs (Decidable (_ ∧ _))

theorem singleRequest_of_take {link : HttpPeerLink} {seg : Bytes}
    (h : ∀ k ≤ seg.length, link.Serves (seg.take k) → (link.parse (seg.take k)).Awaits →
      ¬ (link.parse (seg.take k)).user.Serves (seg.drop k)) : link.SingleRequest seg := by
  intro pre post heq
  have hk := h pre.length (by rw [heq]; simp)
  rwa [heq, List.take_left, List.drop_left] at hk

/-- What a byte that ends a message does to the invocations. -/
theorem callAll_complete_invocations {cs : List Event} (hcs : ∀ c ∈ cs, c.isData = true)
    (u : HttpPeerLink) :
    (settings.callAll u (cs ++ [.message_complete])).invocations =
      u.invocations ++ (settings.callAll u cs).invocation.toList := by
  rw [Settings.callAll_append]
  show (settings.callAll u cs).invocations ++ _ = _
  rw [(keeps_callAll hcs u).invocations]

/-- A byte completes at most one request, and then no message is under way. -/
inductive Completes (r r' : Execution HttpPeerLink) : Prop
  | none (hsame : r'.user.invocations = r.user.invocations)
  | one (inv : Invocation) (hinv : r'.user.invocations = r.user.invocations ++ [inv])
      (hidle : r'.stopped = true ∨ r'.exec.part = .idle)

theorem Completes.of_invocation {r r' : Execution HttpPeerLink} {u : HttpPeerLink}
    (h : r'.user.invocations = r.user.invocations ++ u.invocation.toList)
    (hidle : r'.stopped = true ∨ r'.exec.part = .idle) : Completes r r' := by
  cases hinv : u.invocation with
  | none =>
    rw [hinv] at h
    exact .none (h.trans (List.append_nil _))
  | some inv =>
    rw [hinv] at h
    exact .one inv h hidle

theorem step_completes {r : Execution HttpPeerLink} {n : ℕ} (hr : r.Ok n)
    (hn : n < max_header_size) (ch : UInt8) : Completes r (r.step settings ch) := by
  cases step_lockstep settings settings hr hr (.refl _) hn ch with
  | moved hmove _ _ _ hu =>
    generalize hb : (r.step settings ch).exec.part = b at hmove
    generalize (r.step settings ch).exec.opened = o' at hmove
    generalize r.exec.part = a, r.exec.opened = o at hmove
    cases hmove with
    | quiet => exact .none (by rw [hu]; rfl)
    | url m d => exact .none (by rw [hu]; cases m <;> rfl)
    | header_field | header_value | body => exact .none (by rw [hu]; rfl)
    | complete hreports =>
      -- the end of a message is the only callback that invokes the handler
      have hinv := callAll_complete_invocations hreports.isData r.user
      rw [← hu] at hinv
      exact .of_invocation hinv (Or.inr hb)
  | failed hcs _ _ _ _ hu =>
    refine .none ?_
    rw [hu]
    rcases hcs with rfl | ⟨-, d, rfl⟩
    · rfl
    · rfl
  | exited hreports _ hstop _ _ _ hu =>
    have hinv := callAll_complete_invocations hreports.isData r.user
    rw [← hu] at hinv
    exact .of_invocation hinv (Or.inl hstop)
  | @asked cs e f hreports _ _ _ _ _ hheaders =>
    have hdata := (keeps_callAll hreports.isData r.user).invocations
    cases hheaders with
    | failed _ _ hu => exact .none (by rw [hu]; exact hdata)
    | body _ _ hu => exact .none (by rw [hu]; exact hdata)
    | complete _ hpart _ hu =>
      have hinv : (r.step settings ch).user.invocations =
          r.user.invocations ++ (settings.callAll r.user cs).invocation.toList := by
        rw [hu, ← hdata]
        rfl
      exact .of_invocation hinv (Or.inr hpart)

theorem awaits_or_lost {r : Execution HttpPeerLink}
    (h : r.stopped = true ∨ r.exec.part = .idle) :
    r.Awaits ∨ r.stopped = true ∨ r.exec.parser.state = .s_dead := by
  cases hstop : r.stopped with
  | true => exact Or.inr (Or.inl rfl)
  | false =>
    have hpart : r.exec.parser.state.part = .idle := h.resolve_left (by rw [hstop]; decide)
    cases hs : r.exec.parser.state
    case s_start_req => exact Or.inl ⟨hstop, hs⟩
    case s_dead => exact Or.inr (Or.inr rfl)
    all_goals
      rw [hs] at hpart
      cases hpart

/-- After the call has returned, or where the connection is over, nothing is reported. -/
theorem scan_lost {r : Execution HttpPeerLink}
    (h : r.stopped = true ∨ r.exec.parser.state = .s_dead) (data : Bytes) :
    (r.scan settings data).user = r.user := by
  induction data generalizing r with
  | nil => rfl
  | cons ch data ih =>
    have hstep : (r.step settings ch).user = r.user ∧
        ((r.step settings ch).stopped = true ∨ (r.step settings ch).exec.parser.state = .s_dead) := by
      cases hstop : r.stopped with
      | true =>
        rw [step_stopped _ hstop]
        exact ⟨rfl, Or.inl hstop⟩
      | false =>
        have hs := h.resolve_left (by rw [hstop]; decide)
        rcases feed_dead hs ch with ⟨f, hfeed, hf⟩ | ⟨p, hfeed⟩
        · simp only [step, hstop, hfeed]
          exact ⟨rfl, Or.inr hf⟩
        · simp only [step, hstop, hfeed]
          exact ⟨rfl, Or.inl rfl⟩
    rw [scan_cons, ih hstep.2, hstep.1]

theorem parse_append (link : HttpPeerLink) (pre post : Bytes) :
    link.parse (pre ++ post) = (link.parse pre).scan settings post :=
  scan_append settings _ pre post

/-- Where the handler has been invoked, it has been invoked a first time. -/
theorem exists_first {link : HttpPeerLink} (data : Bytes) (hlen : data.length ≤ max_header_size)
    (h : (link.parse data).user.invocations ≠ link.invocations) :
    ∃ pre post inv, data = pre ++ post ∧
      (link.parse pre).user.invocations = link.invocations ++ [inv] ∧
      ((link.parse pre).stopped = true ∨ (link.parse pre).exec.part = .idle) := by
  induction data using List.reverseRecOn with
  | nil => exact absurd rfl h
  | append_singleton data ch ih =>
    rw [List.length_append, List.length_singleton] at hlen
    by_cases hsame : (link.parse data).user.invocations = link.invocations
    · -- it is the last byte with which it was invoked
      have hparse : link.parse (data ++ [ch]) = (link.parse data).step settings ch :=
        link.parse_append data [ch]
      have hok : (link.parse data).stopped = true ∨ (link.parse data).Ok (0 + data.length) :=
        scan_ok settings data (start_ok link 0) (by omega)
      rcases hok with hstop | hok
      · rw [hparse, step_stopped _ hstop] at h
        exact absurd hsame h
      cases step_completes hok (by omega) ch with
      | none hsame' =>
        rw [hparse] at h
        exact absurd (hsame'.trans hsame) h
      | one inv hinv hidle =>
        refine ⟨data ++ [ch], [], inv, (List.append_nil _).symm, ?_, ?_⟩
        · rw [hparse, ← hsame]
          exact hinv
        · rw [hparse]
          exact hidle
    · obtain ⟨pre, post, inv, rfl, hinv, hidle⟩ := ih (by omega) hsame
      exact ⟨pre, post ++ [ch], inv, List.append_assoc _ _ _, hinv, hidle⟩

/-- What the session and the record have made of the bytes. -/
theorem parse_follows {link : HttpPeerLink} (hlink : link.Known) {data : Bytes}
    (hlen : data.length ≤ max_header_size) :
    Follows link (0 + data.length) (link.parse data)
      ((Execution.start .init Record.new).scan Record.settings data) :=
  @behind_follows link hlink [] data hlen ⟨rfl, rfl⟩

namespace Follows

variable {left : HttpPeerLink} {n : ℕ} {r : Execution HttpPeerLink} {d : Execution Record}

theorem invoked {inv : Invocation} (h : Follows left n r d) (hinv : d.user.invocation left = some inv) :
    left.Invoked inv r.user := by
  cases h with
  | reading _ _ _ huser =>
    rw [huser.invocation_eq] at hinv
    cases hinv
  | served hrec huser =>
    rw [hrec] at hinv
    cases hinv
    exact huser
  | failed _ _ hrec _ =>
    rw [hrec] at hinv
    cases hinv

theorem invocations_eq (h : Follows left n r d) (hnone : d.user.invocation left = none) :
    r.user.invocations = left.invocations := by
  cases h with
  | reading _ _ _ huser => exact huser.invocations_eq
  | served hrec _ =>
    rw [hrec] at hnone
    cases hnone
  | failed _ _ _ huser => exact huser

end Follows

/-- The invocations that a segment makes. -/
def invocationsOf (link : HttpPeerLink) (seg : Bytes) : List Invocation :=
  (link.on_data seg).invocations.drop link.invocations.length

theorem on_data_invocations (link : HttpPeerLink) (seg : Bytes) :
    (link.on_data seg).invocations = (link.parse seg).user.invocations := by
  by_cases hnil : seg = []
  · subst hnil
    rfl
  · unfold on_data
    rw [execute_eq settings rfl link hnil]
    exact finish_invocations _

/-- **One segment.** It makes at most one invocation if and only if no complete request follows
another one in it. -/
theorem invocationsOf_le_one_iff {link : HttpPeerLink} (hlink : link.Known) {seg : Bytes}
    (hlen : seg.length ≤ max_header_size) :
    (link.invocationsOf seg).length ≤ 1 ↔ link.SingleRequest seg := by
  unfold invocationsOf
  rw [on_data_invocations, List.length_drop]
  constructor
  · rintro hone pre post rfl hpre hawaits hpost
    obtain ⟨inv, hinv⟩ := Option.isSome_iff_exists.mp hpre
    obtain ⟨inv', hinv'⟩ := Option.isSome_iff_exists.mp hpost
    have hpreLen : pre.length ≤ max_header_size := by
      rw [List.length_append] at hlen
      omega
    -- one for the first request and one for the request behind it
    obtain ⟨later, hfirst⟩ := (parse_follows hlink hpreLen).invoked hinv
    obtain ⟨later', hsecond⟩ := (behind_follows hlink hlen hawaits).invoked hinv'
    rw [parse_append, hsecond, hfirst] at hone
    simp only [List.length_append, List.length_cons] at hone
    omega
  · intro hsingle
    by_cases hsame : (link.parse seg).user.invocations = link.invocations
    · rw [hsame]
      omega
    obtain ⟨pre, post, inv, rfl, hinv, hidle⟩ := exists_first seg hlen hsame
    have hpre : link.Serves pre := by
      have hpreLen : pre.length ≤ max_header_size := by
        rw [List.length_append] at hlen
        omega
      have hfirst := (parse_follows hlink hpreLen).first_eq
      rw [hinv, List.drop_left] at hfirst
      show ((Record.ofBytes pre).invocation link).isSome = true
      rw [Record.ofBytes, ← hfirst]
      rfl
    -- nothing comes after the first request
    have hrest : (link.parse (pre ++ post)).user.invocations = (link.parse pre).user.invocations := by
      rw [parse_append]
      rcases awaits_or_lost hidle with hawaits | hlost
      · have hpost := hsingle pre post rfl hpre hawaits
        exact (behind_follows hlink hlen hawaits).invocations_eq (Option.not_isSome_iff_eq_none.mp hpost)
      · rw [scan_lost hlost]
    rw [hrest, hinv, List.length_append, List.length_singleton]
    omega

end HttpPeerLink

/-! ## An accepted link -/

namespace TcpSys

/-- A connection that libuv reads from is a socket of the link. -/
theorem Reads.socket {s : TcpSys} {h : HandleId} (hreads : s.Reads h) : s.Socket h := by
  obtain ⟨hreading, hdata⟩ := hreads
  unfold Loop.isReading at hreading
  unfold Socket Loop.owns
  cases htcp : s.loop.tcp h with
  | none =>
    rw [htcp] at hdata
    cases hdata
  | some t =>
    rw [htcp] at hdata hreading
    have howner : t.data = s.link.self := Option.some.inj hdata
    simp only [Option.any_some, Bool.and_eq_true] at hreading
    simp [hreading.1, howner]

/-- The libuv callbacks of an accepted link, and their returns. -/
def IsCallback : TcpEvent → Prop
  | .read _ _ | .readAgain _ | .readError _ | .dataReturn _ | .closeReturn | .writeDone _ _
  | .tick _ => True
  | _ => False

/-- What holds of an accepted link with a handler. It never connects. -/
structure Serving (s : TcpSys) : Prop where
  sockets : SocketInv s
  current : OnlyCurrent s
  handler : s.link.pHandler = true
  peer : s.link.bPeerLink = true
  timer : s.link.timerActive = false

/-- What a step of it does. -/
structure Serves (s s' : TcpSys) : Prop where
  serving : s'.Serving
  pTcp : s'.link.pTcp ≠ none → s.link.pTcp ≠ none

theorem Serves.refl {s : TcpSys} (hs : s.Serving) : Serves s s := ⟨hs, id⟩

theorem Serves.trans {s s' s'' : TcpSys} (h : Serves s s') (h' : Serves s' s'') : Serves s s'' :=
  ⟨h'.serving, fun hne => h.pTcp (h'.pTcp hne)⟩

theorem Serving.serves {s s' : TcpSys} {e : TcpEvent} (hs : s.Serving) (hmove : SocketMove s e s')
    (hnot : ¬ s.Connects e) (hfresh : s'.loop.Fresh)
    (hhandler : s'.link.pHandler = s.link.pHandler) (hpeer : s'.link.bPeerLink = s.link.bPeerLink)
    (htimer : s'.link.timerActive = false) : Serves s s' := by
  obtain ⟨honly, hcur⟩ := hmove.onlyCurrent hnot hs.current
  exact ⟨⟨hmove.socketInv hs.sockets hfresh, honly, hhandler.trans hs.handler,
    hpeer.trans hs.peer, htimer⟩, hcur⟩

theorem serving_accepted (self : LinkPtr) {loop : Loop} (hloop : loop.Fresh)
    (hnew : ∀ h, loop.owns self h = false) :
    Serving { accepted self loop with
      link := { (accepted self loop).link with pHandler := true } } := by
  have howns : ∀ h, (accepted self loop).loop.owns self h = decide (h = loop.nextHandle) := by
    intro h
    show ((loop.tcpInit self).setReading loop.nextHandle true).owns self h = _
    rw [Loop.owns_setReading, Loop.owns_tcpInit, hnew, Bool.or_false]
  have hsockets := socketInv_accepted self hloop
  refine ⟨⟨hsockets.fresh, hsockets.current⟩, fun h hh => ?_, rfl, rfl, rfl⟩
  have howned : (accepted self loop).loop.owns self h = true := hh
  rw [howns] at howned
  rw [of_decide_eq_true howned]
  rfl

/-- What a callback does to the fields that make the link one that only serves. -/
theorem step_serving {s s' : TcpSys} {e : TcpEvent} (hs : s.Serving)
    (h : s.step e = some s') (he : IsCallback e) : Serves s s' := by
  have hmove := step_sockets h
  have hfresh := fresh_step hs.sockets.fresh h
  have hclosed : ∀ t : TcpSys, (t.shut).link.pHandler = t.link.pHandler ∧
      t.shut.link.bPeerLink = t.link.bPeerLink ∧ t.shut.link.timerActive = false := by
    intro t
    rw [shut_link]
    exact ⟨rfl, rfl, rfl⟩
  cases step_case h with
  | setHandler | connect | send | close | connectDone | connectedReturn => exact he.elim
  | @read g seg hidle hreads hne hlen =>
    refine hs.serves hmove not_false hfresh ?_ ?_ ?_ <;> rw [onRead_link s hlen]
    exact hs.timer
  | readAgain => exact .refl hs
  | @readError g hidle hreads =>
    -- an accepted link with a handler goes through `closeError` and stops in `on_close`
    have herror : s.onReadError g = closeError { s with loop := s.loop.setReading g false } := by
      simp [onReadError, hs.peer]
    have hframe : closeError { s with loop := s.loop.setReading g false } =
        emit { link := { s.link with frame := .inClose }, loop := s.loop.setReading g false }
          .onClose := if_pos hs.handler
    rw [herror, hframe] at hmove hfresh ⊢
    exact hs.serves hmove not_false hfresh rfl rfl hs.timer
  | dataReturn c hframe =>
    refine hs.serves hmove not_false hfresh ?_ ?_ ?_ <;> rw [dataReturn_link]
    exact hs.timer
  | closeReturn hframe =>
    obtain ⟨hhandler, hpeer, htimer⟩ := hclosed { s with link := { s.link with frame := .idle } }
    exact hs.serves hmove not_false hfresh hhandler hpeer htimer
  | @writeDone q g mem len payload status hreq hidle hstatus =>
    by_cases hneg : status < 0
    -- no timer is started for an accepted link
    · have hshut : s.onWrite q mem status = shut { s with loop := afterWrite s.loop q mem } := by
        rw [onWrite_failed s q mem hneg, hs.peer]
        rfl
      rw [hshut] at hmove hfresh ⊢
      obtain ⟨hhandler, hpeer, htimer⟩ := hclosed { s with loop := afterWrite s.loop q mem }
      exact hs.serves hmove not_false hfresh hhandler hpeer htimer
    · rw [onWrite_done s q mem hneg] at hmove hfresh ⊢
      exact hs.serves hmove not_false hfresh rfl rfl hs.timer
  | tick r hidle htimer =>
    rw [hs.timer] at htimer
    cases htimer

/-- The link after a response: its connection is closed. -/
theorem respond_link (s : TcpSys) (res : Bytes) (r : ℤ) :
    ∃ t, (s.respond res r).link =
      { s.link with bConnected := false, pTcp := none, timerActive := false, trace := t } := by
  obtain ⟨t, ht⟩ := s.send_link (reply res) r
  refine ⟨t ++ s.link.pTcp.toList.map .uvClose ++ [.timerStop], ?_⟩
  show (shut _).link = _
  rw [shut_link, ht]

/-- What the responses to the requests of a segment do to the link. -/
structure Responds (answers : List (Bytes × ℤ)) (s s' : TcpSys) : Prop where
  serves : Serves s s'
  buf : s'.link.buf = s.link.buf
  pTcp : answers ≠ [] → s'.link.pTcp = none

theorem Serving.responds {s : TcpSys} (hs : s.Serving) (answers : List (Bytes × ℤ)) :
    Responds answers s (answers.foldl (fun s answer => s.respond answer.1 answer.2) s) := by
  induction answers generalizing s with
  | nil => exact ⟨.refl hs, rfl, fun h => absurd rfl h⟩
  | cons answer answers ih =>
    obtain ⟨t, ht⟩ := s.respond_link answer.1 answer.2
    have hcloses : ClosesSocket s (s.respond answer.1 answer.2) :=
      (keepsSockets_send s _ _).closes (closesSocket_shut _)
    have hmove : SocketMove s .closeReturn (s.respond answer.1 answer.2) :=
      .closes not_false hcloses
    have hfresh : (s.respond answer.1 answer.2).loop.Fresh :=
      fresh_shut (fresh_send hs.sockets.fresh _ _)
    have hfirst : Serves s (s.respond answer.1 answer.2) := by
      refine hs.serves hmove not_false hfresh ?_ ?_ ?_ <;> rw [ht]
    have hrest := ih hfirst.serving
    refine ⟨hfirst.trans hrest.serves, ?_, fun _ => ?_⟩
    · rw [List.foldl_cons, hrest.buf, ht]
    · by_contra hne
      exact hrest.serves.pTcp hne hcloses.pTcp

end TcpSys

/-! ## The connection -/

/-- What a session does for a complete request. -/
inductive SessionAct
  | invoked (inv : Invocation)
  | closed

def SessionAct.isInvoked : SessionAct → Bool
  | .invoked _ => true
  | .closed => false

/-- An accepted link, and the session that an `HttpServer` with a handler holds for it. -/
structure HttpConnection where
  tcp : TcpSys
  /-- The session in `m_mapLink`, until `on_close` deletes it. -/
  session : Option HttpPeerLink
  /-- Specification only: what the session has done. -/
  acts : List SessionAct

/-- What libuv can do next with the link; `answers` is what the handler and `uv_write` return for
each request that the segment completes. -/
inductive HttpConnectionEvent
  | read (h : HandleId) (seg : List UInt8) (answers : List (Bytes × ℤ))
  | readAgain (h : HandleId)
  | readError (h : HandleId)
  | writeDone (q : ReqId) (status : ℤ)
  | tick (r : ℤ)

namespace HttpConnection

/-- `TcpServer::on_accept` and, as its callback, `HttpServer::on_connected`. -/
def accepted (self : LinkPtr) (loop : Loop) : HttpConnection where
  tcp :=
    { TcpSys.accepted self loop with
      link := { (TcpSys.accepted self loop).link with pHandler := true } }
  session := some .new
  acts := []

/-- What `on_complete` does for each of the requests: invoke the handler, send and close. -/
def actsOf (invocations : List Invocation) : List SessionAct :=
  invocations.flatMap fun inv => [.invoked inv, .closed]

/-- `HttpServer::on_data` and the end of `TcpLink::on_read`. -/
def on_data (s : HttpConnection) (data : Bytes) (answers : List (Bytes × ℤ)) :
    Option HttpConnection :=
  match s.session with
  | none =>
    if answers = [] then (s.tcp.step (.dataReturn 0)).map fun tcp => { s with tcp } else none
  | some session =>
    let invocations := session.invocationsOf data
    if answers.length = invocations.length then
      let tcp := answers.foldl (fun tcp answer => tcp.respond answer.1 answer.2) s.tcp
      (tcp.step (.dataReturn data.length)).map fun tcp =>
        { tcp, session := some (session.on_data data), acts := s.acts ++ actsOf invocations }
    else none

/-- One step, `none` if the event cannot happen now. -/
def step (s : HttpConnection) : HttpConnectionEvent → Option HttpConnection
  | .read h seg answers =>
    (s.tcp.step (.read h seg)).bind fun tcp =>
      on_data { s with tcp } (tcp.link.buf.offered.map fun c => c.getD 0) answers
  | .readAgain h => (s.tcp.step (.readAgain h)).map fun tcp => { s with tcp }
  | .readError h =>
    (s.tcp.step (.readError h)).bind fun tcp => (tcp.step .closeReturn).map fun tcp =>
      { s with tcp, session := none }
  | .writeDone q status => (s.tcp.step (.writeDone q status)).map fun tcp => { s with tcp }
  | .tick r => (s.tcp.step (.tick r)).map fun tcp => { s with tcp }

/-- The handler has been invoked at most once, and not after the session closed the link. -/
structure OneRequest (s : HttpConnection) : Prop where
  once : s.acts.countP SessionAct.isInvoked ≤ 1
  silent : ∀ before inv after, s.acts = before ++ .invoked inv :: after → SessionAct.closed ∉ before

/-- In a segment for the session no complete request follows another one. -/
def SingleRequest (s : HttpConnection) : HttpConnectionEvent → Prop
  | .read _ seg _ => ∀ session, s.session = some session → session.SingleRequest seg
  | _ => True

theorem countP_actsOf (invocations : List Invocation) :
    (actsOf invocations).countP SessionAct.isInvoked = invocations.length := by
  induction invocations with
  | nil => rfl
  | cons inv invocations ih =>
    show List.countP _ (.invoked inv :: .closed :: actsOf invocations) = _
    rw [List.countP_cons_of_pos rfl, List.countP_cons_of_neg (by decide), ih]
    rfl

theorem oneRequest_iff {s : HttpConnection} {invocations : List Invocation}
    (hacts : s.acts = actsOf invocations) : s.OneRequest ↔ invocations.length ≤ 1 := by
  constructor
  · intro h
    have hcount := h.once
    rwa [hacts, countP_actsOf] at hcount
  · intro hle
    refine ⟨by rwa [hacts, countP_actsOf], fun before inv after heq hclosed => ?_⟩
    -- two acts before an invocation are those for another request
    have hcount : (before ++ .invoked inv :: after).countP SessionAct.isInvoked ≤ 1 := by
      rwa [← heq, hacts, countP_actsOf]
    rw [hacts] at heq
    match invocations, before, hclosed with
    | [], _ :: _, _ => cases heq
    | inv' :: _, a :: before, _ =>
      have hfirst : a = .invoked inv' := (List.cons.inj heq).1.symm
      rw [hfirst, List.cons_append, List.countP_cons_of_pos rfl, List.countP_append,
        List.countP_cons_of_pos rfl] at hcount
      omega

/-! ## Runs of the connection -/

/-- What holds of the connection between two events. While it is open the session waits for its
request. -/
structure Inv (s : HttpConnection) : Prop where
  serving : s.tcp.Serving
  buf : s.tcp.link.buf.Drained
  known : ∀ session, s.session = some session → session.Known
  waiting : s.tcp.link.pTcp ≠ none → s.acts = [] ∧ s.session ≠ none

/-- What a segment does: it comes to the session as it is, and the session has done nothing
before. -/
structure Reads (s : HttpConnection) (seg : List UInt8) (s' : HttpConnection) : Prop where
  inv : s'.Inv
  session : ∃ session, s.session = some session ∧
    s'.acts = actsOf (session.invocationsOf seg)
  length : seg.length ≤ STATIC_BUF_SIZE

theorem Inv.reads {s s' : HttpConnection} (hs : s.Inv) {h : HandleId} {seg : List UInt8}
    {answers : List (Bytes × ℤ)} (hstep : s.step (.read h seg answers) = some s') :
    s.Reads seg s' := by
  obtain ⟨tcp, htcp, hdata⟩ := Option.bind_eq_some_iff.mp hstep
  have hserves := TcpSys.step_serving hs.serving htcp trivial
  cases TcpSys.step_case htcp with
  | read hidle hreads hne hlen =>
    have hcur : s.tcp.link.pTcp ≠ none := by
      rw [hs.serving.current h hreads.socket]
      exact Option.some_ne_none _
    obtain ⟨hacts, hsession⟩ := hs.waiting hcur
    obtain ⟨session, hsome⟩ := Option.ne_none_iff_exists'.mp hsession
    -- the buffer was empty, so the segment is what is offered
    have hcells : (cells seg).length = seg.length := List.length_map _
    have hlen' : (cells seg).length ≤ STATIC_BUF_SIZE := hcells.trans_le hlen
    obtain ⟨hoffered, hdrained⟩ := hs.buf.addData hlen'
    have hbuf : (s.tcp.onRead seg).link.buf = s.tcp.link.buf.addData (cells seg) := by
      rw [TcpSys.onRead_link _ hlen]
    have hseg : ((s.tcp.onRead seg).link.buf.offered.map fun c => c.getD 0) = seg := by
      rw [hbuf, hoffered]
      simp [cells]
    rw [hseg] at hdata
    simp only [on_data, hsome] at hdata
    split at hdata
    next hanswers =>
      obtain ⟨tcp', htcp', rfl⟩ := Option.map_eq_some_iff.mp hdata
      have hresponds := hserves.serving.responds answers
      have hreturn := TcpSys.step_serving hresponds.serves.serving htcp' trivial
      have hall := hserves.trans (hresponds.serves.trans hreturn)
      refine ⟨⟨hall.serving, ?_, ?_, ?_⟩, ⟨session, hsome, ?_⟩, hlen⟩
      · cases TcpSys.step_case htcp' with
        | dataReturn _ hframe =>
          have hpos : (seg.length : ℤ) > 0 := by
            have := List.length_pos_of_ne_nil hne
            omega
          rw [TcpSys.dataReturn_link, hresponds.buf, hbuf, if_pos hpos, ← hcells]
          exact hdrained
      · rintro _ ⟨⟩
        exact HttpPeerLink.known_on_data (hs.known session hsome) seg
      · intro hopen
        have hnil : answers = [] := by
          by_contra hanswered
          exact hreturn.pTcp hopen (hresponds.pTcp hanswered)
        rw [hnil] at hanswers
        have hnone := List.eq_nil_of_length_eq_zero hanswers.symm
        refine ⟨?_, Option.some_ne_none _⟩
        show s.acts ++ actsOf (session.invocationsOf seg) = []
        rw [hacts, hnone]
        rfl
      · show s.acts ++ _ = _
        rw [hacts, List.nil_append]
    next => cases hdata

/-- An event that brings the session nothing. -/
theorem Inv.withTcp {s : HttpConnection} (hs : s.Inv) {tcp : TcpSys}
    (hserves : TcpSys.Serves s.tcp tcp) (hbuf : tcp.link.buf = s.tcp.link.buf) :
    Inv { s with tcp } where
  serving := hserves.serving
  buf := by
    show tcp.link.buf.Drained
    rw [hbuf]
    exact hs.buf
  known := hs.known
  waiting hopen := hs.waiting (hserves.pTcp hopen)

/-- What an event does. -/
inductive Moves (s : HttpConnection) : HttpConnectionEvent → HttpConnection → Prop
  | reads {h : HandleId} {seg : List UInt8} {answers : List (Bytes × ℤ)} {s' : HttpConnection}
      (hreads : s.Reads seg s') : Moves s (.read h seg answers) s'
  | quiet {e : HttpConnectionEvent} {s' : HttpConnection} (hsingle : s.SingleRequest e)
      (hinv : s'.Inv) (hacts : s'.acts = s.acts) : Moves s e s'

theorem step_moves {s s' : HttpConnection} {e : HttpConnectionEvent} (hs : s.Inv)
    (h : s.step e = some s') : s.Moves e s' := by
  -- a callback that leaves the buffer alone
  have hcallback : ∀ {t : TcpEvent} {tcp : TcpSys}, s.tcp.step t = some tcp →
      TcpSys.IsCallback t → (∀ g seg, t ≠ .read g seg) → (∀ c, t ≠ .dataReturn c) →
      TcpSys.Serves s.tcp tcp ∧ tcp.link.buf = s.tcp.link.buf := by
    intro t tcp hstep ht hread hreturn
    exact ⟨TcpSys.step_serving hs.serving hstep ht,
      (TcpSys.step_keepsStream hstep hread hreturn).1⟩
  cases e with
  | read g seg answers => exact .reads (hs.reads h)
  | readAgain g =>
    obtain ⟨tcp, htcp, rfl⟩ := Option.map_eq_some_iff.mp h
    obtain ⟨hserves, hbuf⟩ := hcallback htcp trivial (by simp) (by simp)
    exact .quiet trivial (hs.withTcp hserves hbuf) rfl
  | readError g =>
    obtain ⟨tcp, htcp, hclose⟩ := Option.bind_eq_some_iff.mp h
    obtain ⟨tcp', htcp', rfl⟩ := Option.map_eq_some_iff.mp hclose
    obtain ⟨hserves, hbuf⟩ := hcallback htcp trivial (by simp) (by simp)
    have hserves' := TcpSys.step_serving hserves.serving htcp' trivial
    have hbuf' := (TcpSys.step_keepsStream htcp' (by simp) (by simp)).1
    refine .quiet trivial ⟨hserves'.serving, ?_, nofun, fun hopen => ?_⟩ rfl
    · show tcp'.link.buf.Drained
      rw [hbuf', hbuf]
      exact hs.buf
    · -- the session is deleted, and the link is closed behind it
      cases TcpSys.step_case htcp' with
      | closeReturn hframe =>
        have hnone : tcp.closeReturn.link.pTcp = none := by
          show (TcpSys.shut _).link.pTcp = none
          rw [TcpSys.shut_link]
        exact absurd hnone hopen
  | writeDone q status =>
    obtain ⟨tcp, htcp, rfl⟩ := Option.map_eq_some_iff.mp h
    obtain ⟨hserves, hbuf⟩ := hcallback htcp trivial (by simp) (by simp)
    exact .quiet trivial (hs.withTcp hserves hbuf) rfl
  | tick r =>
    obtain ⟨tcp, htcp, rfl⟩ := Option.map_eq_some_iff.mp h
    obtain ⟨hserves, hbuf⟩ := hcallback htcp trivial (by simp) (by simp)
    exact .quiet trivial (hs.withTcp hserves hbuf) rfl

theorem inv_step : Invariant step Inv := by
  intro s e s' hs h
  cases step_moves hs h with
  | reads hreads => exact hreads.inv
  | quiet _ hinv _ => exact hinv

/-- **One event** lets the handler be invoked at most once if and only if it brings no complete
request behind another one. -/
theorem oneRequest_step {s s' : HttpConnection} {e : HttpConnectionEvent} (hs : s.Inv)
    (hone : s.OneRequest) (h : s.step e = some s') : s'.OneRequest ↔ s.SingleRequest e := by
  cases step_moves hs h with
  | @reads g seg answers _ hreads =>
    obtain ⟨session, hsome, hacts⟩ := hreads.session
    have hlen : seg.length ≤ max_header_size := hreads.length.trans (by decide)
    rw [oneRequest_iff hacts, HttpPeerLink.invocationsOf_le_one_iff (hs.known session hsome) hlen]
    constructor
    · intro hsingle session' hsome'
      rw [hsome] at hsome'
      cases hsome'
      exact hsingle
    · intro hsingle
      exact hsingle session hsome
  | quiet hsingle _ hacts =>
    refine iff_of_true ⟨?_, ?_⟩ hsingle
    · rw [hacts]
      exact hone.once
    · rw [hacts]
      exact hone.silent

theorem inv_accepted (self : LinkPtr) {loop : Loop} (hloop : loop.Fresh)
    (hnew : ∀ h, loop.owns self h = false) : (accepted self loop).Inv where
  serving := TcpSys.serving_accepted self hloop hnew
  buf := RecvBuffer.drained_new
  known := by
    rintro _ ⟨⟩
    exact Or.inl rfl
  waiting _ := ⟨rfl, Option.some_ne_none _⟩

/-- **One request for each connection.** In a run of an accepted link with its session, the handler
is invoked at most once, and never after the session has closed the link, if and only if no
segment brings a complete request behind another one. -/
theorem one_request_iff (self : LinkPtr) {loop : Loop} (hloop : loop.Fresh)
    (hnew : ∀ h, loop.owns self h = false) (es : List HttpConnectionEvent) :
    Always step OneRequest (accepted self loop) es ↔
      EachStep step SingleRequest (accepted self loop) es := by
  refine always_iff_eachStep inv_step ?_ (inv_accepted self hloop hnew) ?_ es
  · intro s e s' hs hone h
    exact oneRequest_step hs hone h
  · exact ⟨Nat.zero_le 1, fun before inv after heq => by cases before <;> cases heq⟩

/-- A request in one segment, and the end of the write of its response. -/
def oneRequestRun : List HttpConnectionEvent :=
  [.read 0 (bytes "GET /a HTTP/1.1\r\n\r\n") [([], 0)], .writeDone 0 0]

theorem one_request_oneRequestRun :
    Always step OneRequest (accepted 0 Loop.new) oneRequestRun ∧
      (exec step (accepted 0 Loop.new) oneRequestRun).isSome = true := by
  refine ⟨(one_request_iff 0 Loop.fresh_new (fun _ => rfl) oneRequestRun).mpr ?_,
    by decide +kernel⟩
  intro s' hs'
  refine ⟨?_, fun _ _ => ⟨trivial, trivial⟩⟩
  rintro _ ⟨⟩
  refine HttpPeerLink.singleRequest_of_take ?_
  decide +kernel

/-- Two requests in one segment. -/
def pipelinedRun : List HttpConnectionEvent :=
  [.read 0 (bytes "GET /a HTTP/1.1\r\n\r\nGET /b HTTP/1.1\r\n\r\n") [([], 0), ([], 0)]]

/-- The handler is invoked for the second one as well. -/
theorem not_one_request_pipelinedRun :
    ¬ Always step OneRequest (accepted 0 Loop.new) pipelinedRun := by
  intro h
  have hend : (exec step (accepted 0 Loop.new) pipelinedRun).map
      (fun s => s.acts.countP SessionAct.isInvoked) = some 2 := by decide +kernel
  obtain ⟨s, hexec, hcount⟩ := Option.map_eq_some_iff.mp hend
  have honce := (h.last hexec).once
  omega

end HttpConnection
end SomoNet
