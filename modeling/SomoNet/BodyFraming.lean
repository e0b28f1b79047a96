import SomoNet.Http.Lockstep
import SomoNet.HttpSession

/-!
# Requests and their bodies

`HttpPeerLink::on_header_complete` answers 1 when the stored method passes for `GET`, and the
parser then goes on with the next byte as a new message, whatever body the headers declare.
The run of the session is compared with a run of the same parser that reads every declared
body (`Framed`): the two keep together as long as the bodies that the session skips are made
of line ends.
-/

namespace SomoNet

open Http Execution

/-- At every byte, after the bytes before it. -/
def EachByte (P : Bytes → UInt8 → Prop) (data : Bytes) : Prop :=
  ∀ pre ch post, data = pre ++ ch :: post → P pre ch

theorem eachByte_nil (P : Bytes → UInt8 → Prop) : EachByte P [] := by
  intro pre ch post h
  simp at h

theorem eachByte_cons (P : Bytes → UInt8 → Prop) (c : UInt8) (data : Bytes) :
    EachByte P (c :: data) ↔ P [] c ∧ EachByte (fun pre => P (c :: pre)) data := by
  constructor
  · intro h
    exact ⟨h [] c data rfl, fun pre ch post heq => h (c :: pre) ch post (by rw [heq]; rfl)⟩
  · intro ⟨hhead, htail⟩ pre ch post heq
    cases pre with
    | nil =>
      obtain ⟨rfl, -⟩ := List.cons.inj heq
      exact hhead
    | cons c' pre =>
      obtain ⟨rfl, hrest⟩ := List.cons.inj heq
      exact htail pre ch post hrest

theorem eachByte_of_take {P : Bytes → UInt8 → Prop} {data : Bytes}
    (h : ∀ k < data.length, P (data.take k) (data.getD k 0)) : EachByte P data := by
  intro pre ch post heq
  have := h pre.length (by rw [heq]; simp)
  rwa [heq, List.take_left, List.getD_eq_getElem?_getD, List.getElem?_append_right (le_refl _),
    Nat.sub_self] at this

/-- The next byte is read as the beginning of a message, or as an empty line before it. -/
def Http.Execution.Awaits {σ : Type*} (r : Execution σ) : Prop :=
  r.stopped = false ∧ r.exec.parser.state = .s_start_req

/-- A user of the parser that collects requests as the session does and has it read every
body. -/
structure Framed where
  link : HttpPeerLink
  /-- The urls of the requests whose headers are complete. -/
  requests : List Bytes
  /-- The body that is being read is one that the session skips. -/
  skipped : Bool
  /-- The session has skipped a body after which the connection does not go on. -/
  last : Bool

namespace Framed

def new (link : HttpPeerLink) : Framed := ⟨link, [], false, false⟩

def on_headers_complete (p : Parser) (u : Framed) : Framed × ℤ :=
  let skips : Bool := (HttpPeerLink.on_header_complete p u.link).2 = 1
  let again := p.should_keep_alive && !p.upgrade
  ({ u with
      requests := u.requests ++ [u.link.pRequest.strUrl]
      skipped := skips && again && !u.last
      last := u.last || (skips && !again) }, 0)

def settings : Settings Framed where
  on_url method data u := { u with link := HttpPeerLink.on_url method data u.link }
  on_header_field data u := { u with link := HttpPeerLink.on_header_field data u.link }
  on_header_value data u := { u with link := HttpPeerLink.on_header_value data u.link }
  on_headers_complete := on_headers_complete
  on_body data u := { u with link := HttpPeerLink.on_body data u.link }
  on_message_complete u := { u with skipped := false }

end Framed

/-! ## What the callbacks collect -/

/-- The calls that report neither a url nor the end of a message. -/
def Http.Event.isData : Event → Bool
  | .header_field _ | .header_value _ | .body _ => true
  | _ => false

theorem Http.Reports.isData {a : Part} {cs : List Event} (h : Reports a cs) :
    ∀ c ∈ cs, c.isData = true := by
  intro c hc
  cases h <;> simp_all [Event.isData]

namespace HttpPeerLink

/-- The method, the url and the invocations are as they were. -/
structure Keeps (u u' : HttpPeerLink) : Prop where
  method : u'.pRequest.strMethod = u.pRequest.strMethod
  url : u'.pRequest.strUrl = u.pRequest.strUrl
  invocations : u'.invocations = u.invocations

theorem keeps_callAll {cs : List Event} (hcs : ∀ c ∈ cs, c.isData = true) (u : HttpPeerLink) :
    Keeps u (settings.callAll u cs) := by
  induction cs generalizing u with
  | nil => exact ⟨rfl, rfl, rfl⟩
  | cons c cs ih =>
    have hrest := ih (fun d hd => hcs d (List.mem_cons_of_mem c hd)) (settings.call u c)
    have hfirst : Keeps u (settings.call u c) := by
      have hc := hcs c List.mem_cons_self
      cases c with
      | url | message_complete => cases hc
      | header_field | header_value | body => exact ⟨rfl, rfl, rfl⟩
    exact ⟨hrest.method.trans hfirst.method, hrest.url.trans hfirst.url,
      hrest.invocations.trans hfirst.invocations⟩

end HttpPeerLink

theorem Framed.callAll_eq {cs : List Event} (hcs : ∀ c ∈ cs, c.isData = true) (v : Framed) :
    Framed.settings.callAll v cs =
      { v with link := HttpPeerLink.settings.callAll v.link cs } := by
  induction cs generalizing v with
  | nil => rfl
  | cons c cs ih =>
    have hc := hcs c List.mem_cons_self
    rw [Settings.callAll_cons, ih (fun d hd => hcs d (List.mem_cons_of_mem c hd))]
    cases c with
    | url | message_complete => cases hc
    | header_field | header_value | body => rfl

/-- No call begins to skip a body. -/
theorem Framed.callAll_frame (cs : List Event) (v : Framed) :
    (Framed.settings.callAll v cs).requests = v.requests ∧
      (Framed.settings.callAll v cs).last = v.last ∧
      (v.skipped = false → (Framed.settings.callAll v cs).skipped = false) := by
  induction cs generalizing v with
  | nil => exact ⟨rfl, rfl, id⟩
  | cons c cs ih =>
    obtain ⟨hrequests, hlast, hskipped⟩ := ih (Framed.settings.call v c)
    have hcall : (Framed.settings.call v c).requests = v.requests ∧
        (Framed.settings.call v c).last = v.last ∧
        (v.skipped = false → (Framed.settings.call v c).skipped = false) := by
      cases c with
      | message_complete => exact ⟨rfl, rfl, fun _ => rfl⟩
      | url | header_field | header_value | body => exact ⟨rfl, rfl, id⟩
    exact ⟨hrequests.trans hcall.1, hlast.trans hcall.2.1, fun h => hskipped (hcall.2.2 h)⟩

/-- Nothing is skipped after the last body. -/
theorem Framed.step_last {d : Execution Framed} (hlast : d.user.last = true)
    (hskipped : d.user.skipped = false) (ch : UInt8) :
    ∃ more, (d.step Framed.settings ch).user.requests = d.user.requests ++ more ∧
      (d.step Framed.settings ch).user.last = true ∧
      (d.step Framed.settings ch).user.skipped = false := by
  let After : Framed → Prop := fun v =>
    ∃ more, v.requests = d.user.requests ++ more ∧ v.last = true ∧ v.skipped = false
  have hcall : ∀ v c, After v → After (Framed.settings.call v c) := by
    rintro v c ⟨more, hrequests, hl, hs⟩
    obtain ⟨hrequests', hl', hs'⟩ := Framed.callAll_frame [c] v
    exact ⟨more, hrequests'.trans hrequests, hl'.trans hl, hs' hs⟩
  have hheaders : ∀ p v, After v → After (Framed.settings.on_headers_complete p v).1 := by
    rintro p v ⟨more, hrequests, hl, -⟩
    refine ⟨more ++ [v.link.pRequest.strUrl], ?_, ?_, ?_⟩
    · show v.requests ++ _ = _
      rw [hrequests, List.append_assoc]
    · simp [Framed.settings, Framed.on_headers_complete, hl]
    · simp [Framed.settings, Framed.on_headers_complete, hl]
  exact step_keeps hcall hheaders ⟨[], (List.append_nil _).symm, hlast, hskipped⟩ ch

/-! ## Requests served -/

/-- The handler has been invoked for some of the requests, in their order and with their
urls. -/
def Served (base : List Invocation) (u : HttpPeerLink) (requests : List Bytes) : Prop :=
  ∃ served, u.invocations = base ++ served ∧ (served.map Invocation.url).Sublist requests

theorem Served.more {base : List Invocation} {u : HttpPeerLink} {requests : List Bytes}
    (h : Served base u requests) (more : List Bytes) : Served base u (requests ++ more) := by
  obtain ⟨served, hu, hsub⟩ := h
  exact ⟨served, hu, hsub.trans (List.sublist_append_left requests more)⟩

theorem Served.of_invocations {base : List Invocation} {u u' : HttpPeerLink}
    {requests : List Bytes} (h : Served base u requests) (heq : u'.invocations = u.invocations) :
    Served base u' requests := by
  unfold Served
  rw [heq]
  exact h

/-- The request that is completed is served as the last one. -/
theorem Served.complete {base : List Invocation} {u : HttpPeerLink} {requests : List Bytes}
    (h : Served base u requests) :
    Served base u.on_complete (requests ++ [u.pRequest.strUrl]) := by
  obtain ⟨served, hu, hsub⟩ := h
  refine ⟨served ++ u.invocation.toList, ?_, ?_⟩
  · simp [HttpPeerLink.on_complete, hu]
  · rw [List.map_append]
    refine hsub.append ?_
    simp only [HttpPeerLink.invocation]
    split
    · simp [Invocation.url]
    · split <;> simp [Invocation.url]

/-- The users are at the same request, whose headers are complete or not (`opened`). -/
structure InStep (base : List Invocation) (opened : Bool) (u : HttpPeerLink) (v : Framed) :
    Prop where
  method : v.link.pRequest.strMethod = u.pRequest.strMethod
  url : v.link.pRequest.strUrl = u.pRequest.strUrl
  served : ∃ requests, v.requests = requests ++ (if opened then [u.pRequest.strUrl] else []) ∧
    Served base u requests

namespace InStep

variable {base : List Invocation} {u u' : HttpPeerLink} {v : Framed}

theorem all {o : Bool} (h : InStep base o u v) : Served base u v.requests := by
  obtain ⟨requests, heq, hserved⟩ := h.served
  rw [heq]
  exact hserved.more _

/-- Data reported to the session. -/
theorem keeps {o : Bool} (h : InStep base o u v) (hu : HttpPeerLink.Keeps u u') :
    InStep base o u' v where
  method := h.method.trans hu.method.symm
  url := h.url.trans hu.url.symm
  served := by
    obtain ⟨requests, heq, hserved⟩ := h.served
    exact ⟨requests, by rw [heq, hu.url], hserved.of_invocations hu.invocations⟩

/-- Data reported to the other one. -/
theorem keeps_right {o : Bool} {link : HttpPeerLink} (h : InStep base o u v)
    (hv : HttpPeerLink.Keeps v.link link) : InStep base o u { v with link } where
  method := hv.method.trans h.method
  url := hv.url.trans h.url
  served := h.served

theorem data {o : Bool} {cs : List Event} (h : InStep base o u v)
    (hcs : ∀ c ∈ cs, c.isData = true) :
    InStep base o (HttpPeerLink.settings.callAll u cs) (Framed.settings.callAll v cs) := by
  rw [Framed.callAll_eq hcs]
  exact (h.keeps (HttpPeerLink.keeps_callAll hcs u)).keeps_right (HttpPeerLink.keeps_callAll hcs _)

/-- The session completes the request. -/
theorem complete (h : InStep base true u v) : InStep base false u.on_complete v where
  method := h.method
  url := h.url
  served := by
    obtain ⟨requests, heq, hserved⟩ := h.served
    exact ⟨requests ++ [u.pRequest.strUrl], by simpa using heq, hserved.complete⟩

theorem move {a b : Part} {o o' : Bool} {cs : List Event} (hmove : Move a o cs b o')
    (h : InStep base o u v) :
    InStep base o' (HttpPeerLink.settings.callAll u cs) (Framed.settings.callAll v cs) := by
  cases hmove with
  | quiet => exact h
  | url m d =>
    obtain ⟨requests, heq, hserved⟩ := h.served
    refine ⟨?_, ?_, requests, heq, ?_⟩
    · have := h.method
      cases m <;> first | exact this | rfl
    · cases m <;> rfl
    · exact hserved.of_invocations rfl
  | header_field d | header_value d | body d => exact h.data (by simp [Event.isData])
  | complete hreports =>
    rw [Settings.callAll_append, Settings.callAll_append]
    have := (h.data hreports.isData).complete
    exact ⟨this.method, this.url, this.served⟩

end InStep

/-! ## Skipping a body and reading it -/

/-- With the answer 1 the message is complete. -/
theorem Http.headers_complete_one (p : Parser) :
    ∃ flags, headers_complete 1 p LF =
      Parser.complete { p with nread := 0, flags } p.upgrade ∧
        Parser.new_message { p with flags } = p.new_message := by
  refine ⟨{ p.flags with F_SKIPBODY := true }, ?_, rfl⟩
  cases hup : p.upgrade <;> simp [headers_complete, headers_done, hup]

/-- With the answer 0, where the protocol does not change, the headers cannot be accepted, the
message is complete or its body comes next. -/
theorem Http.headers_complete_zero {p : Parser} (hup : p.upgrade = false) :
    (∃ err, headers_complete 0 p LF = ⟨Parser.fail { p with nread := 0 } err, false, true⟩) ∨
      headers_complete 0 p LF = Parser.complete { p with nread := 0 } false ∨
      ∃ s, (s = .s_chunk_size_start ∨ s = .s_body_identity) ∧
        headers_complete 0 p LF = ⟨{ p with nread := 0, state := s }, false, false⟩ := by
  unfold headers_complete
  rw [if_pos rfl]
  simp only [headers_done]
  rw [if_neg (by simp), if_neg (by simp [hup])]
  split
  · exact Or.inr (Or.inl rfl)
  split
  · exact Or.inr (Or.inr ⟨_, Or.inl rfl, rfl⟩)
  split
  · exact Or.inl ⟨_, rfl⟩
  split
  · exact Or.inr (Or.inl rfl)
  split
  · exact Or.inr (Or.inr ⟨_, Or.inr rfl, rfl⟩)
  · exact Or.inr (Or.inl rfl)

/-- An empty line before a message is counted and nothing else. -/
theorem Http.feed_emptyLine {e : Exec} {ch : UInt8} (hs : e.parser.state = .s_start_req)
    (hch : isCRLF ch = true) (hsize : e.size < max_header_size) :
    ∃ k, e.parser.nread ≤ k ∧ feed e ch = .next [] (e.count k) := by
  have hdispatch : ∀ k, dispatch (e.count k) ch = .next [] (e.count k) := by
    intro k
    simp only [dispatch, Exec.count, Parser.count, hs, start_req, hch, if_true]
    rfl
  unfold feed
  split
  next hhead =>
    have hrun : e.run = 0 := hhead.2
    rw [if_neg (by rw [Exec.size, hrun] at hsize; omega)]
    exact ⟨e.parser.nread + 1, Nat.le_succ _, hdispatch _⟩
  next => exact ⟨e.parser.nread, le_refl _, hdispatch e.parser.nread⟩

/-- A connection that is over stays so, without a call. -/
theorem Http.feed_dead {e : Exec} (hs : e.parser.state = .s_dead) (ch : UInt8) :
    (∃ f, feed e ch = .next [] f ∧ f.parser.state = .s_dead) ∨ ∃ p, feed e ch = .stop [] p := by
  have hdispatch : ∀ k, (∃ f, dispatch (e.count k) ch = .next [] f ∧ f.parser.state = .s_dead) ∨
      ∃ p, dispatch (e.count k) ch = .stop [] p := by
    intro k
    simp only [dispatch, Exec.count, Parser.count, hs, dead]
    split
    · exact Or.inl ⟨_, rfl, rfl⟩
    · exact Or.inr ⟨_, rfl⟩
  unfold feed
  split
  · split
    · exact Or.inr ⟨_, rfl⟩
    · exact hdispatch _
  · exact hdispatch e.parser.nread

/-- A line end cannot begin a chunk. -/
theorem Http.feed_chunk_size_start {e : Exec} {ch : UInt8}
    (hs : e.parser.state = .s_chunk_size_start) (hch : isCRLF ch = true) :
    ∃ p, feed e ch = .stop [] p ∧ p.http_errno ≠ none := by
  have hnone : unhex ch = none := by
    have : ch = CR ∨ ch = LF := by simpa [isCRLF] using hch
    rcases this with rfl | rfl <;> decide
  have hdispatch : ∀ k, dispatch (e.count k) ch = (e.count k).fail .HPE_INVALID_CHUNK_SIZE := by
    intro k
    simp only [dispatch, Exec.count, Parser.count, hs, chunk_size_start, hnone]
    rfl
  unfold feed
  split
  · split
    · exact ⟨_, rfl, by simp [Parser.fail]⟩
    · exact ⟨_, hdispatch _, by simp [Parser.fail]⟩
  · exact ⟨_, hdispatch e.parser.nread, by simp [Parser.fail]⟩

/-- A byte of a body, which is read on or is complete with it. -/
theorem Http.feed_body_identity {e : Exec} (hs : e.parser.state = .s_body_identity)
    (hup : e.parser.upgrade = false) (ch : UInt8) :
    ∃ mark n, feed e ch = .next [] { e with mark, parser := { e.parser with content_length := n } } ∨
      ∃ cs, (∀ c ∈ cs, c.isData = true) ∧
        feed e ch = .next (cs ++ [.message_complete])
          { e with
            mark := none
            parser := { e.parser with content_length := n, state := e.parser.new_message } } := by
  have hfeed : feed e ch = body_identity e ch := by
    unfold feed
    rw [if_neg (by rw [hs]; simp [State.parsingHeader]), dispatch]
    simp only [hs]
  have hset : e.setMark .body = { e with mark := (e.setMark .body).mark } := by
    unfold Exec.setMark
    split <;> rfl
  -- what is reported at the end, if anything, is the body
  have hcalls : ∀ f : Exec, ∀ c ∈ f.calls .body, c.isData = true := by
    intro f c hc
    unfold Exec.calls at hc
    split at hc
    · split at hc
      · rw [List.mem_singleton.mp hc]
        rfl
      · cases hc
    · cases hc
  rw [hfeed]
  simp only [body_identity]
  rw [hset]
  generalize (e.setMark .body).mark = mark
  refine ⟨mark, e.parser.content_length - 1, ?_⟩
  split
  · refine Or.inr ⟨(Exec.consume { e with mark } ch).calls .body, hcalls _, ?_⟩
    simp only [Exec.ending, message_done, Parser.complete, hup]
    rfl
  · exact Or.inl rfl

/-! ## The two runs -/

/-- The run that reads every body has come to an error. -/
def Failed (d : Execution Framed) : Prop :=
  d.stopped = true ∧ d.exec.parser.http_errno ≠ none

/-- How the session (`r`) and the run that reads every body (`d`) can stand to each other,
when no byte of a skipped body but line ends has been read. -/
inductive Related (base : List Invocation) (n : ℕ) (r : Execution HttpPeerLink)
    (d : Execution Framed) : Prop
  /-- They are at the same place of the same message. -/
  | sync (hr : r.Ok n) (hd : d.Ok n) (hagree : r.exec.Agree d.exec)
      (huser : InStep base r.exec.opened r.user d.user) (hskipped : d.user.skipped = false)
      (hlast : d.user.last = false)
  /-- The session waits for a message and the other reads a body that the session skips. -/
  | lag (hr : r.Ok n) (hd : d.Ok n) (hstate : r.exec.parser.state = .s_start_req)
      (hbody : d.exec.parser.state = .s_chunk_size_start ∨ d.exec.parser.state = .s_body_identity)
      (hagain : d.exec.parser.new_message = .s_start_req) (hup : d.exec.parser.upgrade = false)
      (hnread : d.exec.parser.nread ≤ r.exec.parser.nread) (hrun : d.exec.run = r.exec.run)
      (hgeneral : d.exec.general = r.exec.general) (huser : InStep base false r.user d.user)
      (hskipped : d.user.skipped = true) (hlast : d.user.last = false)
  /-- The session is over. -/
  | lost (hr : r.stopped = true ∨ r.exec.parser.state = .s_dead)
      (hd : d.stopped = true ∨ d.user.last = true) (hserved : Served base r.user d.user.requests)
      (hskipped : d.user.skipped = false)

namespace Related

variable {base : List Invocation} {n : ℕ} {r : Execution HttpPeerLink} {d : Execution Framed}

theorem served (h : Related base n r d) : Served base r.user d.user.requests := by
  cases h with
  | sync _ _ _ huser _ _ => exact huser.all
  | lag _ _ _ _ _ _ _ _ _ huser _ _ => exact huser.all
  | lost _ _ hserved _ => exact hserved

/-- The session takes a byte for the beginning of a message where one begins, or in a body
that it skips. -/
theorem awaits (h : Related base n r d) (hr : r.Awaits) : d.Awaits ∨ d.user.skipped = true := by
  cases h with
  | sync _ hd hagree _ _ _ =>
    left
    exact ⟨hd.going, hagree.parser.state_eq.trans hr.2⟩
  | lag _ _ _ _ _ _ _ _ _ _ hskipped _ => exact Or.inr hskipped
  | lost hlost _ _ _ =>
    obtain ⟨hgoing, hstate⟩ := hr
    rcases hlost with h | h
    · rw [hgoing] at h
      cases h
    · rw [hstate] at h
      cases h

/-- In a body that it skips, the session takes every byte for the beginning of a message. -/
theorem not_awaits (h : Related base n r d) (hskipped : d.user.skipped = true) :
    r.Awaits ∧ ¬d.Awaits := by
  cases h with
  | sync _ _ _ _ hno _ =>
    rw [hno] at hskipped
    cases hskipped
  | lag hr _ hstate hbody _ _ _ _ _ _ _ _ =>
    refine ⟨⟨hr.going, hstate⟩, fun ⟨_, hstart⟩ => ?_⟩
    rcases hbody with h | h <;> rw [h] at hstart <;> cases hstart
  | lost _ _ _ hno =>
    rw [hno] at hskipped
    cases hskipped

/-! ### The byte that completes the headers -/

/-- The session has the body read. -/
theorem headers_read {e f : Exec} {u : HttpPeerLink} {v v' : Framed} (hef : e.Agree f)
    (hs : e.parser.state = .s_headers_done)
    (hanswer : (HttpPeerLink.settings.on_headers_complete e.parser u).2 = 0)
    (hv : (Framed.settings.on_headers_complete f.parser v).1 = v')
    (huser : InStep base true u v') (hskipped : v'.skipped = false) (hlast : v'.last = false)
    (hr : Headers HttpPeerLink.settings e u n (headers HttpPeerLink.settings e u LF))
    (hd : Headers Framed.settings f v n (headers Framed.settings f v LF)) :
    Failed (headers Framed.settings f v LF) ∨
      Related base n (headers HttpPeerLink.settings e u LF) (headers Framed.settings f v LF) := by
  obtain ⟨hstop, hagree, -⟩ := headers_agree HttpPeerLink.settings Framed.settings hef hs u v
    (hanswer ▸ rfl)
  generalize headers HttpPeerLink.settings e u LF = r at *
  generalize headers Framed.settings f v LF = d at *
  have hpart : d.exec.part = r.exec.part := by
    unfold Exec.part
    rw [hagree.parser.state_eq]
  have hu : (HttpPeerLink.settings.on_headers_complete e.parser u).1 = u := rfl
  -- both runs have been given the same answer, so they end the byte alike
  rcases hd with ⟨hstop', herr', -⟩ | ⟨hok', hpart', hv'⟩ | ⟨herr', hpart', hok', hv'⟩
  · exact Or.inl ⟨hstop', herr'⟩
  · right
    rw [hv] at hv'
    rcases hr with ⟨hstop', -, -⟩ | ⟨hok, hpartr, hu'⟩ | ⟨-, hpartr, -, -⟩
    · rw [hok'.going, hstop'] at hstop
      cases hstop
    · rw [hu] at hu'
      refine .sync hok hok' hagree ?_ (by rw [hv', hskipped]) (by rw [hv', hlast])
      rw [hu', hv', Exec.opened, Parser.opened_of_body hpartr]
      exact huser
    · rw [hpart', hpartr] at hpart
      cases hpart
  · right
    rw [hv] at hv'
    rcases hr with ⟨-, herr, -⟩ | ⟨-, hpartr, -⟩ | ⟨-, hpartr, hok, hu'⟩
    · exact absurd (hagree.parser.errno_eq ▸ herr') herr
    · rw [hpart', hpartr] at hpart
      cases hpart
    · have hdone : InStep base false r.user d.user := by
        rw [hu', hv', hu]
        exact ⟨huser.complete.method, huser.complete.url, huser.complete.served⟩
      have hskipped' : d.user.skipped = false := by rw [hv']; rfl
      cases hrstop : r.stopped with
      | true =>
        exact .lost (Or.inl hrstop) (Or.inl (hstop.trans hrstop)) hdone.all hskipped'
      | false =>
        refine .sync (hok hrstop) (hok' (hstop.trans hrstop)) hagree ?_ hskipped' (by rw [hv']; exact hlast)
        rw [Exec.opened, Parser.opened_eq_false (Or.inl hpartr)]
        exact hdone

/-- The session has no body read, and the connection does not go on. -/
theorem headers_over {e f : Exec} {u : HttpPeerLink} {v v' : Framed}
    (hanswer : (HttpPeerLink.settings.on_headers_complete e.parser u).2 = 1)
    (hagain : e.parser.upgrade = true ∨ e.parser.new_message = .s_dead)
    (hv : (Framed.settings.on_headers_complete f.parser v).1 = v')
    (huser : InStep base true u v') (hskipped : v'.skipped = false) (hlast : v'.last = true)
    (hd : Headers Framed.settings f v n (headers Framed.settings f v LF)) :
    Related base n (headers HttpPeerLink.settings e u LF) (headers Framed.settings f v LF) := by
  obtain ⟨flags, hone, hnew⟩ := headers_complete_one e.parser
  have hr : (headers HttpPeerLink.settings e u LF).stopped = e.parser.upgrade ∧
      (headers HttpPeerLink.settings e u LF).exec.parser.state = e.parser.new_message ∧
      (headers HttpPeerLink.settings e u LF).user = u.on_complete := by
    simp only [headers, hanswer, hone]
    exact ⟨rfl, hnew, rfl⟩
  generalize headers HttpPeerLink.settings e u LF = r at *
  generalize headers Framed.settings f v LF = d at *
  obtain ⟨hstop, hstate, hu⟩ := hr
  -- the session waits for nothing more
  have hover : r.stopped = true ∨ r.exec.parser.state = .s_dead := by
    rw [hstop, hstate]
    exact hagain
  have hserved : Served base r.user v'.requests := by
    rw [hu]
    exact huser.complete.all
  rcases hd with ⟨-, -, hv'⟩ | ⟨-, -, hv'⟩ | ⟨-, -, -, hv'⟩
  · rw [hv] at hv'
    exact .lost hover (Or.inr (by rw [hv', hlast])) (hv' ▸ hserved) (by rw [hv', hskipped])
  · rw [hv] at hv'
    exact .lost hover (Or.inr (by rw [hv', hlast])) (hv' ▸ hserved) (by rw [hv', hskipped])
  · rw [hv] at hv'
    exact .lost hover (Or.inr (by rw [hv']; exact hlast)) (by rw [hv']; exact hserved)
      (by rw [hv']; rfl)

/-- The session has no body read and goes on. -/
theorem headers_skipped {e f : Exec} {u : HttpPeerLink} {v v' : Framed} (hef : e.Agree f)
    (hmark : e.mark = none)
    (hanswer : (HttpPeerLink.settings.on_headers_complete e.parser u).2 = 1)
    (hup : f.parser.upgrade = false) (hnew : f.parser.new_message = .s_start_req)
    (hnew' : e.parser.new_message = .s_start_req)
    (hv : (Framed.settings.on_headers_complete f.parser v).1 = v')
    (huser : InStep base true u v') (hskipped : v'.skipped = true) (hlast : v'.last = false)
    (hr : Headers HttpPeerLink.settings e u n (headers HttpPeerLink.settings e u LF))
    (hd : Headers Framed.settings f v n (headers Framed.settings f v LF)) :
    Failed (headers Framed.settings f v LF) ∨
      Related base n (headers HttpPeerLink.settings e u LF) (headers Framed.settings f v LF) := by
  obtain ⟨flags, hone, hnewflags⟩ := headers_complete_one e.parser
  have hupe : e.parser.upgrade = false := hef.parser.upgrade_eq ▸ hup
  have hnewr : Parser.new_message { e.parser with nread := 0, flags } = .s_start_req :=
    hnewflags.trans hnew'
  -- the session has the parser skip the body: the message is complete
  have hcomplete : headers_complete 1 e.parser LF =
      ⟨{ e.parser with nread := 0, flags, state := .s_start_req }, true, false⟩ := by
    rw [hone, Parser.complete, hnewr]
    simp only [hupe]
  have hreq : headers HttpPeerLink.settings e u LF =
      ⟨{ e with parser := { e.parser with nread := 0, flags, state := .s_start_req } }, false,
        u.on_complete⟩ := by
    simp only [headers, hanswer, hcomplete, Exec.consume, hmark]
    rfl
  -- the other parser reads whatever body was declared
  have hdeq : ∀ x, headers_complete 0 f.parser LF = x →
      headers Framed.settings f v LF =
        ⟨{ f with parser := x.parser }, x.stop, Framed.settings.callAll v' x.calls⟩ := by
    rintro x rfl
    simp only [headers, Exec.consume, hef.mark, hmark, ← hv]
    rfl
  have hdone := huser.complete
  rw [hreq] at hr ⊢
  have hok := hr.ok.resolve_left (by simp)
  rcases headers_complete_zero hup with ⟨err, hx⟩ | hx | ⟨s, hs, hx⟩
  · -- the headers declare something that cannot be read
    left
    rw [hdeq _ hx]
    exact ⟨rfl, by simp [Parser.fail]⟩
  · -- there is no body
    right
    rw [hdeq _ hx] at hd ⊢
    have hok' := hd.ok.resolve_left (by simp [Parser.complete])
    refine .sync hok hok' ⟨?_, hef.mark, hef.run, hef.general⟩ ?_ rfl hlast
    · exact .idle rfl hnew (hup.trans hupe.symm) (hef.parser.errno_eq) (le_refl 0)
    · exact ⟨hdone.method, hdone.url, hdone.served⟩
  · right
    rw [hdeq _ hx] at hd ⊢
    have hok' := hd.ok.resolve_left (by simp)
    exact .lag hok hok' rfl hs hnew hup (le_refl 0) hef.run hef.general hdone hskipped hlast

/-- The headers are complete in both. -/
theorem headers_related {e f : Exec} {u : HttpPeerLink} {v : Framed} (hef : e.Agree f)
    (hs : e.parser.state = .s_headers_done) (hmark : e.mark = none) (huser : InStep base false u v)
    (hlast : v.last = false)
    (hr : Headers HttpPeerLink.settings e u n (headers HttpPeerLink.settings e u LF))
    (hd : Headers Framed.settings f v n (headers Framed.settings f v LF)) :
    Failed (headers Framed.settings f v LF) ∨
      Related base n (headers HttpPeerLink.settings e u LF) (headers Framed.settings f v LF) := by
  -- both are asked about the same method
  have hanswer : ∀ p, (HttpPeerLink.settings.on_headers_complete p u).2 =
      if methodIs u.pRequest.strMethod (bytes "GET") then 1 else 0 := fun _ => rfl
  have hskips : (HttpPeerLink.on_header_complete f.parser v.link).2 =
      if methodIs u.pRequest.strMethod (bytes "GET") then 1 else 0 := by
    rw [← huser.method]
    rfl
  have hnew : f.parser.should_keep_alive = e.parser.should_keep_alive := by
    have hparser := hef.parser
    generalize f.parser = q at hparser
    cases hparser with
    | idle hpart =>
      rw [hs] at hpart
      cases hpart
    | inside hlive =>
      obtain ⟨rfl, rfl⟩ := hlive.eq_version (by rw [hs]; rfl)
      rfl
  have hstep : ∀ skipped last, InStep base true u
      ⟨v.link, v.requests ++ [v.link.pRequest.strUrl], skipped, last⟩ := by
    intro skipped last
    obtain ⟨requests, heq, hserved⟩ := huser.served
    refine ⟨huser.method, huser.url, requests, ?_, hserved⟩
    simp only [heq, huser.url]
    simp
  by_cases hmethod : methodIs u.pRequest.strMethod (bytes "GET")
  · rw [if_pos hmethod] at hskips
    cases hagain : f.parser.should_keep_alive && !f.parser.upgrade with
    | false =>
      right
      refine headers_over (by rw [hanswer, if_pos hmethod]) ?_ ?_ (hstep false true) rfl rfl hd
      · rw [Parser.new_message, ← hnew, ← hef.parser.upgrade_eq]
        revert hagain
        cases f.parser.should_keep_alive <;> cases f.parser.upgrade <;> simp
      · simp [Framed.settings, Framed.on_headers_complete, hskips, hagain]
    | true =>
      obtain ⟨halive, hup⟩ := (Bool.and_eq_true _ _).mp hagain
      have hfnew : f.parser.new_message = .s_start_req := if_pos halive
      have henew : e.parser.new_message = .s_start_req := if_pos (hnew ▸ halive)
      refine headers_skipped hef hmark (by rw [hanswer, if_pos hmethod]) (by simpa using hup)
        hfnew henew ?_ (hstep true false) rfl rfl hr hd
      simp [Framed.settings, Framed.on_headers_complete, hskips, hagain, hlast]
  · rw [if_neg hmethod] at hskips
    refine headers_read hef hs (by rw [hanswer, if_neg hmethod]) ?_ (hstep false false) rfl rfl hr hd
    simp [Framed.settings, Framed.on_headers_complete, hskips, hlast]

/-- One byte, when they are at the same place. -/
theorem step_sync (hr : r.Ok n) (hd : d.Ok n) (hagree : r.exec.Agree d.exec)
    (huser : InStep base r.exec.opened r.user d.user) (hskipped : d.user.skipped = false)
    (hlast : d.user.last = false) (hn : n < max_header_size) (ch : UInt8) :
    Failed (d.step Framed.settings ch) ∨
      Related base (n + 1) (r.step HttpPeerLink.settings ch) (d.step Framed.settings ch) := by
  have hframe := fun cs => Framed.callAll_frame cs d.user
  cases step_lockstep HttpPeerLink.settings Framed.settings hr hd hagree hn ch with
  | @moved cs hmove hok hok' hagree' hu hv =>
    right
    refine .sync hok hok' hagree' ?_ (by rw [hv]; exact (hframe cs).2.2 hskipped)
      (by rw [hv]; exact (hframe cs).2.1.trans hlast)
    rw [hu, hv]
    exact huser.move hmove
  -- an error of the run that reads the bodies
  | failed _ _ hstop _ herr _ _ => exact Or.inl ⟨hstop, herr⟩
  | exited hreports hopened hstop hstop' _ _ hu hv =>
    right
    have hdone := huser.move (hopened ▸ Move.complete hreports)
    rw [← hu, ← hv] at hdone
    exact .lost (Or.inl hstop) (Or.inl hstop') hdone.all
      (by rw [hv]; exact (hframe _).2.2 hskipped)
  | @asked cs e f hreports hopened hs hmark hef _ hheaders hheaders' hu hv =>
    rw [hu] at hheaders ⊢
    rw [hv] at hheaders' ⊢
    have hdata := huser.data hreports.isData
    rw [hopened] at hdata
    exact headers_related hef hs hmark hdata ((hframe cs).2.1.trans hlast) hheaders hheaders'

/-- One line end, when the session skips a body. -/
theorem step_lag (hr : r.Ok n) (hd : d.Ok n) (hstate : r.exec.parser.state = .s_start_req)
    (hbody : d.exec.parser.state = .s_chunk_size_start ∨ d.exec.parser.state = .s_body_identity)
    (hagain : d.exec.parser.new_message = .s_start_req) (hup : d.exec.parser.upgrade = false)
    (hnread : d.exec.parser.nread ≤ r.exec.parser.nread) (hrun : d.exec.run = r.exec.run)
    (hgeneral : d.exec.general = r.exec.general) (huser : InStep base false r.user d.user)
    (hskipped : d.user.skipped = true) (hlast : d.user.last = false) (hn : n < max_header_size)
    {ch : UInt8} (hch : isCRLF ch = true) :
    Failed (d.step Framed.settings ch) ∨
      Related base (n + 1) (r.step HttpPeerLink.settings ch) (d.step Framed.settings ch) := by
  obtain ⟨k, hk, hfeed⟩ := feed_emptyLine hstate hch (lt_of_le_of_lt hr.size hn)
  obtain ⟨hstep, hok⟩ := hr.step_next HttpPeerLink.settings hfeed
  have hmark : r.exec.mark = none := hr.exec.mark_none (by rw [hstate]; rfl) (by rw [hstate]; rfl)
  rcases hbody with hs | hs
  · -- a chunk cannot begin with a line end
    obtain ⟨p, hstop, herr⟩ := feed_chunk_size_start hs hch
    left
    rw [hd.step_stop Framed.settings hstop]
    exact ⟨rfl, herr⟩
  right
  obtain ⟨mark, len, hnext | ⟨cs, hcs, hnext⟩⟩ := feed_body_identity hs hup ch
  · -- the body goes on
    obtain ⟨hstep', hok'⟩ := hd.step_next Framed.settings hnext
    rw [hstep] at hok ⊢
    rw [hstep'] at hok' ⊢
    exact .lag hok hok' hstate (Or.inr hs) hagain hup (hnread.trans hk) hrun hgeneral huser
      hskipped hlast
  · -- the body ends with the line end, and both wait for a message
    obtain ⟨hstep', hok'⟩ := hd.step_next Framed.settings hnext
    have huser' : InStep base false r.user (Framed.settings.callAll d.user (cs ++ [.message_complete])) := by
      rw [Settings.callAll_append, Framed.callAll_eq hcs]
      have := huser.keeps_right (HttpPeerLink.keeps_callAll hcs d.user.link)
      exact ⟨this.method, this.url, this.served⟩
    have hflags : (Framed.settings.callAll d.user (cs ++ [.message_complete])).skipped = false := by
      rw [Settings.callAll_append]
      rfl
    have hlast' := (Framed.callAll_frame (cs ++ [.message_complete]) d.user).2.1.trans hlast
    have hopened : r.exec.opened = false := Parser.opened_eq_false (Or.inl (by rw [hstate]; rfl))
    have hupr := hr.exec.parser.upgrade hstate
    have herr := hd.exec.parser.errno.trans hr.exec.parser.errno.symm
    rw [hstep] at hok ⊢
    rw [hstep'] at hok' ⊢
    refine .sync hok hok' ⟨?_, ?_, hrun, hgeneral⟩ ?_ hflags hlast'
    · exact .idle (congrArg State.part hstate) (hagain.trans hstate.symm) (hup.trans hupr.symm) herr
        (hnread.trans hk)
    · simp [Exec.consume, Exec.count, hmark]
    · show InStep base r.exec.opened r.user _
      rw [hopened]
      exact huser'

/-- One byte, when the session is over. -/
theorem step_lost (hr : r.stopped = true ∨ r.exec.parser.state = .s_dead)
    (hd : d.stopped = true ∨ d.user.last = true) (hserved : Served base r.user d.user.requests)
    (hskipped : d.user.skipped = false) (ch : UInt8) :
    Related base (n + 1) (r.step HttpPeerLink.settings ch) (d.step Framed.settings ch) := by
  have hover : ((r.step HttpPeerLink.settings ch).stopped = true ∨
      (r.step HttpPeerLink.settings ch).exec.parser.state = .s_dead) ∧
        (r.step HttpPeerLink.settings ch).user = r.user := by
    cases hstop : r.stopped with
    | true =>
      rw [step_stopped _ hstop]
      exact ⟨Or.inl hstop, rfl⟩
    | false =>
      have hdead := hr.resolve_left (by simp [hstop])
      rcases feed_dead hdead ch with ⟨f, hfeed, hf⟩ | ⟨p, hfeed⟩
      · simp only [step, hstop, hfeed]
        exact ⟨Or.inr hf, rfl⟩
      · simp only [step, hstop, hfeed]
        exact ⟨Or.inl rfl, rfl⟩
  -- whatever the other run reads, it skips no body any more
  obtain ⟨hover, hu⟩ := hover
  cases hstop : d.stopped with
  | true =>
    rw [step_stopped _ hstop]
    exact .lost hover (Or.inl hstop) (hserved.of_invocations (by rw [hu])) hskipped
  | false =>
    have hlast := hd.resolve_left (by simp [hstop])
    obtain ⟨more, hrequests, hlast', hskipped'⟩ := Framed.step_last hlast hskipped ch
    refine .lost hover (Or.inr hlast') ?_ hskipped'
    rw [hrequests]
    exact (hserved.of_invocations (by rw [hu])).more more

theorem step (h : Related base n r d) (hn : n < max_header_size) {ch : UInt8}
    (hch : d.user.skipped = true → isCRLF ch = true) :
    Failed (d.step Framed.settings ch) ∨
      Related base (n + 1) (r.step HttpPeerLink.settings ch) (d.step Framed.settings ch) := by
  cases h with
  | sync hr hd hagree huser hskipped hlast =>
    exact step_sync hr hd hagree huser hskipped hlast hn ch
  | lag hr hd hstate hbody hagain hup hnread hrun hgeneral huser hskipped hlast =>
    exact step_lag hr hd hstate hbody hagain hup hnread hrun hgeneral huser hskipped hlast hn
      (hch hskipped)
  | lost hr hd hserved hskipped => exact Or.inr (step_lost hr hd hserved hskipped ch)

end Related

/-- The session takes the byte for the beginning of a message only where one begins. -/
def Aligned (r : Execution HttpPeerLink) (d : Execution Framed) (pre : Bytes) (ch : UInt8) : Prop :=
  isCRLF ch = false → (r.scan HttpPeerLink.settings pre).Awaits →
    (d.scan Framed.settings pre).Awaits

/-- A byte of a body that the session skips is a line end. -/
def LineEnds (d : Execution Framed) (pre : Bytes) (ch : UInt8) : Prop :=
  (d.scan Framed.settings pre).user.skipped = true → isCRLF ch = true

section

variable {base : List Invocation}

theorem Failed.scan {d : Execution Framed} (h : Failed d) (data : Bytes) :
    (d.scan Framed.settings data).exec.parser.http_errno ≠ none := by
  rw [scan_stopped _ h.1]
  exact h.2

/-- **The runs part at the first byte of a skipped body that is not a line end**, if there is
one. -/
theorem aligned_iff (data : Bytes) {n : ℕ} {r : Execution HttpPeerLink} {d : Execution Framed}
    (h : Related base n r d) (hn : n + data.length ≤ max_header_size)
    (herr : (d.scan Framed.settings data).exec.parser.http_errno = none) :
    EachByte (Aligned r d) data ↔ EachByte (LineEnds d) data := by
  induction data generalizing n r d with
  | nil => exact ⟨fun _ => eachByte_nil _, fun _ => eachByte_nil _⟩
  | cons ch data ih =>
    rw [List.length_cons] at hn
    rw [eachByte_cons, eachByte_cons]
    -- the next state is related too, once the byte is known to be harmless
    have hnext : (d.user.skipped = true → isCRLF ch = true) →
        (EachByte (Aligned (r.step HttpPeerLink.settings ch) (d.step Framed.settings ch)) data ↔
          EachByte (LineEnds (d.step Framed.settings ch)) data) := by
      intro hch
      rcases h.step (by omega) hch with hfailed | hrelated
      · exact absurd herr (hfailed.scan data)
      · exact ih hrelated (by omega) herr
    constructor
    · intro ⟨hfirst, hrest⟩
      have hch : d.user.skipped = true → isCRLF ch = true := by
        intro hskipped
        obtain ⟨hr, hd⟩ := h.not_awaits hskipped
        by_contra hne
        exact hd (hfirst (by simpa using hne) hr)
      exact ⟨hch, (hnext hch).mp hrest⟩
    · intro ⟨hch, hrest⟩
      refine ⟨fun hne hr => (h.awaits hr).resolve_right fun hskipped => ?_, (hnext hch).mpr hrest⟩
      rw [hch hskipped] at hne
      cases hne

theorem related_scan (data : Bytes) {n : ℕ} {r : Execution HttpPeerLink} {d : Execution Framed}
    (h : Related base n r d) (hn : n + data.length ≤ max_header_size)
    (herr : (d.scan Framed.settings data).exec.parser.http_errno = none)
    (hdata : EachByte (LineEnds d) data) :
    Related base (n + data.length) (r.scan HttpPeerLink.settings data)
      (d.scan Framed.settings data) := by
  induction data generalizing n r d with
  | nil => exact h
  | cons ch data ih =>
    rw [List.length_cons] at hn ⊢
    obtain ⟨hch, hrest⟩ := (eachByte_cons _ ch data).mp hdata
    rcases h.step (by omega) hch with hfailed | hrelated
    · exact absurd herr (hfailed.scan data)
    · have := ih hrelated (by omega) herr hrest
      rwa [show n + (data.length + 1) = n + 1 + data.length by omega]

end

namespace HttpPeerLink

/-- The run of the session over the bytes of one segment. -/
def parse (link : HttpPeerLink) (data : Bytes) : Execution HttpPeerLink :=
  (Execution.start .init link).scan settings data

/-- The run over the same bytes that reads every body. -/
def parseFramed (link : HttpPeerLink) (data : Bytes) : Execution Framed :=
  (Execution.start .init (Framed.new link)).scan Framed.settings data

/-- The bytes are requests under the framing that their headers declare: the parser that reads
every body finds no error in them. -/
def IsSequence (link : HttpPeerLink) (data : Bytes) : Prop :=
  (execute Framed.settings .init (Framed.new link) data).1.http_errno = none

/-- The urls of these requests. -/
def requests (link : HttpPeerLink) (data : Bytes) : List Bytes :=
  (execute Framed.settings .init (Framed.new link) data).2.requests

/-- Every invocation is for one of the requests, in order and with its url, and no byte is taken
for the beginning of a request but where one begins. -/
structure Unsmuggled (link : HttpPeerLink) (data : Bytes) : Prop where
  served : Served link.invocations (link.on_data data) (link.requests data)
  aligned : EachByte (fun pre ch => isCRLF ch = false → (link.parse pre).Awaits →
    (link.parseFramed pre).Awaits) data

theorem related_start (link : HttpPeerLink) :
    Related link.invocations 0 (Execution.start .init link)
      (Execution.start .init (Framed.new link)) :=
  .sync (start_ok _ 0) (start_ok _ 0) (.refl _)
    ⟨rfl, rfl, [], rfl, [], (List.append_nil _).symm, List.Sublist.refl _⟩ rfl rfl

/-- What is reported after the loop completes no message. -/
theorem finish_invocations (r : Execution HttpPeerLink) :
    (r.finish settings).2.invocations = r.user.invocations := by
  simp only [finish]
  split
  · rfl
  split
  · rfl
  cases r.exec.mark with
  | none => rfl
  | some md =>
    obtain ⟨m, d⟩ := md
    cases m <;> rfl

theorem finish_requests (d : Execution Framed) :
    (d.finish Framed.settings).2.requests = d.user.requests := by
  simp only [finish]
  split
  · rfl
  split
  · rfl
  exact (Framed.callAll_frame _ _).1

theorem errno_of_finish {d : Execution Framed}
    (h : (d.finish Framed.settings).1.http_errno = none) : d.exec.parser.http_errno = none := by
  simp only [finish] at h
  split at h
  · exact h
  split at h
  · cases h
  exact h

/-- **When bodies are not taken for requests.** Over requests under the framing that their
headers declare, the session serves requests of these only, from where they begin, if and only
if the bodies that it skips on a connection that goes on are made of line ends. -/
theorem unsmuggled_iff {link : HttpPeerLink} {data : Bytes} (hlen : data.length ≤ max_header_size)
    (hseq : link.IsSequence data) :
    link.Unsmuggled data ↔ EachByte (fun pre ch =>
      (link.parseFramed pre).user.skipped = true → isCRLF ch = true) data := by
  have hstart := related_start link
  by_cases hnil : data = []
  · subst hnil
    refine ⟨fun _ => eachByte_nil _, fun _ => ⟨?_, eachByte_nil _⟩⟩
    exact ⟨[], (List.append_nil _).symm, List.Sublist.refl _⟩
  have herr : (link.parseFramed data).exec.parser.http_errno = none := by
    rw [IsSequence, execute_eq _ rfl _ hnil] at hseq
    exact errno_of_finish hseq
  have hiff := aligned_iff data hstart (by simpa using hlen) herr
  refine ⟨fun h => hiff.mp h.aligned, fun h => ⟨?_, hiff.mpr h⟩⟩
  have hserved := (related_scan data hstart (by simpa using hlen) herr h).served
  rw [on_data, requests, execute_eq _ rfl _ hnil, execute_eq _ rfl _ hnil, finish_requests]
  exact hserved.of_invocations (finish_invocations _)

/-- A `GET` with a body that reads like another request. -/
def smuggling : Bytes :=
  bytes "GET /a HTTP/1.1\r\nContent-Length: 19\r\n\r\nGET /b HTTP/1.1\r\n\r\n"

theorem not_unsmuggled_smuggling :
    IsSequence .new smuggling ∧ requests .new smuggling = [bytes "/a"] ∧
      ((on_data .new smuggling).invocations.map Invocation.url = [bytes "/a", bytes "/b"]) ∧
      ¬Unsmuggled .new smuggling := by
  have hrequests : requests .new smuggling = [bytes "/a"] := by decide +kernel
  have hurls : (on_data .new smuggling).invocations.map Invocation.url =
      [bytes "/a", bytes "/b"] := by decide +kernel
  refine ⟨by unfold IsSequence; decide +kernel, hrequests, hurls, fun h => ?_⟩
  obtain ⟨served, hserved, hsub⟩ := h.served
  have hserved' : (on_data .new smuggling).invocations = served := hserved
  rw [← hserved', hurls, hrequests] at hsub
  exact absurd hsub.length_le (by simp)

/-- A `POST` with a body that begins like a request. -/
def harmless : Bytes := bytes "POST / HTTP/1.1\r\nContent-Length: 4\r\n\r\nGET "

theorem unsmuggled_harmless : Unsmuggled .new harmless := by
  refine (unsmuggled_iff (by decide) (by unfold IsSequence; decide +kernel)).mpr
    (eachByte_of_take ?_)
  decide +kernel

end HttpPeerLink
end SomoNet
