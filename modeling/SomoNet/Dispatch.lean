import SomoNet.Isolation
import SomoNet.Segmentation

/-!
# Requests of every method

The parser accepts 34 methods, and `on_url` stores two of them. `on_header_complete` and
`on_complete` look at what is stored, which for every other method is left over from a request
before, or empty, and an empty method passes for `GET`.
-/

namespace SomoNet

open Http Execution

/-! ## The method of a request -/

/-- What `on_url` stores for a method. -/
def Http.Method.stored : Method → Option Bytes
  | .GET => some (bytes "GET")
  | .POST => some (bytes "POST")
  | _ => none

/-- A byte of the url, or of the spaces before it. -/
inductive Http.Step.OnLine (m : Method) : Step → Prop
  /-- The line goes on. -/
  | more {f : Exec} (hmethod : f.parser.method = m)
      (hline : f.parser.state = .s_req_spaces_before_url ∨ f.part = .url) : OnLine m (.next [] f)
  /-- The url is complete. -/
  | url (d : Bytes) {f : Exec} (hpart : f.part = .version ∨ f.part = .fields) :
      OnLine m (.next [.url m d] f)
  | failed (p : Parser) : OnLine m (.stop [] p)

section

variable {e : Exec} {m : Method} (hmethod : e.parser.method = m)
include hmethod

theorem Http.url_char_onLine {e' : Exec} {s : State} {ch : UInt8} :
    (e'.lift (url_char e.parser s ch)).OnLine m := by
  cases hx : url_char e.parser s ch with
  | error err => exact .failed _
  | ok q =>
    obtain ⟨hq, hurl⟩ := url_char_ok hx
    refine .more ?_ (Or.inr hurl)
    show q.method = m
    rw [hq]
    exact hmethod

theorem Http.req_url_onLine (he : e.Ok) (hpart : e.part = .url) (ch : UInt8) :
    (req_url e ch).OnLine m := by
  have hawaits : e.parser.state.awaits = false :=
    State.awaits_part (by rw [← Exec.part, hpart]; simp)
  obtain ⟨d, hd⟩ := he.calls hawaits (State.mark_url hpart)
  have hcalls : e.calls .url = [.url m d] := by
    rw [hd, ← hmethod]
    rfl
  unfold req_url
  rw [hcalls]
  split_ifs with h1 h2 h3
  · exact .url d (Or.inl rfl)
  · exact .url d (Or.inl rfl)
  · exact .url d (Or.inr rfl)
  · exact url_char_onLine hmethod

theorem Http.dispatch_onLine (he : e.Ok)
    (hline : e.parser.state = .s_req_spaces_before_url ∨ e.part = .url) (ch : UInt8) :
    (dispatch e ch).OnLine m := by
  rcases hline with hspaces | hpart
  · simp only [dispatch, hspaces, req_spaces_before_url]
    split
    · exact .more hmethod (Or.inl hspaces)
    · exact url_char_onLine hmethod
  · have hurl := req_url_onLine hmethod he hpart ch
    have hschema : (req_schema e ch).OnLine m := by
      unfold req_schema
      split
      · exact .failed _
      · exact url_char_onLine hmethod
    have hstate : e.parser.state.part = .url := hpart
    cases hs : e.parser.state <;> rw [hs] at hstate
    case s_req_schema | s_req_schema_slash | s_req_schema_slash_slash | s_req_server_start =>
      simp only [dispatch, hs]
      exact hschema
    case s_req_server | s_req_server_with_at | s_req_path | s_req_query_string_start |
        s_req_query_string | s_req_fragment_start | s_req_fragment =>
      simp only [dispatch, hs]
      exact hurl
    all_goals cases hstate

theorem Http.feed_onLine (he : e.Ok)
    (hline : e.parser.state = .s_req_spaces_before_url ∨ e.part = .url) (ch : UInt8) :
    (feed e ch).OnLine m := by
  unfold feed
  split
  · split
    · exact .failed _
    · exact @dispatch_onLine (e.count (e.parser.nread + 1)) m hmethod (he.count _) hline ch
  · exact dispatch_onLine hmethod he hline ch

end

/-- A message that is not open stays so until its headers are complete. -/
theorem Http.Move.opened_eq {a b : Part} {o o' : Bool} {cs : List Event} (h : Move a o cs b o')
    (ho : o = false) : o' = false := by
  cases h with
  | quiet | header_field | header_value => exact ho
  | url => rfl
  | body => cases ho
  | complete => cases ho

namespace Record

/-- How far the record has come with its first request, whose method is `m`. -/
inductive Heading (m : Method) (n : ℕ) (d : Execution Record) : Prop
  /-- The method has been read, and the url has not been reported. -/
  | line (hok : d.Ok n) (hmethod : d.exec.parser.method = m)
      (hline : d.exec.parser.state = .s_req_spaces_before_url ∨ d.exec.part = .url)
      (huser : d.user = new)
  /-- The headers are not complete. -/
  | fields (hok : d.Ok n)
      (hpart : d.exec.part = .version ∨ d.exec.part = .fields ∨ d.exec.part = .value)
      (hopened : d.exec.opened = false) (hwhole : d.user.whole = none)
      (hhead : d.user.head = none) (hmethod : d.user.said.method = m.stored)
  | headed {head : Said} (hhead : d.user.head = some head) (hmethod : head.method = m.stored)
  | failed (hstop : d.stopped = true) (hwhole : d.user.whole = none)

theorem callAll_head (rec : Record) (cs : List Event) :
    (settings.callAll rec cs).head = rec.head := by
  induction cs generalizing rec with
  | nil => rfl
  | cons c cs ih => exact (ih _).trans (call_head rec c)

theorem scan_head {d : Execution Record} {head : Said} (h : d.user.head = some head) (data : Bytes) :
    (d.scan settings data).user.head = some head := by
  refine scan_keeps (P := fun rec : Record => rec.head = some head) ?_ ?_ h data
  · exact fun rec c hrec => (call_head rec c).trans hrec
  · intro p rec hrec
    show rec.head.or _ = _
    rw [hrec, Option.some_or]

/-- Calls that report header fields and values leave the rest of what the request says. -/
theorem callAll_data {cs : List Event} (hcs : ∀ c ∈ cs, c.isData = true) (rec : Record) :
    (settings.callAll rec cs).said.method = rec.said.method ∧
      (settings.callAll rec cs).head = rec.head ∧ (settings.callAll rec cs).whole = rec.whole := by
  induction cs generalizing rec with
  | nil => exact ⟨rfl, rfl, rfl⟩
  | cons c cs ih =>
    obtain ⟨hmethod, hhead, hwhole⟩ := ih (fun d hd => hcs d (List.mem_cons_of_mem c hd))
      (settings.call rec c)
    have hc := hcs c List.mem_cons_self
    rw [Settings.callAll_cons, hmethod, hhead, hwhole]
    cases c with
    | url | message_complete => cases hc
    | header_field | header_value | body => exact ⟨rfl, rfl, rfl⟩

namespace Heading

variable {m : Method} {n : ℕ} {d : Execution Record}

theorem step_line (hok : d.Ok n) (hmethod : d.exec.parser.method = m)
    (hline : d.exec.parser.state = .s_req_spaces_before_url ∨ d.exec.part = .url)
    (huser : d.user = new) (ch : UInt8) : Heading m (n + 1) (d.step Record.settings ch) := by
  have hopened : d.exec.opened = false := by
    refine Parser.opened_eq_false ?_
    rcases hline with hspaces | hpart
    · rw [hspaces]
      exact Or.inr (Or.inl rfl)
    · exact Or.inr (Or.inr (Or.inl hpart))
  have hdoes := feed_does hok.exec ch
  have hfeed := feed_onLine hmethod hok.exec hline ch
  generalize hs : feed d.exec ch = s at hdoes hfeed
  cases hfeed with
  | more hmethod' hline' =>
    obtain ⟨hstep, hok'⟩ := hok.step_next Record.settings hs
    rw [hstep] at hok' ⊢
    exact .line hok' hmethod' hline' huser
  | url u hpart =>
    -- the url is reported, and with it the method is known
    obtain ⟨hstep, hok'⟩ := hok.step_next Record.settings hs
    rw [hstep] at hok' ⊢
    refine .fields hok' (hpart.imp id Or.inl) (hdoes.2.1.opened_eq hopened) ?_ ?_ ?_
    · show d.user.whole = none
      rw [huser]
      rfl
    · show d.user.head = none
      rw [huser]
      rfl
    · show (d.user.said.call (.url m u)).method = m.stored
      rw [huser]
      cases m <;> rfl
  | failed p =>
    rw [hok.step_stop Record.settings hs]
    refine .failed rfl ?_
    show d.user.whole = none
    rw [huser]
    rfl

theorem step_fields (hok : d.Ok n)
    (hpart : d.exec.part = .version ∨ d.exec.part = .fields ∨ d.exec.part = .value)
    (hopened : d.exec.opened = false) (hwhole : d.user.whole = none) (hhead : d.user.head = none)
    (hmethod : d.user.said.method = m.stored) (hn : n < max_header_size) (ch : UInt8) :
    Heading m (n + 1) (d.step Record.settings ch) := by
  cases step_lockstep Record.settings Record.settings hok hok (.refl _) hn ch with
  | @moved cs hmove hok' _ _ hu =>
    have hopened' := hmove.opened_eq hopened
    -- only data of headers is reported, which says nothing of the method
    have hdata : (∀ c ∈ cs, c.isData = true) ∧
        ((d.step Record.settings ch).exec.part = .version ∨
          (d.step Record.settings ch).exec.part = .fields ∨
          (d.step Record.settings ch).exec.part = .value) := by
      rw [hopened, hopened'] at hmove
      generalize (d.step Record.settings ch).exec.part = b at hmove
      generalize d.exec.part = a at hmove hpart
      cases hmove with
      | quiet hquiet =>
        refine ⟨by simp, ?_⟩
        rcases hpart with rfl | rfl | rfl <;> cases b <;> simp [Part.quiet] at hquiet ⊢
      | url => simp at hpart
      | header_field u => exact ⟨by simp [Event.isData], Or.inr (Or.inr rfl)⟩
      | header_value u hb =>
        refine ⟨by simp [Event.isData], ?_⟩
        rcases hb with rfl | rfl
        · exact Or.inr (Or.inr rfl)
        · exact Or.inr (Or.inl rfl)
    obtain ⟨hsaid, hhead', hwhole'⟩ := callAll_data hdata.1 d.user
    rw [← hu] at hsaid hhead' hwhole'
    exact .fields hok' hdata.2 hopened' (hwhole'.trans hwhole) (hhead'.trans hhead)
      (hsaid.trans hmethod)
  | failed hcs hstop _ _ _ hu =>
    refine .failed hstop ?_
    rw [hu]
    rcases hcs with rfl | ⟨-, u, rfl⟩
    · exact hwhole
    · exact hwhole
  | exited _ hopen =>
    rw [hopened] at hopen
    cases hopen
  | @asked cs e f hreports _ _ _ _ _ hheaders =>
    -- the headers are complete: what was said of the head is kept
    obtain ⟨hsaid, hhead', -⟩ := callAll_data hreports.isData d.user
    have hasked : (Record.settings.on_headers_complete e.parser
        (Record.settings.callAll d.user cs)).1.head =
          some (Record.settings.callAll d.user cs).said := by
      show Option.or _ _ = _
      rw [hhead', hhead, Option.none_or]
    refine .headed ?_ (hsaid.trans hmethod)
    cases hheaders with
    | failed _ _ hu =>
      rw [hu]
      exact hasked
    | body _ _ hu =>
      rw [hu]
      exact hasked
    | complete _ _ _ hu =>
      rw [hu]
      exact hasked

theorem step (h : Heading m n d) (hn : n < max_header_size) (ch : UInt8) :
    Heading m (n + 1) (d.step Record.settings ch) := by
  cases h with
  | line hok hmethod hline huser => exact step_line hok hmethod hline huser ch
  | fields hok hpart hopened hwhole hhead hmethod =>
    exact step_fields hok hpart hopened hwhole hhead hmethod hn ch
  | @headed head hhead hmethod =>
    have hkeep : (d.step Record.settings ch).user.head = some head := scan_head hhead [ch]
    exact .headed hkeep hmethod
  | failed hstop hwhole =>
    rw [step_stopped _ hstop]
    exact .failed hstop hwhole

theorem scan (data : Bytes) (h : Heading m n d) (hn : n + data.length ≤ max_header_size) :
    Heading m (n + data.length) (d.scan Record.settings data) := by
  induction data generalizing n d with
  | nil => exact h
  | cons ch data ih =>
    rw [List.length_cons] at hn ⊢
    have := ih (h.step (by omega) ch) (by omega)
    rwa [show n + (data.length + 1) = n + 1 + data.length by omega]

end Heading

/-- Empty lines before the first request make no difference to the record. -/
theorem ofBytes_lead {lead data : Bytes} (hlead : ∀ ch ∈ lead, isCRLF ch)
    (hlen : (lead ++ data).length ≤ max_header_size) : ofBytes (lead ++ data) = ofBytes data := by
  rw [List.length_append] at hlen
  have hlines : (emptyLines lead.length new).Ok lead.length :=
    ⟨rfl, (start_ok new 0).exec.count _, (Nat.add_zero _).le⟩
  have htogether : Together lead.length (emptyLines lead.length new) (Execution.start .init new) :=
    ⟨rfl, Or.inr ⟨hlines, start_ok new _, .idle rfl rfl rfl rfl (Nat.zero_le _), rfl, rfl, rfl⟩⟩
  have hoblivious : Oblivious Record.settings := fun _ _ _ => rfl
  have hscan := (scan_together hoblivious data htogether hlen).1
  have hempty := scan_emptyLines Record.settings new lead hlead 0 (by omega)
  rw [Nat.zero_add] at hempty
  show ((Execution.start .init new).scan Record.settings (lead ++ data)).user = _
  rw [scan_append]
  show (((emptyLines 0 new).scan Record.settings lead).scan Record.settings data).user = _
  rw [hempty, ← hscan]
  rfl

/-- Every method is one that the parser reads. -/
theorem scan_method (m : Method) :
    let d := (Execution.start .init new).scan Record.settings (m.str ++ [SP])
    d.stopped = false ∧ d.exec.parser.state = .s_req_spaces_before_url ∧
      d.exec.parser.method = m ∧ d.user = new := by
  cases m <;> decide +kernel

end Record

/-- The bytes begin with a complete request that has the method `m`. -/
structure Begins (m : Method) (req : Bytes) : Prop where
  line : ∃ lead rest, (∀ ch ∈ lead, isCRLF ch) ∧ req = lead ++ (m.str ++ SP :: rest)
  complete : (Record.ofBytes req).whole ≠ none

/-- When its headers are complete, the request has said its method, if it is one of the two. -/
theorem Begins.head {m : Method} {req : Bytes} (h : Begins m req)
    (hlen : req.length ≤ max_header_size) :
    ∃ head, (Record.ofBytes req).head = some head ∧ head.method = m.stored := by
  obtain ⟨⟨lead, rest, hlead, rfl⟩, hcomplete⟩ := h
  rw [Record.ofBytes_lead hlead hlen] at hcomplete ⊢
  rw [List.length_append] at hlen
  have hsplit : m.str ++ SP :: rest = (m.str ++ [SP]) ++ rest := by simp
  rw [hsplit] at hcomplete hlen ⊢
  rw [List.length_append] at hlen
  obtain ⟨hgoing, hstate, hmethod, huser⟩ := Record.scan_method m
  have hok := scan_ok Record.settings (m.str ++ [SP]) (start_ok Record.new 0) (by omega)
  have hline := Record.Heading.line (hok.resolve_left (by rw [hgoing]; decide)) hmethod
    (Or.inl hstate) huser
  have hheading := hline.scan rest (by omega)
  rw [← scan_append] at hheading
  -- a request that is not complete has no end
  cases hheading with
  | line _ _ _ hnew =>
    refine absurd ?_ hcomplete
    rw [Record.ofBytes, hnew]
    rfl
  | fields _ _ _ hwhole => exact absurd hwhole hcomplete
  | headed hhead hmethod => exact ⟨_, hhead, hmethod⟩
  | failed _ hwhole => exact absurd hwhole hcomplete

/-! ## Dispatch -/

/-- The method that a handler invocation is for. -/
def Invocation.method : Invocation → Method
  | .on_get _ _ => .GET
  | .on_post _ _ _ => .POST

namespace HttpPeerLink

/-- What `on_header_complete` answers for the message that the bytes go on with. -/
def answer (r : Execution HttpPeerLink) : Bytes → Option ℤ
  | [] => none
  | ch :: data =>
    if r.stopped then none
    else
      match feed r.exec ch with
      | .ask cs e => some (settings.on_headers_complete e.parser (settings.callAll r.user cs)).2
      | _ => answer (r.step settings ch) data

theorem answer_stopped {r : Execution HttpPeerLink} (h : r.stopped = true) (data : Bytes) :
    answer r data = none := by
  cases data with
  | nil => rfl
  | cons ch data => exact if_pos h

/-- The answer is 1 if the request passes for a `GET` with what was left over. -/
theorem answer_eq {left : HttpPeerLink} (data : Bytes) {n : ℕ} {r : Execution HttpPeerLink}
    {d : Execution Record} (hr : r.Ok n) (hd : d.Ok n) (hagree : r.exec.Agree d.exec)
    (hopened : r.exec.opened = false) (huser : Reading left r.exec.part false r.user d.user)
    (hn : n + data.length ≤ max_header_size) :
    answer r data = (d.scan Record.settings data).user.head.map fun head =>
      if head.isGet left then 1 else 0 := by
  induction data generalizing n r d with
  | nil =>
    rw [scan_nil, huser.head rfl]
    rfl
  | cons ch data ih =>
    rw [List.length_cons] at hn
    have hdoes := feed_does hr.exec ch
    have hfeed := feed_agree hr.exec hagree (by have := hr.size; omega) ch
    have hnone : ∀ cs, (Record.settings.callAll d.user cs).head = none := fun cs =>
      (Record.callAll_head d.user cs).trans (huser.head rfl)
    rw [scan_cons, answer, if_neg (by rw [hr.going]; decide)]
    cases hs : feed r.exec ch <;> cases ht : feed d.exec ch <;> rw [hs] at hdoes hfeed <;>
      rw [ht] at hfeed <;> first | exact hfeed.elim | skip
    case next.next cs e cs' f =>
      obtain ⟨hstep, hok⟩ := hr.step_next settings hs
      obtain ⟨hstep', hok'⟩ := hd.step_next Record.settings ht
      have hfollows := Follows.step_reading hr hd hagree (by rw [hopened]; exact huser) (by omega) ch
      have hopened' : (r.step settings ch).exec.opened = false := by
        rw [hstep]
        exact hdoes.2.1.opened_eq hopened
      cases hfollows with
      | reading _ _ hagree' huser' =>
        rw [hopened'] at huser'
        exact ih hok hok' hagree' hopened' huser' (by omega)
      | served hrec =>
        -- the headers are not complete yet
        rw [hstep', Record.invocation, hnone] at hrec
        cases hrec
      | failed hstop =>
        rw [hok.going] at hstop
        cases hstop
    case stop.stop cs p cs' q =>
      rw [hd.step_stop Record.settings ht, scan_stopped _ rfl, hnone]
      rw [hr.step_stop settings hs]
      exact answer_stopped rfl data
    case ask.ask cs' e cs f =>
      obtain ⟨rfl, -⟩ := hfeed
      have hreported := huser.reports hdoes.1
      have hhead : (d.step Record.settings ch).user.head =
          some (Record.settings.callAll d.user cs).said := by
        have hstep : d.step Record.settings ch =
            headers Record.settings f (Record.settings.callAll d.user cs) ch := by
          simp [Execution.step, hd.going, ht]
        rw [hstep]
        show (Record.settings.callAll _ _).head = _
        rw [Record.callAll_head]
        show Option.or _ _ = _
        rw [hnone, Option.none_or]
      rw [Record.scan_head hhead]
      show some _ = some _
      rw [hreported.user]
      rfl

/-- What `on_header_complete` answers for the request `req`. -/
def History.answer (history : History) (req : Bytes) : Option ℤ :=
  HttpPeerLink.answer history.run req

theorem history_answer_eq {history : History} {req : Bytes} (h : history.Before req) :
    history.answer req = (Record.ofBytes req).head.map fun head =>
      if head.isGet history.left then 1 else 0 := by
  have hfits := h.fits
  rw [List.length_append] at hfits
  obtain ⟨hok, hloops⟩ := parse_awaits (by omega) h.awaits
  have hstate := h.awaits.2
  have hpart : history.run.exec.part = .idle := congrArg State.part hstate
  have hopened : history.run.exec.opened = false := Parser.opened_eq_false (Or.inl hpart)
  refine answer_eq req hok (start_ok _ _) (hok.agree_start hloops hstate _) hopened ?_ hfits
  rw [hpart]
  exact reading_start (known_parse history.known history.pre)

/-- The handler is invoked for the method that the request has, if it is `GET` or `POST`, and
otherwise not at all; and only for a `GET` is the parser told to skip the body. -/
structure History.Dispatched (history : History) (m : Method) (req : Bytes) : Prop where
  get : (history.served req).map Invocation.method = some .GET ↔ m = .GET
  post : (history.served req).map Invocation.method = some .POST ↔ m = .POST
  skip : history.answer req = some 1 → m = .GET

/-- For a complete request there is always an invocation, by the method that is stored when its
headers are complete. -/
theorem served_method {history : History} {m : Method} {req : Bytes} (h : history.Before req)
    (hreq : Begins m req) {get : Bool}
    (hget : methodIs (m.stored.getD history.left.pRequest.strMethod) (bytes "GET") = get) :
    (history.served req).map Invocation.method = some (if get then .GET else .POST) ∧
      history.answer req = some (if get then 1 else 0) := by
  have hfits := h.fits
  rw [List.length_append] at hfits
  obtain ⟨head, hhead, hmethod⟩ := hreq.head (by omega)
  obtain ⟨whole, hwhole⟩ := Option.ne_none_iff_exists'.mp hreq.complete
  have hheadGet : head.isGet history.left = get := by
    rw [Said.isGet, hmethod]
    exact hget
  rw [served_eq h, history_answer_eq h, Record.invocation, hhead, hwhole]
  simp only [Option.bind_some, Option.map_some, hheadGet]
  cases get <;> exact ⟨rfl, trivial⟩

/-- **Dispatch.** A complete request is dispatched by its method if and only if that is `GET` or
`POST`, whatever has been parsed before. -/
theorem dispatched_iff {history : History} {m : Method} {req : Bytes} (h : history.Before req)
    (hreq : Begins m req) : history.Dispatched m req ↔ m = .GET ∨ m = .POST := by
  constructor
  · intro hdispatched
    obtain ⟨hserved, -⟩ := served_method h hreq rfl
    generalize methodIs _ _ = get at hserved
    cases get with
    | true => exact Or.inl (hdispatched.get.mp hserved)
    | false => exact Or.inr (hdispatched.post.mp hserved)
  · rintro (rfl | rfl)
    · have hstored : methodIs (bytes "GET") (bytes "GET") = true := by decide
      obtain ⟨hserved, -⟩ := served_method h hreq hstored
      exact ⟨by rw [hserved]; decide, by rw [hserved]; decide, fun _ => rfl⟩
    · have hstored : methodIs (bytes "POST") (bytes "GET") = false := by decide
      obtain ⟨hserved, hanswer⟩ := served_method h hreq hstored
      exact ⟨by rw [hserved]; decide, by rw [hserved]; decide, by rw [hanswer]; decide⟩

/-- A `POST` on a session that has served a `GET`. -/
def postAfterGet : Bytes := bytes "POST /b HTTP/1.1\r\nContent-Length: 1\r\n\r\nx"

theorem dispatched_iff_postAfterGet :
    History.Dispatched ⟨[bytes "GET /a HTTP/1.1\r\n\r\n"], []⟩ .POST postAfterGet := by
  have hbefore : History.Before ⟨[bytes "GET /a HTTP/1.1\r\n\r\n"], []⟩ postAfterGet :=
    ⟨⟨rfl, rfl⟩, by decide⟩
  have hbegins : Begins .POST postAfterGet :=
    ⟨⟨[], bytes "/b HTTP/1.1\r\nContent-Length: 1\r\n\r\nx", nofun, rfl⟩, by decide +kernel⟩
  exact (dispatched_iff hbefore hbegins).mpr (Or.inr rfl)

/-- A `HEAD`, which stores nothing. -/
def headRequest : Bytes := bytes "HEAD / HTTP/1.1\r\n\r\n"

/-- On a new session it is served as a `GET`. -/
theorem not_dispatched_headRequest :
    ¬∀ (history : History) (m : Method) (req : Bytes), history.Before req → Begins m req →
      history.Dispatched m req := by
  intro hall
  have hbegins : Begins .HEAD headRequest :=
    ⟨⟨[], bytes "/ HTTP/1.1\r\n\r\n", nofun, rfl⟩, by decide +kernel⟩
  have hget := (hall ⟨[], []⟩ .HEAD headRequest ⟨⟨rfl, rfl⟩, by decide⟩ hbegins).get
  revert hget
  decide +kernel

end HttpPeerLink
end SomoNet
