import SomoNet.Reassembly

/-!
# What the parser reports of a request

The calls that the parser makes for a request are those of a report: first the url, then the
headers, each with its name and a piece of its value at least, then the body and the fields behind
it. What holds of the reports therefore holds of the requests.
-/

namespace SomoNet

open Http Execution Pieces

namespace Http

/-! ## A header and its value -/

/-- The states in which no value may have been reported for the header yet. -/
def State.owes : State → Bool
  | s_header_value_discard_ws | s_header_value_discard_ws_almost_done
  | s_header_value_discard_lws | s_header_value_start | s_header_value => true
  | _ => false

/-- What a byte does in such a state: it reports a piece of the value, or the value goes on. -/
inductive Step.Pays : Step → Prop
  | owes {f : Exec} (h : f.parser.state.owes = true) : Pays (.next [] f)
  | failed {cs : List Event} {p : Parser} (h : p.http_errno ≠ none) : Pays (.stop cs p)
  | next (d : Bytes) (cs : List Event) (f : Exec) : Pays (.next (.header_value d :: cs) f)
  | stop (d : Bytes) (cs : List Event) (p : Parser) : Pays (.stop (.header_value d :: cs) p)
  | ask (d : Bytes) (cs : List Event) (f : Exec) : Pays (.ask (.header_value d :: cs) f)

theorem Step.pays_after (s : Step) (d : Bytes) : (s.after [.header_value d]).Pays := by
  cases s with
  | next cs f => exact .next d cs f
  | stop cs p => exact .stop d cs p
  | ask cs f => exact .ask d cs f

theorem Step.pays_fail (e : Exec) (err : Errno) : (e.fail err).Pays :=
  .failed (by simp [Parser.fail])

theorem Step.pays_lift (e : Exec) {x : Except Errno Parser}
    (h : ∀ q, x = .ok q → q.state.owes = true) : (e.lift x).Pays := by
  cases x with
  | error err => exact pays_fail e err
  | ok q => exact .owes (h q rfl)

theorem header_value_start_pays (e : Exec) (ch : UInt8) : (header_value_start e ch).Pays := by
  refine Step.pays_lift _ fun q hq => ?_
  rw [(header_value_first_frame hq).1]
  rfl

theorem header_value_pays {e : Exec} (he : e.Ok) (hs : e.parser.state = .s_header_value)
    (ch : UInt8) : (header_value e ch).Pays := by
  obtain ⟨d, hd⟩ := he.calls (m := .header_value) (by rw [hs]; rfl) (by rw [hs]; rfl)
  have hcalls : e.calls .header_value = [.header_value d] := hd
  have howes : e.parser.state.owes = true := by rw [hs]; rfl
  simp only [header_value, hcalls]
  split
  · exact .owes howes
  split
  · split
    · exact .stop d [] _
    · exact .next d [] _
  split
  · split
    · exact Step.pays_fail e _
    · exact Step.pays_after _ d
  split
  · exact Step.pays_fail e _
  · refine Step.pays_lift _ fun q hq => ?_
    rw [(header_value_char_frame hq).1]
    exact howes

theorem header_value_discard_lws_pays {e : Exec} (hmark : e.mark = none) (ch : UInt8) :
    (header_value_discard_lws e ch).Pays := by
  have hset : e.setMark .header_value = { e with mark := some (.header_value, []) } := by
    unfold Exec.setMark
    rw [hmark]
  simp only [header_value_discard_lws, hset]
  split
  · exact .owes rfl
  split
  · exact Step.pays_fail e _
  · exact Step.pays_after _ []

theorem dispatch_pays {e : Exec} (he : e.Ok) (h : e.parser.state.owes = true) (ch : UInt8) :
    (dispatch e ch).Pays := by
  cases hs : e.parser.state <;> rw [hs] at h
  case s_header_value_discard_ws =>
    simp only [dispatch, hs, header_value_discard_ws]
    split_ifs
    · exact .owes (by rw [hs]; rfl)
    · exact .owes rfl
    · exact .owes rfl
    · exact header_value_start_pays e ch
  case s_header_value_discard_ws_almost_done =>
    simp only [dispatch, hs]
    refine Step.pays_lift _ fun q hq => ?_
    unfold expect at hq
    split_ifs at hq
    cases hq
    rfl
  case s_header_value_discard_lws =>
    simp only [dispatch, hs]
    exact header_value_discard_lws_pays (he.mark_none (by rw [hs]; rfl) (by rw [hs]; rfl)) ch
  case s_header_value_start =>
    simp only [dispatch, hs]
    exact header_value_start_pays e ch
  case s_header_value =>
    simp only [dispatch, hs]
    exact header_value_pays he hs ch
  all_goals cases h

theorem feed_pays {e : Exec} (he : e.Ok) (h : e.parser.state.owes = true) (ch : UInt8) :
    (feed e ch).Pays := by
  unfold feed
  split
  · split
    · exact Step.pays_fail e _
    · exact @dispatch_pays (e.count (e.parser.nread + 1)) (he.count _) h ch
  · exact dispatch_pays he h ch

/-- The end of the headers or of the message reports no header. -/
theorem headers_almost_done_ne {e f : Exec} {ch : UInt8} {d : Bytes} :
    headers_almost_done e ch ≠ .next [.header_field d] f := by
  intro h
  simp only [headers_almost_done, Exec.ending] at h
  split_ifs at h
  all_goals cases h

/-- Behind the name of a header a value is due. -/
theorem dispatch_names {e f : Exec} {ch : UInt8} {d : Bytes} (hpart : e.part = .fields)
    (hs : e.parser.state ≠ .s_headers_done) (h : dispatch e ch = .next [.header_field d] f) :
    f.parser.state.owes = true := by
  have hstate : e.parser.state.part = .fields := hpart
  cases hs' : e.parser.state <;> rw [hs'] at hstate
  case s_header_field_start =>
    simp only [dispatch, hs', header_field_start] at h
    split_ifs at h
    · cases h
    · exact absurd h headers_almost_done_ne
    · cases h
    · cases h
  case s_header_field =>
    simp only [dispatch, hs', header_field] at h
    split_ifs at h
    · cases h
    · cases h
    · obtain ⟨-, rfl⟩ := Step.next.inj h
      rfl
    · cases h
  case s_headers_almost_done =>
    simp only [dispatch, hs'] at h
    exact absurd h headers_almost_done_ne
  case s_headers_done => exact absurd hs' hs
  all_goals cases hstate

theorem feed_names {e f : Exec} {ch : UInt8} {d : Bytes} (he : e.Ok) (hpart : e.part = .fields)
    (h : feed e ch = .next [.header_field d] f) : f.parser.state.owes = true := by
  unfold feed at h
  split_ifs at h
  · cases h
  · exact @dispatch_names (e.count (e.parser.nread + 1)) f ch d hpart he.parser.asked h
  · exact dispatch_names hpart he.parser.asked h

/-! ## Headers -/

theorem State.owes_part {s : State} (h : s.owes = true) : s.part = .value := by
  cases s <;> first | rfl | cases h

/-- One more piece of the value. -/
theorem fieldEvents_piece (x : Named UInt8) (d : Bytes) :
    ∃ y, Report.fieldEvents x ++ [.header_value d] = Report.fieldEvents y := by
  refine ⟨⟨x.name, ⟨x.value.pieces ++ [d], by simp⟩⟩, ?_⟩
  unfold Report.fieldEvents
  rw [List.map_append, List.append_assoc]
  rfl

/-- The calls that lead from the url to the state `s`. -/
inductive InHeaders (s : State) : List Event → Prop
  | version (h : s.part = .version) : InHeaders s []
  | fields (xs : List (Named UInt8)) (h : s.part = .fields) :
      InHeaders s (xs.flatMap Report.fieldEvents)
  /-- The name of a header has been reported, and nothing of its value. -/
  | name (xs : List (Named UInt8)) (name : Bytes) (h : s.owes = true) :
      InHeaders s (xs.flatMap Report.fieldEvents ++ [.header_field name])
  | value (xs : List (Named UInt8)) (x : Named UInt8) (h : s.part = .value) :
      InHeaders s (xs.flatMap Report.fieldEvents ++ Report.fieldEvents x)

namespace InHeaders

theorem concat (xs : List (Named UInt8)) (x : Named UInt8) :
    xs.flatMap Report.fieldEvents ++ Report.fieldEvents x =
      (xs ++ [x]).flatMap Report.fieldEvents := by
  rw [List.flatMap_append, List.flatMap_singleton]

theorem part {s : State} {cs : List Event} (h : InHeaders s cs) :
    s.part = .version ∨ s.part = .fields ∨ s.part = .value := by
  cases h with
  | version hp => exact Or.inl hp
  | fields xs hp => exact Or.inr (Or.inl hp)
  | name xs name hp => exact Or.inr (Or.inr (State.owes_part hp))
  | value xs x hp => exact Or.inr (Or.inr hp)

theorem no_complete {s : State} {cs : List Event} (h : InHeaders s cs) :
    .message_complete ∉ cs := by
  cases h <;> simp [Report.fieldEvents]

/-- A piece of a value is the first of its header or one more. -/
theorem value_call {s : State} {cs : List Event} (h : InHeaders s cs) (hpart : s.part = .value)
    (d : Bytes) : ∃ (xs : List (Named UInt8)) (x : Named UInt8), cs ++ [.header_value d] =
      xs.flatMap Report.fieldEvents ++ Report.fieldEvents x := by
  cases h with
  | version hp =>
    rw [hp] at hpart
    cases hpart
  | fields xs hp =>
    rw [hp] at hpart
    cases hpart
  | name xs name hp =>
    refine ⟨xs, ⟨⟨[name], by simp⟩, ⟨[d], by simp⟩⟩, ?_⟩
    rw [List.append_assoc]
    rfl
  | value xs x hp =>
    obtain ⟨y, hy⟩ := fieldEvents_piece x d
    exact ⟨xs, y, by rw [List.append_assoc, hy]⟩

variable {e : Exec} {cs : List Event}

/-- Where the headers are over, each has a value. -/
theorem complete {cs' : List Event} (h : InHeaders e.parser.state cs) (hreports : Reports e.part cs')
    (hpays : e.parser.state.owes = true → cs' ≠ []) :
    ∃ xs : List (Named UInt8), cs ++ cs' = xs.flatMap Report.fieldEvents := by
  -- a value is reported behind the name that waits for it
  have hcall : ∀ d, e.part = .value →
      ∃ xs : List (Named UInt8), cs ++ [.header_value d] = xs.flatMap Report.fieldEvents := by
    intro d hpart
    obtain ⟨xs, x, heq⟩ := h.value_call hpart d
    exact ⟨xs ++ [x], by rw [heq, concat]⟩
  -- where nothing is reported, no name waits for its value
  have hnil : e.parser.state.part ≠ .version → e.parser.state.owes = false →
      ∃ xs : List (Named UInt8), cs ++ [] = xs.flatMap Report.fieldEvents := by
    intro hpart howes
    rw [List.append_nil]
    cases h with
    | version hp => exact absurd hp hpart
    | fields xs hp => exact ⟨xs, rfl⟩
    | name xs name hp =>
      rw [howes] at hp
      cases hp
    | value xs x hp => exact ⟨xs ++ [x], concat xs x⟩
  have howes : cs' = [] → e.parser.state.owes = false := by
    intro heq
    by_contra h'
    exact hpays (by simpa using h') heq
  generalize hpart : e.part = a at hreports
  have hpart' : e.parser.state.part = a := hpart
  cases hreports with
  | fields | value | body =>
    exact hnil (by rw [hpart']; nofun) (howes rfl)
  | header_value d => exact hcall d hpart
  | body_data d =>
    have hp := h.part
    rw [hpart'] at hp
    simp at hp

/-- A byte after which the call goes on: the headers go on, or the message is complete. -/
theorem next {f : Exec} {ch : UInt8} {cs' : List Event} {o o' : Bool}
    (h : InHeaders e.parser.state cs) (he : e.Ok) (hfeed : feed e ch = .next cs' f)
    (hmove : Move e.part o cs' f.part o') :
    InHeaders f.parser.state (cs ++ cs') ∧ o' = o ∨
      ∃ (cs'' : List Event) (xs : List (Named UInt8)), cs' = cs'' ++ [.message_complete] ∧
        o = true ∧ cs ++ cs'' = xs.flatMap Report.fieldEvents := by
  have hpays := fun howes => feed_pays he howes ch
  have hnames := fun d hpart => @feed_names e f ch d he hpart
  rw [hfeed] at hpays hnames
  generalize ha : e.part = a at hmove hnames
  generalize hb : f.part = b at hmove
  have ha' : e.parser.state.part = a := ha
  have hb' : f.parser.state.part = b := hb
  cases hmove with
  | quiet hquiet =>
    -- nothing is reported: only the part of the message can have changed
    refine Or.inl ⟨?_, rfl⟩
    rw [List.append_nil]
    cases h with
    | version hp =>
      rw [← ha', hp] at hquiet
      have hpart : b = .version ∨ b = .fields := by
        cases b <;> simp [Part.quiet] at hquiet ⊢
      rcases hpart with rfl | rfl
      · exact .version hb'
      · exact .fields [] hb'
    | fields xs hp =>
      rw [← ha', hp] at hquiet
      have hpart : b = .fields := by
        cases b <;> simp [Part.quiet] at hquiet ⊢
      exact .fields xs (hb'.trans hpart)
    | name xs name hp =>
      cases hpays hp with
      | owes howes => exact .name xs name howes
    | value xs x hp =>
      rw [← ha', hp] at hquiet
      have hpart : b = .value ∨ b = .fields := by
        cases b <;> simp [Part.quiet] at hquiet ⊢
      rcases hpart with rfl | rfl
      · exact .value xs x hb'
      · rw [concat]
        exact .fields (xs ++ [x]) hb'
  | url m d hto =>
    -- the url has been reported before the headers begin
    have hp := h.part
    rw [ha'] at hp
    simp at hp
  | header_field d =>
    -- a new name ends the value before it
    refine Or.inl ⟨?_, rfl⟩
    have hreports : Reports e.part [] := ha ▸ .fields
    obtain ⟨xs, hxs⟩ := h.complete hreports fun howes => by
      rw [State.owes_part howes] at ha'
      cases ha'
    rw [← List.append_nil cs, hxs]
    exact .name xs d (hnames d rfl rfl)
  | header_value d hto =>
    -- a value belongs to the name reported last
    refine Or.inl ⟨?_, rfl⟩
    obtain ⟨xs, x, heq⟩ := h.value_call ha' d
    rw [heq]
    rcases hto with rfl | rfl
    · exact .value xs x hb'
    · rw [concat]
      exact .fields (xs ++ [x]) hb'
  | body d =>
    have hp := h.part
    rw [ha'] at hp
    simp at hp
  | @complete _ cs'' hreports =>
    -- everything begun is reported before the message ends
    have hdue : e.parser.state.owes = true → cs'' ≠ [] := by
      rintro howes rfl
      cases hpays howes
    obtain ⟨xs, hxs⟩ := h.complete (ha ▸ hreports) hdue
    exact Or.inr ⟨cs'', xs, rfl, rfl, hxs⟩

end InHeaders

end Http

/-! ## A request -/

namespace Report

/-- The calls up to the body, when the headers have been read. -/
def heading (m : Method) (d : Bytes) (fields : List (Named UInt8)) : Report :=
  ⟨m, ⟨[d], by simp⟩, fields, [], []⟩

/-- The session after the headers of the report. -/
def headed (p : Report) (left : HttpPeerLink) : HttpPeerLink :=
  HttpPeerLink.settings.callAll left p.headEvents

/-- Without a body it does not matter what is answered. -/
theorem deliver_heading (m : Method) (d : Bytes) (fields : List (Named UInt8))
    (left : HttpPeerLink) :
    (heading m d fields).deliver left = ((heading m d fields).headed left).on_complete := by
  rw [(heading m d fields).deliver_eq rfl rfl]
  split <;> rfl

end Report

namespace HttpPeerLink

/-- Only the end of a message invokes the handler. -/
theorem callAll_invocations {cs : List Event} (hcs : .message_complete ∉ cs) (u : HttpPeerLink) :
    (settings.callAll u cs).invocations = u.invocations := by
  induction cs generalizing u with
  | nil => rfl
  | cons c cs ih =>
    rw [Settings.callAll_cons, ih fun h => hcs (List.mem_cons_of_mem c h)]
    cases c with
    | url m d => cases m <;> rfl
    | header_field | header_value | body => rfl
    | message_complete => exact absurd List.mem_cons_self hcs

/-- What the session has been told of the first request behind `left`, before its end. -/
inductive Telling (left : HttpPeerLink) (n : ℕ) (r : Execution HttpPeerLink) : Prop
  | url (hok : r.Ok n)
      (hpart : r.exec.part = .idle ∨ r.exec.part = .line ∨ r.exec.part = .url) (huser : r.user = left)
  | headers (hok : r.Ok n) (hopened : r.exec.opened = false) (m : Method) (d : Bytes)
      {cs : List Event} (hin : InHeaders r.exec.parser.state cs)
      (huser : r.user = settings.callAll left (.url m d :: cs))
  | body (hok : r.Ok n) (hpart : r.exec.part = .body) (p : Report) (htrailer : p.trailer = [])
      (hget : methodIs (p.headed left).pRequest.strMethod (bytes "GET") = false)
      (huser : r.user = settings.callAll (p.headed left) p.bodyEvents)
  | trailer (hok : r.Ok n) (hopened : r.exec.opened = true) (p : Report) (htrailer : p.trailer = [])
      (hget : methodIs (p.headed left).pRequest.strMethod (bytes "GET") = false)
      {cs : List Event} (hin : InHeaders r.exec.parser.state cs)
      (huser : r.user = settings.callAll (p.headed left) (p.bodyEvents ++ cs))
  | failed (hstop : r.stopped = true) (hsame : r.user.invocations = left.invocations)

namespace Telling

variable {left : HttpPeerLink} {n : ℕ} {r : Execution HttpPeerLink}

theorem step_url (hok : r.Ok n)
    (hpart : r.exec.part = .idle ∨ r.exec.part = .line ∨ r.exec.part = .url)
    (huser : r.user = left) (ch : UInt8) : Telling left (n + 1) (r.step settings ch) := by
  have hdoes := feed_does hok.exec ch
  generalize hs : feed r.exec ch = s at hdoes
  generalize r.exec.part = a at hdoes hpart
  generalize r.exec.opened = o at hdoes
  cases s with
  | next cs f =>
    obtain ⟨hstep, hok'⟩ := hok.step_next settings hs
    obtain ⟨-, hmove, -⟩ := hdoes
    rw [hstep] at hok' ⊢
    generalize hb : f.part = b at hmove
    generalize ho' : f.opened = o' at hmove
    cases hmove with
    | quiet hquiet =>
      refine .url hok' ?_ huser
      show f.part = .idle ∨ f.part = .line ∨ f.part = .url
      rw [hb]
      rcases hpart with rfl | rfl | rfl <;> cases b <;> simp [Part.quiet] at hquiet ⊢
    | url m d hto =>
      have hin : InHeaders f.parser.state [] := by
        rcases hto with rfl | rfl
        · exact .version hb
        · exact .fields [] hb
      exact .headers hok' ho' m d hin (by rw [huser])
    -- there is nothing of a message yet to report or to complete
    | header_field | header_value | body => simp at hpart
    | complete hreports => cases hreports <;> simp at hpart
  | stop cs p =>
    rw [hok.step_stop settings hs]
    rcases hdoes with ⟨d, -, hvalue, -⟩ | ⟨rfl, -⟩ | ⟨cs', -, hreports, -⟩
    · simp [hvalue] at hpart
    · exact .failed rfl (by rw [huser]; rfl)
    · cases hreports <;> simp at hpart
  | ask cs f =>
    obtain ⟨hreports, -⟩ := hdoes
    cases hreports <;> simp at hpart

/-- None of the calls so far has invoked the handler. -/
theorem invocations_eq (h : Telling left n r) : r.user.invocations = left.invocations := by
  have hheaded : ∀ p : Report, (p.headed left).invocations = left.invocations := fun p =>
    callAll_invocations (by simp [Report.headEvents, Report.fieldEvents]) left
  have hbody : ∀ p : Report, .message_complete ∉ p.bodyEvents := fun p => by
    simp [Report.bodyEvents, Report.fieldEvents]
  cases h with
  | url _ _ huser => rw [huser]
  | headers _ _ m d hin huser =>
    rw [huser]
    exact callAll_invocations (by simpa using hin.no_complete) left
  | body _ _ p _ _ huser =>
    rw [huser, callAll_invocations (hbody p), hheaded]
  | trailer _ _ p _ _ hin huser =>
    rw [huser, callAll_invocations (by simpa using ⟨hbody p, hin.no_complete⟩), hheaded]
  | failed _ hsame => exact hsame

/-- A byte with which the call returns: an error, or the end of the message. -/
theorem step_stop (h : Telling left n r) (hok : r.Ok n) {ch : UInt8} {cs : List Event} {p : Parser}
    (hs : feed r.exec ch = .stop cs p) :
    Telling left (n + 1) (r.step settings ch) ∨
      ∃ cs', cs = cs' ++ [.message_complete] ∧ Reports r.exec.part cs' ∧ r.exec.opened = true ∧
        p.http_errno = none := by
  have hdoes := feed_does hok.exec ch
  rw [hs] at hdoes
  rw [hok.step_stop settings hs]
  have hsame := h.invocations_eq
  rcases hdoes with ⟨d, rfl, -⟩ | ⟨rfl, -⟩ | ⟨cs', rfl, hreports, hopened, herr⟩
  · exact Or.inl (.failed rfl hsame)
  · exact Or.inl (.failed rfl hsame)
  · exact Or.inr ⟨cs', rfl, hreports, hopened, herr⟩

/-- The session answers, and what it answers is the end of the request or brings its body. -/
theorem headers_told {e : Exec} (herr : e.parser.http_errno = none) (hmark : e.mark = none)
    (hsize : e.size ≤ n) (m : Method) (d : Bytes) (xs : List (Named UInt8)) :
    let r' := Execution.headers settings e ((Report.heading m d xs).headed left) LF
    Telling left n r' ∨ ∃ p : Report, r'.user = p.deliver left := by
  intro r'
  have hheaders := headers_headers settings herr hmark hsize ((Report.heading m d xs).headed left)
  change Headers settings e _ n r' at hheaders
  cases hheaders with
  | failed hstop _ huser =>
    refine Or.inl (.failed hstop ?_)
    rw [huser]
    refine callAll_invocations ?_ left
    simp [Report.headEvents, Report.fieldEvents, Report.heading]
  | complete _ _ _ huser =>
    refine Or.inr ⟨Report.heading m d xs, ?_⟩
    rw [Report.deliver_heading, huser]
    rfl
  | body hok hpart huser =>
    refine Or.inl (.body hok hpart (Report.heading m d xs) rfl ?_ huser)
    -- with the answer 1 the message would be complete
    by_contra hget
    rw [Bool.not_eq_false] at hget
    obtain ⟨flags, hone, -⟩ := headers_complete_one e.parser
    have hidle : r'.exec.part = .idle := by
      show (headers_complete _ e.parser LF).parser.state.part = .idle
      rw [if_pos hget, hone]
      exact Parser.new_message_part _
    rw [hidle] at hpart
    cases hpart

theorem step_headers (hok : r.Ok n) (hopened : r.exec.opened = false) (m : Method) (d : Bytes)
    {cs : List Event} (hin : InHeaders r.exec.parser.state cs)
    (huser : r.user = settings.callAll left (.url m d :: cs)) (ch : UInt8) :
    Telling left (n + 1) (r.step settings ch) ∨
      ∃ p : Report, (r.step settings ch).user = p.deliver left := by
  have hdoes := feed_does hok.exec ch
  have hpays := fun howes => feed_pays hok.exec howes ch
  cases hs : feed r.exec ch with
  | next cs' f =>
    rw [hs] at hdoes
    obtain ⟨-, hmove, -⟩ := hdoes
    obtain ⟨hstep, hok'⟩ := hok.step_next settings hs
    rw [hstep] at hok' ⊢
    rcases hin.next hok.exec hs hmove with ⟨hin', ho'⟩ | ⟨cs'', xs, -, htrue, -⟩
    · refine Or.inl (.headers hok' (ho'.trans hopened) m d hin' ?_)
      rw [huser, ← Settings.callAll_append]
      rfl
    · rw [hopened] at htrue
      cases htrue
  | stop cs' p =>
    have htelling : Telling left n r := .headers hok hopened m d hin huser
    rcases htelling.step_stop hok hs with htelling' | ⟨-, -, -, htrue, -⟩
    · exact Or.inl htelling'
    · rw [hopened] at htrue
      cases htrue
  | ask cs' f =>
    rw [hs] at hdoes hpays
    obtain ⟨hreports, -, rfl, -, -, herr, hmark, hsize⟩ := hdoes
    -- all headers are reported, and the answer of the session decides about the body
    obtain ⟨xs, hxs⟩ := hin.complete hreports fun howes => by
      cases hpays howes
      simp
    have hstep : r.step settings LF =
        Execution.headers settings f ((Report.heading m d xs).headed left) LF := by
      have hheaded : settings.callAll r.user cs' = (Report.heading m d xs).headed left := by
        rw [huser, ← Settings.callAll_append, List.cons_append, hxs]
        rfl
      simp [Execution.step, hok.going, hs, hheaded]
    rw [hstep]
    exact headers_told herr hmark (hsize.trans (Nat.succ_le_succ hok.size)) m d xs

/-- The end of a message whose body has been read. -/
theorem told_body {p : Report}
    (hget : methodIs (p.headed left).pRequest.strMethod (bytes "GET") = false) {u : HttpPeerLink}
    (huser : u = settings.callAll (p.headed left) (p.bodyEvents ++ [.message_complete])) :
    ∃ p : Report, u = p.deliver left := by
  refine ⟨p, ?_⟩
  rw [huser, p.deliver_eq rfl hget]
  rfl

theorem step_body (hok : r.Ok n) (hpart : r.exec.part = .body) (p : Report)
    (htrailer : p.trailer = [])
    (hget : methodIs (p.headed left).pRequest.strMethod (bytes "GET") = false)
    (huser : r.user = settings.callAll (p.headed left) p.bodyEvents) (ch : UInt8) :
    Telling left (n + 1) (r.step settings ch) ∨
      ∃ p : Report, (r.step settings ch).user = p.deliver left := by
  have hdoes := feed_does hok.exec ch
  have hopened : r.exec.opened = true := Parser.opened_of_body hpart
  -- one more piece of the body
  have hmore : ∀ d, Report.bodyEvents { p with body := p.body ++ [d] } = p.bodyEvents ++ [.body d] := by
    intro d
    simp [Report.bodyEvents, htrailer]
  have hreported : ∀ cs, Reports r.exec.part cs → ∃ q : Report, q.trailer = [] ∧
      methodIs (q.headed left).pRequest.strMethod (bytes "GET") = false ∧
      settings.callAll r.user cs = settings.callAll (q.headed left) q.bodyEvents := by
    intro cs hreports
    rw [hpart] at hreports
    rw [huser, ← Settings.callAll_append]
    cases hreports with
    | body => exact ⟨p, htrailer, hget, by rw [List.append_nil]⟩
    | body_data d => exact ⟨{ p with body := p.body ++ [d] }, htrailer, hget, by rw [hmore]; rfl⟩
  have hcomplete : ∀ cs, Reports r.exec.part cs → ∃ q : Report,
      settings.callAll r.user (cs ++ [.message_complete]) = q.deliver left := by
    intro cs hreports
    obtain ⟨q, -, hget', hq⟩ := hreported cs hreports
    refine told_body hget' ?_
    rw [Settings.callAll_append, hq, ← Settings.callAll_append]
  cases hs : feed r.exec ch with
  | next cs f =>
    rw [hs] at hdoes
    obtain ⟨-, hmove, -⟩ := hdoes
    obtain ⟨hstep, hok'⟩ := hok.step_next settings hs
    rw [hstep] at hok' ⊢
    rw [hopened] at hmove
    generalize hb : f.part = b at hmove
    generalize ho' : f.opened = o' at hmove
    generalize ha : r.exec.part = a at hmove
    cases hmove with
    | quiet hquiet =>
      rw [← ha, hpart] at hquiet
      have hto : b = .body ∨ b = .fields := by
        cases b <;> simp [Part.quiet] at hquiet ⊢
      rcases hto with rfl | rfl
      · exact Or.inl (.body hok' hb p htrailer hget huser)
      · refine Or.inl (.trailer hok' ho' p htrailer hget (.fields [] hb) ?_)
        rw [List.flatMap_nil, List.append_nil]
        exact huser
    | header_field | header_value =>
      rw [hpart] at ha
      cases ha
    | body d =>
      obtain ⟨q, htrailer', hget', hq⟩ := hreported [.body d] (hpart ▸ .body_data d)
      exact Or.inl (.body hok' hb q htrailer' hget' hq)
    | @complete _ cs' hreports => exact Or.inr (hcomplete cs' (ha ▸ hreports))
  | stop cs p' =>
    have htelling : Telling left n r := .body hok hpart p htrailer hget huser
    rcases htelling.step_stop hok hs with htelling' | ⟨cs', rfl, hreports, -, -⟩
    · exact Or.inl htelling'
    · rw [hok.step_stop settings hs]
      exact Or.inr (hcomplete cs' hreports)
  | ask cs f =>
    rw [hs] at hdoes
    rw [hdoes.2.1] at hopened
    cases hopened

theorem step_trailer (hok : r.Ok n) (hopened : r.exec.opened = true) (p : Report)
    (htrailer : p.trailer = [])
    (hget : methodIs (p.headed left).pRequest.strMethod (bytes "GET") = false)
    {cs : List Event} (hin : InHeaders r.exec.parser.state cs)
    (huser : r.user = settings.callAll (p.headed left) (p.bodyEvents ++ cs)) (ch : UInt8) :
    Telling left (n + 1) (r.step settings ch) ∨
      ∃ p : Report, (r.step settings ch).user = p.deliver left := by
  have hdoes := feed_does hok.exec ch
  have hpays := fun howes => feed_pays hok.exec howes ch
  -- once the message is complete, the headers behind the body are a trailer
  have hcomplete : ∀ (cs' : List Event) (xs : List (Named UInt8)),
      cs ++ cs' = xs.flatMap Report.fieldEvents → ∃ q : Report,
        settings.callAll r.user (cs' ++ [.message_complete]) = q.deliver left := by
    intro cs' xs hxs
    have hevents : Report.bodyEvents { p with trailer := xs } = p.bodyEvents ++ (cs ++ cs') := by
      simp [Report.bodyEvents, htrailer, hxs]
    refine @told_body left { p with trailer := xs } hget _ ?_
    rw [hevents, huser, ← Settings.callAll_append]
    simp only [List.append_assoc]
    rfl
  cases hs : feed r.exec ch with
  | next cs' f =>
    rw [hs] at hdoes
    obtain ⟨-, hmove, -⟩ := hdoes
    obtain ⟨hstep, hok'⟩ := hok.step_next settings hs
    rw [hstep] at hok' ⊢
    rcases hin.next hok.exec hs hmove with ⟨hin', ho'⟩ | ⟨cs'', xs, rfl, -, hxs⟩
    · refine Or.inl (.trailer hok' (ho'.trans hopened) p htrailer hget hin' ?_)
      rw [huser, ← Settings.callAll_append, List.append_assoc]
    · exact Or.inr (hcomplete cs'' xs hxs)
  | stop cs' q =>
    have htelling : Telling left n r := .trailer hok hopened p htrailer hget hin huser
    rcases htelling.step_stop hok hs with htelling' | ⟨cs'', rfl, hreports, -, herr⟩
    · exact Or.inl htelling'
    · obtain ⟨xs, hxs⟩ := hin.complete hreports fun howes => by
        have hpaid := hpays howes
        rw [hs] at hpaid
        rintro rfl
        cases hpaid with
        | failed hne => exact hne herr
      rw [hok.step_stop settings hs]
      exact Or.inr (hcomplete cs'' xs hxs)
  | ask cs' f =>
    -- headers complete a second time only after the end of a message
    rw [hs] at hdoes
    rw [hdoes.2.1] at hopened
    cases hopened

theorem step (h : Telling left n r) (ch : UInt8) :
    Telling left (n + 1) (r.step settings ch) ∨
      ∃ p : Report, (r.step settings ch).user = p.deliver left := by
  cases h with
  | url hok hpart huser => exact Or.inl (step_url hok hpart huser ch)
  | headers hok hopened m d hin huser => exact step_headers hok hopened m d hin huser ch
  | body hok hpart p htrailer hget huser => exact step_body hok hpart p htrailer hget huser ch
  | trailer hok hopened p htrailer hget hin huser =>
    exact step_trailer hok hopened p htrailer hget hin huser ch
  | failed hstop hsame =>
    rw [step_stopped settings hstop]
    exact Or.inl (.failed hstop hsame)

/-- The handler is invoked when a whole report has been made, and not before. -/
theorem scan (h : Telling left n r) (data : Bytes) :
    (r.scan settings data).user.invocations = left.invocations ∨
      ∃ (pre post : Bytes) (p : Report), data = pre ++ post ∧
        (r.scan settings pre).user = p.deliver left := by
  induction data generalizing n r with
  | nil => exact Or.inl h.invocations_eq
  | cons ch data ih =>
    rcases h.step ch with htelling | ⟨p, hp⟩
    · rcases ih htelling with hsame | ⟨pre, post, p, hdata, hp⟩
      · exact Or.inl hsame
      · exact Or.inr ⟨ch :: pre, post, p, by rw [hdata]; rfl, hp⟩
    · exact Or.inr ⟨[ch], data, p, rfl, hp⟩

end Telling

/-- **Requests are reports.** When the handler is invoked for the bytes of a request, the session
has been told a report, and the handler is given what the report passes on. -/
theorem exists_report {history : History} {req : Bytes} (h : history.Before req) {inv : Invocation}
    (hserved : history.served req = some inv) :
    ∃ (pre post : Bytes) (p : Report), req = pre ++ post ∧
      (history.run.scan settings pre).user = p.deliver history.left ∧
      p.Passed history.left inv := by
  have hfits := h.fits
  rw [List.length_append] at hfits
  obtain ⟨hok, -⟩ := parse_awaits (by omega) h.awaits
  have hpart : history.run.exec.part = .idle := congrArg State.part h.awaits.2
  have htelling : Telling history.left _ history.run := .url hok (Or.inl hpart) rfl
  unfold History.served at hserved
  rcases htelling.scan req with hsame | ⟨pre, post, p, rfl, hp⟩
  · rw [hsame, List.drop_length] at hserved
    cases hserved
  · refine ⟨pre, post, p, rfl, hp, ?_⟩
    obtain ⟨inv', hpassed⟩ := p.exists_passed (known_parse history.known history.pre)
    -- the first invocation stays the first
    have hinvoked : history.left.Invoked inv' (history.run.scan settings (pre ++ post)).user := by
      rw [scan_append]
      refine scan_keeps invoked_call (fun _ _ hinv => hinv) ?_ post
      rw [hp]
      exact ⟨[], hpassed.invocations⟩
    obtain ⟨later, hlater⟩ := hinvoked
    rw [hlater, List.drop_left] at hserved
    cases hserved
    exact hpassed

/-- What the handler is given for a request is the request in full if and only if of each item that
the parser reports the last piece is all there is. -/
theorem served_carries_iff {history : History} {req : Bytes} (h : history.Before req)
    {inv : Invocation} (hserved : history.served req = some inv) :
    ∃ (pre post : Bytes) (p : Report), req = pre ++ post ∧
      (history.run.scan settings pre).user = p.deliver history.left ∧
      (p.Carries inv ↔ p.InOnePiece history.left) := by
  obtain ⟨pre, post, p, hreq, hp, hpassed⟩ := exists_report h hserved
  exact ⟨pre, post, p, hreq, hp, hpassed.carries_iff⟩

end HttpPeerLink
end SomoNet
