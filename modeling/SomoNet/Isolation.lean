import SomoNet.BodyFraming
import SomoNet.Http.Boundary

/-!
# One request object for all requests

`HttpPeerLink` collects every request in the same `HttpRequest`, and `on_begin`, which would
clear it, is not wired to the parser. What the session hands to the handler is therefore what
the request says of itself (`Record`), laid over what the requests before have left
(`served_eq`). As everywhere, the callbacks without a `return` give 0 (`HttpPeerLink.settings`).
-/

namespace SomoNet

open Http Execution

/-! ## What a request says of itself -/

/-- What has been reported of a request. -/
structure Said where
  /-- The method, if it is one that `on_url` stores. -/
  method : Option Bytes
  url : Option Bytes
  /-- The header field that was reported last. -/
  field : Option Bytes
  /-- The header fields that were given a value, with the values. -/
  headers : List (Bytes × Bytes)
  /-- The piece of the body that was reported last. -/
  body : Option Bytes
  deriving DecidableEq

/-- A header field stored with its value. -/
def storeHeader (headers : Bytes → Option Bytes) (h : Bytes × Bytes) : Bytes → Option Bytes :=
  Function.update headers h.1 (some h.2)

namespace Said

def new : Said := ⟨none, none, none, [], none⟩

/-- The request with a call more. -/
def call (said : Said) : Event → Said
  | .url m d =>
    { said with
      url := some d
      method :=
        match m with
        | .GET => some (bytes "GET")
        | .POST => some (bytes "POST")
        | _ => said.method }
  | .header_field d => { said with field := some d }
  | .header_value d => { said with headers := said.headers ++ [(said.field.getD [], d)] }
  | .body d => { said with body := some d }
  | .message_complete => said

/-- The headers that the session holds when `left` has been left over. -/
def headersAfter (said : Said) (left : HttpPeerLink) : Bytes → Option Bytes :=
  said.headers.foldl storeHeader left.pRequest.mapHeaders

/-- The session that the request leads to when `left` has been left over. -/
def after (said : Said) (left : HttpPeerLink) : HttpPeerLink where
  pRequest :=
    { strMethod := said.method.getD left.pRequest.strMethod
      strUrl := said.url.getD left.pRequest.strUrl
      mapHeaders := said.headersAfter left
      strBody := said.body.getD left.pRequest.strBody }
  strField := said.field.getD left.strField
  invocations := left.invocations

/-- With the method that `left` holds, the request passes for a `GET`. -/
def isGet (said : Said) (left : HttpPeerLink) : Bool :=
  methodIs (said.method.getD left.pRequest.strMethod) (bytes "GET")

/-- Two sessions hold the same values for the fields that the request gives no value to. -/
def SameHeaders (said : Said) (u v : HttpPeerLink) : Prop :=
  ∀ field, field ∉ said.headers.map Prod.fst →
    u.pRequest.mapHeaders field = v.pRequest.mapHeaders field

/-- Two sessions hold the same body, unless the request has one. -/
def SameBody (said : Said) (u v : HttpPeerLink) : Prop :=
  said.body = none → u.pRequest.strBody = v.pRequest.strBody

/-- A value is reported after its field. -/
theorem after_call (said : Said) (left : HttpPeerLink) {c : Event}
    (hfield : ∀ d, c = .header_value d → said.field ≠ none) (hc : c ≠ .message_complete) :
    (said.call c).after left = HttpPeerLink.settings.call (said.after left) c := by
  cases c with
  | url m d => cases m <;> rfl
  | header_field d => rfl
  | header_value d =>
    obtain ⟨field, hsome⟩ := Option.ne_none_iff_exists'.mp (hfield d rfl)
    have hstrField : (said.after left).strField = said.field.getD [] := by
      rw [hsome]
      show said.field.getD _ = field
      rw [hsome, Option.getD_some]
    have hheaders : (said.call (.header_value d)).headersAfter left =
        storeHeader (said.headersAfter left) ((said.after left).strField, d) := by
      rw [hstrField]
      exact List.foldl_append
    show HttpPeerLink.mk _ _ _ = HttpPeerLink.mk _ _ _
    rw [hheaders]
    rfl
  | body d => rfl
  | message_complete => exact absurd rfl hc

/-- The headers depend on what was left over in the fields that are not given a value. -/
theorem headersAfter_eq_iff (said : Said) (u v : HttpPeerLink) :
    said.headersAfter u = said.headersAfter v ↔ said.SameHeaders u v := by
  unfold headersAfter SameHeaders
  generalize u.pRequest.mapHeaders = a
  generalize v.pRequest.mapHeaders = b
  induction said.headers generalizing a b with
  | nil => simp [funext_iff]
  -- a field that is given a value holds that value with both
  | cons h headers ih =>
    rw [List.foldl_cons, List.foldl_cons, ih]
    unfold storeHeader
    constructor
    · intro hsame field hfield
      rw [List.map_cons, List.mem_cons, not_or] at hfield
      have := hsame field hfield.2
      rwa [Function.update_of_ne hfield.1, Function.update_of_ne hfield.1] at this
    · intro hsame field hfield
      by_cases heq : field = h.1
      · rw [heq, Function.update_self, Function.update_self]
      · rw [Function.update_of_ne heq, Function.update_of_ne heq]
        exact hsame field (by simp [heq, hfield])

/-- What is known of a request in the part `a` of it. -/
structure Told (said : Said) (a : Part) : Prop where
  url : a ≠ .idle → a ≠ .line → a ≠ .url → said.url ≠ none
  field : a = .value → said.field ≠ none

theorem Told.of_idle (said : Said) : said.Told .idle := ⟨fun h => absurd rfl h, nofun⟩

end Said

/-- A user of the parser that takes down what the first request says, and has every body
read. -/
structure Record where
  said : Said
  /-- What the request had said when its headers were complete. -/
  head : Option Said
  /-- What the request had said when it was complete. -/
  whole : Option Said
  deriving DecidableEq

namespace Record

def new : Record := ⟨.new, none, none⟩

def report (rec : Record) (c : Event) : Record := { rec with said := rec.said.call c }

def settings : Settings Record where
  on_url method data rec := rec.report (.url method data)
  on_header_field data rec := rec.report (.header_field data)
  on_header_value data rec := rec.report (.header_value data)
  on_headers_complete _ rec := ({ rec with head := rec.head.or (some rec.said) }, 0)
  on_body data rec := rec.report (.body data)
  on_message_complete rec := { rec with whole := rec.whole.or (some rec.said) }

/-- What the request that begins with these bytes says of itself. -/
def ofBytes (req : Bytes) : Record := ((Execution.start .init new).scan settings req).user

/-- The invocation for the request when `left` has been left over. -/
def invocation (rec : Record) (left : HttpPeerLink) : Option Invocation :=
  rec.head.bind fun head =>
    if head.isGet left then some (.on_get (head.url.getD []) (head.headersAfter left))
    else rec.whole.map fun whole =>
      .on_post (whole.url.getD []) (whole.headersAfter left) (whole.body.getD left.pRequest.strBody)

/-- Two sessions have left nothing over that makes a difference to the request: it is a `GET`
with both or with neither, both hold the same values for the header fields that it gives no
value to, and for a `POST` without a body both hold the same body. -/
def Indifferent (rec : Record) (u v : HttpPeerLink) : Prop :=
  ∀ head, rec.head = some head →
    head.isGet u = head.isGet v ∧
      (head.isGet u = true → head.SameHeaders u v) ∧
      (head.isGet u = false → ∀ whole, rec.whole = some whole →
        whole.SameHeaders u v ∧ whole.SameBody u v)

theorem invocation_eq_iff (rec : Record) (u v : HttpPeerLink) :
    rec.invocation u = rec.invocation v ↔ rec.Indifferent u v := by
  unfold invocation Indifferent
  cases rec.head with
  | none => simp
  | some head =>
    simp only [Option.bind_some, Option.some.injEq, forall_eq']
    have hbody : ∀ whole : Said, (whole.body.getD u.pRequest.strBody =
        whole.body.getD v.pRequest.strBody) ↔ whole.SameBody u v := by
      intro whole
      unfold Said.SameBody
      cases whole.body with
      | none => simp
      | some d => simp
    cases hu : head.isGet u <;> cases hv : head.isGet v
    · cases rec.whole with
      | none => simp
      | some whole => simp [Said.headersAfter_eq_iff, hbody]
    · cases rec.whole with
      | none => simp
      | some whole => simp
    · cases rec.whole with
      | none => simp
      | some whole => simp
    · simp [Said.headersAfter_eq_iff]

/-! ### The first request stays recorded -/

theorem call_head (rec : Record) (c : Event) : (settings.call rec c).head = rec.head := by
  cases c <;> rfl

theorem call_whole (rec : Record) (c : Event) :
    (settings.call rec c).whole =
      if c = .message_complete then rec.whole.or (some rec.said) else rec.whole := by
  cases c <;> rfl

/-- Once there is an invocation for the request, calls for later ones do not change it. -/
theorem call_invocation {left : HttpPeerLink} {inv : Invocation} (rec : Record) (c : Event)
    (h : rec.invocation left = some inv) : (settings.call rec c).invocation left = some inv := by
  -- what has been taken down is not taken down again
  have hwhole : rec.whole ≠ none → (settings.call rec c).whole = rec.whole := by
    intro hne
    obtain ⟨whole, hsome⟩ := Option.ne_none_iff_exists'.mp hne
    rw [call_whole, hsome]
    split
    · rfl
    · rfl
  unfold invocation at h ⊢
  rw [call_head]
  cases hhead : rec.head with
  | none =>
    rw [hhead] at h
    cases h
  | some head =>
    rw [hhead, Option.bind_some] at h
    rw [Option.bind_some]
    split
    next hget => rwa [if_pos hget] at h
    next hget =>
      rw [if_neg hget] at h
      have hne : rec.whole ≠ none := by
        intro hnone
        rw [hnone] at h
        cases h
      rwa [hwhole hne]

theorem headers_invocation {left : HttpPeerLink} {inv : Invocation} (p : Parser) (rec : Record)
    (h : rec.invocation left = some inv) :
    (settings.on_headers_complete p rec).1.invocation left = some inv := by
  cases hhead : rec.head with
  | none =>
    unfold invocation at h
    rw [hhead] at h
    cases h
  | some head =>
    have hsame : (settings.on_headers_complete p rec).1 = rec := by
      show Record.mk rec.said (rec.head.or (some rec.said)) rec.whole = rec
      rw [hhead, Option.some_or, ← hhead]
    rwa [hsame]

end Record

namespace HttpPeerLink

/-- The methods that `on_url` can have stored. -/
def Known (link : HttpPeerLink) : Prop :=
  link.pRequest.strMethod = [] ∨ link.pRequest.strMethod = bytes "GET" ∨
    link.pRequest.strMethod = bytes "POST"

theorem known_call (link : HttpPeerLink) (c : Event) (h : link.Known) :
    (settings.call link c).Known := by
  cases c with
  | url m d =>
    cases m
    case GET => exact Or.inr (Or.inl rfl)
    case POST => exact Or.inr (Or.inr rfl)
    all_goals exact h
  | header_field | header_value | body | message_complete => exact h

theorem known_on_data {link : HttpPeerLink} (h : link.Known) (data : Bytes) :
    (link.on_data data).Known :=
  execute_keeps known_call (fun _ _ h => h) .init h data

theorem known_on_segments {link : HttpPeerLink} (h : link.Known) (segs : List Bytes) :
    (link.on_segments segs).Known := by
  induction segs generalizing link with
  | nil => exact h
  | cons seg segs ih => exact ih (known_on_data h seg)

/-- A stored method that does not pass for `GET` passes for `POST`. -/
theorem invocation_of_known {link : HttpPeerLink} (h : link.Known)
    (hget : methodIs link.pRequest.strMethod (bytes "GET") = false) :
    link.invocation = some (.on_post link.pRequest.strUrl link.pRequest.mapHeaders
      link.pRequest.strBody) := by
  have hpost : methodIs link.pRequest.strMethod (bytes "POST") = true := by
    rcases h with h | h | h <;> rw [h] at hget ⊢
    · exact absurd hget (by decide)
    · exact absurd hget (by decide)
    · decide
  unfold invocation
  dsimp only
  rw [hget, hpost]
  rfl

/-- The invocations are those of `link` and, after them, `inv` and others. -/
def Invoked (link : HttpPeerLink) (inv : Invocation) (u : HttpPeerLink) : Prop :=
  ∃ later, u.invocations = link.invocations ++ inv :: later

theorem invoked_call {link : HttpPeerLink} {inv : Invocation} (u : HttpPeerLink) (c : Event)
    (h : link.Invoked inv u) : link.Invoked inv (settings.call u c) := by
  obtain ⟨later, hu⟩ := h
  cases c with
  | url m d => cases m <;> exact ⟨later, hu⟩
  | header_field | header_value | body => exact ⟨later, hu⟩
  | message_complete =>
    refine ⟨later ++ u.invocation.toList, ?_⟩
    show u.invocations ++ _ = _
    rw [hu, List.append_assoc, List.cons_append]

/-! ## The session and the record

The session (`u`) that had `left` over reads a request together with the record (`rec`). -/

/-- The request is being read, in part `a` of it. Its headers are complete or not (`o`); once
they are, the session waits for the body. -/
structure Reading (left : HttpPeerLink) (a : Part) (o : Bool) (u : HttpPeerLink) (rec : Record) :
    Prop where
  user : u = rec.said.after left
  known : u.Known
  told : rec.said.Told a
  whole : rec.whole = none
  head : o = false → rec.head = none
  opened : o = true → rec.said.isGet left = false ∧
    ∃ head, rec.head = some head ∧ head.isGet left = false

namespace Reading

variable {left u : HttpPeerLink} {rec : Record} {a b : Part} {o : Bool}

theorem invocation_eq (h : Reading left a o u rec) : rec.invocation left = none := by
  unfold Record.invocation
  cases o with
  | false => rw [h.head rfl, Option.bind_none]
  | true =>
    obtain ⟨-, head, hhead, hget⟩ := h.opened rfl
    rw [hhead, Option.bind_some, hget, h.whole]
    rfl

theorem invocations_eq (h : Reading left a o u rec) : u.invocations = left.invocations := by
  rw [h.user]
  rfl

/-- A call for the request, after which it is in part `b`. -/
theorem call (h : Reading left a o u rec) (c : Event) (hc : c ≠ .message_complete)
    (hurl : o = true → c.isData = true) (hvalue : ∀ d, c = .header_value d → a = .value)
    (htold : (rec.said.call c).Told b) :
    Reading left b o (settings.call u c) (Record.settings.call rec c) := by
  have hsaid : (Record.settings.call rec c).said = rec.said.call c := by
    cases c with
    | message_complete => exact absurd rfl hc
    | url | header_field | header_value | body => rfl
  -- a value belongs to the field that was reported before it
  have hfield : ∀ d, c = .header_value d → rec.said.field ≠ none := fun d hd =>
    h.told.field (hvalue d hd)
  refine ⟨?_, known_call u c h.known, ?_, ?_, ?_, ?_⟩
  · rw [hsaid, Said.after_call rec.said left hfield hc, h.user]
  · rw [hsaid]
    exact htold
  · rw [Record.call_whole, if_neg hc, h.whole]
  · rw [Record.call_head]
    exact h.head
  · intro ho
    rw [Record.call_head, hsaid]
    obtain ⟨hget, hhead⟩ := h.opened ho
    refine ⟨?_, hhead⟩
    have hdata := hurl ho
    cases c with
    | url | message_complete => cases hdata
    | header_field | header_value | body => exact hget

/-- What is reported of a part that ends. -/
theorem reports (h : Reading left a o u rec) {cs : List Event} (hreports : Reports a cs) :
    Reading left a o (settings.callAll u cs) (Record.settings.callAll rec cs) := by
  cases hreports with
  | fields | value | body => exact h
  | header_value d =>
    have htold : (rec.said.call (.header_value d)).Told .value := ⟨h.told.url, h.told.field⟩
    exact h.call (.header_value d) (by simp) (fun _ => rfl) (fun _ _ => rfl) htold
  | body_data d =>
    have htold : (rec.said.call (.body d)).Told .body := ⟨h.told.url, h.told.field⟩
    exact h.call (.body d) (by simp) (fun _ => rfl) (fun _ hd => nomatch hd) htold

/-- A part that follows without a call. -/
theorem quiet (h : Reading left a o u rec) (hquiet : a.quiet b) : Reading left b o u rec := by
  refine ⟨h.user, h.known, ⟨?_, ?_⟩, h.whole, h.head, h.opened⟩
  · intro hidle hline hurl
    apply h.told.url
    all_goals
      intro ha
      rw [ha] at hquiet
      revert hquiet hidle hline hurl
      cases b <;> simp [Part.quiet]
  · intro hb
    apply h.told.field
    rw [hb] at hquiet
    revert hquiet
    cases a <;> simp [Part.quiet]

/-- The request is complete, with a body that the session has read. -/
theorem complete (h : Reading left a true u rec) (hurl : rec.said.url ≠ none) :
    ∃ inv, (Record.settings.call rec .message_complete).invocation left = some inv ∧
      left.Invoked inv (settings.call u .message_complete) := by
  obtain ⟨hget, head, hhead, hheadget⟩ := h.opened rfl
  obtain ⟨url, hsome⟩ := Option.ne_none_iff_exists'.mp hurl
  have hinv := invocation_of_known h.known (by rw [h.user]; exact hget)
  refine ⟨.on_post url (rec.said.headersAfter left) (rec.said.body.getD left.pRequest.strBody),
    ?_, [], ?_⟩
  · show Option.bind rec.head _ = _
    rw [hhead, Option.bind_some, hheadget]
    show Option.map _ (rec.whole.or (some rec.said)) = _
    rw [h.whole, Option.none_or, Option.map_some, hsome, Option.getD_some]
  · show u.invocations ++ u.invocation.toList = _
    rw [hinv, h.invocations_eq, h.user]
    show _ ++ [Invocation.on_post (rec.said.url.getD _) _ _] = _
    rw [hsome]
    rfl

/-- The headers are complete, and there is no body for a `GET`. -/
theorem get (h : Reading left a false u rec) (p : Parser) (hurl : rec.said.url ≠ none)
    (hget : rec.said.isGet left = true) :
    ∃ inv, (Record.settings.on_headers_complete p rec).1.invocation left = some inv ∧
      left.Invoked inv u.on_complete := by
  obtain ⟨url, hsome⟩ := Option.ne_none_iff_exists'.mp hurl
  have hinv : u.invocation = some (.on_get u.pRequest.strUrl u.pRequest.mapHeaders) := by
    have hmethod : methodIs u.pRequest.strMethod (bytes "GET") = true := by
      rw [h.user]
      exact hget
    unfold invocation
    dsimp only
    rw [if_pos hmethod]
  refine ⟨.on_get url (rec.said.headersAfter left), ?_, [], ?_⟩
  · show Option.bind (rec.head.or (some rec.said)) _ = _
    rw [h.head rfl, Option.none_or, Option.bind_some, if_pos hget, hsome, Option.getD_some]
  · show u.invocations ++ u.invocation.toList = _
    rw [hinv, h.invocations_eq, h.user]
    show _ ++ [Invocation.on_get (rec.said.url.getD _) _] = _
    rw [hsome]
    rfl

/-- The headers are complete, and the body is to be read. -/
theorem body (h : Reading left a false u rec) (p : Parser) (hurl : rec.said.url ≠ none)
    (hget : rec.said.isGet left = false) :
    Reading left .body true u (Record.settings.on_headers_complete p rec).1 where
  user := h.user
  known := h.known
  told := ⟨fun _ _ _ => hurl, nofun⟩
  whole := h.whole
  head := nofun
  opened _ := ⟨hget, rec.said, by
    show rec.head.or (some rec.said) = _
    rw [h.head rfl, Option.none_or], hget⟩

end Reading

/-- How the session (`r`) and the record (`d`) can stand to each other. -/
inductive Follows (left : HttpPeerLink) (n : ℕ) (r : Execution HttpPeerLink)
    (d : Execution Record) : Prop
  /-- They are at the same place of the request. -/
  | reading (hr : r.Ok n) (hd : d.Ok n) (hagree : r.exec.Agree d.exec)
      (huser : Reading left r.exec.part r.exec.opened r.user d.user)
  /-- The request has been served. -/
  | served {inv : Invocation} (hrec : d.user.invocation left = some inv)
      (huser : left.Invoked inv r.user)
  /-- The request has been given up. -/
  | failed (hr : r.stopped = true) (hd : d.stopped = true)
      (hrec : d.user.invocation left = none) (huser : r.user.invocations = left.invocations)

namespace Follows

variable {left : HttpPeerLink} {n : ℕ} {r : Execution HttpPeerLink} {d : Execution Record}

/-- The first invocation since `left` is the one that the record gives. -/
theorem first_eq (h : Follows left n r d) :
    (r.user.invocations.drop left.invocations.length).head? = d.user.invocation left := by
  cases h with
  | reading _ _ _ huser => rw [huser.invocation_eq, huser.invocations_eq, List.drop_length]; rfl
  | served hrec huser =>
    obtain ⟨later, hlater⟩ := huser
    rw [hrec, hlater, List.drop_left]
    rfl
  | failed _ _ hrec huser => rw [hrec, huser, List.drop_length]; rfl

/-- A part that ends has told the url. -/
theorem url_of_reports {said : Said} {a : Part} {cs : List Event} (htold : said.Told a)
    (hreports : Reports a cs) : said.url ≠ none := by
  apply htold.url
  all_goals
    rintro rfl
    cases hreports

/-- The byte in which the headers are complete. -/
theorem headers_follows {a : Part} {e f : Exec} {u : HttpPeerLink} {rec : Record}
    (hef : e.Agree f) (hs : e.parser.state = .s_headers_done)
    (huser : Reading left a false u rec) (hurl : rec.said.url ≠ none)
    (hr : Headers settings e u n (headers settings e u LF))
    (hd : Headers Record.settings f rec n (headers Record.settings f rec LF)) :
    Follows left n (headers settings e u LF) (headers Record.settings f rec LF) := by
  have hanswer : (settings.on_headers_complete e.parser u).2 =
      if rec.said.isGet left then 1 else 0 := by
    rw [huser.user]
    rfl
  cases hget : rec.said.isGet left with
  -- a `GET` is complete, whatever the record goes on to read
  | true =>
    rw [hget, if_pos rfl] at hanswer
    obtain ⟨inv, hrec, hinv⟩ := huser.get f.parser hurl hget
    obtain ⟨flags, hone, -⟩ := headers_complete_one e.parser
    have hu : (headers settings e u LF).user = u.on_complete := by
      simp only [headers, hanswer, hone]
      rfl
    refine @Follows.served left n _ _ inv ?_ (hu ▸ hinv)
    cases hd with
    | failed _ _ hv => rwa [hv]
    | body _ _ hv => rwa [hv]
    | complete _ _ _ hv =>
      rw [hv]
      exact Record.call_invocation _ .message_complete hrec
  -- both have the body read
  | false =>
    rw [hget, if_neg (by decide)] at hanswer
    have hbody := huser.body f.parser hurl hget
    obtain ⟨hstop, hagree, -⟩ := headers_agree settings Record.settings hef hs u rec hanswer.symm
    generalize headers settings e u LF = r at *
    generalize headers Record.settings f rec LF = d at *
    have hpart : d.exec.part = r.exec.part := congrArg State.part hagree.parser.state_eq
    have hu : (settings.on_headers_complete e.parser u).1 = u := rfl
    rcases hd with ⟨hstop', herr', hv⟩ | ⟨hok', hpart', hv⟩ | ⟨herr', hpart', hok', hv⟩
    · rcases hr with ⟨hrstop, -, hu'⟩ | ⟨hok, -, -⟩ | ⟨herr, -, -, -⟩
      · rw [hu] at hu'
        refine .failed hrstop hstop' ?_ ?_
        · rw [hv, hbody.invocation_eq]
        · rw [hu', hbody.invocations_eq]
      · rw [hok.going, hstop'] at hstop
        cases hstop
      · exact absurd (hagree.parser.errno_eq.trans herr) herr'
    · rcases hr with ⟨hrstop, -, -⟩ | ⟨hok, hpartr, hu'⟩ | ⟨-, hpartr, -, -⟩
      · rw [hok'.going, hrstop] at hstop
        cases hstop
      · rw [hu] at hu'
        refine .reading hok hok' hagree ?_
        rw [hu', hv, hpartr, Exec.opened, Parser.opened_of_body hpartr]
        exact hbody
      · rw [hpart', hpartr] at hpart
        cases hpart
    · rcases hr with ⟨-, herr, -⟩ | ⟨-, hpartr, -⟩ | ⟨-, -, -, hu'⟩
      · exact absurd (hagree.parser.errno_eq ▸ herr') herr
      · rw [hpart', hpartr] at hpart
        cases hpart
      · obtain ⟨inv, hrec, hinv⟩ := hbody.complete hurl
        rw [hu] at hu'
        exact @Follows.served left n r d inv (hv ▸ hrec) (hu' ▸ hinv)

/-- A byte of the request. -/
theorem step_reading (hr : r.Ok n) (hd : d.Ok n) (hagree : r.exec.Agree d.exec)
    (huser : Reading left r.exec.part r.exec.opened r.user d.user) (hn : n < max_header_size)
    (ch : UInt8) : Follows left (n + 1) (r.step settings ch) (d.step Record.settings ch) := by
  -- the last byte of a request with a body
  have hdone : ∀ {cs : List Event}, Reports r.exec.part cs → r.exec.opened = true →
      (r.step settings ch).user = settings.callAll r.user (cs ++ [.message_complete]) →
      (d.step Record.settings ch).user =
        Record.settings.callAll d.user (cs ++ [.message_complete]) →
      Follows left (n + 1) (r.step settings ch) (d.step Record.settings ch) := by
    intro cs hreports hopened hu hv
    have hreported := huser.reports hreports
    rw [hopened] at hreported
    obtain ⟨inv, hrec, hinv⟩ := hreported.complete (url_of_reports hreported.told hreports)
    refine @Follows.served left (n + 1) _ _ inv ?_ ?_
    · rw [hv, Settings.callAll_append]
      exact hrec
    · rw [hu, Settings.callAll_append]
      exact hinv
  cases step_lockstep settings Record.settings hr hd hagree hn ch with
  | @moved cs hmove hok hok' hagree' hu hv =>
    generalize hb : (r.step settings ch).exec.part = b at hmove
    generalize ho : (r.step settings ch).exec.opened = o at hmove
    generalize ha : r.exec.part = a at hmove huser
    generalize ho' : r.exec.opened = o' at hmove huser
    -- the request goes on
    have hread : Reading left b o (settings.callAll r.user cs)
        (Record.settings.callAll d.user cs) →
        Follows left (n + 1) (r.step settings ch) (d.step Record.settings ch) := by
      intro h
      refine .reading hok hok' hagree' ?_
      rw [hb, ho, hu, hv]
      exact h
    cases hmove with
    | quiet hquiet => exact hread (huser.quiet hquiet)
    | url m data hnext =>
      refine hread (huser.call (.url m data) (by simp) nofun nofun ⟨fun _ _ _ => nofun, ?_⟩)
      rcases hnext with rfl | rfl <;> exact nofun
    | header_field data =>
      have htold : (d.user.said.call (.header_field data)).Told .value :=
        ⟨fun _ _ _ => huser.told.url nofun nofun nofun, fun _ => nofun⟩
      exact hread (huser.call (.header_field data) (by simp) (fun _ => rfl) nofun htold)
    | header_value data hnext =>
      have htold : (d.user.said.call (.header_value data)).Told b :=
        ⟨fun _ _ _ => huser.told.url nofun nofun nofun, fun _ => huser.told.field rfl⟩
      exact hread (huser.call (.header_value data) (by simp) (fun _ => rfl) (fun _ _ => rfl) htold)
    | body data =>
      have htold : (d.user.said.call (.body data)).Told .body :=
        ⟨fun _ _ _ => huser.told.url nofun nofun nofun, nofun⟩
      exact hread (huser.call (.body data) (by simp) (fun _ => rfl) nofun htold)
    | complete hreports =>
      rw [ha, ho'] at hdone
      exact hdone hreports rfl hu hv
  | @failed cs hcs hstop hstop' _ _ hu hv =>
    have hreports : cs = [] ∨ Reports r.exec.part cs := by
      rcases hcs with hnil | ⟨hpart, data, hvalue⟩
      · exact Or.inl hnil
      · rw [hpart, hvalue]
        exact Or.inr (.header_value data)
    have hreported : Reading left r.exec.part r.exec.opened (settings.callAll r.user cs)
        (Record.settings.callAll d.user cs) := by
      rcases hreports with rfl | hreports
      · exact huser
      · exact huser.reports hreports
    refine .failed hstop hstop' ?_ ?_
    · rw [hv, hreported.invocation_eq]
    · rw [hu, hreported.invocations_eq]
  | exited hreports hopened _ _ _ _ hu hv => exact hdone hreports hopened hu hv
  | @asked cs e f hreports hopened hs _ hef _ hheaders hheaders' hu hv =>
    have hreported := huser.reports hreports
    rw [hopened] at hreported
    rw [hu] at hheaders ⊢
    rw [hv] at hheaders' ⊢
    exact headers_follows hef hs hreported (url_of_reports hreported.told hreports) hheaders hheaders'

theorem step (h : Follows left n r d) (hn : n < max_header_size) (ch : UInt8) :
    Follows left (n + 1) (r.step settings ch) (d.step Record.settings ch) := by
  cases h with
  | reading hr hd hagree huser => exact step_reading hr hd hagree huser hn ch
  | served hrec huser =>
    refine .served ?_ (step_keeps invoked_call (fun _ _ h => h) huser ch)
    exact step_keeps Record.call_invocation Record.headers_invocation hrec ch
  | failed hr hd hrec huser =>
    rw [step_stopped _ hr, step_stopped _ hd]
    exact .failed hr hd hrec huser

theorem scan (data : Bytes) (h : Follows left n r d) (hn : n + data.length ≤ max_header_size) :
    Follows left (n + data.length) (r.scan settings data) (d.scan Record.settings data) := by
  induction data generalizing n r d with
  | nil => exact h
  | cons ch data ih =>
    rw [List.length_cons] at hn ⊢
    have := ih (h.step (by omega) ch) (by omega)
    rwa [show n + (data.length + 1) = n + 1 + data.length by omega]

end Follows

/-! ## Requests after others -/

/-- What a session has parsed before a request: whole segments, and the part of the segment in
which the request begins that comes before it. -/
structure History where
  segs : List Bytes
  pre : Bytes

/-- The session and its parser, after what has been parsed. -/
def History.run (history : History) : Execution HttpPeerLink :=
  (new.on_segments history.segs).parse history.pre

/-- The session that the requests before have left over. -/
def History.left (history : History) : HttpPeerLink := history.run.user

/-- The parser waits for a message, and `req` is what the rest of the segment begins with. A
segment is no longer than the buffer of `TcpLink::on_alloc`, which is below the limit. -/
structure History.Before (history : History) (req : Bytes) : Prop where
  awaits : history.run.Awaits
  fits : (history.pre ++ req).length ≤ max_header_size

/-- The handler invocation for the request `req`. -/
def History.served (history : History) (req : Bytes) : Option Invocation :=
  ((history.run.scan settings req).user.invocations.drop history.left.invocations.length).head?

/-- Before a request nothing has been said of it. -/
theorem reading_start {left : HttpPeerLink} (h : left.Known) :
    Reading left .idle false left Record.new :=
  ⟨rfl, h, .of_idle _, rfl, fun _ => rfl, nofun⟩

theorem follows_start {r : Execution HttpPeerLink} {n : ℕ} (hr : r.Ok n) (hloops : r.exec.Loops)
    (hawaits : r.Awaits) (hknown : r.user.Known) :
    Follows r.user n r (Execution.start .init Record.new) := by
  have hstate := hawaits.2
  have hpart : r.exec.part = .idle := congrArg State.part hstate
  have hopened : r.exec.opened = false := Parser.opened_eq_false (Or.inl hpart)
  refine .reading hr (start_ok _ n) (hr.agree_start hloops hstate _) ?_
  rw [hpart, hopened]
  exact reading_start hknown

/-- A segment has been parsed up to the end of a message. -/
theorem parse_awaits {link : HttpPeerLink} {pre : Bytes} (hlen : pre.length ≤ max_header_size)
    (hawaits : (link.parse pre).Awaits) :
    (link.parse pre).Ok pre.length ∧ (link.parse pre).exec.Loops := by
  constructor
  · have hok := scan_ok settings pre (start_ok link 0) (by omega)
    rw [Nat.zero_add] at hok
    refine hok.resolve_left ?_
    show ¬(link.parse pre).stopped = true
    rw [hawaits.1]
    decide
  · refine scan_loops settings pre ?_ hawaits.1
    exact fun _ => ⟨fun _ _ => rfl, fun _ => rfl⟩

/-- Nothing but `GET` and `POST` is ever stored as the method. -/
theorem known_parse {link : HttpPeerLink} (h : link.Known) (pre : Bytes) :
    (link.parse pre).user.Known :=
  scan_keeps known_call (fun _ _ h => h) (by exact h) pre

/-- What the session and the record make of the bytes behind a message. -/
theorem behind_follows {link : HttpPeerLink} (hlink : link.Known) {pre post : Bytes}
    (hlen : (pre ++ post).length ≤ max_header_size) (hawaits : (link.parse pre).Awaits) :
    Follows (link.parse pre).user (pre.length + post.length)
      ((link.parse pre).scan settings post)
      ((Execution.start .init Record.new).scan Record.settings post) := by
  rw [List.length_append] at hlen
  obtain ⟨hok, hloops⟩ := parse_awaits (by omega) hawaits
  exact (follows_start hok hloops hawaits (known_parse hlink pre)).scan post hlen

theorem History.known (history : History) : (new.on_segments history.segs).Known :=
  known_on_segments (Or.inl rfl) history.segs

/-- **What the handler is invoked with** is what the request says of itself, laid over what the
requests before it have left. -/
theorem served_eq {history : History} {req : Bytes} (h : history.Before req) :
    history.served req = (Record.ofBytes req).invocation history.left :=
  (behind_follows history.known h.fits h.awaits).first_eq

/-- **When requests are isolated from each other.** The handler is invoked alike for a request
after two histories if and only if they have left nothing over that makes a difference to it. -/
theorem isolated_iff {history history' : History} {req : Bytes} (h : history.Before req)
    (h' : history'.Before req) :
    history.served req = history'.served req ↔
      (Record.ofBytes req).Indifferent history.left history'.left := by
  rw [served_eq h, served_eq h']
  exact (Record.ofBytes req).invocation_eq_iff _ _

/-- A request with a header field. -/
def withField : Bytes := bytes "GET /a HTTP/1.1\r\nX: 1\r\n\r\n"

/-- A request without one. -/
def withoutField : Bytes := bytes "GET /b HTTP/1.1\r\n\r\n"

theorem isolated_iff_withField :
    History.served ⟨[], []⟩ withField = History.served ⟨[withField], []⟩ withField := by
  have hbefore : History.Before ⟨[], []⟩ withField := ⟨⟨rfl, rfl⟩, by decide⟩
  have hbefore' : History.Before ⟨[withField], []⟩ withField := ⟨⟨rfl, rfl⟩, by decide⟩
  refine (isolated_iff hbefore hbefore').mpr fun head hhead => ?_
  have hsaid : (Record.ofBytes withField).head =
      some ⟨some (bytes "GET"), some (bytes "/a"), some (bytes "X"), [(bytes "X", bytes "1")],
        none⟩ := by decide +kernel
  have hleft : (History.left ⟨[withField], []⟩).pRequest.mapHeaders =
      Function.update (fun _ => none) (bytes "X") (some (bytes "1")) := rfl
  obtain rfl := Option.some.inj (hhead.symm.trans hsaid)
  refine ⟨rfl, fun _ field hfield => ?_, nofun⟩
  rw [hleft, Function.update_of_ne (by simpa using hfield)]
  rfl

/-- The field survives into the next request of the segment. -/
theorem not_isolated_withoutField :
    ¬∀ (history history' : History) (req : Bytes), history.Before req → history'.Before req →
      history.served req = history'.served req := by
  intro hall
  have hsame := hall ⟨[], []⟩ ⟨[], withField⟩ withoutField ⟨⟨rfl, rfl⟩, by decide⟩
    ⟨⟨rfl, rfl⟩, by decide⟩
  have hvalue := congrArg (Option.map fun inv => inv.headers (bytes "X")) hsame
  revert hvalue
  decide +kernel

end HttpPeerLink
end SomoNet
