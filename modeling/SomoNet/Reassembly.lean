import SomoNet.Dispatch
import SomoNet.Lib.Pieces

/-!
# Items that the parser reports in pieces

The parser may report a url, a header or a body in any number of pieces: each chunk of a body is
one, and so is each line of a folded header. The callbacks of the session put every piece in the
place of the one before, and are taken to give 0, so that the parser goes on to the next piece
(`HttpPeerLink.settings`).
-/

namespace SomoNet

open Http Pieces

/-- A request as the parser reports it, in the order in which it does. -/
structure Report where
  method : Method
  url : Item UInt8
  fields : List (Named UInt8)
  body : List Bytes
  /-- The fields behind the last chunk of a body. -/
  trailer : List (Named UInt8)

namespace Report

/-- The calls for a header. -/
def fieldEvents (x : Named UInt8) : List Event :=
  x.name.pieces.map .header_field ++ x.value.pieces.map .header_value

/-- The calls before the headers are complete. -/
def headEvents (p : Report) : List Event :=
  p.url.pieces.map (.url p.method) ++ p.fields.flatMap fieldEvents

/-- The calls for what comes after the headers, if the parser is not told to skip it. -/
def bodyEvents (p : Report) : List Event :=
  p.body.map .body ++ p.trailer.flatMap fieldEvents

/-- The session after the request has been reported to it. It does not look at the parser when it
answers `on_headers_complete`. -/
def deliver (p : Report) (link : HttpPeerLink) : HttpPeerLink :=
  let (u, answer) := HttpPeerLink.settings.on_headers_complete .init
    (HttpPeerLink.settings.callAll link p.headEvents)
  HttpPeerLink.settings.callAll u
    ((if answer = 0 then p.bodyEvents else []) ++ [.message_complete])

/-- The headers that are reported of a request that is served as one with the method `m`. -/
def told (p : Report) (m : Method) : List (Named UInt8) :=
  if m = .GET then p.fields else p.fields ++ p.trailer

end Report

/-- The body that the handler is given. -/
def Invocation.body : Invocation → Option Bytes
  | .on_get _ _ => none
  | .on_post _ _ body => some body

namespace Report

/-- The handler is given the url, the last header of each name and the body, each put together
from all its pieces. -/
structure Carries (p : Report) (inv : Invocation) : Prop where
  url : inv.url = p.url.whole
  headers : ∀ name x, named (p.told inv.method) name = some x →
    inv.headers name = some x.value.whole
  body : ∀ body, inv.body = some body → body = p.body.flatten

/-- What the handler is invoked with for the request is the request. -/
def Reassembled (p : Report) (link : HttpPeerLink) : Prop :=
  ∀ inv ∈ (p.deliver link).invocations.drop link.invocations.length, p.Carries inv

/-- The method with which the session serves the request. -/
def served (p : Report) (link : HttpPeerLink) : Method :=
  if methodIs (p.method.stored.getD link.pRequest.strMethod) (bytes "GET") then .GET else .POST

theorem served_eq (p : Report) (link : HttpPeerLink) :
    p.served link = .GET ∨ p.served link = .POST := by
  unfold served
  split
  · exact Or.inl rfl
  · exact Or.inr rfl

/-- Of what is reported in pieces the last one is all there is. A header is found under the last
piece of its name, or what was left over from the requests before is. -/
structure InOnePiece (p : Report) (link : HttpPeerLink) : Prop where
  url : LastIsAll [] p.url.pieces
  headers : ∀ name x, named (p.told (p.served link)) name = some x →
    ((filed (p.told (p.served link)) name).map fun y => y.value.last).or
      (link.pRequest.mapHeaders name) = some x.value.whole
  body : p.served link = .POST → LastIsAll link.pRequest.strBody p.body

/-- The parser reports a name in one piece unless the input ends in it. What is asked of the headers
is then that the last piece of each value is all there is. -/
theorem inOnePiece_iff {p : Report} {link : HttpPeerLink}
    (hnames : ∀ x ∈ p.told (p.served link), LastIsAll [] x.name.pieces) :
    p.InOnePiece link ↔ LastIsAll [] p.url.pieces ∧
      (∀ name x, named (p.told (p.served link)) name = some x → LastIsAll [] x.value.pieces) ∧
      (p.served link = .POST → LastIsAll link.pRequest.strBody p.body) := by
  have hheader {name : Bytes} {x : Named UInt8} (hx : named (p.told (p.served link)) name = some x) :
      ((filed (p.told (p.served link)) name).map fun y => y.value.last).or
        (link.pRequest.mapHeaders name) = some x.value.whole ↔ LastIsAll [] x.value.pieces := by
    rw [filed_eq_named hnames, hx, ← x.value.last_eq_whole_iff]
    simp
  constructor
  · intro h
    exact ⟨h.url, fun name x hx => (hheader hx).mp (h.headers name x hx), h.body⟩
  · intro ⟨hurl, hvalues, hbody⟩
    exact ⟨hurl, fun name x hx => (hheader hx).mpr (hvalues name x hx), hbody⟩

end Report

namespace HttpPeerLink

/-! ## What the callbacks keep of the pieces -/

theorem callAll_url (m : Method) (item : Item UInt8) (u : HttpPeerLink) :
    settings.callAll u (item.pieces.map (.url m)) =
      { u with
        pRequest :=
          { u.pRequest with
            strMethod := m.stored.getD u.pRequest.strMethod
            strUrl := item.last } } := by
  rw [← item.replaced_eq u.pRequest.strUrl]
  obtain ⟨pieces, hne⟩ := item
  dsimp only
  induction pieces generalizing u with
  | nil => exact absurd rfl hne
  | cons d ds ih =>
    rw [List.map_cons, Settings.callAll_cons]
    have hcall : settings.call u (.url m d) =
        { u with
          pRequest :=
            { u.pRequest with strMethod := m.stored.getD u.pRequest.strMethod, strUrl := d } } := by
      cases m <;> rfl
    rw [hcall]
    by_cases hds : ds = []
    · rw [hds]
      rfl
    · rw [ih _ hds]
      cases m <;> rfl

theorem callAll_field (pieces : List Bytes) (u : HttpPeerLink) :
    settings.callAll u (pieces.map .header_field) =
      { u with strField := replaced u.strField pieces } := by
  induction pieces generalizing u with
  | nil => rfl
  | cons d ds ih => exact ih (settings.call u (.header_field d))

theorem callAll_value (pieces : List Bytes) (u : HttpPeerLink) :
    settings.callAll u (pieces.map .header_value) =
      { u with
        pRequest :=
          { u.pRequest with
            mapHeaders := stored u.pRequest.mapHeaders (pieces.map fun d => (u.strField, d)) } } := by
  induction pieces generalizing u with
  | nil => rfl
  | cons d ds ih => exact ih (settings.call u (.header_value d))

theorem callAll_body (pieces : List Bytes) (u : HttpPeerLink) :
    settings.callAll u (pieces.map .body) =
      { u with pRequest := { u.pRequest with strBody := replaced u.pRequest.strBody pieces } } := by
  induction pieces generalizing u with
  | nil => rfl
  | cons d ds ih => exact ih (settings.call u (.body d))

theorem callAll_fields (xs : List (Named UInt8)) (u : HttpPeerLink) :
    ∃ field, settings.callAll u (xs.flatMap Report.fieldEvents) =
      { u with
        pRequest :=
          { u.pRequest with
            mapHeaders := stored u.pRequest.mapHeaders (xs.flatMap Named.entries) }
        strField := field } := by
  induction xs generalizing u with
  | nil => exact ⟨u.strField, rfl⟩
  | cons x xs ih =>
    obtain ⟨field, hrest⟩ := ih (settings.callAll u (Report.fieldEvents x))
    refine ⟨field, ?_⟩
    rw [List.flatMap_cons, Settings.callAll_append, hrest, List.flatMap_cons, stored_append,
      Report.fieldEvents, Settings.callAll_append, callAll_field, callAll_value, x.name.replaced_eq]
    rfl

end HttpPeerLink

namespace Report

/-- What the handler is invoked with. -/
structure Passed (p : Report) (link : HttpPeerLink) (inv : Invocation) : Prop where
  invocations : (p.deliver link).invocations = link.invocations ++ [inv]
  method : inv.method = p.served link
  url : inv.url = p.url.last
  headers : inv.headers =
    stored link.pRequest.mapHeaders ((p.told (p.served link)).flatMap Named.entries)
  body : inv.body =
    if p.served link = .GET then none else some (replaced link.pRequest.strBody p.body)

/-- The session when the headers are complete. -/
theorem callAll_headEvents (p : Report) (link : HttpPeerLink) :
    ∃ field, HttpPeerLink.settings.callAll link p.headEvents =
      { link with
        pRequest :=
          { link.pRequest with
            strMethod := p.method.stored.getD link.pRequest.strMethod
            strUrl := p.url.last
            mapHeaders := stored link.pRequest.mapHeaders (p.fields.flatMap Named.entries) }
        strField := field } := by
  obtain ⟨field, hfields⟩ := HttpPeerLink.callAll_fields p.fields
    (HttpPeerLink.settings.callAll link (p.url.pieces.map (.url p.method)))
  refine ⟨field, ?_⟩
  rw [headEvents, Settings.callAll_append, hfields, HttpPeerLink.callAll_url]

theorem callAll_bodyEvents (p : Report) (link : HttpPeerLink) :
    ∃ field, HttpPeerLink.settings.callAll link p.bodyEvents =
      { link with
        pRequest :=
          { link.pRequest with
            mapHeaders := stored link.pRequest.mapHeaders (p.trailer.flatMap Named.entries)
            strBody := replaced link.pRequest.strBody p.body }
        strField := field } := by
  obtain ⟨field, hfields⟩ := HttpPeerLink.callAll_fields p.trailer
    (HttpPeerLink.settings.callAll link (p.body.map .body))
  refine ⟨field, ?_⟩
  rw [bodyEvents, Settings.callAll_append, hfields, HttpPeerLink.callAll_body]

/-- What `on_header_complete` answers decides which calls follow. -/
theorem deliver_eq (p : Report) {link u : HttpPeerLink} {get : Bool}
    (hu : HttpPeerLink.settings.callAll link p.headEvents = u)
    (hget : methodIs u.pRequest.strMethod (bytes "GET") = get) :
    p.deliver link = HttpPeerLink.settings.callAll u
      ((if get then [] else p.bodyEvents) ++ [.message_complete]) := by
  have hanswer : HttpPeerLink.settings.on_headers_complete .init u =
      (u, if get then 1 else 0) := by
    rw [← hget]
    rfl
  rw [deliver, hu, hanswer]
  cases get <;> rfl

theorem exists_passed (p : Report) {link : HttpPeerLink} (hlink : link.Known) :
    ∃ inv, p.Passed link inv := by
  obtain ⟨field, hhead⟩ := p.callAll_headEvents link
  have hknown := Execution.callAll_keeps HttpPeerLink.known_call hlink p.headEvents
  generalize hu : HttpPeerLink.settings.callAll link p.headEvents = u at hhead hknown
  have hserved : p.served link =
      if methodIs u.pRequest.strMethod (bytes "GET") then .GET else .POST := by
    rw [hhead]
    rfl
  cases hget : methodIs u.pRequest.strMethod (bytes "GET") with
  | true =>
    -- a stored `GET` has no body read for it
    replace hserved : p.served link = .GET := hserved.trans (if_pos hget)
    refine ⟨.on_get u.pRequest.strUrl u.pRequest.mapHeaders, ?_, hserved.symm, ?_, ?_, ?_⟩
    · rw [p.deliver_eq hu hget]
      show u.invocations ++ u.invocation.toList = _
      rw [HttpPeerLink.invocation, if_pos hget, hhead]
      rfl
    · rw [hhead]
      rfl
    · rw [hserved, hhead]
      rfl
    · rw [if_pos hserved]
      rfl
  | false =>
    replace hserved : p.served link = .POST := by
      rw [hserved, hget]
      rfl
    -- any other method that is stored is taken for `POST`
    obtain ⟨field', hbody⟩ := p.callAll_bodyEvents u
    have hknown' := Execution.callAll_keeps HttpPeerLink.known_call hknown p.bodyEvents
    have hget' : methodIs (HttpPeerLink.settings.callAll u p.bodyEvents).pRequest.strMethod
        (bytes "GET") = false := by
      rw [hbody]
      exact hget
    have hinv := HttpPeerLink.invocation_of_known hknown' hget'
    generalize hv : HttpPeerLink.settings.callAll u p.bodyEvents = v at hbody hinv
    refine ⟨.on_post v.pRequest.strUrl v.pRequest.mapHeaders v.pRequest.strBody, ?_,
      hserved.symm, ?_, ?_, ?_⟩
    · rw [p.deliver_eq hu hget, Settings.callAll_append]
      show (HttpPeerLink.settings.callAll u p.bodyEvents).invocations ++
        (HttpPeerLink.settings.callAll u p.bodyEvents).invocation.toList = _
      rw [hv, hinv, hbody, hhead]
      rfl
    · rw [hbody, hhead]
      rfl
    · rw [hserved, hbody, hhead]
      show stored (stored _ _) _ = stored _ (List.flatMap _ (p.fields ++ p.trailer))
      rw [List.flatMap_append, stored_append]
    · rw [if_neg (by rw [hserved]; decide), hbody, hhead]
      rfl

/-- What the handler is invoked with is the request in full if and only if of each item the last
piece is all there is. -/
theorem Passed.carries_iff {p : Report} {link : HttpPeerLink} {inv : Invocation}
    (h : p.Passed link inv) : p.Carries inv ↔ p.InOnePiece link := by
  have hurl : inv.url = p.url.whole ↔ LastIsAll [] p.url.pieces := by
    rw [h.url]
    exact p.url.last_eq_whole_iff
  have hheader (name : Bytes) : inv.headers name =
      ((filed (p.told (p.served link)) name).map fun y => y.value.last).or
        (link.pRequest.mapHeaders name) := by
    rw [h.headers, stored_apply]
  have hbody : (∀ body, inv.body = some body → body = p.body.flatten) ↔
      (p.served link = .POST → LastIsAll link.pRequest.strBody p.body) := by
    rw [h.body, ← replaced_eq_flatten_iff]
    rcases p.served_eq link with hserved | hserved <;> simp [hserved]
  constructor
  · intro hcarries
    refine ⟨hurl.mp hcarries.url, fun name x hx => ?_, hbody.mp hcarries.body⟩
    rw [← hheader]
    exact hcarries.headers name x (by rw [h.method]; exact hx)
  · intro hpiece
    refine ⟨hurl.mpr hpiece.url, fun name x hx => ?_, hbody.mpr hpiece.body⟩
    rw [hheader]
    exact hpiece.headers name x (by rw [← h.method]; exact hx)

/-- **Reassembly.** The handler is given every item of a request in full, whatever calls have been
made before, if and only if of each item the last piece is all there is. -/
theorem reassembled_iff (before : List Event) (p : Report) :
    p.Reassembled (HttpPeerLink.settings.callAll .new before) ↔
      p.InOnePiece (HttpPeerLink.settings.callAll .new before) := by
  have hlink := Execution.callAll_keeps HttpPeerLink.known_call
    (show HttpPeerLink.new.Known from Or.inl rfl) before
  generalize HttpPeerLink.settings.callAll .new before = link at hlink
  obtain ⟨inv, hpassed⟩ := p.exists_passed hlink
  have hreassembled : p.Reassembled link ↔ p.Carries inv := by
    rw [Reassembled, hpassed.invocations, List.drop_left]
    simp
  rw [hreassembled]
  exact hpassed.carries_iff

/-- A `POST` whose body comes in two chunks. -/
def chunkedBytes : Bytes :=
  bytes "POST /a HTTP/1.1\r\nTransfer-Encoding: chunked\r\n\r\n3\r\nabc\r\n2\r\nde\r\n0\r\n\r\n"

/-- What the parser reports of it. -/
def chunked : Report where
  method := .POST
  url := ⟨[bytes "/a"], by simp⟩
  fields := [⟨⟨[bytes "Transfer-Encoding"], by simp⟩, ⟨[bytes "chunked"], by simp⟩⟩]
  body := [bytes "abc", bytes "de"]
  trailer := []

/-- The handler is given the second chunk only. -/
theorem not_reassembled_chunked :
    (¬∀ (before : List Event) (p : Report),
      p.Reassembled (HttpPeerLink.settings.callAll .new before)) ∧
    (HttpPeerLink.new.on_data chunkedBytes).invocations.map Invocation.body =
      [some (bytes "de")] := by
  refine ⟨fun hall => ?_, by decide +kernel⟩
  have hinv : (chunked.deliver .new).invocations.drop 0 =
      [.on_post (bytes "/a") (chunked.deliver .new).pRequest.mapHeaders (bytes "de")] := rfl
  have hcarries := hall [] chunked _ (by
    show _ ∈ (chunked.deliver .new).invocations.drop 0
    rw [hinv]
    exact List.mem_singleton_self _)
  have hbody := hcarries.body (bytes "de") rfl
  revert hbody
  decide

end Report
end SomoNet
