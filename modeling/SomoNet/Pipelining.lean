import SomoNet.Lib.Pieces
import SomoNet.Http.Messages
import SomoNet.HttpSession

/-!
# Requests to the HTTP server

What the handler is told of requests that a client sends, as many of them in a segment as it
likes. The session keeps one `HttpRequest` and never clears it, so that what a request does not
say is left over from the requests before. Of a body that is reported in pieces it keeps the last
one: the handler is told the body that was sent if that is all in one piece.
-/

namespace SomoNet

open Http Pieces

namespace Http

/-- The pieces in which a body is reported. -/
def Body.pieces : Body → List Bytes
  | none => []
  | sized b => if b.data = [] then [] else [b.data]
  | chunked b => b.chunks.map Chunk.data

theorem Body.calls_eq (b : Body) :
    b.calls = b.pieces.map .body ++ b.trailer.flatMap HeaderLine.calls := by
  cases b with
  | none => rfl
  | sized b =>
    simp only [calls, pieces, trailer, List.flatMap_nil, List.append_nil]
    split <;> rfl
  | chunked b =>
    simp only [calls, pieces, trailer, List.map_map]
    rfl

namespace RequestText

/-- A request that the server has a callback for, with a body only where it reads one. -/
def Served (r : RequestText) : Prop := r.method = .GET ∧ r.body = .none ∨ r.method = .POST

/-- What is put into the map of headers. -/
def entries (r : RequestText) : List (Bytes × Bytes) :=
  (r.headers ++ r.body.trailer).map fun l => (l.name, l.value)

/-- The request as the session holds it at its end, from what it held before. -/
def collected (r : RequestText) (req : HttpRequest) : HttpRequest where
  strMethod := r.method.str
  strUrl := r.url
  mapHeaders := stored req.mapHeaders r.entries
  strBody := replaced req.strBody r.body.pieces

/-- What the handler is told of the request: of the body, the last piece that was reported. -/
def told (r : RequestText) (req : HttpRequest) : Invocation :=
  if r.method = .GET then .on_get r.url (stored req.mapHeaders r.entries)
  else .on_post r.url (stored req.mapHeaders r.entries) (replaced req.strBody r.body.pieces)

/-- The request as it was sent, with the headers of those before. -/
def sent (r : RequestText) (headers : Bytes → Option Bytes) : Invocation :=
  if r.method = .GET then .on_get r.url (stored headers r.entries)
  else .on_post r.url (stored headers r.entries) r.body.pieces.flatten

/-- A body that a handler is told of is reported in one piece. -/
def OnePiece (r : RequestText) : Prop := r.method = .POST → ∃ data, r.body.pieces = [data]

theorem told_eq_sent {r : RequestText} (hserved : r.Served) (hone : r.OnePiece)
    (req : HttpRequest) : r.told req = r.sent req.mapHeaders := by
  unfold told sent
  rcases hserved with ⟨hget, -⟩ | hpost
  · rw [if_pos hget, if_pos hget]
  · obtain ⟨data, hpieces⟩ := hone hpost
    rw [hpieces, List.flatten_singleton]
    rfl

end RequestText
end Http

/-- What the handler is told of requests, one after the other. -/
def toldAll : HttpRequest → List RequestText → List Invocation
  | _, [] => []
  | req, r :: rs => r.told req :: toldAll (r.collected req) rs

theorem toldAll_append (req : HttpRequest) (rs rs' : List RequestText) :
    toldAll req (rs ++ rs') =
      toldAll req rs ++ toldAll (rs.foldl (fun req r => r.collected req) req) rs' := by
  induction rs generalizing req with
  | nil => rfl
  | cons r rs ih =>
    show r.told req :: toldAll (r.collected req) (rs ++ rs') = _
    rw [ih]
    rfl

/-- The requests as they were sent, one after the other. -/
def sentAll : (Bytes → Option Bytes) → List RequestText → List Invocation
  | _, [] => []
  | headers, r :: rs => r.sent headers :: sentAll (stored headers r.entries) rs

/-- Where every body is reported in one piece, the handler is told what was sent. -/
theorem toldAll_eq_sentAll (req : HttpRequest) {rs : List RequestText}
    (hserved : ∀ r ∈ rs, r.Served) (hone : ∀ r ∈ rs, r.OnePiece) :
    toldAll req rs = sentAll req.mapHeaders rs := by
  induction rs generalizing req with
  | nil => rfl
  | cons r rs ih =>
    have hrest := ih (r.collected req) (fun r' h => hserved r' (List.mem_cons_of_mem r h))
      fun r' h => hone r' (List.mem_cons_of_mem r h)
    have hfirst := RequestText.told_eq_sent (hserved r List.mem_cons_self)
      (hone r List.mem_cons_self) req
    show r.told req :: toldAll (r.collected req) rs = r.sent req.mapHeaders :: _
    rw [hfirst, hrest]
    rfl

namespace HttpPeerLink

variable (link : HttpPeerLink)

/-- The headers that are reported are put into the map. -/
theorem callAll_headers (lines : List HeaderLine) :
    ∃ field, settings.callAll link (lines.flatMap HeaderLine.calls) =
      { link with
        pRequest := { link.pRequest with
          mapHeaders := stored link.pRequest.mapHeaders (lines.map fun l => (l.name, l.value)) }
        strField := field } := by
  induction lines generalizing link with
  | nil => exact ⟨link.strField, rfl⟩
  | cons l lines ih =>
    rw [List.flatMap_cons, Settings.callAll_append]
    obtain ⟨field, heq⟩ := ih (settings.callAll link l.calls)
    exact ⟨field, heq⟩

/-- Of the pieces of a body the last one is kept. -/
theorem callAll_pieces (pieces : List Bytes) :
    settings.callAll link (pieces.map .body) =
      { link with
        pRequest := { link.pRequest with strBody := replaced link.pRequest.strBody pieces } } := by
  induction pieces generalizing link with
  | nil => rfl
  | cons d pieces ih =>
    rw [List.map_cons, Settings.callAll_cons, ih]
    rfl

/-- The method and the url are those of the request. -/
theorem call_url_served {r : RequestText} (hr : r.Served) :
    settings.call link (.url r.method r.url) =
      { link with
        pRequest := { link.pRequest with strMethod := r.method.str, strUrl := r.url } } := by
  rcases hr with ⟨hm, -⟩ | hm <;> rw [hm] <;> rfl

/-- The headers of a request. -/
theorem callAll_headCalls {r : RequestText} (hr : r.Served) :
    ∃ field, settings.callAll link r.headCalls =
      { link with
        pRequest := { link.pRequest with
          strMethod := r.method.str
          strUrl := r.url
          mapHeaders :=
            stored link.pRequest.mapHeaders (r.headers.map fun l => (l.name, l.value)) }
        strField := field } := by
  obtain ⟨field, heq⟩ := callAll_headers { link with
    pRequest := { link.pRequest with strMethod := r.method.str, strUrl := r.url } } r.headers
  refine ⟨field, ?_⟩
  unfold RequestText.headCalls
  rw [Settings.callAll_cons, call_url_served link hr]
  exact heq

/-- The session reads the bodies of the requests that it serves. -/
theorem hears {r : RequestText} (hr : r.Served) : settings.Hears link r := by
  obtain ⟨field, heq⟩ := callAll_headCalls link hr
  rw [Settings.Hears, heq]
  rcases hr with ⟨hm, hbody⟩ | hm
  · refine ⟨1, Or.inr ⟨rfl, hbody⟩, fun p => ?_⟩
    rw [hm]
    rfl
  · refine ⟨0, Or.inl rfl, fun p => ?_⟩
    rw [hm]
    rfl

/-- A request that is reported is told to the handler. -/
theorem callAll_request {r : RequestText} (hr : r.Served) :
    (settings.callAll link r.calls).pRequest = r.collected link.pRequest ∧
      (settings.callAll link r.calls).invocations =
        link.invocations ++ [r.told link.pRequest] := by
  unfold RequestText.calls
  rw [Body.calls_eq, Settings.callAll_append, Settings.callAll_append, Settings.callAll_append]
  obtain ⟨field, hhead⟩ := callAll_headCalls link hr
  rw [hhead, callAll_pieces]
  generalize hlink : HttpPeerLink.mk _ field link.invocations = link'
  obtain ⟨field', htrailer⟩ := callAll_headers link' r.body.trailer
  rw [htrailer]
  subst hlink
  -- the trailer is stored over the headers
  have hmap : stored link.pRequest.mapHeaders r.entries =
      stored (stored link.pRequest.mapHeaders (r.headers.map fun l => (l.name, l.value)))
        (r.body.trailer.map fun l => (l.name, l.value)) := by
    unfold RequestText.entries
    rw [List.map_append, stored_append]
  refine ⟨?_, ?_⟩
  · unfold RequestText.collected
    rw [hmap]
    rfl
  · show link.invocations ++ Option.toList (invocation _) = _
    unfold RequestText.told
    rw [hmap]
    rcases hr with ⟨hm, -⟩ | hm <;> rw [hm] <;> rfl

theorem hearsAll {rs : List RequestText} (hrs : ∀ r ∈ rs, r.Served) : settings.HearsAll link rs := by
  induction rs generalizing link with
  | nil => trivial
  | cons r rs ih =>
    exact ⟨hears link (hrs r List.mem_cons_self),
      ih _ fun r' hr' => hrs r' (List.mem_cons_of_mem r hr')⟩

theorem callAll_requests {rs : List RequestText} (hrs : ∀ r ∈ rs, r.Served) :
    (settings.callAll link (rs.flatMap RequestText.calls)).pRequest =
        rs.foldl (fun req r => r.collected req) link.pRequest ∧
      (settings.callAll link (rs.flatMap RequestText.calls)).invocations =
        link.invocations ++ toldAll link.pRequest rs := by
  induction rs generalizing link with
  | nil => exact ⟨rfl, (List.append_nil _).symm⟩
  | cons r rs ih =>
    obtain ⟨hreq, hinv⟩ := callAll_request link (hrs r List.mem_cons_self)
    obtain ⟨hreq', hinv'⟩ := ih (settings.callAll link r.calls)
      fun r' hr' => hrs r' (List.mem_cons_of_mem r hr')
    rw [List.flatMap_cons, Settings.callAll_append]
    refine ⟨?_, ?_⟩
    · rw [hreq', hreq]
      rfl
    · rw [hinv', hinv, hreq, List.append_assoc]
      rfl

theorem on_segments_toldAll {groups : List (List RequestText)} (hne : ∀ rs ∈ groups, rs ≠ [])
    (hfits : ∀ rs ∈ groups, FitAll 0 rs)
    (hpersist : ∀ rs ∈ groups, ∀ r ∈ rs.dropLast, r.Persistent)
    (hserved : ∀ rs ∈ groups, ∀ r ∈ rs, r.Served) :
    (link.on_segments (groups.map stream)).invocations =
      link.invocations ++ toldAll link.pRequest groups.flatten := by
  induction groups generalizing link with
  | nil => exact (List.append_nil _).symm
  | cons rs groups ih =>
    have hmem := List.mem_cons_self (a := rs) (l := groups)
    have hdata : link.on_data (stream rs) =
        settings.callAll link (rs.flatMap RequestText.calls) :=
      execute_stream (hne rs hmem) rfl rfl (hfits rs hmem) (hpersist rs hmem)
        (hearsAll link (hserved rs hmem))
    obtain ⟨hreq, hinv⟩ := callAll_requests link (hserved rs hmem)
    have hrest := ih (link.on_data (stream rs)) (fun rs' h => hne rs' (List.mem_cons_of_mem rs h))
      (fun rs' h => hfits rs' (List.mem_cons_of_mem rs h))
      (fun rs' h => hpersist rs' (List.mem_cons_of_mem rs h))
      (fun rs' h => hserved rs' (List.mem_cons_of_mem rs h))
    show ((link.on_data (stream rs)).on_segments (groups.map stream)).invocations = _
    rw [hrest, hdata, hinv, hreq, List.flatten_cons, toldAll_append, List.append_assoc]

end HttpPeerLink
end SomoNet
