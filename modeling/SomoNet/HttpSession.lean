import SomoNet.Http.Execute

/-!
# `HttpPeerLink`

A session of the HTTP server: the request that its callbacks collect, and the handler
invocations that it makes. What it does with a handler's result, sending it and closing the
link, does not end the parse that is going on.
-/

namespace SomoNet

open Http

/-- A call of the `ISNHttpServerHandler`. -/
inductive Invocation
  | on_get (url : Bytes) (headers : Bytes → Option Bytes)
  | on_post (url : Bytes) (headers : Bytes → Option Bytes) (body : Bytes)

def Invocation.url : Invocation → Bytes
  | on_get url _ => url
  | on_post url _ _ => url

def Invocation.headers : Invocation → Bytes → Option Bytes
  | on_get _ headers => headers
  | on_post _ headers _ => headers

/-- `HttpPeerLink`, with a handler. Its parser is initialised by every `on_data`, so that
nothing of it is kept. -/
structure HttpPeerLink where
  pRequest : HttpRequest
  strField : Bytes
  /-- The handler invocations made so far. -/
  invocations : List Invocation

/-- `strncmp(method.c_str(), word, method.size()) == 0`, as `on_header_complete` and
`on_complete` compare the stored method. -/
def methodIs (method word : Bytes) : Bool := strncmpEq method word method.length

namespace HttpPeerLink

/-- `HttpPeerLink::HttpPeerLink` -/
def new : HttpPeerLink := ⟨.new, [], []⟩

/-- `HttpPeerLink::on_url` -/
def on_url (method : Method) (data : Bytes) (link : HttpPeerLink) : HttpPeerLink :=
  let req := link.pRequest.set_url data
  { link with
    pRequest :=
      match method with
      | .GET => req.set_method (bytes "GET")
      | .POST => req.set_method (bytes "POST")
      | _ => req }

/-- `HttpPeerLink::on_header_field` -/
def on_header_field (data : Bytes) (link : HttpPeerLink) : HttpPeerLink :=
  { link with strField := data }

/-- `HttpPeerLink::on_header_value` -/
def on_header_value (data : Bytes) (link : HttpPeerLink) : HttpPeerLink :=
  { link with pRequest := link.pRequest.add_header link.strField data }

/-- `HttpPeerLink::on_header_complete` -/
def on_header_complete (_ : Parser) (link : HttpPeerLink) : HttpPeerLink × ℤ :=
  (link, if methodIs link.pRequest.strMethod (bytes "GET") then 1 else 0)

/-- `HttpPeerLink::on_body` -/
def on_body (data : Bytes) (link : HttpPeerLink) : HttpPeerLink :=
  { link with pRequest := link.pRequest.set_body data }

/-- The handler invocation that `HttpPeerLink::on_complete` makes, if any. -/
def invocation (link : HttpPeerLink) : Option Invocation :=
  let req := link.pRequest
  if methodIs req.strMethod (bytes "GET") then some (.on_get req.strUrl req.mapHeaders)
  else if methodIs req.strMethod (bytes "POST") then
    some (.on_post req.strUrl req.mapHeaders req.strBody)
  else none

/-- `HttpPeerLink::on_complete` -/
def on_complete (link : HttpPeerLink) : HttpPeerLink :=
  { link with invocations := link.invocations ++ link.invocation.toList }

/-- The callbacks that the constructor wires to the parser. All but `on_header_complete` are
declared `int` and end without a `return`; they are taken to return 0. -/
def settings : Settings HttpPeerLink where
  on_url := on_url
  on_header_field := on_header_field
  on_header_value := on_header_value
  on_headers_complete := on_header_complete
  on_body := on_body
  on_message_complete := on_complete

/-- `HttpPeerLink::on_data` -/
def on_data (link : HttpPeerLink) (data : Bytes) : HttpPeerLink :=
  (execute settings .init link data).2

/-- The segments of a connection, one after the other. -/
def on_segments (link : HttpPeerLink) (segs : List Bytes) : HttpPeerLink :=
  segs.foldl on_data link

end HttpPeerLink
end SomoNet
