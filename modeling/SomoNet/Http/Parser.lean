import SomoNet.Http.Syntax

/-!
# The bundled HTTP parser: one byte

`sn_http_parser_execute` is a loop over the bytes around a switch over the state. Here one
turn of the loop is the function `feed` of what the loop carries from byte to byte
(`Exec`), with one definition for each arm of the switch; `REEXECUTE()` is a call of the
next arm.

* A mark is the data that it has run over so far.
* Two arms have loops of their own, over the bytes of a header field and of a header value.
  `Exec.run` counts the bytes that such a loop has taken, which `nread` learns of only when
  it ends.
* `nread` is a `uint32_t`, and what is added to it is truncated to one. Here it is not: as long as
  every call is shorter than `2^32 - max_header_size` bytes, nothing wraps around (`countFits`).
  What a link gives to `on_data` is shorter than `2^31`.
* A callback is an `Event`. The callbacks are taken to return 0, but for
  `on_headers_complete`, whose answer the parser waits for in `Step.ask`.
* `parser->lenient_http_headers` is 0.
-/

namespace SomoNet
namespace Http

/-- `HTTP_MAX_HEADER_SIZE` -/
def max_header_size : ℕ := 80 * 1024

/-- `ULLONG_MAX`: no content length is known. -/
def ULLONG_MAX : ℕ := 18446744073709551615

/-- `struct http_parser` -/
structure Parser where
  state : State
  header_state : HeaderState
  /-- `flags` and `extra_flags` -/
  flags : Flags
  /-- Position in the current matcher, never above the length of the longest word. -/
  index : ℕ
  /-- Bytes of the head read so far, a `uint32_t` in the source. -/
  nread : ℕ
  content_length : ℕ
  http_major : ℕ
  http_minor : ℕ
  method : Method
  http_errno : Option Errno
  upgrade : Bool
  deriving DecidableEq

/-- `sn_http_parser_init(parser, HTTP_REQUEST)` -/
def Parser.init : Parser where
  state := .s_start_req
  header_state := .h_general
  flags := {}
  index := 0
  nread := 0
  content_length := 0
  http_major := 0
  http_minor := 0
  method := .DELETE
  http_errno := none
  upgrade := false

/-- `SET_ERRNO` -/
def Parser.fail (p : Parser) (err : Errno) : Parser := { p with http_errno := some err }

/-- `sn_http_should_keep_alive`; a request never needs an end of file. -/
def Parser.should_keep_alive (p : Parser) : Bool :=
  if p.http_major > 0 ∧ p.http_minor > 0 then !p.flags.F_CONNECTION_CLOSE
  else p.flags.F_CONNECTION_KEEP_ALIVE

/-- `NEW_MESSAGE()` -/
def Parser.new_message (p : Parser) : State :=
  if p.should_keep_alive then .s_start_req else .s_dead

/-- The callbacks that report data. -/
inductive Mark
  | header_field | header_value | url | body
  deriving DecidableEq

/-- A call of a callback, with what the program's callbacks read. -/
inductive Event
  | url (method : Method) (data : Bytes)
  | header_field (data : Bytes)
  | header_value (data : Bytes)
  | body (data : Bytes)
  | message_complete
  deriving DecidableEq

def Mark.call (p : Parser) : Mark → Bytes → Event
  | .header_field, d => .header_field d
  | .header_value, d => .header_value d
  | .url, d => .url p.method d
  | .body, d => .body d

/-- What `sn_http_parser_execute` carries from one byte to the next. -/
structure Exec where
  parser : Parser
  /-- The mark that is set, with the data since. -/
  mark : Option (Mark × Bytes)
  /-- Bytes taken by the current loop over a header field or value, `p - start`. -/
  run : ℕ
  /-- Bytes taken by the inner loop over a value of no interest, at most `max_header_size`
  at a time. -/
  general : ℕ
  deriving DecidableEq

/-- How a byte ends. -/
inductive Step
  /-- The byte is consumed. -/
  | next (calls : List Event) (e : Exec)
  /-- `sn_http_parser_execute` returns, on an error or because the protocol changes. -/
  | stop (calls : List Event) (p : Parser)
  /-- `on_headers_complete` is called, and decides how to go on with the byte. -/
  | ask (calls : List Event) (e : Exec)

namespace Step

/-- Calls that were made before the step. -/
def after (cs : List Event) : Step → Step
  | next cs' e => next (cs ++ cs') e
  | stop cs' p => stop (cs ++ cs') p
  | ask cs' e => ask (cs ++ cs') e

end Step

namespace Exec

def fail (e : Exec) (err : Errno) : Step := .stop [] (e.parser.fail err)

/-- An arm of the switch that neither calls back nor sets a mark. -/
def lift (e : Exec) : Except Errno Parser → Step
  | .ok p => .next [] { e with parser := p }
  | .error err => e.fail err

/-- `MARK(FOR)`, where no other mark is set. -/
def setMark (e : Exec) (m : Mark) : Exec :=
  match e.mark with
  | none => { e with mark := some (m, []) }
  | some _ => e

/-- The call that `CALLBACK_DATA` makes for the mark `m`, if it is set. -/
def calls (e : Exec) (m : Mark) : List Event :=
  match e.mark with
  | some (m', d) => if m' = m then [m.call e.parser d] else []
  | none => []

def clearMark (e : Exec) : Exec := { e with mark := none }

/-- The byte goes by: it belongs to the data of the mark that is set. -/
def consume (e : Exec) (ch : UInt8) : Exec :=
  { e with mark := e.mark.map fun md => (md.1, md.2 ++ [ch]) }

end Exec

/-! ## The request line -/

/-- `case s_start_req` -/
def start_req (p : Parser) (ch : UInt8) : Except Errno Parser :=
  if isCRLF ch then .ok p
  else if ¬isAlpha ch then .error .HPE_INVALID_METHOD
  else
    match Method.ofFirst ch with
    | none => .error .HPE_INVALID_METHOD
    | some m =>
      .ok { p with flags := {}, content_length := ULLONG_MAX, method := m, index := 1,
                   state := .s_req_method }

/-- `case s_req_method` -/
def req_method (p : Parser) (ch : UInt8) : Except Errno Parser :=
  let matcher := p.method.str
  if ch = 0 then .error .HPE_INVALID_METHOD
  else if ch = SP ∧ matcher.getD p.index 0 = 0 then
    .ok { p with state := .s_req_spaces_before_url, index := p.index + 1 }
  else if ch = matcher.getD p.index 0 then .ok { p with index := p.index + 1 }
  else if (chr 'A' ≤ ch ∧ ch ≤ chr 'Z') ∨ ch = chr '-' then
    match p.method.switch p.index ch with
    | some m => .ok { p with method := m, index := p.index + 1 }
    | none => .error .HPE_INVALID_METHOD
  else .error .HPE_INVALID_METHOD

/-- The state after one more byte of the url. -/
def url_char (p : Parser) (s : State) (ch : UInt8) : Except Errno Parser :=
  if parse_url_char s ch = .s_dead then .error .HPE_INVALID_URL
  else .ok { p with state := parse_url_char s ch }

/-- `case s_req_spaces_before_url` -/
def req_spaces_before_url (e : Exec) (ch : UInt8) : Step :=
  if ch = SP then .next [] e
  else
    (e.setMark .url).lift
      (url_char e.parser
        (if e.parser.method = .CONNECT then .s_req_server_start else .s_req_spaces_before_url) ch)

/-- `case s_req_schema` and the states after it in which the url cannot end -/
def req_schema (e : Exec) (ch : UInt8) : Step :=
  if ch = SP ∨ ch = CR ∨ ch = LF then e.fail .HPE_INVALID_URL
  else e.lift (url_char e.parser e.parser.state ch)

/-- `case s_req_server` and the states after it in which the url can end -/
def req_url (e : Exec) (ch : UInt8) : Step :=
  if ch = SP then
    .next (e.calls .url) { e.clearMark with parser := { e.parser with state := .s_req_http_start } }
  else if ch = CR ∨ ch = LF then
    .next (e.calls .url)
      { e.clearMark with
        parser := { e.parser with
          http_major := 0, http_minor := 9,
          state := if ch = CR then .s_req_line_almost_done else .s_header_field_start } }
  else e.lift (url_char e.parser e.parser.state ch)

/-- `case s_req_http_start` -/
def req_http_start (p : Parser) (ch : UInt8) : Except Errno Parser :=
  if ch = SP then .ok p
  else if ch = chr 'H' then .ok { p with state := .s_req_http_H }
  else if ch = chr 'I' ∧ p.method = .SOURCE then .ok { p with state := .s_req_http_I }
  else .error .HPE_INVALID_CONSTANT

/-- `STRICT_CHECK(ch != c); UPDATE_STATE(s)` -/
def expect (c : UInt8) (s : State) (p : Parser) (ch : UInt8) : Except Errno Parser :=
  if ch ≠ c then .error .HPE_STRICT else .ok { p with state := s }

/-- `case s_req_http_major` -/
def req_http_major (p : Parser) (ch : UInt8) : Except Errno Parser :=
  if ¬isNum ch then .error .HPE_INVALID_VERSION
  else .ok { p with http_major := digit ch, state := .s_req_http_dot }

/-- `case s_req_http_dot` -/
def req_http_dot (p : Parser) (ch : UInt8) : Except Errno Parser :=
  if ch ≠ chr '.' then .error .HPE_INVALID_VERSION
  else .ok { p with state := .s_req_http_minor }

/-- `case s_req_http_minor` -/
def req_http_minor (p : Parser) (ch : UInt8) : Except Errno Parser :=
  if ¬isNum ch then .error .HPE_INVALID_VERSION
  else .ok { p with http_minor := digit ch, state := .s_req_http_end }

/-- `case s_req_http_end` -/
def req_http_end (p : Parser) (ch : UInt8) : Except Errno Parser :=
  if ch = CR then .ok { p with state := .s_req_line_almost_done }
  else if ch = LF then .ok { p with state := .s_header_field_start }
  else .error .HPE_INVALID_VERSION

/-- `case s_req_line_almost_done` -/
def req_line_almost_done (p : Parser) (ch : UInt8) : Except Errno Parser :=
  if ch ≠ LF then .error .HPE_LF_EXPECTED else .ok { p with state := .s_header_field_start }

/-! ## The end of a message -/

/-- What the arms that can end a message leave behind. -/
structure Ending where
  parser : Parser
  /-- Whether `on_message_complete` was called. -/
  complete : Bool
  /-- Whether `sn_http_parser_execute` returns. -/
  stop : Bool

def Ending.calls (x : Ending) : List Event := if x.complete then [.message_complete] else []

def Exec.ending (e : Exec) (x : Ending) : Step :=
  if x.stop then .stop x.calls x.parser else .next x.calls { e with parser := x.parser }

/-- `UPDATE_STATE(NEW_MESSAGE()); CALLBACK_NOTIFY(message_complete);` -/
def Parser.complete (p : Parser) (stop : Bool) : Ending :=
  ⟨{ p with state := p.new_message }, true, stop⟩

/-- `case s_message_done` -/
def message_done (p : Parser) : Ending := p.complete p.upgrade

/-- `hasBody` of `case s_headers_done` -/
def Parser.hasBody (p : Parser) : Bool :=
  p.flags.F_CHUNKED || (p.content_length > 0 && p.content_length ≠ ULLONG_MAX)

/-- `case s_headers_done` -/
def headers_done (p : Parser) (ch : UInt8) : Ending :=
  if ch ≠ LF then ⟨p.fail .HPE_STRICT, false, true⟩
  else
    let p := { p with nread := 0 }
    if p.upgrade ∧ (p.method = .CONNECT ∨ p.flags.F_SKIPBODY ∨ ¬p.hasBody) then p.complete true
    else if p.flags.F_SKIPBODY then p.complete false
    else if p.flags.F_CHUNKED then ⟨{ p with state := .s_chunk_size_start }, false, false⟩
    else if p.flags.F_TRANSFER_ENCODING then
      ⟨p.fail .HPE_INVALID_TRANSFER_ENCODING, false, true⟩
    else if p.content_length = 0 then p.complete false
    else if p.content_length ≠ ULLONG_MAX then ⟨{ p with state := .s_body_identity }, false, false⟩
    else p.complete false

/-- The end of `case s_headers_almost_done`, from the answer of `on_headers_complete` on. -/
def headers_complete (answer : ℤ) (p : Parser) (ch : UInt8) : Ending :=
  if answer = 0 then headers_done p ch
  else if answer = 1 then headers_done { p with flags := { p.flags with F_SKIPBODY := true } } ch
  else if answer = 2 then
    headers_done { p with flags := { p.flags with F_SKIPBODY := true }, upgrade := true } ch
  else ⟨p.fail .HPE_CB_headers_complete, false, true⟩

/-- `case s_headers_almost_done`, up to the call of `on_headers_complete` -/
def headers_almost_done (e : Exec) (ch : UInt8) : Step :=
  let p := e.parser
  if ch ≠ LF then e.fail .HPE_STRICT
  else if p.flags.F_TRAILING then e.ending (message_done p)
  else if p.flags.F_TRANSFER_ENCODING ∧ p.flags.F_CONTENTLENGTH then
    e.fail .HPE_UNEXPECTED_CONTENT_LENGTH
  else
    .ask [] { e with
      parser := { p with
        state := .s_headers_done,
        upgrade := (p.flags.F_UPGRADE ∧ p.flags.F_CONNECTION_UPGRADE) ∨ p.method = .CONNECT } }

/-! ## Header fields -/

/-- The header that a first letter makes the parser expect. -/
def HeaderState.ofFirst (c : UInt8) : HeaderState :=
  if c = chr 'c' then .h_C
  else if c = chr 'p' then .h_matching_proxy_connection
  else if c = chr 't' then .h_matching_transfer_encoding
  else if c = chr 'u' then .h_matching_upgrade
  else .h_general

/-- `case s_header_field_start` -/
def header_field_start (e : Exec) (ch : UInt8) : Step :=
  if ch = CR then .next [] { e with parser := { e.parser with state := .s_headers_almost_done } }
  else if ch = LF then
    headers_almost_done { e with parser := { e.parser with state := .s_headers_almost_done } } ch
  else if token ch = 0 then e.fail .HPE_INVALID_HEADER_TOKEN
  else
    .next [] { e.setMark .header_field with
      parser := { e.parser with
        index := 0, state := .s_header_field, header_state := .ofFirst (token ch) } }

/-- One more character of a word that the parser is matching: `matched` at the last one,
`missed` where it differs. -/
def Parser.matchWord (p : Parser) (word : Bytes) (matched missed : HeaderState) (c : UInt8) :
    Parser :=
  let index := p.index + 1
  { p with
    index
    header_state :=
      if index > word.length ∨ c ≠ word.getD index 0 then missed
      else if index = word.length - 1 then matched
      else p.header_state }

/-- The switch of `case s_header_field`, on one character of the field. -/
def header_field_char (p : Parser) (ch : UInt8) : Parser :=
  let c := token ch
  match p.header_state with
  | .h_general => p
  | .h_C =>
    { p with index := p.index + 1, header_state := if c = chr 'o' then .h_CO else .h_general }
  | .h_CO =>
    { p with index := p.index + 1, header_state := if c = chr 'n' then .h_CON else .h_general }
  | .h_CON =>
    { p with
      index := p.index + 1
      header_state :=
        if c = chr 'n' then .h_matching_connection
        else if c = chr 't' then .h_matching_content_length
        else .h_general }
  | .h_matching_connection => p.matchWord (bytes "connection") .h_connection .h_general c
  | .h_matching_proxy_connection =>
    p.matchWord (bytes "proxy-connection") .h_connection .h_general c
  | .h_matching_content_length =>
    p.matchWord (bytes "content-length") .h_content_length .h_general c
  | .h_matching_transfer_encoding =>
    let q := p.matchWord (bytes "transfer-encoding") .h_transfer_encoding .h_general c
    if q.header_state = .h_transfer_encoding then
      { q with flags := { q.flags with F_TRANSFER_ENCODING := true } }
    else q
  | .h_matching_upgrade => p.matchWord (bytes "upgrade") .h_upgrade .h_general c
  | .h_connection | .h_content_length | .h_transfer_encoding | .h_upgrade =>
    if ch ≠ SP then { p with header_state := .h_general } else p
  -- not a state of a field
  | _ => p

/-- `case s_header_field` -/
def header_field (e : Exec) (ch : UInt8) : Step :=
  let p := e.parser
  if token ch ≠ 0 then .next [] { e with parser := header_field_char p ch, run := e.run + 1 }
  else if p.nread + e.run > max_header_size then e.fail .HPE_HEADER_OVERFLOW
  else if ch = chr ':' then
    .next (e.calls .header_field)
      { e.clearMark with
        parser := { p with nread := p.nread + e.run, state := .s_header_value_discard_ws }
        run := 0 }
  else e.fail .HPE_INVALID_HEADER_TOKEN

/-! ## Header values -/

/-- The switch of `case s_header_value_start`, on the first character of a value. -/
def header_value_first (p : Parser) (ch : UInt8) : Except Errno Parser :=
  let c := lower ch
  let p := { p with state := .s_header_value, index := 0 }
  match p.header_state with
  | .h_upgrade =>
    .ok { p with flags := { p.flags with F_UPGRADE := true }, header_state := .h_general }
  | .h_transfer_encoding =>
    .ok { p with
      header_state :=
        if c = chr 'c' then .h_matching_transfer_encoding_chunked
        else .h_matching_transfer_encoding_token }
  | .h_matching_transfer_encoding_token_start => .ok p
  | .h_content_length =>
    if ¬isNum ch then .error .HPE_INVALID_CONTENT_LENGTH
    else if p.flags.F_CONTENTLENGTH then .error .HPE_UNEXPECTED_CONTENT_LENGTH
    else
      .ok { p with
        flags := { p.flags with F_CONTENTLENGTH := true }
        content_length := digit ch
        header_state := .h_content_length_num }
  | .h_content_length_ws => .ok p
  | .h_connection =>
    .ok { p with
      header_state :=
        if c = chr 'k' then .h_matching_connection_keep_alive
        else if c = chr 'c' then .h_matching_connection_close
        else if c = chr 'u' then .h_matching_connection_upgrade
        else .h_matching_connection_token }
  | .h_matching_connection_token_start => .ok p
  | _ => .ok { p with header_state := .h_general }

/-- `case s_header_value_start` -/
def header_value_start (e : Exec) (ch : UInt8) : Step :=
  (e.setMark .header_value).lift (header_value_first e.parser ch)

/-- `case s_header_value_discard_ws` -/
def header_value_discard_ws (e : Exec) (ch : UInt8) : Step :=
  if ch = SP ∨ ch = HT then .next [] e
  else if ch = CR then
    .next [] { e with parser := { e.parser with state := .s_header_value_discard_ws_almost_done } }
  else if ch = LF then
    .next [] { e with parser := { e.parser with state := .s_header_value_discard_lws } }
  else header_value_start e ch

/-- What a header that ended in this state has set. -/
def HeaderState.finish (h : HeaderState) (f : Flags) : Flags :=
  match h with
  | .h_connection_keep_alive => { f with F_CONNECTION_KEEP_ALIVE := true }
  | .h_connection_close => { f with F_CONNECTION_CLOSE := true }
  | .h_transfer_encoding_chunked => { f with F_CHUNKED := true }
  | .h_connection_upgrade => { f with F_CONNECTION_UPGRADE := true }
  | _ => f

/-- A digit or a space of a content length. -/
def content_length_num (p : Parser) (ch : UInt8) : Except Errno Parser :=
  if ch = SP then .ok { p with header_state := .h_content_length_ws }
  else if ¬isNum ch then .error .HPE_INVALID_CONTENT_LENGTH
  else if (ULLONG_MAX - 10) / 10 < p.content_length then .error .HPE_INVALID_CONTENT_LENGTH
  else
    .ok { p with
      content_length := p.content_length * 10 + digit ch
      header_state := .h_content_length_num }

/-- A character between the tokens of a list: the first of the next token, white space, or
neither. -/
def tokenStart (c : UInt8) (other here : HeaderState) : HeaderState :=
  if token c ≠ 0 then other
  else if c = SP ∨ c = HT then here
  else .h_general

/-- The switch of `case s_header_value`, on one character of a value. -/
def header_value_char (p : Parser) (ch : UInt8) : Except Errno Parser :=
  let c := lower ch
  match p.header_state with
  | .h_general => .ok p
  -- asserted not to occur
  | .h_connection | .h_transfer_encoding => .ok p
  | .h_content_length =>
    if ch = SP then .ok p else content_length_num p ch
  | .h_content_length_num => content_length_num p ch
  | .h_content_length_ws => if ch = SP then .ok p else .error .HPE_INVALID_CONTENT_LENGTH
  | .h_matching_transfer_encoding_token_start =>
    .ok { p with
      header_state :=
        if c = chr 'c' then .h_matching_transfer_encoding_chunked
        else tokenStart c .h_matching_transfer_encoding_token p.header_state }
  | .h_matching_transfer_encoding_chunked =>
    .ok (p.matchWord (bytes "chunked") .h_transfer_encoding_chunked
      .h_matching_transfer_encoding_token c)
  | .h_matching_transfer_encoding_token =>
    if ch = chr ',' then
      .ok { p with header_state := .h_matching_transfer_encoding_token_start, index := 0 }
    else .ok p
  | .h_matching_connection_token_start =>
    .ok { p with
      header_state :=
        if c = chr 'k' then .h_matching_connection_keep_alive
        else if c = chr 'c' then .h_matching_connection_close
        else if c = chr 'u' then .h_matching_connection_upgrade
        else tokenStart c .h_matching_connection_token p.header_state }
  | .h_matching_connection_keep_alive =>
    .ok (p.matchWord (bytes "keep-alive") .h_connection_keep_alive .h_matching_connection_token c)
  | .h_matching_connection_close =>
    .ok (p.matchWord (bytes "close") .h_connection_close .h_matching_connection_token c)
  | .h_matching_connection_upgrade =>
    .ok (p.matchWord (bytes "upgrade") .h_connection_upgrade .h_matching_connection_token c)
  | .h_matching_connection_token =>
    if ch = chr ',' then
      .ok { p with header_state := .h_matching_connection_token_start, index := 0 }
    else .ok p
  | .h_transfer_encoding_chunked =>
    if ch ≠ SP then .ok { p with header_state := .h_matching_transfer_encoding_token } else .ok p
  | .h_connection_keep_alive | .h_connection_close | .h_connection_upgrade =>
    if ch = chr ',' then
      .ok { p with
        flags := p.header_state.finish p.flags
        header_state := .h_matching_connection_token_start
        index := 0 }
    else if ch ≠ SP then .ok { p with header_state := .h_matching_connection_token }
    else .ok p
  | _ => .ok { p with header_state := .h_general }

/-- `case s_header_almost_done` -/
def header_almost_done (p : Parser) (ch : UInt8) : Except Errno Parser :=
  if ch ≠ LF then .error .HPE_LF_EXPECTED else .ok { p with state := .s_header_value_lws }

/-- `case s_header_value` -/
def header_value (e : Exec) (ch : UInt8) : Step :=
  let p := e.parser
  -- the inner loop gives up after `max_header_size` bytes, and the outer one steps over a byte
  if p.header_state = .h_general ∧ e.general = max_header_size then
    .next [] { e with run := e.run + 1, general := 0 }
  else if ch = CR then
    -- the value is reported before its length is checked
    let q := { p with state := State.s_header_almost_done }
    if p.nread + e.run > max_header_size then
      .stop (e.calls .header_value) (q.fail .HPE_HEADER_OVERFLOW)
    else
      .next (e.calls .header_value)
        { e.clearMark with parser := { q with nread := p.nread + e.run }, run := 0, general := 0 }
  else if ch = LF then
    if p.nread + e.run > max_header_size then e.fail .HPE_HEADER_OVERFLOW
    else
      let past : Exec := { e.clearMark with run := 0, general := 0 }
      (past.lift (header_almost_done { p with nread := p.nread + e.run } ch)).after
        (e.calls .header_value)
  else if ¬isHeaderChar ch then e.fail .HPE_INVALID_HEADER_TOKEN
  else
    let e : Exec := { e with
      run := e.run + 1
      general := if p.header_state = .h_general then e.general + 1 else 0 }
    e.lift (header_value_char p ch)

/-- `case s_header_value_lws` -/
def header_value_lws (e : Exec) (ch : UInt8) : Step :=
  let p := e.parser
  if ch = SP ∨ ch = HT then
    header_value_start
      { e with
        parser := { p with
          state := .s_header_value_start
          header_state :=
            if p.header_state = .h_content_length_num then HeaderState.h_content_length_ws
            else p.header_state } } ch
  else
    header_field_start
      { e with
        parser := { p with flags := p.header_state.finish p.flags, state := .s_header_field_start } }
      ch

/-- `case s_header_value_discard_lws` -/
def header_value_discard_lws (e : Exec) (ch : UInt8) : Step :=
  let p := e.parser
  if ch = SP ∨ ch = HT then
    .next [] { e with parser := { p with state := .s_header_value_discard_ws } }
  else if p.header_state = .h_content_length then e.fail .HPE_INVALID_CONTENT_LENGTH
  else
    -- the value is empty
    let e := e.setMark .header_value
    (header_field_start
      { e.clearMark with
        parser := { p with flags := p.header_state.finish p.flags, state := .s_header_field_start } }
      ch).after (e.calls .header_value)

/-! ## Bodies -/

/-- `case s_chunk_size_start` -/
def chunk_size_start (p : Parser) (ch : UInt8) : Except Errno Parser :=
  match unhex ch with
  | none => .error .HPE_INVALID_CHUNK_SIZE
  | some v => .ok { p with content_length := v, state := .s_chunk_size }

/-- `case s_chunk_size` -/
def chunk_size (p : Parser) (ch : UInt8) : Except Errno Parser :=
  if ch = CR then .ok { p with state := .s_chunk_size_almost_done }
  else
    match unhex ch with
    | none =>
      if ch = chr ';' ∨ ch = SP then .ok { p with state := .s_chunk_parameters }
      else .error .HPE_INVALID_CHUNK_SIZE
    | some v =>
      if (ULLONG_MAX - 16) / 16 < p.content_length then .error .HPE_INVALID_CONTENT_LENGTH
      else .ok { p with content_length := p.content_length * 16 + v }

/-- `case s_chunk_parameters` -/
def chunk_parameters (p : Parser) (ch : UInt8) : Except Errno Parser :=
  if ch = CR then .ok { p with state := .s_chunk_size_almost_done } else .ok p

/-- `case s_chunk_size_almost_done` -/
def chunk_size_almost_done (p : Parser) (ch : UInt8) : Except Errno Parser :=
  if ch ≠ LF then .error .HPE_STRICT
  else if p.content_length = 0 then
    .ok { p with
      nread := 0, flags := { p.flags with F_TRAILING := true }, state := .s_header_field_start }
  else .ok { p with nread := 0, state := .s_chunk_data }

/-- `case s_chunk_data`, one byte of the chunk -/
def chunk_data (e : Exec) : Step :=
  let e := e.setMark .body
  let p : Parser := { e.parser with content_length := e.parser.content_length - 1 }
  if p.content_length = 0 then
    .next [] { e with parser := { p with state := .s_chunk_data_almost_done } }
  else .next [] { e with parser := p }

/-- `case s_chunk_data_almost_done` -/
def chunk_data_almost_done (e : Exec) (ch : UInt8) : Step :=
  if ch ≠ CR then e.fail .HPE_STRICT
  else
    .next (e.calls .body)
      { e.clearMark with parser := { e.parser with state := .s_chunk_data_done } }

/-- `case s_chunk_data_done` -/
def chunk_data_done (p : Parser) (ch : UInt8) : Except Errno Parser :=
  if ch ≠ LF then .error .HPE_STRICT else .ok { p with nread := 0, state := .s_chunk_size_start }

/-- `case s_body_identity`, one byte of the body; the last one is reported with the others at
once. -/
def body_identity (e : Exec) (ch : UInt8) : Step :=
  let e := e.setMark .body
  let p : Parser := { e.parser with content_length := e.parser.content_length - 1 }
  if p.content_length = 0 then
    (e.clearMark.ending (message_done p)).after ((e.consume ch).calls .body)
  else .next [] { e with parser := p }

/-- `case s_body_identity_eof` -/
def body_identity_eof (e : Exec) : Step := .next [] (e.setMark .body)

/-! ## The loop -/

/-- `case s_dead` -/
def dead (p : Parser) (ch : UInt8) : Except Errno Parser :=
  if isCRLF ch then .ok p else .error .HPE_CLOSED_CONNECTION

/-- `switch (CURRENT_STATE())` -/
def dispatch (e : Exec) (ch : UInt8) : Step :=
  let p := e.parser
  match p.state with
  | .s_dead => e.lift (dead p ch)
  | .s_start_req => e.lift (start_req p ch)
  | .s_req_method => e.lift (req_method p ch)
  | .s_req_spaces_before_url => req_spaces_before_url e ch
  | .s_req_schema | .s_req_schema_slash | .s_req_schema_slash_slash | .s_req_server_start =>
    req_schema e ch
  | .s_req_server | .s_req_server_with_at | .s_req_path | .s_req_query_string_start
  | .s_req_query_string | .s_req_fragment_start | .s_req_fragment => req_url e ch
  | .s_req_http_start => e.lift (req_http_start p ch)
  | .s_req_http_H => e.lift (expect (chr 'T') .s_req_http_HT p ch)
  | .s_req_http_HT => e.lift (expect (chr 'T') .s_req_http_HTT p ch)
  | .s_req_http_HTT => e.lift (expect (chr 'P') .s_req_http_HTTP p ch)
  | .s_req_http_HTTP => e.lift (expect (chr '/') .s_req_http_major p ch)
  | .s_req_http_I => e.lift (expect (chr 'C') .s_req_http_IC p ch)
  | .s_req_http_IC => e.lift (expect (chr 'E') .s_req_http_HTTP p ch)
  | .s_req_http_major => e.lift (req_http_major p ch)
  | .s_req_http_dot => e.lift (req_http_dot p ch)
  | .s_req_http_minor => e.lift (req_http_minor p ch)
  | .s_req_http_end => e.lift (req_http_end p ch)
  | .s_req_line_almost_done => e.lift (req_line_almost_done p ch)
  | .s_header_field_start => header_field_start e ch
  | .s_header_field => header_field e ch
  | .s_header_value_discard_ws => header_value_discard_ws e ch
  | .s_header_value_discard_ws_almost_done => e.lift (expect LF .s_header_value_discard_lws p ch)
  | .s_header_value_discard_lws => header_value_discard_lws e ch
  | .s_header_value_start => header_value_start e ch
  | .s_header_value => header_value e ch
  | .s_header_value_lws => header_value_lws e ch
  | .s_header_almost_done => e.lift (header_almost_done p ch)
  | .s_chunk_size_start => e.lift (chunk_size_start p ch)
  | .s_chunk_size => e.lift (chunk_size p ch)
  | .s_chunk_parameters => e.lift (chunk_parameters p ch)
  | .s_chunk_size_almost_done => e.lift (chunk_size_almost_done p ch)
  | .s_headers_almost_done => headers_almost_done e ch
  | .s_headers_done => e.ending (headers_done p ch)
  | .s_chunk_data => chunk_data e
  | .s_chunk_data_almost_done => chunk_data_almost_done e ch
  | .s_chunk_data_done => e.lift (chunk_data_done p ch)
  | .s_body_identity => body_identity e ch
  | .s_body_identity_eof => body_identity_eof e
  | .s_message_done => e.ending (message_done p)

/-- One turn of the loop of `sn_http_parser_execute`, with the `COUNT_HEADER_SIZE(1)` at its
head, which the loops of the arms do not pass through. -/
def feed (e : Exec) (ch : UInt8) : Step :=
  if e.parser.state.parsingHeader ∧ e.run = 0 then
    if e.parser.nread + 1 > max_header_size then e.fail .HPE_HEADER_OVERFLOW
    else dispatch { e with parser := { e.parser with nread := e.parser.nread + 1 } } ch
  else dispatch e ch

end Http
end SomoNet
