import SomoNet.HttpMessage

/-!
# The bundled HTTP parser: what it distinguishes

The enumerations and the character classes of `httpparser.cpp`, for a parser of type
`HTTP_REQUEST` built with `HTTP_PARSER_STRICT`. The states of a response parser are left
out: nothing in the program parses a response.
-/

namespace SomoNet
namespace Http

/-! ## Characters -/

def chr (c : Char) : UInt8 := c.toNat.toUInt8

def CR : UInt8 := 13
def LF : UInt8 := 10
def SP : UInt8 := 32
def HT : UInt8 := 9

/-- A byte of an empty line, which the parser skips between two messages. -/
def isCRLF (ch : UInt8) : Bool := ch = CR ∨ ch = LF

/-- `LOWER(c)` -/
def lower (c : UInt8) : UInt8 := c ||| 32

/-- `IS_ALPHA(c)` -/
def isAlpha (c : UInt8) : Bool := chr 'a' ≤ lower c ∧ lower c ≤ chr 'z'

/-- `IS_NUM(c)` -/
def isNum (c : UInt8) : Bool := chr '0' ≤ c ∧ c ≤ chr '9'

/-- `c - '0'` -/
def digit (c : UInt8) : ℕ := (c - chr '0').toNat

/-- `IS_MARK(c)` -/
def isMark (c : UInt8) : Bool := c ∈ bytes "-_.!~*'()"

/-- `IS_USERINFO_CHAR(c)` -/
def isUserinfoChar (c : UInt8) : Bool :=
  isAlpha c || isNum c || isMark c || c ∈ bytes "%;:&=+$,"

/-- `TOKEN(c)`: the lower-cased character of a token, 0 for any other. -/
def token (c : UInt8) : UInt8 :=
  if chr 'A' ≤ c ∧ c ≤ chr 'Z' then lower c
  else if (chr 'a' ≤ c ∧ c ≤ chr 'z') ∨ isNum c ∨ c ∈ bytes "!#$%&'*+-.^_`|~" then c
  else 0

/-- `IS_URL_CHAR(c)` -/
def isUrlChar (c : UInt8) : Bool := 32 < c ∧ c < 127 ∧ c ≠ chr '#' ∧ c ≠ chr '?'

/-- `IS_HEADER_CHAR(ch)` -/
def isHeaderChar (ch : UInt8) : Bool := ch = CR ∨ ch = LF ∨ ch = HT ∨ (31 < ch ∧ ch ≠ 127)

/-- `unhex[ch]`, `none` for -1. The table lists 128 values, so that the upper half of it
is zero. -/
def unhex (ch : UInt8) : Option ℕ :=
  if isNum ch then some (digit ch)
  else if chr 'a' ≤ lower ch ∧ lower ch ≤ chr 'f' then some ((lower ch - chr 'a').toNat + 10)
  else if 128 ≤ ch then some 0
  else none

/-! ## Methods -/

/-- `enum http_method` -/
inductive Method
  | DELETE | GET | HEAD | POST | PUT | CONNECT | OPTIONS | TRACE
  | COPY | LOCK | MKCOL | MOVE | PROPFIND | PROPPATCH | SEARCH | UNLOCK | BIND | REBIND | UNBIND | ACL
  | REPORT | MKACTIVITY | CHECKOUT | MERGE
  | MSEARCH | NOTIFY | SUBSCRIBE | UNSUBSCRIBE
  | PATCH | PURGE
  | MKCALENDAR
  | LINK | UNLINK
  | SOURCE
  deriving DecidableEq

/-- `method_strings` -/
def Method.str : Method → Bytes
  | DELETE => bytes "DELETE" | GET => bytes "GET" | HEAD => bytes "HEAD" | POST => bytes "POST"
  | PUT => bytes "PUT" | CONNECT => bytes "CONNECT" | OPTIONS => bytes "OPTIONS"
  | TRACE => bytes "TRACE"
  | COPY => bytes "COPY" | LOCK => bytes "LOCK" | MKCOL => bytes "MKCOL" | MOVE => bytes "MOVE"
  | PROPFIND => bytes "PROPFIND" | PROPPATCH => bytes "PROPPATCH" | SEARCH => bytes "SEARCH"
  | UNLOCK => bytes "UNLOCK" | BIND => bytes "BIND" | REBIND => bytes "REBIND"
  | UNBIND => bytes "UNBIND" | ACL => bytes "ACL"
  | REPORT => bytes "REPORT" | MKACTIVITY => bytes "MKACTIVITY" | CHECKOUT => bytes "CHECKOUT"
  | MERGE => bytes "MERGE"
  | MSEARCH => bytes "M-SEARCH" | NOTIFY => bytes "NOTIFY" | SUBSCRIBE => bytes "SUBSCRIBE"
  | UNSUBSCRIBE => bytes "UNSUBSCRIBE"
  | PATCH => bytes "PATCH" | PURGE => bytes "PURGE"
  | MKCALENDAR => bytes "MKCALENDAR"
  | LINK => bytes "LINK" | UNLINK => bytes "UNLINK"
  | SOURCE => bytes "SOURCE"

/-- The method that a first letter makes the parser expect. -/
def Method.ofFirst (ch : UInt8) : Option Method :=
  [(chr 'A', ACL), (chr 'B', BIND), (chr 'C', CONNECT), (chr 'D', DELETE), (chr 'G', GET),
    (chr 'H', HEAD), (chr 'L', LOCK), (chr 'M', MKCOL), (chr 'N', NOTIFY), (chr 'O', OPTIONS),
    (chr 'P', POST), (chr 'R', REPORT), (chr 'S', SUBSCRIBE), (chr 'T', TRACE),
    (chr 'U', UNLOCK)].lookup ch

/-- The method that the parser goes over to when the letter at a position is not the one of
the method expected so far. -/
def Method.switch (m : Method) (pos : ℕ) (ch : UInt8) : Option Method :=
  [((POST, 1, chr 'U'), PUT), ((POST, 1, chr 'A'), PATCH), ((POST, 1, chr 'R'), PROPFIND),
    ((PUT, 2, chr 'R'), PURGE), ((CONNECT, 1, chr 'H'), CHECKOUT), ((CONNECT, 2, chr 'P'), COPY),
    ((MKCOL, 1, chr 'O'), MOVE), ((MKCOL, 1, chr 'E'), MERGE), ((MKCOL, 1, chr '-'), MSEARCH),
    ((MKCOL, 2, chr 'A'), MKACTIVITY), ((MKCOL, 3, chr 'A'), MKCALENDAR),
    ((SUBSCRIBE, 1, chr 'E'), SEARCH), ((SUBSCRIBE, 1, chr 'O'), SOURCE),
    ((REPORT, 2, chr 'B'), REBIND), ((PROPFIND, 4, chr 'P'), PROPPATCH),
    ((LOCK, 1, chr 'I'), LINK), ((UNLOCK, 2, chr 'S'), UNSUBSCRIBE),
    ((UNLOCK, 2, chr 'B'), UNBIND), ((UNLOCK, 3, chr 'I'), UNLINK)].lookup (m, pos, ch)

/-! ## States and errors -/

/-- `enum state` -/
inductive State
  | s_dead
  | s_start_req
  | s_req_method
  | s_req_spaces_before_url
  | s_req_schema
  | s_req_schema_slash
  | s_req_schema_slash_slash
  | s_req_server_start
  | s_req_server
  | s_req_server_with_at
  | s_req_path
  | s_req_query_string_start
  | s_req_query_string
  | s_req_fragment_start
  | s_req_fragment
  | s_req_http_start
  | s_req_http_H
  | s_req_http_HT
  | s_req_http_HTT
  | s_req_http_HTTP
  | s_req_http_I
  | s_req_http_IC
  | s_req_http_major
  | s_req_http_dot
  | s_req_http_minor
  | s_req_http_end
  | s_req_line_almost_done
  | s_header_field_start
  | s_header_field
  | s_header_value_discard_ws
  | s_header_value_discard_ws_almost_done
  | s_header_value_discard_lws
  | s_header_value_start
  | s_header_value
  | s_header_value_lws
  | s_header_almost_done
  | s_chunk_size_start
  | s_chunk_size
  | s_chunk_parameters
  | s_chunk_size_almost_done
  | s_headers_almost_done
  | s_headers_done
  | s_chunk_data
  | s_chunk_data_almost_done
  | s_chunk_data_done
  | s_body_identity
  | s_body_identity_eof
  | s_message_done
  deriving DecidableEq

/-- `PARSING_HEADER(state)` -/
def State.parsingHeader : State → Bool
  | s_chunk_data | s_chunk_data_almost_done | s_chunk_data_done | s_body_identity
  | s_body_identity_eof | s_message_done => false
  | _ => true

/-- `enum header_states` -/
inductive HeaderState
  | h_general
  | h_C
  | h_CO
  | h_CON
  | h_matching_connection
  | h_matching_proxy_connection
  | h_matching_content_length
  | h_matching_transfer_encoding
  | h_matching_upgrade
  | h_connection
  | h_content_length
  | h_content_length_num
  | h_content_length_ws
  | h_transfer_encoding
  | h_upgrade
  | h_matching_transfer_encoding_token_start
  | h_matching_transfer_encoding_chunked
  | h_matching_transfer_encoding_token
  | h_matching_connection_token_start
  | h_matching_connection_keep_alive
  | h_matching_connection_close
  | h_matching_connection_upgrade
  | h_matching_connection_token
  | h_transfer_encoding_chunked
  | h_connection_keep_alive
  | h_connection_close
  | h_connection_upgrade
  deriving DecidableEq

/-- `enum http_errno`, those of it that parsing a request can set. `HPE_OK` is `none` of
them. -/
inductive Errno
  | HPE_CB_headers_complete
  | HPE_INVALID_EOF_STATE
  | HPE_HEADER_OVERFLOW
  | HPE_CLOSED_CONNECTION
  | HPE_INVALID_VERSION
  | HPE_INVALID_METHOD
  | HPE_INVALID_URL
  | HPE_LF_EXPECTED
  | HPE_INVALID_HEADER_TOKEN
  | HPE_INVALID_CONTENT_LENGTH
  | HPE_UNEXPECTED_CONTENT_LENGTH
  | HPE_INVALID_CHUNK_SIZE
  | HPE_INVALID_CONSTANT
  | HPE_STRICT
  | HPE_INVALID_TRANSFER_ENCODING
  deriving DecidableEq

/-- `enum flags`, with `F_TRANSFER_ENCODING`, which the parser keeps in `extra_flags`. -/
structure Flags where
  F_CHUNKED : Bool := false
  F_CONNECTION_KEEP_ALIVE : Bool := false
  F_CONNECTION_CLOSE : Bool := false
  F_CONNECTION_UPGRADE : Bool := false
  F_TRAILING : Bool := false
  F_UPGRADE : Bool := false
  F_SKIPBODY : Bool := false
  F_CONTENTLENGTH : Bool := false
  F_TRANSFER_ENCODING : Bool := false
  deriving DecidableEq

/-! ## Urls -/

/-- `parse_url_char`; the caller takes `s_dead` for an error. -/
def parse_url_char (s : State) (ch : UInt8) : State :=
  if ch = SP ∨ ch = CR ∨ ch = LF ∨ ch = HT ∨ ch = 12 then .s_dead
  else
    match s with
    | .s_req_spaces_before_url =>
      if ch = chr '/' ∨ ch = chr '*' then .s_req_path
      else if isAlpha ch then .s_req_schema else .s_dead
    | .s_req_schema =>
      if isAlpha ch then .s_req_schema
      else if ch = chr ':' then .s_req_schema_slash else .s_dead
    | .s_req_schema_slash => if ch = chr '/' then .s_req_schema_slash_slash else .s_dead
    | .s_req_schema_slash_slash => if ch = chr '/' then .s_req_server_start else .s_dead
    | .s_req_server_start | .s_req_server | .s_req_server_with_at =>
      if s = .s_req_server_with_at ∧ ch = chr '@' then .s_dead
      else if ch = chr '/' then .s_req_path
      else if ch = chr '?' then .s_req_query_string_start
      else if ch = chr '@' then .s_req_server_with_at
      else if isUserinfoChar ch ∨ ch = chr '[' ∨ ch = chr ']' then .s_req_server
      else .s_dead
    | .s_req_path =>
      if isUrlChar ch then .s_req_path
      else if ch = chr '?' then .s_req_query_string_start
      else if ch = chr '#' then .s_req_fragment_start else .s_dead
    | .s_req_query_string_start | .s_req_query_string =>
      if isUrlChar ch then .s_req_query_string
      else if ch = chr '?' then .s_req_query_string
      else if ch = chr '#' then .s_req_fragment_start else .s_dead
    | .s_req_fragment_start =>
      if isUrlChar ch then .s_req_fragment
      else if ch = chr '?' then .s_req_fragment
      else if ch = chr '#' then .s_req_fragment_start else .s_dead
    | .s_req_fragment =>
      if isUrlChar ch ∨ ch = chr '?' ∨ ch = chr '#' then .s_req_fragment else .s_dead
    | _ => .s_dead

end Http
end SomoNet
