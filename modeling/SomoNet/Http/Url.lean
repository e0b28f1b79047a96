import SomoNet.Http.Syntax
import SomoNet.Lib.Walk

/-!
# Urls cut into fields

`sn_http_parser_parse_url`: one pass over the url finds its fields, with the characters of the
request parser; a second one takes the host apart; a third one reads the port. The positions and
the lengths are kept in 16 bits.
-/

namespace SomoNet
namespace Http

open Walk

/-! ## What is found -/

/-- `enum http_parser_url_fields` -/
inductive UrlField
  | UF_SCHEMA | UF_HOST | UF_PORT | UF_PATH | UF_QUERY | UF_FRAGMENT | UF_USERINFO
  deriving DecidableEq

open UrlField

instance fintypeUrlField : Fintype UrlField where
  elems := {UF_SCHEMA, UF_HOST, UF_PORT, UF_PATH, UF_QUERY, UF_FRAGMENT, UF_USERINFO}
  complete uf := by cases uf <;> decide

/-- An entry of `field_data`. -/
structure FieldData where
  off : UInt16
  len : UInt16
  deriving DecidableEq

/-- `struct http_parser_url`, with the set of the fields for its bits. -/
@[ext] structure Url where
  field_set : Finset UrlField
  port : UInt16
  field_data : UrlField → FieldData

namespace Url

/-- `sn_http_parser_url_init` -/
def init : Url := ⟨∅, 0, fun _ => ⟨0, 0⟩⟩

def setData (u : Url) (uf : UrlField) (d : FieldData) : Url :=
  { u with field_data := Function.update u.field_data uf d }

/-- `field_data[uf].len++` -/
def grow (u : Url) (uf : UrlField) : Url :=
  u.setData uf { u.field_data uf with len := (u.field_data uf).len + 1 }

/-- `field_data[uf].off = (uint16_t)(p - buf)` -/
def setOff (u : Url) (uf : UrlField) (i : ℕ) : Url :=
  u.setData uf { u.field_data uf with off := i.toUInt16 }

/-- `field_set |= (1 << uf)` with the position and the length of the field. -/
def put (u : Url) (uf : UrlField) (i n : ℕ) : Url :=
  { u.setData uf ⟨i.toUInt16, n.toUInt16⟩ with field_set := insert uf u.field_set }

end Url

/-- How parsing a url ends early: with 1, or with a failed assertion or a read past the end of
the buffer. -/
inductive UrlStop
  | fail (u : Url)
  | abort

/-! ## The first pass -/

/-- The state of the loop of `sn_http_parser_parse_url`; `UF_MAX` is no field. -/
structure UrlScan where
  s : State
  u : Url
  old_uf : Option UrlField
  found_at : Bool

namespace UrlScan

/-- The end of the loop's body: a field begins, or the one begun before goes on. -/
def field (c : UrlScan) (uf : UrlField) (i : ℕ) : UrlScan :=
  if c.old_uf = some uf then { c with u := c.u.grow uf }
  else { c with u := c.u.put uf i 1, old_uf := some uf }

/-- The body of the loop. -/
def next (c : UrlScan) (i : ℕ) (ch : UInt8) : Except UrlStop UrlScan :=
  let c := { c with s := parse_url_char c.s ch }
  match c.s with
  | .s_dead => .error (.fail c.u)
  | .s_req_schema_slash | .s_req_schema_slash_slash | .s_req_server_start
  | .s_req_query_string_start | .s_req_fragment_start => .ok c
  | .s_req_schema => .ok (c.field UF_SCHEMA i)
  | .s_req_server_with_at => .ok ({ c with found_at := true }.field UF_HOST i)
  | .s_req_server => .ok (c.field UF_HOST i)
  | .s_req_path => .ok (c.field UF_PATH i)
  | .s_req_query_string => .ok (c.field UF_QUERY i)
  | .s_req_fragment => .ok (c.field UF_FRAGMENT i)
  | _ => .error .abort

end UrlScan

/-! ## Hosts -/

/-- `enum http_host_state` -/
inductive HostState
  | s_http_host_dead
  | s_http_userinfo_start
  | s_http_userinfo
  | s_http_host_start
  | s_http_host_v6_start
  | s_http_host
  | s_http_host_v6
  | s_http_host_v6_end
  | s_http_host_v6_zone_start
  | s_http_host_v6_zone
  | s_http_host_port_start
  | s_http_host_port
  deriving DecidableEq

/-- `IS_HEX(c)` -/
def isHex (c : UInt8) : Bool := isNum c || (chr 'a' ≤ lower c ∧ lower c ≤ chr 'f')

/-- `IS_HOST_CHAR(c)` -/
def isHostChar (c : UInt8) : Bool := isAlpha c || isNum c || c ∈ bytes ".-"

/-- A character of a zone identifier. -/
def isZoneChar (c : UInt8) : Bool := isAlpha c || isNum c || c ∈ bytes "%.-_~"

/-- `sn_http_parse_host_char` -/
def parse_host_char (s : HostState) (ch : UInt8) : HostState :=
  match s with
  | .s_http_userinfo | .s_http_userinfo_start =>
    if ch = chr '@' then .s_http_host_start
    else if isUserinfoChar ch then .s_http_userinfo else .s_http_host_dead
  | .s_http_host_start =>
    if ch = chr '[' then .s_http_host_v6_start
    else if isHostChar ch then .s_http_host else .s_http_host_dead
  | .s_http_host | .s_http_host_v6_end =>
    if s = .s_http_host ∧ isHostChar ch then .s_http_host
    else if ch = chr ':' then .s_http_host_port_start else .s_http_host_dead
  | .s_http_host_v6 | .s_http_host_v6_start =>
    if s = .s_http_host_v6 ∧ ch = chr ']' then .s_http_host_v6_end
    else if isHex ch ∨ ch = chr ':' ∨ ch = chr '.' then .s_http_host_v6
    else if s = .s_http_host_v6 ∧ ch = chr '%' then .s_http_host_v6_zone_start
    else .s_http_host_dead
  | .s_http_host_v6_zone | .s_http_host_v6_zone_start =>
    if s = .s_http_host_v6_zone ∧ ch = chr ']' then .s_http_host_v6_end
    else if isZoneChar ch then .s_http_host_v6_zone else .s_http_host_dead
  | .s_http_host_port | .s_http_host_port_start =>
    if isNum ch then .s_http_host_port else .s_http_host_dead
  | .s_http_host_dead => .s_http_host_dead

/-- The states in which a host may end. -/
def HostState.ends : HostState → Bool
  | s_http_host_start | s_http_host_v6_start | s_http_host_v6 | s_http_host_v6_zone_start
  | s_http_host_v6_zone | s_http_host_port_start | s_http_userinfo | s_http_userinfo_start => false
  | _ => true

/-- The state of the loop of `sn_http_parse_host`. -/
structure HostScan where
  s : HostState
  u : Url

namespace HostScan

/-- The body of the loop. -/
def next (c : HostScan) (i : ℕ) (ch : UInt8) : Except UrlStop HostScan :=
  let new_s := parse_host_char c.s ch
  match new_s with
  | .s_http_host_dead => .error (.fail c.u)
  | .s_http_host =>
    let u := if c.s ≠ .s_http_host then c.u.setOff UF_HOST i else c.u
    .ok ⟨new_s, u.grow UF_HOST⟩
  | .s_http_host_v6 =>
    let u := if c.s ≠ .s_http_host_v6 then c.u.setOff UF_HOST i else c.u
    .ok ⟨new_s, u.grow UF_HOST⟩
  | .s_http_host_v6_zone_start | .s_http_host_v6_zone => .ok ⟨new_s, c.u.grow UF_HOST⟩
  | .s_http_host_port =>
    let u := if c.s ≠ .s_http_host_port then c.u.put UF_PORT i 0 else c.u
    .ok ⟨new_s, u.grow UF_PORT⟩
  | .s_http_userinfo =>
    let u := if c.s ≠ .s_http_userinfo then c.u.put UF_USERINFO i 0 else c.u
    .ok ⟨new_s, u.grow UF_USERINFO⟩
  | _ => .ok ⟨new_s, c.u⟩

end HostScan

/-- `sn_http_parse_host`, with 1 for a failure. -/
def parse_host (buf : Bytes) (u : Url) (found_at : Bool) : Except UrlStop Url :=
  if UF_HOST ∉ u.field_set then .error .abort
  else
    let d := u.field_data UF_HOST
    let u := u.setData UF_HOST { d with len := 0 }
    let s := if found_at then .s_http_userinfo_start else .s_http_host_start
    (walk .abort buf HostScan.next ⟨s, u⟩ d.off.toNat d.len.toNat).bind fun c =>
      if c.s.ends then .ok c.u else .error (.fail c.u)

/-! ## Ports -/

/-- The body of the loop over the digits of a port; a `char` is signed. -/
def port_digit (u : Url) (v : UInt64) (_i : ℕ) (ch : UInt8) : Except UrlStop UInt64 :=
  let v := v * 10
  let v := v + (ch.toInt8.toInt64 - 48).toUInt64
  if v > 0xffff then .error (.fail u) else .ok v

/-- The port is read off its field. -/
def parse_port (buf : Bytes) (u : Url) : Except UrlStop Url :=
  let d := u.field_data UF_PORT
  if ¬ d.off.toNat + d.len.toNat ≤ buf.length then .error .abort
  else
    (walk .abort buf (port_digit u) 0 d.off.toNat d.len.toNat).bind fun v =>
      .ok { u with port := v.toUInt16 }

/-! ## Urls -/

/-- The loop of `sn_http_parser_parse_url`. -/
def parse_fields (buf : Bytes) (is_connect : Bool) (u : Url) : Except UrlStop UrlScan :=
  let s := if is_connect then .s_req_server_start else .s_req_spaces_before_url
  walk .abort buf UrlScan.next ⟨s, { u with port := 0, field_set := ∅ }, none, false⟩ 0 buf.length

/-- The fields that are found: a schema comes with a host, and a host is taken apart. -/
def check_host (buf : Bytes) (c : UrlScan) : Except UrlStop Url :=
  if UF_SCHEMA ∈ c.u.field_set ∧ UF_HOST ∉ c.u.field_set then .error (.fail c.u)
  else if UF_HOST ∈ c.u.field_set then parse_host buf c.u c.found_at else .ok c.u

/-- `CONNECT` requests have a host and a port and nothing else; a port is read. -/
def check_port (buf : Bytes) (is_connect : Bool) (u : Url) : Except UrlStop Url :=
  if is_connect ∧ u.field_set ≠ {UF_HOST, UF_PORT} then .error (.fail u)
  else if UF_PORT ∈ u.field_set then parse_port buf u else .ok u

/-- `sn_http_parser_parse_url`: `u` as it is left when it returns 0. -/
def parse_url (buf : Bytes) (is_connect : Bool) (u : Url) : Except UrlStop Url :=
  if buf = [] then .error (.fail u)
  else
    (parse_fields buf is_connect u).bind fun c =>
      (check_host buf c).bind fun u => check_port buf is_connect u

end Http
end SomoNet
