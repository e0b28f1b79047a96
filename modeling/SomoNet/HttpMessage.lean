import SomoNet.Lib.CInt
import Mathlib.Logic.Function.Basic

/-!
# `HttpRequest` and `HttpResponse`

What `HttpPeerLink` collects of a request, and what it makes of the handler's answer.
A `std::string` is the list of its bytes.
-/

namespace SomoNet

/-- A `std::string`, or the bytes that a `const char*` and a length designate. -/
abbrev Bytes := List UInt8

/-- The bytes of a string literal. -/
def bytes (s : String) : Bytes := s.toUTF8.data.toList

/-- `s.c_str()` up to and including its terminator. -/
def cStr (s : Bytes) : Bytes := s.takeWhile (· ≠ 0) ++ [0]

/-- `strncmp(a, b, n) == 0` -/
def strncmpEq (a b : Bytes) (n : ℕ) : Bool := (cStr a).take n == (cStr b).take n

/-- `format::uint2str32` -/
def uint2str32 (i : ℕ) : Bytes := (Nat.toDigits 10 i).map fun c => c.toNat.toUInt8

/-! ## `HttpRequest` -/

structure HttpRequest where
  strMethod : Bytes
  strUrl : Bytes
  /-- `m_mapHeaders`: the value stored for a field, if any. -/
  mapHeaders : Bytes → Option Bytes
  strBody : Bytes

namespace HttpRequest

def new : HttpRequest := ⟨[], [], fun _ => none, []⟩

def set_method (req : HttpRequest) (method : Bytes) : HttpRequest := { req with strMethod := method }

def set_url (req : HttpRequest) (url : Bytes) : HttpRequest := { req with strUrl := url }

def add_header (req : HttpRequest) (field value : Bytes) : HttpRequest :=
  { req with mapHeaders := Function.update req.mapHeaders field (some value) }

def set_body (req : HttpRequest) (body : Bytes) : HttpRequest := { req with strBody := body }

end HttpRequest

/-! ## `HttpResponse` -/

structure HttpResponse where
  nStatus : ℤ
  strVersion : Bytes
  strContentType : Bytes
  strBody : Bytes

namespace HttpResponse

/-- `HttpResponse::HttpResponse` -/
def new : HttpResponse where
  nStatus := 200
  strVersion := bytes "HTTP/1.1"
  strContentType := bytes "application/json"
  strBody := []

def set_body (res : HttpResponse) (body : Bytes) : HttpResponse := { res with strBody := body }

/-- `HttpResponse::format` -/
def format (res : HttpResponse) : Bytes :=
  res.strVersion ++ bytes " " ++ uint2str32 (toUInt32 res.nStatus) ++ bytes " OK\r\n" ++
    bytes "Server:SOMO Video Proxy\r\n" ++
    bytes "Content-Type:" ++ res.strContentType ++ bytes "\r\n" ++
    bytes "Connection: close\r\n\r\n" ++
    res.strBody ++
    bytes "\r\n\r\n"

/-- A formatted response is never empty: it ends with a blank line. -/
theorem format_ne_nil (res : HttpResponse) : res.format ≠ [] := by
  unfold format
  apply List.append_ne_nil_of_right_ne_nil
  decide

end HttpResponse
end SomoNet
