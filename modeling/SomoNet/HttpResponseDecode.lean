import SomoNet.HttpMessage
import SomoNet.Lib.CloseDelimited

/-!
# What a client reads of a response

`HttpResponse::format` announces no length, so that a client takes everything up to the end of the
connection for the body. `format` writes a blank line behind the body, and the client takes it for
a part of it.
-/

namespace SomoNet

open CloseDelimited

namespace HttpResponse

/-- A response that can have a body, with a content type that a header line can carry. -/
structure InScope (res : HttpResponse) : Prop where
  status : 200 ≤ res.nStatus ∧ res.nStatus ≤ 599
  not_bodiless : res.nStatus ≠ 204 ∧ res.nStatus ≠ 304
  version : res.strVersion = bytes "HTTP/1.1"
  contentType_ne_nil : res.strContentType ≠ []
  one_line : CR ∉ res.strContentType ∧ LF ∉ res.strContentType
  head : ∀ b, res.strContentType.head? = some b → isBlank b = false
  last : ∀ b, res.strContentType.getLast? = some b → isBlank b = false

/-- The client reads the status, the content type and the body that the response has. -/
def RoundTrips (res : HttpResponse) : Prop :=
  decode res.format = some ⟨res.nStatus.toNat, some res.strContentType, res.strBody⟩

/-! ## The lines of the head -/

/-- The status line; the reason is `OK` whatever the status. -/
def statusText (n : ℕ) : Bytes :=
  ascii "HTTP/1.1 " ++ [(48 + n / 100).toUInt8, (48 + n / 10 % 10).toUInt8, (48 + n % 10).toUInt8, 32] ++
    ascii "OK"

def serverText : Bytes := ascii "Server:SOMO Video Proxy"

def typeText (contentType : Bytes) : Bytes := ascii "Content-Type" ++ colon :: contentType

def connectionText : Bytes := ascii "Connection: close"

theorem toUInt8_digitChar {d : ℕ} (hd : d < 10) :
    (Nat.digitChar d).toNat.toUInt8 = (48 + d).toUInt8 := by
  have hall : ∀ d : Fin 10, (Nat.digitChar d.val).toNat.toUInt8 = (48 + d.val).toUInt8 := by decide
  exact hall ⟨d, hd⟩

/-- A number of three digits is printed as its digits. -/
theorem uint2str32_digits {n : ℕ} (hlo : 100 ≤ n) (hhi : n < 1000) :
    uint2str32 n =
      [(48 + n / 100).toUInt8, (48 + n / 10 % 10).toUInt8, (48 + n % 10).toUInt8] := by
  have hlast : Nat.toDigits 10 n = Nat.toDigits 10 (n / 10) ++ [Nat.digitChar (n % 10)] :=
    Nat.toDigits_of_base_le (by omega) (by omega)
  have hmiddle : Nat.toDigits 10 (n / 10) =
      Nat.toDigits 10 (n / 10 / 10) ++ [Nat.digitChar (n / 10 % 10)] :=
    Nat.toDigits_of_base_le (by omega) (by omega)
  have hfirst : Nat.toDigits 10 (n / 10 / 10) = [Nat.digitChar (n / 100)] := by
    have hdiv : n / 10 / 10 = n / 100 := by omega
    rw [hdiv]
    exact Nat.toDigits_of_lt_base (by omega)
  unfold uint2str32
  rw [hlast, hmiddle, hfirst]
  show [(Nat.digitChar (n / 100)).toNat.toUInt8, (Nat.digitChar (n / 10 % 10)).toNat.toUInt8,
    (Nat.digitChar (n % 10)).toNat.toUInt8] = _
  rw [toUInt8_digitChar (by omega), toUInt8_digitChar (by omega), toUInt8_digitChar (by omega)]

section

variable {res : HttpResponse} (h : res.InScope)
include h

theorem InScope.status_nat : ∃ n : ℕ, res.nStatus = n ∧ 200 ≤ n ∧ n ≤ 599 ∧ n ≠ 204 ∧ n ≠ 304 := by
  obtain ⟨hlo, hhi⟩ := h.status
  obtain ⟨hnot204, hnot304⟩ := h.not_bodiless
  exact ⟨res.nStatus.toNat, by omega, by omega, by omega, by omega, by omega⟩

/-- The response is its head, an empty line, the body, and another empty line with its end. -/
theorem InScope.format_eq {n : ℕ} (hn : res.nStatus = n) (hlo : 200 ≤ n) (hhi : n ≤ 599) :
    res.format = statusText n ++ CR :: LF :: (serverText ++ CR :: LF ::
      (typeText res.strContentType ++ CR :: LF :: (connectionText ++ CR :: LF ::
        (CR :: LF :: (res.strBody ++ bytes "\r\n\r\n"))))) := by
  have huint : toUInt32 res.nStatus = n := by
    rw [hn, toUInt32_natCast]
    exact Nat.mod_eq_of_lt (by omega)
  have hversion : bytes "HTTP/1.1" ++ bytes " " = ascii "HTTP/1.1 " := by decide
  have hok : bytes " OK\r\n" = 32 :: (ascii "OK" ++ [CR, LF]) := by decide
  have hserver : bytes "Server:SOMO Video Proxy\r\n" = serverText ++ [CR, LF] := by decide
  have htype : bytes "Content-Type:" = ascii "Content-Type" ++ [colon] := by decide
  have hend : bytes "\r\n" = [CR, LF] := by decide
  have hclose : bytes "Connection: close\r\n\r\n" = connectionText ++ [CR, LF, CR, LF] := by
    decide
  unfold format statusText typeText
  rw [h.version, huint, uint2str32_digits (by omega) (by omega), hversion, hok, hserver, htype, hend,
    hclose]
  simp only [List.append_assoc, List.cons_append, List.nil_append]

omit h in
theorem CR_not_mem_statusText {n : ℕ} (hn : n < 1000) : CR ∉ statusText n := by
  have hdigit : ∀ d < 10, (48 + d).toUInt8 ≠ CR := by decide
  have hversion : CR ∉ ascii "HTTP/1.1 " := by decide
  have hok : CR ∉ ascii "OK" := by decide
  have hspace : CR ≠ (32 : UInt8) := by decide
  have hfirst := (hdigit (n / 100) (by omega)).symm
  have hmiddle := (hdigit (n / 10 % 10) (by omega)).symm
  have hlast := (hdigit (n % 10) (by omega)).symm
  unfold statusText
  simp only [List.mem_append, List.mem_cons, List.not_mem_nil, or_false, not_or]
  exact ⟨⟨hversion, hfirst, hmiddle, hlast, hspace⟩, hok⟩

theorem InScope.CR_not_mem_typeText : CR ∉ typeText res.strContentType := by
  have hname : CR ∉ ascii "Content-Type" := by decide
  have hcolon : CR ≠ colon := by decide
  unfold typeText
  simp only [List.mem_append, List.mem_cons, not_or]
  exact ⟨hname, hcolon, h.one_line.1⟩

/-- The lines of the head, and what follows the empty line. -/
theorem InScope.headLines_format {n : ℕ} (hn : res.nStatus = n) (hlo : 200 ≤ n) (hhi : n ≤ 599) :
    headLines [] res.format =
      some ([statusText n, serverText, typeText res.strContentType, connectionText],
        res.strBody ++ bytes "\r\n\r\n") := by
  rw [h.format_eq hn hlo hhi,
    headLines_line [] (CR_not_mem_statusText (by omega)) (by simp [statusText]),
    headLines_line [] (by decide) (by decide),
    headLines_line [] h.CR_not_mem_typeText (by simp [typeText]),
    headLines_line [] (by decide) (by decide), headLines_empty]
  rfl

theorem InScope.fields_format :
    [serverText, typeText res.strContentType, connectionText].mapM field =
      some [(ascii "Server", ascii "SOMO Video Proxy"),
        (ascii "Content-Type", res.strContentType), (ascii "Connection", ascii "close")] := by
  have hserver : field serverText = some (ascii "Server", ascii "SOMO Video Proxy") := by decide
  have hconnection : field connectionText = some (ascii "Connection", ascii "close") := by decide
  have htype : field (typeText res.strContentType) =
      some (ascii "Content-Type", res.strContentType) := by
    unfold typeText
    rw [field_colon (by decide) (by decide) (by decide), trim_eq_self h.head h.last]
  simp only [List.mapM_cons, List.mapM_nil, hserver, htype, hconnection]
  rfl

/-- **What the client reads**: the status and the content type that the response has, and for the
body the one that the response has and a blank line behind it. -/
theorem InScope.decode_format :
    decode res.format = some ⟨res.nStatus.toNat, some res.strContentType,
      res.strBody ++ bytes "\r\n\r\n"⟩ := by
  obtain ⟨n, hn, hlo, hhi, hnot204, hnot304⟩ := h.status_nat
  have hbody : bodiless n = false := by
    unfold bodiless
    simp [hnot204, hnot304, hlo]
  have hstatus : res.nStatus.toNat = n := by omega
  have hread := decode_eq (h.headLines_format hn hlo hhi)
    (statusLine_digits (by omega) (ascii "OK")) h.fields_format rfl rfl
  rw [hread, hbody, hstatus]
  rfl

end

/-- **No response round trips**: the client reads the status and the content type, and a body that
is longer than the response's by a blank line. -/
theorem format_never_roundTrips {res : HttpResponse} (h : res.InScope) :
    decode res.format = some ⟨res.nStatus.toNat, some res.strContentType,
      res.strBody ++ bytes "\r\n\r\n"⟩ ∧ ¬ res.RoundTrips := by
  refine ⟨h.decode_format, fun hround => ?_⟩
  have hbody : res.strBody ++ bytes "\r\n\r\n" = res.strBody := by
    have heq := h.decode_format.symm.trans hround
    simpa only [Option.some.injEq, Response.mk.injEq, true_and] using heq
  have hlength := congrArg List.length hbody
  have hfour : (bytes "\r\n\r\n").length = 4 := by decide
  rw [List.length_append, hfour] at hlength
  omega

/-- A response that is not found, with a body of two lines. -/
def notFound : HttpResponse :=
  { new with nStatus := 404, strContentType := bytes "text/plain", strBody := bytes "not\r\nfound" }

theorem inScope_notFound : InScope notFound where
  status := by decide
  not_bodiless := by decide
  version := rfl
  contentType_ne_nil := by decide
  one_line := by decide
  head b hb := by
    cases hb
    rfl
  last b hb := by
    cases hb
    rfl

theorem format_never_roundTrips_notFound :
    decode notFound.format = some ⟨404, some (bytes "text/plain"),
      bytes "not\r\nfound" ++ bytes "\r\n\r\n"⟩ ∧ ¬ notFound.RoundTrips :=
  format_never_roundTrips inScope_notFound

/-- An empty body is read as four bytes. -/
theorem not_roundTrips_empty : ¬ RoundTrips new := by
  have hread : decode new.format =
      some ⟨200, some (bytes "application/json"), [13, 10, 13, 10]⟩ := by decide +kernel
  intro hround
  have hbody := hread.symm.trans hround
  cases hbody

end HttpResponse
end SomoNet
