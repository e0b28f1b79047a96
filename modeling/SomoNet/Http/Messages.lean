import SomoNet.Http.Bodies

/-!
# Requests in a stream

What the parser does with the text of whole requests, one after the other on a connection. A
request is its line, headers, at most one of which says how the body is told (`Body`), and that
body.
-/

namespace SomoNet
namespace Http

variable {σ : Type*} {S : Settings σ} {p : Parser} {u : σ}

/-! ## Headers that tell the body -/

/-- A word that goes on as it should. -/
theorem matchWord_goes {word : Bytes} (matched missed : HeaderState) {c : UInt8}
    (hlt : p.index + 1 < word.length) (hc : c = word[p.index + 1]) :
    p.matchWord word matched missed c = { p with
      index := p.index + 1
      header_state := if p.index + 1 = word.length - 1 then matched else p.header_state } := by
  have hgoes : ¬(p.index + 1 > word.length ∨ c ≠ word.getD (p.index + 1) 0) := by
    rw [List.getD_eq_getElem?_getD, List.getElem?_eq_getElem hlt, Option.getD_some, ← hc]
    rintro (h | h)
    · omega
    · exact h rfl
  simp only [Parser.matchWord]
  rw [if_neg hgoes]

/-- The word `chunked` in a transfer encoding, from its second letter on. -/
theorem foldlM_chunked {q : Parser} (hs : q.header_state = .h_matching_transfer_encoding_chunked)
    {rest : Bytes} (hne : rest ≠ [])
    (hrest : rest.map lower = (bytes "chunked").drop (q.index + 1)) :
    ∃ q', rest.foldlM header_value_char q = .ok q' ∧ q.SameMessage q' ∧
      q'.header_state = .h_transfer_encoding_chunked := by
  induction rest generalizing q with
  | nil => exact absurd rfl hne
  | cons ch rest ih =>
    -- there is a letter of `chunked` left to agree with
    have hlt : q.index + 1 < (bytes "chunked").length := by
      by_contra hle
      rw [List.drop_eq_nil_of_le (by omega)] at hrest
      cases hrest
    rw [List.map_cons, List.drop_eq_getElem_cons hlt] at hrest
    obtain ⟨hch, htail⟩ := List.cons.inj hrest
    have hchar : header_value_char q ch = .ok { q with
        index := q.index + 1
        header_state :=
          if q.index + 1 = (bytes "chunked").length - 1 then .h_transfer_encoding_chunked
          else q.header_state } := by
      simp only [header_value_char, hs]
      rw [matchWord_goes _ _ hlt hch, hs]
    rw [List.foldlM_cons, hchar]
    show ∃ q', rest.foldlM header_value_char _ = .ok q' ∧ _
    by_cases hlast : q.index + 1 = (bytes "chunked").length - 1
    · -- the last letter
      have hnil : rest = [] := by
        rw [List.drop_eq_nil_of_le (by omega)] at htail
        exact List.map_eq_nil_iff.mp htail
      subst hnil
      exact ⟨_, rfl, ⟨rfl, rfl, rfl, rfl, rfl, rfl, rfl⟩, if_pos hlast⟩
    · have hmore : rest ≠ [] := by
        rintro rfl
        have : ((bytes "chunked").drop (q.index + 1 + 1)).length = 0 := by rw [← htail]; rfl
        rw [List.length_drop] at this
        omega
      rw [if_neg hlast]
      obtain ⟨q', hq', hsame, hdone⟩ := ih
        (q := { q with index := q.index + 1, header_state := q.header_state }) hs hmore htail
      exact ⟨q', hq', ⟨hsame.method, hsame.errno, hsame.length, hsame.flags, hsame.major, hsame.minor,
        hsame.upgrade⟩, hdone⟩

/-- A transfer encoding that is `chunked` and nothing else. -/
theorem valued_chunked (hs : p.header_state = .h_transfer_encoding) {value : Bytes}
    (hvalue : value.map lower = bytes "chunked") :
    ∃ q, p.valued value = .ok q ∧ p.SameMessage q ∧
      q.header_state = .h_transfer_encoding_chunked := by
  cases value with
  | nil => cases hvalue
  | cons ch rest =>
    obtain ⟨hch, hrest⟩ := List.cons.inj (show lower ch :: rest.map lower = chr 'c' :: bytes "hunked" from hvalue)
    have hfirst : header_value_first p ch = .ok { p with
        state := .s_header_value, index := 0
        header_state := .h_matching_transfer_encoding_chunked } := by
      simp only [header_value_first, hs]
      rw [if_pos hch]
    have hne : rest ≠ [] := by
      rintro rfl
      cases hrest
    obtain ⟨q, hq, hsame, hdone⟩ := foldlM_chunked (q := { p with
      state := .s_header_value, index := 0
      header_state := .h_matching_transfer_encoding_chunked }) rfl hne hrest
    refine ⟨q, ?_, ⟨hsame.method, hsame.errno, hsame.length, hsame.flags, hsame.major, hsame.minor,
      hsame.upgrade⟩, hdone⟩
    show header_value_first p ch >>= _ = _
    rw [hfirst]
    exact hq

/-- A body whose length is told. -/
structure SizedBody where
  line : HeaderLine
  data : Bytes
  name : line.name.map token = bytes "content-length"
  value_ne : line.value ≠ []
  digits : ∀ ch ∈ line.value, isNum ch = true
  worth : Numerals.value 10 line.value = data.length

/-- A body in chunks, with the header lines that follow the last one. -/
structure ChunkedBody where
  line : HeaderLine
  chunks : List Chunk
  last : SizeLine 0
  trailer : List HeaderLine
  name : line.name.map token = bytes "transfer-encoding"
  value : line.value.map lower = bytes "chunked"
  plain : ∀ l ∈ trailer, l.Plain

/-- The body of a request, with the header that tells it. -/
inductive Body
  | none
  | sized (b : SizedBody)
  | chunked (b : ChunkedBody)

namespace Body

/-- The headers that tell the body. -/
def lines : Body → List HeaderLine
  | none => []
  | sized b => [b.line]
  | chunked b => [b.line]

/-- What the parser knows of the body at the end of the headers. -/
def told (p : Parser) : Body → Parser
  | none => p
  | sized b => { p with
      content_length := b.data.length, flags := { p.flags with F_CONTENTLENGTH := true } }
  | chunked _ => { p with
      flags := { p.flags with F_TRANSFER_ENCODING := true, F_CHUNKED := true } }

/-- The text of the body. -/
def text : Body → Bytes
  | none => []
  | sized b => b.data
  | chunked b =>
    b.chunks.flatMap Chunk.text ++
      (b.last.text ++ (b.trailer.flatMap HeaderLine.text ++ [CR, LF]))

/-- The header lines after the last chunk. -/
def trailer : Body → List HeaderLine
  | chunked b => b.trailer
  | _ => []

/-- What is reported of the body. -/
def calls : Body → List Event
  | none => []
  | sized b => if b.data = [] then [] else [.body b.data]
  | chunked b => (b.chunks.map fun c => .body c.data) ++ b.trailer.flatMap HeaderLine.calls

/-- The header bytes that are counted when the body ends. -/
def left : Body → ℕ
  | chunked b => (b.trailer.flatMap HeaderLine.text).length + 2
  | _ => 0

/-- The sizes in a body can be kept, and its lines are not too long. -/
def Fits : Body → Prop
  | none => True
  | sized b => b.data.length + 10 ≤ ULLONG_MAX
  | chunked b =>
    (∀ c ∈ b.chunks, c.Fits) ∧ b.last.text.length ≤ max_header_size ∧
      (b.trailer.flatMap HeaderLine.text).length + 2 ≤ max_header_size

instance : (b : Body) → Decidable b.Fits
  | none => isTrue trivial
  | sized b => inferInstanceAs (Decidable (b.data.length + 10 ≤ ULLONG_MAX))
  | chunked b => inferInstanceAs (Decidable ((∀ c ∈ b.chunks, c.Fits) ∧ _ ≤ _ ∧ _ ≤ _))

end Body

/-- A header whose name is recognised. -/
theorem named_state_of_name (p : Parser) {l : HeaderLine} {h : HeaderState}
    (hname : HeaderState.ofName (l.name.map token) = some h) :
    (p.named l.name).header_state = h := by
  have hrecognised := named_recognised p l.name_ne l.name_token
  rw [hname, HeaderState.recognised] at hrecognised
  split at hrecognised
  · exact Option.some.inj hrecognised
  · cases hrecognised

/-- The header that tells the body. -/
theorem Ready.scan_told {r : Execution σ} (h : Ready S r p u) {b : Body} (hb : b.Fits)
    (hfirst : p.flags.F_CONTENTLENGTH = false)
    (hmax : p.nread + (b.lines.flatMap HeaderLine.text).length ≤ max_header_size) :
    ∃ q, Ready S (r.scan S (b.lines.flatMap HeaderLine.text)) q
        (S.callAll u (b.lines.flatMap HeaderLine.calls)) ∧
      (b.told p).SameMessage q ∧
      q.nread = p.nread + (b.lines.flatMap HeaderLine.text).length := by
  cases b with
  | none => exact ⟨p, h, .refl p, rfl⟩
  | sized b =>
    simp only [Body.lines, List.flatMap_cons, List.flatMap_nil, List.append_nil] at hmax ⊢
    -- the length goes into `content_length`, and its flag is set
    have hstate : (p.named b.line.name).header_state = .h_content_length :=
      named_state_of_name p (by rw [b.name]; rfl)
    have hnamed : p.SameMessage (p.named b.line.name) :=
      named_sameMessage p b.line.name_ne b.line.name_token (by rw [b.name]; decide)
    obtain ⟨q, hq, hsame, hnum⟩ := valued_length hstate (by rw [hnamed.flags]; exact hfirst)
      b.value_ne b.digits (by rw [b.worth]; exact hb)
    have hflags : q.header_state.finish q.flags = q.flags := by rw [hnum]; rfl
    rw [h.scan_text b.line hmax]
    refine ⟨_, scan_line b.line h.state hq (fun hnil => absurd hnil b.value_ne) hmax, ?_, rfl⟩
    refine ⟨hsame.method.trans hnamed.method, hsame.errno.trans hnamed.errno, ?_, ?_,
      hsame.major.trans hnamed.major, hsame.minor.trans hnamed.minor,
      hsame.upgrade.trans hnamed.upgrade⟩
    · show q.content_length = b.data.length
      rw [hsame.length, b.worth]
    · show q.header_state.finish q.flags = { p.flags with F_CONTENTLENGTH := true }
      rw [hflags, hsame.flags, hnamed.flags]
  | chunked b =>
    simp only [Body.lines, List.flatMap_cons, List.flatMap_nil, List.append_nil] at hmax ⊢
    -- the name sets one flag and the value another
    have hstate : (p.named b.line.name).header_state = .h_transfer_encoding :=
      named_state_of_name p (by rw [b.name]; rfl)
    obtain ⟨hs, i, hnamed⟩ := named_eq p b.line.name_ne b.line.name_token
    obtain ⟨q, hq, hsame, hdone⟩ := valued_chunked hstate b.value
    have hflags : q.header_state.finish q.flags = { q.flags with F_CHUNKED := true } := by
      rw [hdone]
      rfl
    rw [h.scan_text b.line hmax]
    refine ⟨_, scan_line b.line h.state hq (fun _ => ?_) hmax, ?_, rfl⟩
    · rw [hstate]
      decide
    rw [hnamed, b.name, decide_eq_true (List.prefix_refl _), Bool.or_true] at hsame
    refine ⟨hsame.method, hsame.errno, hsame.length, ?_, hsame.major, hsame.minor, hsame.upgrade⟩
    show q.header_state.finish q.flags = _
    rw [hflags, hsame.flags]
    rfl

/-! ## The end of the headers -/

/-- The parser when `on_headers_complete` is called. -/
def Parser.asked (p : Parser) : Parser :=
  { p with
    state := .s_headers_done
    nread := p.nread + 2
    upgrade := (p.flags.F_UPGRADE ∧ p.flags.F_CONNECTION_UPGRADE) ∨ p.method = .CONNECT }

theorem Ready.scan_end {r : Execution σ} (h : Ready S r p u) (hmax : p.nread + 2 ≤ max_header_size) :
    r.scan S [CR, LF] = (⟨⟨{ p with
      state := .s_headers_almost_done, nread := p.nread + 1 }, none, 0, 0⟩, false, u⟩ :
        Execution σ).step S LF := by
  have hcr : (Execution.between p u).step S CR = Execution.between { p with
      state := .s_headers_almost_done, nread := p.nread + 1 } u := by
    refine step_ok S u (by rw [h.state]; rfl) (by omega) ?_
    simp only [dispatch, h.state, show (p.count (p.nread + 1)).state = p.state from rfl,
      header_field_start]
    rfl
  rw [h.scan (by omega) (by decide) (by decide) [LF], Execution.scan_cons, Execution.scan_cons,
    Execution.scan_nil, hcr]
  rfl

theorem headers_almost_done_ask {e : Exec} (htrailing : e.parser.flags.F_TRAILING = false)
    (hframed : ¬(e.parser.flags.F_TRANSFER_ENCODING = true ∧
      e.parser.flags.F_CONTENTLENGTH = true)) :
    headers_almost_done e LF = .ask [] { e with
      parser := { e.parser with
        state := .s_headers_done
        upgrade := (e.parser.flags.F_UPGRADE ∧ e.parser.flags.F_CONNECTION_UPGRADE) ∨
          e.parser.method = .CONNECT } } := by
  unfold headers_almost_done
  simp only
  rw [if_neg (by decide), if_neg (by simp [htrailing]), if_neg hframed]

theorem headers_almost_done_trailing {e : Exec} (htrailing : e.parser.flags.F_TRAILING = true) :
    headers_almost_done e LF = e.ending (message_done e.parser) := by
  unfold headers_almost_done
  simp only
  rw [if_neg (by decide), if_pos htrailing]

/-- The empty line after the headers. -/
theorem Ready.scan_headers {r : Execution σ} (h : Ready S r p u)
    (hmax : p.nread + 2 ≤ max_header_size) (htrailing : p.flags.F_TRAILING = false)
    (hframed : ¬(p.flags.F_TRANSFER_ENCODING = true ∧ p.flags.F_CONTENTLENGTH = true)) {answer : ℤ}
    (hS : S.on_headers_complete p.asked u = (u, answer)) :
    let x := headers_complete answer p.asked LF
    r.scan S [CR, LF] = ⟨⟨x.parser, none, 0, 0⟩, x.stop, S.callAll u x.calls⟩ := by
  rw [h.scan_end hmax]
  have hfeed := feed_between (p := { p with state := .s_headers_almost_done, nread := p.nread + 1 })
    rfl (by show p.nread + 1 + 1 ≤ _; omega) LF
  simp only [dispatch, Parser.count] at hfeed
  rw [headers_almost_done_ask (by exact htrailing) (by exact hframed)] at hfeed
  unfold Execution.step
  rw [if_neg (by simp), hfeed]
  show Execution.headers S ⟨p.asked, none, 0, 0⟩ u LF = _
  unfold Execution.headers
  rw [hS]
  rfl

/-- The empty line after a trailer. -/
theorem Ready.scan_trailer {r : Execution σ} (h : Ready S r p u)
    (hmax : p.nread + 2 ≤ max_header_size) (htrailing : p.flags.F_TRAILING = true) :
    Completed (r.scan S [CR, LF]) { p with nread := p.nread + 2 } (S.call u .message_complete) := by
  rw [h.scan_end hmax]
  have hfeed := feed_between (p := { p with state := .s_headers_almost_done, nread := p.nread + 1 })
    rfl (by show p.nread + 1 + 1 ≤ _; omega) LF
  simp only [dispatch, Parser.count] at hfeed
  rw [headers_almost_done_trailing (by exact htrailing)] at hfeed
  unfold Execution.step
  rw [if_neg (by simp), hfeed]
  simp only [Exec.ending, message_done, Parser.complete]
  cases hup : p.upgrade with
  | true => exact ⟨rfl, fun h => (by cases h), fun _ => rfl⟩
  | false => exact ⟨rfl, fun _ => rfl, fun h => by cases h⟩

/-! ## A request -/

/-- The text of a request, and what makes it one. -/
structure RequestText where
  method : Method
  url : Bytes
  major : UInt8
  minor : UInt8
  before : List HeaderLine
  body : Body
  after : List HeaderLine
  method_ne : method ≠ .CONNECT
  url_ends : (urlState url).endsUrl = true
  major_num : isNum major = true
  minor_num : isNum minor = true
  plain_before : ∀ l ∈ before, l.Plain
  plain_after : ∀ l ∈ after, l.Plain

namespace RequestText

def headers (r : RequestText) : List HeaderLine := r.before ++ (r.body.lines ++ r.after)

/-- The request line and the headers. -/
def lines (r : RequestText) : Bytes :=
  requestLine r.method r.url r.major r.minor ++ r.headers.flatMap HeaderLine.text

def text (r : RequestText) : Bytes := r.lines ++ ([CR, LF] ++ r.body.text)

/-- What is reported before the body. -/
def headCalls (r : RequestText) : List Event :=
  .url r.method r.url :: r.headers.flatMap HeaderLine.calls

/-- What is reported of a request. -/
def calls (r : RequestText) : List Event := r.headCalls ++ (r.body.calls ++ [.message_complete])

/-- After `n` header bytes that have been counted, the parser takes the request. -/
def Fits (r : RequestText) (n : ℕ) : Prop :=
  n + r.lines.length + 2 ≤ max_header_size ∧ r.body.Fits

instance (r : RequestText) (n : ℕ) : Decidable (r.Fits n) := inferInstanceAs (Decidable (_ ∧ _))

/-- The connection goes on after the request. -/
structure Persistent (r : RequestText) : Prop where
  before : ∀ l ∈ r.before, l.Silent
  after : ∀ l ∈ r.after, l.Silent
  trailer : ∀ l ∈ r.body.trailer, l.Silent
  major : 0 < digit r.major
  minor : 0 < digit r.minor

end RequestText

/-- The user lets the parser go on after the headers, and does not have it skip a body. -/
def Settings.Hears (S : Settings σ) (u : σ) (r : RequestText) : Prop :=
  ∃ answer, (answer = 0 ∨ answer = 1 ∧ r.body = .none) ∧
    ∀ p, S.on_headers_complete p (S.callAll u r.headCalls) = (S.callAll u r.headCalls, answer)

theorem told_sameHead {q : Parser} (h : p.SameHead q) (b : Body) : (b.told p).SameHead (b.told q) := by
  cases b with
  | none => exact h
  | sized b =>
    exact ⟨h.method, h.errno, rfl, h.chunked, h.transfer, h.trailing, h.skipbody, rfl⟩
  | chunked b =>
    exact ⟨h.method, h.errno, h.length, rfl, rfl, h.trailing, h.skipbody, h.hasLength⟩

theorem told_sameMessage {q : Parser} (h : p.SameMessage q) (b : Body) :
    (b.told p).SameMessage (b.told q) := by
  have hflags := h.flags
  cases b with
  | none => exact h
  | sized b =>
    refine ⟨h.method, h.errno, rfl, ?_, h.major, h.minor, h.upgrade⟩
    show { q.flags with F_CONTENTLENGTH := true } = { p.flags with F_CONTENTLENGTH := true }
    rw [hflags]
  | chunked b =>
    refine ⟨h.method, h.errno, h.length, ?_, h.major, h.minor, h.upgrade⟩
    show { q.flags with F_TRANSFER_ENCODING := true, F_CHUNKED := true } =
      { p.flags with F_TRANSFER_ENCODING := true, F_CHUNKED := true }
    rw [hflags]

/-- The request line and the headers. -/
theorem scan_lines (hs : p.state = .s_start_req) (r : RequestText) (hfits : r.Fits p.nread) :
    ∃ q, Ready S ((Execution.between p u).scan S r.lines) q (S.callAll u r.headCalls) ∧
      (r.body.told (p.lined r.method r.url r.major r.minor)).SameHead q ∧
      (r.Persistent → (r.body.told (p.lined r.method r.url r.major r.minor)).SameMessage q) ∧
      q.nread = p.nread + r.lines.length := by
  obtain ⟨hmax, hb⟩ := hfits
  have hlength : r.lines.length = (requestLine r.method r.url r.major r.minor).length +
      ((r.before.flatMap HeaderLine.text).length +
        ((r.body.lines.flatMap HeaderLine.text).length +
          (r.after.flatMap HeaderLine.text).length)) := by
    simp [RequestText.lines, RequestText.headers, List.flatMap_append]
  let p₀ := p.lined r.method r.url r.major r.minor
  have hn₀ : p₀.nread = p.nread + (requestLine r.method r.url r.major r.minor).length := rfl
  have hready : Ready S (Execution.between p₀ (S.call u (.url r.method r.url))) p₀
      (S.call u (.url r.method r.url)) := ⟨rfl, fun _ _ _ _ => rfl⟩
  obtain ⟨q₁, hq₁, hsame₁, hsilent₁, hn₁⟩ := hready.scan_lines r.plain_before (by omega)
  obtain ⟨q₂, hq₂, hsame₂, hn₂⟩ := hq₁.scan_told hb (by rw [hsame₁.hasLength]; rfl) (by omega)
  obtain ⟨q₃, hq₃, hsame₃, hsilent₃, hn₃⟩ := hq₂.scan_lines r.plain_after (by omega)
  refine ⟨q₃, ?_, ?_, fun hr => ?_, by omega⟩
  · unfold RequestText.lines RequestText.headCalls RequestText.headers
    rw [Execution.scan_append, scan_requestLine hs r.method_ne r.url_ends r.major_num
      r.minor_num (by omega)]
    simp only [List.flatMap_append, Execution.scan_append, Settings.callAll_cons,
      Settings.callAll_append]
    exact hq₃
  · exact ((told_sameHead hsame₁ r.body).trans hsame₂.sameHead).trans hsame₃
  · exact ((told_sameMessage (hsilent₁ hr.before) r.body).trans hsame₂).trans (hsilent₃ hr.after)

/-! ## Where the headers are complete -/

theorem hasBody_eq_false (h : p.hasBody = false) :
    p.flags.F_CHUNKED = false ∧ (p.content_length = 0 ∨ p.content_length = ULLONG_MAX) := by
  unfold Parser.hasBody at h
  rw [Bool.or_eq_false_iff, Bool.and_eq_false_iff] at h
  obtain ⟨hchunked, hlength⟩ := h
  refine ⟨hchunked, hlength.imp (fun h => ?_) (fun h => ?_)⟩
  · have := of_decide_eq_false h
    omega
  · exact not_not.mp (of_decide_eq_false h)

/-- A request without a body, or one whose body is not read. -/
theorem headers_done_complete (h : p.flags.F_SKIPBODY = true ∨
    p.hasBody = false ∧ p.flags.F_TRANSFER_ENCODING = false) :
    headers_done p LF = Parser.complete { p with nread := 0 } p.upgrade := by
  unfold headers_done
  rw [if_neg (by decide)]
  simp only
  cases hup : p.upgrade with
  | true =>
    rw [if_pos]
    refine ⟨rfl, ?_⟩
    rcases h with hskip | ⟨hbody, -⟩
    · exact Or.inr (Or.inl hskip)
    · refine Or.inr (Or.inr ?_)
      show ¬p.hasBody = true
      simp [hbody]
  | false =>
    rw [if_neg (by simp)]
    rcases h with hskip | ⟨hbody, htransfer⟩
    · rw [if_pos hskip]
    · obtain ⟨hchunked, hlength⟩ := hasBody_eq_false hbody
      split
      · rfl
      rw [if_neg (by simp [hchunked]), if_neg (by simp [htransfer])]
      split
      · rfl
      next hzero =>
        rw [if_neg (not_not.mpr (hlength.resolve_left hzero))]

/-- A request whose body is read. -/
theorem headers_done_body (hm : p.method ≠ .CONNECT) (hskip : p.flags.F_SKIPBODY = false)
    (hbody : p.hasBody = true) (htransfer : p.flags.F_CHUNKED = p.flags.F_TRANSFER_ENCODING) :
    headers_done p LF = ⟨{ p with
      nread := 0
      state := if p.flags.F_CHUNKED then .s_chunk_size_start else .s_body_identity }, false, false⟩ := by
  unfold headers_done
  rw [if_neg (by decide)]
  simp only
  have hbody' : Parser.hasBody { p with nread := 0 } = true := hbody
  rw [if_neg (by simp [hm, hskip, hbody']), if_neg (by simp [hskip])]
  cases hchunked : p.flags.F_CHUNKED with
  | true => rw [if_pos rfl, if_pos rfl]
  | false =>
    rw [hchunked] at htransfer
    unfold Parser.hasBody at hbody
    rw [hchunked, Bool.false_or, Bool.and_eq_true] at hbody
    obtain ⟨hpos, hknown⟩ := hbody
    have hpos := of_decide_eq_true hpos
    have hknown := of_decide_eq_true hknown
    rw [if_neg (by simp), if_neg (by simp [← htransfer]), if_neg (by omega), if_pos hknown]
    rfl

/-- The parser keeps the connection for another request. -/
def Parser.persists (p : Parser) : Prop := p.upgrade = false ∧ p.should_keep_alive = true

theorem persists_of_flags (hup : p.upgrade = false) (hclose : p.flags.F_CONNECTION_CLOSE = false)
    (hmajor : 0 < p.http_major) (hminor : 0 < p.http_minor) : p.persists := by
  refine ⟨hup, ?_⟩
  unfold Parser.should_keep_alive
  rw [if_pos ⟨hmajor, hminor⟩, hclose]
  rfl

/-- The end of a message, once it is found. -/
theorem completed_of_complete (p : Parser) (u : σ) :
    let x := p.complete p.upgrade
    Completed (⟨⟨x.parser, none, 0, 0⟩, x.stop, S.callAll u x.calls⟩ : Execution σ) p
      (S.call u .message_complete) := by
  refine ⟨rfl, fun h => ?_, fun h => h⟩
  unfold Parser.complete Execution.between
  rw [h]
  rfl

/-- A body in chunks. -/
theorem scan_chunkedBody (hs : p.state = .s_chunk_size_start) (hn : p.nread = 0) {b : ChunkedBody}
    (hb : (Body.chunked b).Fits) :
    ∃ q, Completed ((Execution.between p u).scan S (Body.chunked b).text) q
        (S.callAll u ((Body.chunked b).calls ++ [.message_complete])) ∧
      ((∀ l ∈ b.trailer, l.Silent) → q.upgrade = p.upgrade ∧
        q.flags.F_CONNECTION_CLOSE = p.flags.F_CONNECTION_CLOSE ∧ q.http_major = p.http_major ∧
        q.http_minor = p.http_minor) ∧
      q.nread = (Body.chunked b).left := by
  obtain ⟨hchunks, hlast, htrailer⟩ := hb
  obtain ⟨k, hk⟩ := scan_chunks (S := S) (u := u) hs hn hchunks
  let q₀ : Parser := Parser.chunked { p with content_length := k } 0
  let u₀ := S.callAll u (b.chunks.map fun c => .body c.data)
  have hsize : (Execution.between { p with content_length := k } u₀).scan S b.last.text =
      Execution.between q₀ u₀ :=
    scan_size (by exact hs) b.last (by decide) (by show p.nread + _ ≤ _; omega)
  have hready : Ready S (Execution.between q₀ u₀) q₀ u₀ := ⟨rfl, fun _ _ _ _ => rfl⟩
  obtain ⟨q, hq, hsame, hsilent, hn'⟩ := hready.scan_lines b.plain (by show 0 + _ ≤ _; omega)
  have hn' : q.nread = (b.trailer.flatMap HeaderLine.text).length := by
    rw [hn']
    exact Nat.zero_add _
  have hdone := hq.scan_trailer (by omega) (by rw [hsame.trailing]; rfl)
  refine ⟨{ q with nread := q.nread + 2 }, ?_, fun hall => ?_, by rw [hn']; rfl⟩
  · unfold Body.text Body.calls
    rw [Execution.scan_append, hk, Execution.scan_append, hsize, Execution.scan_append,
      Settings.callAll_append, Settings.callAll_append]
    exact hdone
  · have hsame' := hsilent hall
    refine ⟨hsame'.upgrade, ?_, hsame'.major, hsame'.minor⟩
    rw [hsame'.flags]
    rfl

/-! ## What follows the headers -/

/-- What is left of a message, as far as it decides whether the connection goes on. -/
structure Parser.SameEnd (p q : Parser) : Prop where
  upgrade : q.upgrade = p.upgrade
  close : q.flags.F_CONNECTION_CLOSE = p.flags.F_CONNECTION_CLOSE
  major : q.http_major = p.http_major
  minor : q.http_minor = p.http_minor

/-- The parser once `on_headers_complete` has answered. -/
def Execution.answered (S : Settings σ) (answer : ℤ) (p : Parser) (u : σ) : Execution σ :=
  let x := headers_complete answer p LF
  ⟨⟨x.parser, none, 0, 0⟩, x.stop, S.callAll u x.calls⟩

theorem headers_complete_answer_zero (p : Parser) : headers_complete 0 p LF = headers_done p LF := if_pos rfl

theorem answered_body (hm : p.method ≠ .CONNECT) (hskip : p.flags.F_SKIPBODY = false)
    (hbody : p.hasBody = true) (htransfer : p.flags.F_CHUNKED = p.flags.F_TRANSFER_ENCODING) :
    Execution.answered S 0 p u = Execution.between { p with
      nread := 0
      state := if p.flags.F_CHUNKED then .s_chunk_size_start else .s_body_identity } u := by
  unfold Execution.answered
  rw [headers_complete_answer_zero, headers_done_body hm hskip hbody htransfer]
  rfl

/-- A request without a body, which the user may also have the parser skip. -/
theorem answered_none (hbody : p.hasBody = false) (htransfer : p.flags.F_TRANSFER_ENCODING = false)
    {answer : ℤ} (hanswer : answer = 0 ∨ answer = 1) :
    ∃ q, Completed (Execution.answered S answer p u) q (S.call u .message_complete) ∧ p.SameEnd q ∧
      q.nread = 0 := by
  unfold Execution.answered
  rcases hanswer with rfl | rfl
  · rw [headers_complete_answer_zero, headers_done_complete (Or.inr ⟨hbody, htransfer⟩)]
    exact ⟨_, completed_of_complete { p with nread := 0 } u, ⟨rfl, rfl, rfl, rfl⟩, rfl⟩
  · have hskips : headers_complete 1 p LF = headers_done { p with
        flags := { p.flags with F_SKIPBODY := true } } LF := rfl
    rw [hskips, headers_done_complete (Or.inl rfl)]
    exact ⟨_, completed_of_complete { p with
      flags := { p.flags with F_SKIPBODY := true }, nread := 0 } u, ⟨rfl, rfl, rfl, rfl⟩, rfl⟩

/-- A body whose length is told, which may be zero. -/
theorem answered_sized (hm : p.method ≠ .CONNECT) (hskip : p.flags.F_SKIPBODY = false)
    (hchunked : p.flags.F_CHUNKED = false) (htransfer : p.flags.F_TRANSFER_ENCODING = false)
    {b : SizedBody} (hlength : p.content_length = b.data.length) (hb : (Body.sized b).Fits) :
    ∃ q, Completed ((Execution.answered S 0 p u).scan S (Body.sized b).text) q
        (S.callAll u ((Body.sized b).calls ++ [.message_complete])) ∧ p.SameEnd q ∧ q.nread = 0 := by
  have hmax : b.data.length + 10 ≤ ULLONG_MAX := hb
  simp only [Body.text, Body.calls]
  by_cases hdata : b.data = []
  · -- the length is zero
    have hbody : p.hasBody = false := by
      unfold Parser.hasBody
      rw [hchunked, hlength, hdata]
      rfl
    rw [if_pos hdata, hdata]
    exact answered_none hbody htransfer (Or.inl rfl)
  · have hpos : b.data.length ≠ 0 := fun h => hdata (List.eq_nil_of_length_eq_zero h)
    have hbody : p.hasBody = true := by
      unfold Parser.hasBody
      rw [hchunked, hlength, Bool.false_or, Bool.and_eq_true, decide_eq_true_iff, decide_eq_true_iff]
      omega
    rw [if_neg hdata, answered_body hm hskip hbody (hchunked.trans htransfer.symm), hchunked]
    exact ⟨_, scan_identity (p := { p with nread := 0, state := .s_body_identity }) rfl hdata hlength,
      ⟨rfl, rfl, rfl, rfl⟩, rfl⟩

/-- A body in chunks; its trailer may change what decides whether the connection goes on. -/
theorem answered_chunked (hm : p.method ≠ .CONNECT) (hskip : p.flags.F_SKIPBODY = false)
    (hchunked : p.flags.F_CHUNKED = true) (htransfer : p.flags.F_TRANSFER_ENCODING = true)
    {b : ChunkedBody} (hb : (Body.chunked b).Fits) :
    ∃ q, Completed ((Execution.answered S 0 p u).scan S (Body.chunked b).text) q
        (S.callAll u ((Body.chunked b).calls ++ [.message_complete])) ∧
      ((∀ l ∈ b.trailer, l.Silent) → p.SameEnd q) ∧ q.nread = (Body.chunked b).left := by
  have hbody : p.hasBody = true := by
    unfold Parser.hasBody
    rw [hchunked, Bool.true_or]
  rw [answered_body hm hskip hbody (hchunked.trans htransfer.symm), hchunked]
  obtain ⟨q, hq, hsilent, hn⟩ := scan_chunkedBody (S := S) (u := u)
    (p := { p with nread := 0, state := .s_chunk_size_start }) rfl rfl hb
  refine ⟨q, hq, fun h => ?_, hn⟩
  obtain ⟨hup, hclose, hmajor, hminor⟩ := hsilent h
  exact ⟨hup, hclose, hmajor, hminor⟩

/-- The connection goes on if the request says so. -/
theorem persists_of_sameEnd {p q q' : Parser} {r : RequestText} (hr : r.Persistent)
    (hsame : (r.body.told (p.lined r.method r.url r.major r.minor)).SameMessage q)
    (hm : q.method ≠ .CONNECT) (hend : q.asked.SameEnd q') : q'.persists := by
  have hflags : q.flags = (r.body.told (p.lined r.method r.url r.major r.minor)).flags := hsame.flags
  have hmajor : q.asked.http_major = q.http_major := rfl
  have hminor : q.asked.http_minor = q.http_minor := rfl
  have hclose : q.asked.flags = q.flags := rfl
  refine persists_of_flags ?_ ?_ ?_ ?_
  · rw [hend.upgrade]
    unfold Parser.asked
    simp only [hm, or_false, decide_eq_false_iff_not]
    rw [hflags]
    cases r.body <;> simp [Body.told, Parser.lined]
  · rw [hend.close, hclose, hflags]
    cases r.body <;> rfl
  · rw [hend.major, hmajor, hsame.major]
    cases r.body <;> exact hr.major
  · rw [hend.minor, hminor, hsame.minor]
    cases r.body <;> exact hr.minor

/-- **A request is read back**: its url, its headers and its body are reported as they stand, in
order, and nothing else is. -/
theorem scan_request (hs : p.state = .s_start_req) {r : RequestText} (hfits : r.Fits p.nread)
    (hS : S.Hears u r) :
    ∃ q, Completed ((Execution.between p u).scan S r.text) q (S.callAll u r.calls) ∧
      (r.Persistent → q.persists) ∧ q.nread = r.body.left := by
  obtain ⟨answer, hanswer, hhears⟩ := hS
  obtain ⟨q, hq, hsame, hknown, hn⟩ := scan_lines (S := S) (u := u) hs r hfits
  obtain ⟨hmax, hb⟩ := hfits
  have htrailing : q.flags.F_TRAILING = false := by
    rw [hsame.trailing]
    cases r.body <;> rfl
  have hskip : q.flags.F_SKIPBODY = false := by
    rw [hsame.skipbody]
    cases r.body <;> rfl
  have hmethod : q.method ≠ .CONNECT := by
    rw [hsame.method]
    cases r.body <;> exact r.method_ne
  have hframed : ¬(q.flags.F_TRANSFER_ENCODING = true ∧ q.flags.F_CONTENTLENGTH = true) := by
    rw [hsame.transfer, hsame.hasLength]
    cases r.body <;> simp [Body.told, Parser.lined]
  have hend : ((Execution.between p u).scan S r.lines).scan S [CR, LF] =
      Execution.answered S answer q.asked (S.callAll u r.headCalls) :=
    hq.scan_headers (by omega) htrailing hframed (hhears _)
  have hpersists : r.Persistent → ∀ q', q.asked.SameEnd q' → q'.persists := fun hr q' =>
    persists_of_sameEnd hr (hknown hr) hmethod
  -- an answer other than 0 makes the parser skip the body, so there must be none
  have hzero : r.body ≠ .none → answer = 0 := fun hne => hanswer.resolve_right fun h => hne h.2
  unfold RequestText.text RequestText.calls
  rw [Execution.scan_append, Execution.scan_append, hend, Settings.callAll_append]
  cases hbody : r.body with
  | none =>
    rw [hbody] at hsame
    have hnone : q.asked.hasBody = false := by
      unfold Parser.hasBody Parser.asked
      rw [hsame.chunked, hsame.length]
      show (false || (decide (ULLONG_MAX > 0) && decide (ULLONG_MAX ≠ ULLONG_MAX))) = false
      decide
    obtain ⟨q', hq', hsame', hn'⟩ :=
      answered_none (S := S) (u := S.callAll u r.headCalls) hnone hsame.transfer (hanswer.imp_right And.left)
    exact ⟨q', hq', fun hr => hpersists hr q' hsame', hn'⟩
  | sized b =>
    obtain rfl := hzero (by rw [hbody]; simp)
    rw [hbody] at hsame hb
    obtain ⟨q', hq', hsame', hn'⟩ := answered_sized (p := q.asked) (S := S)
      (u := S.callAll u r.headCalls) hmethod hskip hsame.chunked hsame.transfer hsame.length hb
    exact ⟨q', hq', fun hr => hpersists hr q' hsame', hn'⟩
  | chunked b =>
    obtain rfl := hzero (by rw [hbody]; simp)
    rw [hbody] at hsame hb
    obtain ⟨q', hq', hsame', hn'⟩ := answered_chunked (p := q.asked) (S := S)
      (u := S.callAll u r.headCalls) hmethod hskip hsame.chunked hsame.transfer hb
    refine ⟨q', hq', fun hr => hpersists hr q' (hsame' ?_), hn'⟩
    have htrailer := hr.trailer
    rwa [hbody] at htrailer

/-! ## Requests in a stream -/

/-- The parser takes all of the requests, `n` header bytes after it has begun to count. -/
def FitAll : ℕ → List RequestText → Prop
  | _, [] => True
  | n, r :: rs => r.Fits n ∧ FitAll r.body.left rs

instance : (n : ℕ) → (rs : List RequestText) → Decidable (FitAll n rs)
  | _, [] => isTrue trivial
  | _, r :: rs =>
    have := instDecidableFitAll r.body.left rs
    inferInstanceAs (Decidable (_ ∧ _))

/-- The user hears all of the requests. -/
def Settings.HearsAll (S : Settings σ) : σ → List RequestText → Prop
  | _, [] => True
  | u, r :: rs => S.Hears u r ∧ S.HearsAll (S.callAll u r.calls) rs

/-- The text of some requests. -/
def stream (rs : List RequestText) : Bytes := rs.flatMap RequestText.text

theorem stream_ne_nil {rs : List RequestText} (h : rs ≠ []) : stream rs ≠ [] := by
  obtain ⟨r, rs, rfl⟩ := List.exists_cons_of_ne_nil h
  intro hnil
  have hlength := congrArg List.length hnil
  simp [stream, RequestText.text] at hlength

/-- Requests one after the other, the last of which may end the connection. -/
theorem scan_stream {rs : List RequestText} (hne : rs ≠ []) (hs : p.state = .s_start_req)
    (hfits : FitAll p.nread rs) (hpersist : ∀ r ∈ rs.dropLast, r.Persistent)
    (hS : S.HearsAll u rs) :
    ∃ q, Completed ((Execution.between p u).scan S (stream rs)) q
        (S.callAll u (rs.flatMap RequestText.calls)) ∧
      ((∀ r ∈ rs, r.Persistent) → q.persists) := by
  induction rs generalizing p u with
  | nil => exact absurd rfl hne
  | cons r rs ih =>
    obtain ⟨hr, hrs⟩ := hfits
    obtain ⟨hhears, hhears'⟩ := hS
    obtain ⟨q, hq, hpersists, hn⟩ := scan_request hs hr hhears
    by_cases hnil : rs = []
    · subst hnil
      refine ⟨q, ?_, fun h => hpersists (h r List.mem_cons_self)⟩
      unfold stream
      rw [List.flatMap_cons, List.flatMap_nil, List.append_nil, List.flatMap_cons, List.flatMap_nil,
        List.append_nil]
      exact hq
    · -- the parser waits for the next request, with the header bytes of a trailer counted
      rw [List.dropLast_cons_of_ne_nil hnil] at hpersist
      obtain ⟨hup, halive⟩ := hpersists (hpersist r List.mem_cons_self)
      have hnext : q.new_message = .s_start_req := by
        unfold Parser.new_message
        rw [if_pos halive]
      obtain ⟨q', hq', hpersists'⟩ := ih (p := { q with state := q.new_message })
        (u := S.callAll u r.calls) hnil hnext (by rw [← hn] at hrs; exact hrs)
        (fun r' hr' => hpersist r' (List.mem_cons_of_mem r hr')) hhears'
      refine ⟨q', ?_, fun h => hpersists' fun r' hr' => h r' (List.mem_cons_of_mem r hr')⟩
      unfold stream
      rw [List.flatMap_cons, Execution.scan_append, hq.going hup, List.flatMap_cons,
        Settings.callAll_append]
      exact hq'

theorem Completed.finish {r : Execution σ} (h : Completed r p u) : (r.finish S).2 = u := by
  cases hup : p.upgrade with
  | true =>
    unfold Execution.finish
    rw [if_pos (h.stopped hup)]
    exact h.user
  | false =>
    rw [h.going hup]
    rfl

theorem start_idle (hs : p.state = .s_start_req) : Execution.start p u = Execution.between p u := by
  unfold Execution.start Execution.between
  rw [hs]
  rfl

/-- A call with some requests. -/
theorem execute_stream {rs : List RequestText} (hne : rs ≠ []) (hs : p.state = .s_start_req)
    (herr : p.http_errno = none) (hfits : FitAll p.nread rs)
    (hpersist : ∀ r ∈ rs.dropLast, r.Persistent) (hS : S.HearsAll u rs) :
    (execute S p u (stream rs)).2 = S.callAll u (rs.flatMap RequestText.calls) := by
  obtain ⟨q, hq, -⟩ := scan_stream hne hs hfits hpersist hS
  rw [execute_eq S herr u (stream_ne_nil hne), start_idle hs]
  exact hq.finish

theorem transcript_hearsAll (cs : List Event) (rs : List RequestText) : transcript.HearsAll cs rs := by
  induction rs generalizing cs with
  | nil => trivial
  | cons r rs ih => exact ⟨⟨0, Or.inl rfl, fun _ => rfl⟩, ih _⟩

/-- A header line of a test. -/
def testLine (name value : Bytes) (hname : name ≠ [] ∧ ∀ ch ∈ name, token ch ≠ 0)
    (hvalue : (∀ ch ∈ value.head?, ch ≠ SP ∧ ch ≠ HT ∧ ch ≠ CR ∧ ch ≠ LF) ∧
      ∀ ch ∈ value.tail, isValueChar ch = true) : HeaderLine where
  name := name
  blanks := [SP]
  value := value
  name_ne := hname.1
  name_token := hname.2
  blank := by simp
  lead := hvalue.1
  rest := hvalue.2

/-- `POST /a` with a body of a given length. -/
def post_sized : RequestText where
  method := .POST
  url := bytes "/a"
  major := chr '1'
  minor := chr '1'
  before := [testLine (bytes "Host") (bytes "h") (by decide +kernel) (by decide +kernel)]
  body := .sized
    { line := testLine (bytes "Content-Length") (bytes "5") (by decide +kernel) (by decide +kernel)
      data := bytes "hello"
      name := by decide +kernel
      value_ne := by decide +kernel
      digits := by decide +kernel
      worth := by decide +kernel }
  after := []
  method_ne := by decide +kernel
  url_ends := by decide +kernel
  major_num := by decide +kernel
  minor_num := by decide +kernel
  plain_before := by decide +kernel
  plain_after := by simp

/-- `POST /b` with a body in chunks. -/
def post_chunked : RequestText where
  method := .POST
  url := bytes "/b"
  major := chr '1'
  minor := chr '1'
  before := []
  body := .chunked
    { line := testLine (bytes "Transfer-Encoding") (bytes "Chunked") (by decide +kernel)
        (by decide +kernel)
      chunks := [
        { data := bytes "hello"
          data_ne := by decide +kernel
          size := ⟨bytes "5", bytes ";x", by decide +kernel, by decide +kernel, by decide +kernel,
            by decide +kernel, by decide +kernel⟩ },
        { data := bytes "hello worlds"
          data_ne := by decide +kernel
          size := ⟨bytes "0C", [], by decide +kernel, by decide +kernel, by decide +kernel, by simp,
            by simp⟩ }]
      last := ⟨bytes "0", [], by decide +kernel, by decide +kernel, by decide +kernel, by simp,
        by simp⟩
      trailer := [testLine (bytes "T") (bytes "v") (by decide +kernel) (by decide +kernel)]
      name := by decide +kernel
      value := by decide +kernel
      plain := by decide +kernel }
  after := []
  method_ne := by decide +kernel
  url_ends := by decide +kernel
  major_num := by decide +kernel
  minor_num := by decide +kernel
  plain_before := by simp
  plain_after := by simp

/-- `GET /c`, after which the connection ends. -/
def get_last : RequestText where
  method := .GET
  url := bytes "/c"
  major := chr '1'
  minor := chr '0'
  before := [testLine (bytes "Connection") (bytes "close") (by decide +kernel) (by decide +kernel)]
  body := .none
  after := []
  method_ne := by decide +kernel
  url_ends := by decide +kernel
  major_num := by decide +kernel
  minor_num := by decide +kernel
  plain_before := by decide +kernel
  plain_after := by simp

theorem persistent_posts : ∀ r ∈ [post_sized, post_chunked], r.Persistent := by
  have hsized : post_sized.Persistent :=
    ⟨by decide, by decide, by decide, by decide, by decide⟩
  have hchunked : post_chunked.Persistent :=
    ⟨by decide, by decide, by decide, by decide, by decide⟩
  simp [hsized, hchunked]

end Http
end SomoNet
