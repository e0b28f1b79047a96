import SomoNet.Http.Execute

/-!
# What a byte can do

The parser as its user sees it: in which part of a message it is, and which callbacks a byte
can cause there. Everything about the parser that does not depend on the text of a message
is in `feed_does`, one lemma for each arm of the switch below it; whoever reasons about a
run needs no arm of the switch again.
-/

namespace SomoNet
namespace Http

/-! ## The parts of a message -/

/-- The parts of a message, in the order in which they come. -/
inductive Part
  /-- before a message, or after the last one of a connection -/
  | idle
  /-- the method and the space after it -/
  | line
  | url
  /-- from the end of the url to the end of the request line -/
  | version
  | fields
  /-- from the colon after a header field to the beginning of the next one -/
  | value
  | body
  deriving DecidableEq

def State.part : State → Part
  | s_dead | s_start_req => .idle
  | s_req_method | s_req_spaces_before_url => .line
  | s_req_schema | s_req_schema_slash | s_req_schema_slash_slash | s_req_server_start
  | s_req_server | s_req_server_with_at | s_req_path | s_req_query_string_start
  | s_req_query_string | s_req_fragment_start | s_req_fragment => .url
  | s_req_http_start | s_req_http_H | s_req_http_HT | s_req_http_HTT | s_req_http_HTTP
  | s_req_http_I | s_req_http_IC | s_req_http_major | s_req_http_dot | s_req_http_minor
  | s_req_http_end | s_req_line_almost_done => .version
  | s_header_field_start | s_header_field | s_headers_almost_done | s_headers_done => .fields
  | s_header_value_discard_ws | s_header_value_discard_ws_almost_done
  | s_header_value_discard_lws | s_header_value_start | s_header_value | s_header_value_lws
  | s_header_almost_done => .value
  | s_chunk_size_start | s_chunk_size | s_chunk_parameters | s_chunk_size_almost_done
  | s_chunk_data | s_chunk_data_almost_done | s_chunk_data_done | s_body_identity
  | s_body_identity_eof | s_message_done => .body

/-- The mark that is set in a state, for the body once a byte of it has been seen. -/
def State.mark : State → Option Mark
  | s_header_field => some .header_field
  | s_header_value => some .header_value
  | s_chunk_data | s_chunk_data_almost_done | s_body_identity | s_body_identity_eof => some .body
  | s => if s.part = .url then some .url else none

/-- The states in which the mark may not have been set yet. -/
def State.awaits : State → Bool
  | s_chunk_data | s_body_identity | s_body_identity_eof => true
  | _ => false

/-- The mark that can be set in a state. -/
def State.allows (s : State) (m : Option Mark) : Bool := m = s.mark || (m = none && s.awaits)

/-- The headers of the message are complete and the message is not: its body or its trailer
is being read. -/
def Parser.opened (p : Parser) : Bool :=
  p.state.part = .body || ((p.state.part = .fields || p.state.part = .value) && p.flags.F_TRAILING)

/-- What holds of the parser between two bytes. -/
structure Parser.Ok (p : Parser) : Prop where
  /-- A message begins with its flags cleared. -/
  trailing : p.state.part = .line ∨ p.state.part = .url ∨ p.state.part = .version →
    p.flags.F_TRAILING = false
  /-- Where the protocol changes the parser does not go on to a next message. -/
  upgrade : p.state = .s_start_req → p.upgrade = false
  errno : p.http_errno = none
  asked : p.state ≠ .s_headers_done

namespace Exec

def part (e : Exec) : Part := e.parser.state.part

def opened (e : Exec) : Bool := e.parser.opened

/-- The header bytes counted or still to be counted. -/
def size (e : Exec) : ℕ := e.parser.nread + (e.run - 1)

/-- What holds between two bytes. -/
structure Ok (e : Exec) : Prop where
  parser : e.parser.Ok
  mark : e.parser.state.allows (e.mark.map Prod.fst)

end Exec

/-! ## What a byte reports -/

/-- The parts that follow a part without a callback. -/
def Part.quiet : Part → Part → Bool
  | .idle, b => b = .idle || b = .line
  | .line, b => b = .line || b = .url
  | .url, b => b = .url
  | .version, b => b = .version || b = .fields
  | .fields, b => b = .fields
  | .value, b => b = .value || b = .fields
  | .body, b => b = .body || b = .fields

/-- What can be reported of a part, once its headers have begun, by a byte that ends it. -/
inductive Reports : Part → List Event → Prop
  | fields : Reports .fields []
  | value : Reports .value []
  | body : Reports .body []
  | header_value (d : Bytes) : Reports .value [.header_value d]
  | body_data (d : Bytes) : Reports .body [.body d]

/-- `Move a o cs b o'`: a byte of part `a` makes the calls `cs` and leads to part `b`; `o` and
`o'` say whether the message is open before and after it. -/
inductive Move : Part → Bool → List Event → Part → Bool → Prop
  | quiet {a b : Part} {o : Bool} (h : a.quiet b) : Move a o [] b o
  | url (m : Method) (d : Bytes) {b : Part} (h : b = .version ∨ b = .fields) :
      Move .url false [.url m d] b false
  | header_field (d : Bytes) {o : Bool} : Move .fields o [.header_field d] .value o
  | header_value (d : Bytes) {b : Part} {o : Bool} (h : b = .value ∨ b = .fields) :
      Move .value o [.header_value d] b o
  | body (d : Bytes) : Move .body true [.body d] .body true
  | complete {a : Part} {cs : List Event} (h : Reports a cs) :
      Move a true (cs ++ [.message_complete]) .idle false

/-- **What a byte can do** in part `a` of a message that is open or not (`o`): the events
it reports, where it leads to, and that at most `n` header bytes are then counted. -/
def Step.Does (a : Part) (o : Bool) (n : ℕ) (ch : UInt8) : Step → Prop
  | .next cs e => (e.consume ch).Ok ∧ Move a o cs e.part e.opened ∧ e.size ≤ n
  | .ask cs e =>
    Reports a cs ∧ o = false ∧ ch = LF ∧ e.parser.state = .s_headers_done ∧
      e.parser.flags.F_TRAILING = false ∧ e.parser.http_errno = none ∧ e.mark = none ∧ e.size ≤ n
  | .stop cs p =>
    (∃ d, cs = [.header_value d] ∧ a = .value ∧ p.http_errno ≠ none) ∨
      (cs = [] ∧ p.http_errno ≠ none) ∨
      (∃ cs', cs = cs' ++ [.message_complete] ∧ Reports a cs' ∧ o = true ∧ p.http_errno = none)

/-- What an arm of the switch does from `e`, whose `nread` has counted the byte already. -/
abbrev Step.Sound (e : Exec) (ch : UInt8) (s : Step) : Prop :=
  s.Does e.part e.opened (e.parser.nread + e.run) ch

/-! ## Bytes without a callback -/

/-- What an arm without callbacks and marks does to the parser. -/
structure Quiet (p q : Parser) : Prop where
  part : p.state.part.quiet q.state.part
  opened : q.opened = p.opened
  mark : q.state.allows p.state.mark
  ok : q.Ok
  nread : q.nread ≤ p.nread

theorem Quiet.refl {p : Parser} (hp : p.Ok) (h : p.state.part.quiet p.state.part) : Quiet p p :=
  ⟨h, rfl, by simp [State.allows], hp, le_refl _⟩

/-- The next state of an arm that only moves on, inside a part or to the fields. -/
def State.follows (s s' : State) : Bool :=
  s.part.quiet s'.part && s.part ≠ .idle && (s.part ≠ .body || s'.part = .body) &&
    s'.allows s.mark && s' ≠ .s_headers_done

/-- The arms that only move on to another state, inside a message. -/
theorem Quiet.of_follows {p q : Parser} (hp : p.Ok) (hs : p.state.follows q.state)
    (hflags : q.flags.F_TRAILING = p.flags.F_TRAILING) (herr : q.http_errno = p.http_errno)
    (hnread : q.nread ≤ p.nread) : Quiet p q := by
  simp only [State.follows, Bool.and_eq_true, Bool.or_eq_true, decide_eq_true_eq] at hs
  obtain ⟨⟨⟨⟨hpart, hidle⟩, hbody⟩, hmark⟩, hdone⟩ := hs
  have ht := hp.trailing
  refine ⟨hpart, ?_, hmark, ⟨fun h => ?_, fun h => ?_, herr.trans hp.errno, hdone⟩, hnread⟩
  · unfold Parser.opened
    rw [hflags]
    revert hpart hidle hbody ht
    cases p.state.part <;> cases q.state.part <;> simp [Part.quiet]
  · rw [hflags]
    apply ht
    revert hpart hidle hbody h
    cases p.state.part <;> cases q.state.part <;> simp [Part.quiet]
  · rw [h] at hpart
    revert hpart hidle
    cases p.state.part <;> simp [Part.quiet, State.part]

theorem start_req_quiet {p q : Parser} {ch : UInt8} (hp : p.Ok) (hs : p.state = .s_start_req)
    (h : start_req p ch = .ok q) : Quiet p q := by
  unfold start_req at h
  split_ifs at h with h1 h2
  · cases h
    exact .refl hp (by rw [hs]; rfl)
  · split at h
    · cases h
    · cases h
      refine ⟨by rw [hs]; rfl, ?_, by rw [hs]; rfl, ?_, le_refl _⟩
      · simp [Parser.opened, hs, State.part]
      · exact ⟨fun _ => rfl, fun h => by simp at h, hp.errno, by simp⟩

theorem dead_quiet {p q : Parser} {ch : UInt8} (hp : p.Ok) (hs : p.state = .s_dead)
    (h : dead p ch = .ok q) : Quiet p q := by
  unfold dead at h
  split_ifs at h
  cases h
  exact .refl hp (by rw [hs]; rfl)

theorem req_method_quiet {p q : Parser} {ch : UInt8} (hp : p.Ok) (hs : p.state = .s_req_method)
    (h : req_method p ch = .ok q) : Quiet p q := by
  simp only [req_method] at h
  split_ifs at h
  · cases h
    exact .of_follows hp (by rw [hs]; rfl) rfl rfl (le_refl _)
  · cases h
    exact .of_follows hp (by simp only [hs]; rfl) rfl rfl (le_refl _)
  · split at h
    · cases h
      exact .of_follows hp (by simp only [hs]; rfl) rfl rfl (le_refl _)
    · cases h

theorem expect_quiet {p q : Parser} {c ch : UInt8} {s : State} (hp : p.Ok)
    (hs : p.state.follows s) (h : expect c s p ch = .ok q) : Quiet p q := by
  unfold expect at h
  split_ifs at h
  cases h
  exact .of_follows hp hs rfl rfl (le_refl _)

/-- The arms between the url and the end of the request line. -/
theorem req_http_start_quiet {p q : Parser} {ch : UInt8} (hp : p.Ok)
    (hs : p.state = .s_req_http_start) (h : req_http_start p ch = .ok q) : Quiet p q := by
  unfold req_http_start at h
  split_ifs at h <;> cases h
  · exact .refl hp (by rw [hs]; rfl)
  · exact .of_follows hp (by rw [hs]; rfl) rfl rfl (le_refl _)
  · exact .of_follows hp (by rw [hs]; rfl) rfl rfl (le_refl _)

theorem req_http_major_quiet {p q : Parser} {ch : UInt8} (hp : p.Ok)
    (hs : p.state = .s_req_http_major) (h : req_http_major p ch = .ok q) : Quiet p q := by
  unfold req_http_major at h
  split_ifs at h
  cases h
  exact .of_follows hp (by rw [hs]; rfl) rfl rfl (le_refl _)

theorem req_http_dot_quiet {p q : Parser} {ch : UInt8} (hp : p.Ok)
    (hs : p.state = .s_req_http_dot) (h : req_http_dot p ch = .ok q) : Quiet p q := by
  unfold req_http_dot at h
  split_ifs at h
  cases h
  exact .of_follows hp (by rw [hs]; rfl) rfl rfl (le_refl _)

theorem req_http_minor_quiet {p q : Parser} {ch : UInt8} (hp : p.Ok)
    (hs : p.state = .s_req_http_minor) (h : req_http_minor p ch = .ok q) : Quiet p q := by
  unfold req_http_minor at h
  split_ifs at h
  cases h
  exact .of_follows hp (by rw [hs]; rfl) rfl rfl (le_refl _)

theorem req_http_end_quiet {p q : Parser} {ch : UInt8} (hp : p.Ok)
    (hs : p.state = .s_req_http_end) (h : req_http_end p ch = .ok q) : Quiet p q := by
  unfold req_http_end at h
  split_ifs at h <;> cases h <;> exact .of_follows hp (by rw [hs]; rfl) rfl rfl (le_refl _)

theorem req_line_almost_done_quiet {p q : Parser} {ch : UInt8} (hp : p.Ok)
    (hs : p.state = .s_req_line_almost_done) (h : req_line_almost_done p ch = .ok q) :
    Quiet p q := by
  unfold req_line_almost_done at h
  split_ifs at h
  cases h
  exact .of_follows hp (by rw [hs]; rfl) rfl rfl (le_refl _)

theorem header_almost_done_quiet {p q : Parser} {ch : UInt8} (hp : p.Ok)
    (hs : p.state = .s_header_almost_done) (h : header_almost_done p ch = .ok q) : Quiet p q := by
  unfold header_almost_done at h
  split_ifs at h
  cases h
  exact .of_follows hp (by rw [hs]; rfl) rfl rfl (le_refl _)

theorem chunk_size_start_quiet {p q : Parser} {ch : UInt8} (hp : p.Ok)
    (hs : p.state = .s_chunk_size_start) (h : chunk_size_start p ch = .ok q) : Quiet p q := by
  unfold chunk_size_start at h
  split at h <;> cases h
  exact .of_follows hp (by rw [hs]; rfl) rfl rfl (le_refl _)

theorem chunk_size_quiet {p q : Parser} {ch : UInt8} (hp : p.Ok)
    (hs : p.state = .s_chunk_size) (h : chunk_size p ch = .ok q) : Quiet p q := by
  cases hv : unhex ch with
  | none =>
    simp only [chunk_size, hv] at h
    split_ifs at h <;> cases h <;> exact .of_follows hp (by rw [hs]; rfl) rfl rfl (le_refl _)
  | some v =>
    simp only [chunk_size, hv] at h
    split_ifs at h <;> cases h <;> exact .of_follows hp (by simp only [hs]; rfl) rfl rfl (le_refl _)

theorem chunk_parameters_quiet {p q : Parser} {ch : UInt8} (hp : p.Ok)
    (hs : p.state = .s_chunk_parameters) (h : chunk_parameters p ch = .ok q) : Quiet p q := by
  unfold chunk_parameters at h
  split_ifs at h <;> cases h
  · exact .of_follows hp (by rw [hs]; rfl) rfl rfl (le_refl _)
  · exact .refl hp (by rw [hs]; rfl)

theorem chunk_size_almost_done_quiet {p q : Parser} {ch : UInt8} (hp : p.Ok)
    (hs : p.state = .s_chunk_size_almost_done) (h : chunk_size_almost_done p ch = .ok q) :
    Quiet p q := by
  unfold chunk_size_almost_done at h
  split_ifs at h <;> cases h
  · -- the last chunk: the trailer follows
    refine ⟨by rw [hs]; rfl, ?_, by rw [hs]; rfl, ?_, Nat.zero_le _⟩
    · simp [Parser.opened, hs, State.part]
    · exact ⟨fun h => by simp [State.part] at h, fun h => by simp at h, hp.errno, by simp⟩
  · exact .of_follows hp (by rw [hs]; rfl) rfl rfl (Nat.zero_le _)

theorem chunk_data_done_quiet {p q : Parser} {ch : UInt8} (hp : p.Ok)
    (hs : p.state = .s_chunk_data_done) (h : chunk_data_done p ch = .ok q) : Quiet p q := by
  unfold chunk_data_done at h
  split_ifs at h
  cases h
  exact .of_follows hp (by rw [hs]; rfl) rfl rfl (Nat.zero_le _)

namespace Exec

theorem consume_mark (e : Exec) (ch : UInt8) :
    (e.consume ch).mark.map Prod.fst = e.mark.map Prod.fst := by
  unfold consume
  cases e.mark <;> rfl

theorem Ok.consume {e : Exec} (he : e.parser.Ok) (hm : e.parser.state.allows (e.mark.map Prod.fst))
    (ch : UInt8) : (e.consume ch).Ok :=
  ⟨he, by rw [consume_mark]; exact hm⟩

/-- The mark is the one of the state, in the states that have it from their first byte. -/
theorem Ok.mark_eq {e : Exec} (he : e.Ok) (h : e.parser.state.awaits = false) :
    e.mark.map Prod.fst = e.parser.state.mark := by
  have := he.mark
  simpa [State.allows, h] using this

theorem Ok.mark_none {e : Exec} (he : e.Ok) (h : e.parser.state.awaits = false)
    (hs : e.parser.state.mark = none) : e.mark = none := by
  have := he.mark_eq h
  rw [hs] at this
  exact Option.map_eq_none_iff.mp this

/-- Where its mark is set, a callback has something to report. -/
theorem Ok.calls {e : Exec} (he : e.Ok) {m : Mark} (h : e.parser.state.awaits = false)
    (hs : e.parser.state.mark = some m) : ∃ d, e.calls m = [m.call e.parser d] := by
  have := he.mark_eq h
  rw [hs, Option.map_eq_some_iff] at this
  obtain ⟨⟨m', d⟩, hm, rfl⟩ := this
  exact ⟨d, by simp [Exec.calls, hm]⟩

end Exec

namespace Step

theorem Does.mono {a : Part} {o : Bool} {n n' : ℕ} {ch : UInt8} {s : Step} (h : s.Does a o n ch)
    (hn : n ≤ n') : s.Does a o n' ch := by
  cases s with
  | next cs e => exact ⟨h.1, h.2.1, h.2.2.trans hn⟩
  | ask cs e =>
    obtain ⟨hr, ho, hlf, hs, ht, herr, hmark, hsize⟩ := h
    exact ⟨hr, ho, hlf, hs, ht, herr, hmark, hsize.trans hn⟩
  | stop cs p => exact h

theorem after_nil (s : Step) : s.after [] = s := by
  cases s <;> rfl

theorem sound_fail (e : Exec) (ch : UInt8) (p : Parser) (err : Errno) :
    (stop [] (p.fail err)).Sound e ch :=
  Or.inr (Or.inl ⟨rfl, by simp [Parser.fail]⟩)

theorem sound_quiet {e : Exec} {ch : UInt8} {q : Parser} (he : e.Ok)
    (hawaits : e.parser.state.awaits = false) (hq : Quiet e.parser q) :
    (next [] { e with parser := q }).Sound e ch := by
  refine ⟨.consume hq.ok ?_ ch, ?_, ?_⟩
  · rw [he.mark_eq hawaits]
    exact hq.mark
  · have : Exec.opened { e with parser := q } = e.opened := hq.opened
    rw [this]
    exact .quiet hq.part
  · have := hq.nread
    show q.nread + (e.run - 1) ≤ e.parser.nread + e.run
    omega

/-- The arms that neither call back nor set a mark. -/
theorem sound_lift {e : Exec} {ch : UInt8} {x : Except Errno Parser} (he : e.Ok)
    (hawaits : e.parser.state.awaits = false) (hx : ∀ q, x = .ok q → Quiet e.parser q) :
    (e.lift x).Sound e ch := by
  cases x with
  | error err => exact sound_fail e ch e.parser err
  | ok q => exact sound_quiet he hawaits (hx q rfl)

end Step

/-! ## The url -/

theorem parse_url_char_part (s : State) (ch : UInt8) :
    parse_url_char s ch = .s_dead ∨ (parse_url_char s ch).part = .url := by
  cases s <;> simp only [parse_url_char] <;> split_ifs <;>
    first | exact Or.inl rfl | exact Or.inr rfl

theorem url_char_ok {p q : Parser} {s : State} {ch : UInt8} (h : url_char p s ch = .ok q) :
    q = { p with state := q.state } ∧ q.state.part = .url := by
  unfold url_char at h
  split_ifs at h with hd
  cases h
  exact ⟨rfl, (parse_url_char_part s ch).resolve_left hd⟩

theorem State.mark_url {s : State} (h : s.part = .url) : s.mark = some .url := by
  revert h
  cases s <;> decide

/-- The states between the url and the headers have no mark. -/
theorem State.mark_version {s : State} (h : s.part = .version) : s.mark = none := by
  revert h
  cases s <;> decide

theorem State.awaits_part {s : State} (h : s.part ≠ .body) : s.awaits = false := by
  revert h
  cases s <;> decide

/-- A message is not open before its headers. -/
theorem Parser.opened_eq_false {p : Parser}
    (h : p.state.part = .idle ∨ p.state.part = .line ∨ p.state.part = .url ∨
      p.state.part = .version) : p.opened = false := by
  rcases h with h | h | h | h <;> simp [Parser.opened, h]

/-- Among header fields, an open message is one whose trailer is being read. -/
theorem Parser.opened_eq_trailing {p : Parser}
    (h : p.state.part = .fields ∨ p.state.part = .value) : p.opened = p.flags.F_TRAILING := by
  rcases h with h | h <;> simp [Parser.opened, h]

theorem Parser.opened_of_body {p : Parser} (h : p.state.part = .body) : p.opened = true := by
  simp [Parser.opened, h]

/-- Inside a message little is asked of the parser. -/
theorem Parser.Ok.inside {p q : Parser} (hp : p.Ok) (herr : q.http_errno = p.http_errno)
    (hidle : q.state.part ≠ .idle) (hdone : q.state ≠ .s_headers_done)
    (htrailing : q.state.part = .line ∨ q.state.part = .url ∨ q.state.part = .version →
      q.flags.F_TRAILING = false) : q.Ok where
  trailing := htrailing
  upgrade h := by
    rw [h] at hidle
    exact absurd rfl hidle
  errno := herr.trans hp.errno
  asked := hdone

/-- A byte of a value or of the body leaves the parser in order. -/
theorem Parser.Ok.inside_part {e e' : Exec} (he : e.parser.Ok)
    (herr : e'.parser.http_errno = e.parser.http_errno)
    (hpart : e'.part = .value ∨ e'.part = .body) : e'.parser.Ok := by
  unfold Exec.part at hpart
  apply he.inside herr
  · intro hidle
    rw [hidle] at hpart
    rcases hpart with h | h <;> cases h
  · intro hdone
    rw [hdone] at hpart
    rcases hpart with h | h <;> cases h
  · rintro (hline | hline | hline) <;> rw [hline] at hpart <;> rcases hpart with h | h <;> cases h

/-- One more byte of the url, the mark being set. -/
theorem sound_url_char {e e' : Exec} {ch : UInt8} {s : State} (he : e.parser.Ok)
    (hpart : e.part = .line ∨ e.part = .url) (hrun : e'.run = e.run)
    (hmark : e'.mark.map Prod.fst = some .url) :
    (e'.lift (url_char e.parser s ch)).Sound e ch := by
  cases hx : url_char e.parser s ch with
  | error err => exact Step.sound_fail e ch e'.parser err
  | ok q =>
    obtain ⟨hq, hurl⟩ := url_char_ok hx
    have htrailing : q.flags.F_TRAILING = false := by
      rw [hq]
      exact he.trailing (hpart.imp id Or.inl)
    have hok : q.Ok := by
      refine he.inside (by rw [hq]) ?_ ?_ fun _ => htrailing
      · rw [hurl]
        simp
      · intro h
        rw [h] at hurl
        cases hurl
    refine ⟨.consume hok ?_ ch, ?_, ?_⟩
    · simp [State.allows, hmark, State.mark_url hurl]
    · have hopened : e.opened = false :=
        Parser.opened_eq_false (Or.inr (hpart.imp id Or.inl))
      have hopened' : Exec.opened { e' with parser := q } = false :=
        Parser.opened_eq_false (Or.inr (Or.inr (Or.inl hurl)))
      rw [hopened, hopened']
      refine .quiet ?_
      show e.part.quiet q.state.part
      rw [hurl]
      rcases hpart with h | h <;> rw [h] <;> rfl
    · show q.nread + (e'.run - 1) ≤ e.parser.nread + e.run
      rw [hq, hrun]
      show e.parser.nread + (e.run - 1) ≤ e.parser.nread + e.run
      omega

theorem req_spaces_before_url_sound {e : Exec} {ch : UInt8} (he : e.Ok)
    (hs : e.parser.state = .s_req_spaces_before_url) : (req_spaces_before_url e ch).Sound e ch := by
  unfold req_spaces_before_url
  by_cases hsp : ch = SP
  · rw [if_pos hsp]
    exact Step.sound_quiet he (by rw [hs]; rfl) (.refl he.parser (by rw [hs]; rfl))
  · rw [if_neg hsp]
    have hmark : e.mark = none := he.mark_none (by rw [hs]; rfl) (by rw [hs]; rfl)
    have hset : e.setMark .url = { e with mark := some (.url, []) } := by
      unfold Exec.setMark
      rw [hmark]
    rw [hset]
    exact sound_url_char he.parser (Or.inl (by rw [Exec.part, hs]; rfl)) rfl rfl

theorem req_schema_sound {e : Exec} {ch : UInt8} (he : e.Ok) (hpart : e.part = .url) :
    (req_schema e ch).Sound e ch := by
  unfold req_schema
  split_ifs
  · exact Step.sound_fail e ch e.parser _
  · refine sound_url_char he.parser (Or.inr hpart) rfl ?_
    rw [he.mark_eq (State.awaits_part (by rw [← Exec.part, hpart]; simp)), State.mark_url hpart]

/-- The url ends. -/
theorem sound_url_end {e : Exec} {ch : UInt8} {q : Parser} (he : e.Ok) (hpart : e.part = .url)
    (hq : q.state.part = .version ∨ q.state = .s_header_field_start)
    (hflags : q.flags = e.parser.flags) (herr : q.http_errno = e.parser.http_errno)
    (hnread : q.nread = e.parser.nread) :
    (Step.next (e.calls .url) { e.clearMark with parser := q }).Sound e ch := by
  have hawaits := State.awaits_part (s := e.parser.state) (by rw [← Exec.part, hpart]; simp)
  obtain ⟨d, hd⟩ := he.calls hawaits (State.mark_url hpart)
  have htrailing : q.flags.F_TRAILING = false := by
    rw [hflags]
    exact he.parser.trailing (Or.inr (Or.inl hpart))
  have hpart' : q.state.part = .version ∨ q.state.part = .fields :=
    hq.imp id fun h => by rw [h]; rfl
  have hmark : q.state.mark = none := by
    rcases hq with h | h
    · exact State.mark_version h
    · rw [h]
      rfl
  refine ⟨.consume ?_ ?_ ch, ?_, ?_⟩
  · refine he.parser.inside herr ?_ ?_ fun _ => htrailing
    · rcases hpart' with h | h <;> rw [h] <;> simp
    · rcases hq with h | h <;> intro h' <;> rw [h'] at h <;> cases h
  · simp [State.allows, Exec.clearMark, hmark]
  · have hopened : e.opened = false := Parser.opened_eq_false (Or.inr (Or.inr (Or.inl hpart)))
    have hopened' : q.opened = false := by
      rcases hpart' with h | h <;> simp [Parser.opened, h, htrailing]
    show Move e.part e.opened (e.calls .url) q.state.part q.opened
    rw [hopened, hopened', hpart, hd]
    exact .url _ d hpart'
  · show q.nread + (e.run - 1) ≤ e.parser.nread + e.run
    omega

theorem req_url_sound {e : Exec} {ch : UInt8} (he : e.Ok) (hpart : e.part = .url) :
    (req_url e ch).Sound e ch := by
  unfold req_url
  split_ifs
  · exact sound_url_end he hpart (Or.inl rfl) rfl rfl rfl
  · exact sound_url_end he hpart (Or.inl rfl) rfl rfl rfl
  · exact sound_url_end he hpart (Or.inr rfl) rfl rfl rfl
  · refine sound_url_char he.parser (Or.inr hpart) rfl ?_
    rw [he.mark_eq (State.awaits_part (by rw [← Exec.part, hpart]; simp)), State.mark_url hpart]

/-! ## The end of a message -/

theorem Parser.new_message_part (p : Parser) : p.new_message.part = .idle := by
  unfold Parser.new_message
  split <;> rfl

theorem Parser.new_message_mark (p : Parser) : p.new_message.mark = none := by
  unfold Parser.new_message
  split <;> rfl

/-- The message is complete: the parser goes on to the next one, unless the protocol changes. -/
theorem Parser.complete_ok {p : Parser} (hp : p.http_errno = none) (hup : p.upgrade = false)
    (stop : Bool) : (p.complete stop).parser.Ok where
  trailing h := by
    change p.new_message.part = _ ∨ p.new_message.part = _ ∨ p.new_message.part = _ at h
    rw [p.new_message_part] at h
    simp at h
  upgrade _ := hup
  errno := hp
  asked h := by
    have := p.new_message_part
    change p.new_message = _ at h
    rw [h] at this
    cases this

/-- The last byte of an open message. -/
theorem sound_message_done {e e' : Exec} {ch : UInt8} {p : Parser} {cs : List Event}
    (hr : Reports e.part cs) (hopened : e.opened = true) (herr : p.http_errno = none)
    (hmark : e'.mark = none) (hsize : p.nread + (e'.run - 1) ≤ e.parser.nread + e.run) :
    ((e'.ending (message_done p)).after cs).Sound e ch := by
  cases hup : p.upgrade with
  | true =>
    have : e'.ending (message_done p) = .stop [.message_complete] (message_done p).parser := by
      simp [Exec.ending, message_done, Parser.complete, Ending.calls, hup]
    rw [this]
    exact Or.inr (Or.inr ⟨cs, rfl, hr, hopened, herr⟩)
  | false =>
    have : e'.ending (message_done p) =
        .next [.message_complete] { e' with parser := (p.complete false).parser } := by
      simp [Exec.ending, message_done, Parser.complete, Ending.calls, hup]
    rw [this]
    refine ⟨.consume (Parser.complete_ok herr hup false) ?_ ch, ?_, hsize⟩
    · show State.allows p.new_message (e'.mark.map Prod.fst)
      rw [hmark]
      simp [State.allows, p.new_message_mark]
    · have hidle : Exec.opened { e' with parser := (p.complete false).parser } = false :=
        Parser.opened_eq_false (Or.inl p.new_message_part)
      show Move e.part e.opened _ p.new_message.part _
      rw [hidle, hopened, p.new_message_part]
      exact .complete hr

/-! ## Header fields

An empty value, or the end of one, is followed by the beginning of a field in the same byte.
Below, `e₀` is the state before the byte and `cs` what the byte has reported so far. -/

theorem sound_fail_after {e₀ : Exec} {ch : UInt8} {cs : List Event} (hr : Reports e₀.part cs)
    (hbody : e₀.part ≠ .body) (e : Exec) (err : Errno) : ((e.fail err).after cs).Sound e₀ ch := by
  have herr : (e.parser.fail err).http_errno ≠ none := by simp [Parser.fail]
  show (Step.stop (cs ++ []) _).Sound e₀ ch
  rw [List.append_nil]
  cases h : e₀.part <;> rw [h] at hr <;> cases hr
  · exact Or.inr (Or.inl ⟨rfl, herr⟩)
  · exact Or.inr (Or.inl ⟨rfl, herr⟩)
  · exact Or.inl ⟨_, rfl, h, herr⟩
  all_goals exact absurd h hbody

theorem headers_almost_done_sound {e e₀ : Exec} {ch : UInt8} {cs : List Event} (he : e.parser.Ok)
    (hs : e.parser.state = .s_headers_almost_done) (hmark : e.mark = none)
    (hr : Reports e₀.part cs) (hbody : e₀.part ≠ .body) (hopened : e.opened = e₀.opened)
    (hsize : e.parser.nread + e.run = e₀.parser.nread + e₀.run) :
    ((headers_almost_done e ch).after cs).Sound e₀ ch := by
  have htrailing : e₀.opened = e.parser.flags.F_TRAILING :=
    hopened.symm.trans (Parser.opened_eq_trailing (Or.inl (by rw [hs]; rfl)))
  simp only [headers_almost_done]
  split_ifs with hlf ht hte
  · exact sound_fail_after hr hbody e _
  · refine sound_message_done hr (htrailing.trans ht) he.errno hmark ?_
    show e.parser.nread + (e.run - 1) ≤ e₀.parser.nread + e₀.run
    omega
  · exact sound_fail_after hr hbody e _
  · show Step.Sound e₀ ch (.ask (cs ++ []) _)
    rw [List.append_nil]
    refine ⟨hr, ?_, not_not.mp hlf, rfl, ?_, he.errno, hmark, ?_⟩
    · rw [htrailing]
      simpa using ht
    · simpa using ht
    · show e.parser.nread + (e.run - 1) ≤ e₀.parser.nread + e₀.run
      omega

/-- Into the fields, from the fields themselves or from a value. -/
theorem Move.fields {a : Part} {cs : List Event} {o : Bool} (hr : Reports a cs)
    (hbody : a ≠ .body) : Move a o cs .fields o := by
  cases hr with
  | fields => exact .quiet rfl
  | value => exact .quiet rfl
  | header_value d => exact .header_value d (Or.inr rfl)
  | body => exact absurd rfl hbody
  | body_data d => exact absurd rfl hbody

theorem header_field_start_sound {e e₀ : Exec} {ch : UInt8} {cs : List Event} (he : e.parser.Ok)
    (hs : e.parser.state = .s_header_field_start) (hmark : e.mark = none)
    (hr : Reports e₀.part cs) (hbody : e₀.part ≠ .body) (hopened : e.opened = e₀.opened)
    (hsize : e.parser.nread + e.run = e₀.parser.nread + e₀.run) :
    ((header_field_start e ch).after cs).Sound e₀ ch := by
  -- the fields go on, with or without the mark of a new one
  have hfields : ∀ (q : Parser) (m : Option (Mark × Bytes)), q.flags = e.parser.flags →
      q.http_errno = e.parser.http_errno → q.nread = e.parser.nread →
      q.state = .s_headers_almost_done ∧ m = none ∨
        q.state = .s_header_field ∧ m = some (.header_field, []) →
      ((Step.next [] { e with parser := q, mark := m }).after cs).Sound e₀ ch := by
    intro q m hflags herr hnread hq
    have hpart : q.state.part = .fields := by
      rcases hq with ⟨h, -⟩ | ⟨h, -⟩ <;> rw [h] <;> rfl
    have hopened' : q.opened = e₀.opened := by
      rw [Parser.opened_eq_trailing (Or.inl hpart), hflags, ← hopened]
      exact (Parser.opened_eq_trailing (Or.inl (by rw [hs]; rfl))).symm
    show Step.Sound e₀ ch (.next (cs ++ []) _)
    rw [List.append_nil]
    refine ⟨.consume (he.inside herr ?_ ?_ ?_) ?_ ch, ?_, ?_⟩
    · simp [hpart]
    · rcases hq with ⟨h, -⟩ | ⟨h, -⟩ <;> rw [h] <;> simp
    · simp [hpart]
    · rcases hq with ⟨h, rfl⟩ | ⟨h, rfl⟩ <;> simp [h, State.allows, State.mark, State.part]
    · show Move e₀.part e₀.opened cs q.state.part q.opened
      rw [hpart, hopened']
      exact Move.fields hr hbody
    · show q.nread + (e.run - 1) ≤ e₀.parser.nread + e₀.run
      omega
  have hset : e.setMark .header_field = { e with mark := some (.header_field, []) } := by
    unfold Exec.setMark
    rw [hmark]
  unfold header_field_start
  split_ifs with hcr hlf htok
  · have := hfields { e.parser with state := .s_headers_almost_done } e.mark rfl rfl rfl
      (Or.inl ⟨rfl, hmark⟩)
    exact this
  · refine headers_almost_done_sound (he.inside rfl ?_ ?_ ?_) rfl hmark hr hbody ?_ hsize
    · simp [State.part]
    · simp
    · simp [State.part]
    · rw [← hopened, Exec.opened, Exec.opened, Parser.opened_eq_trailing (Or.inl rfl),
        Parser.opened_eq_trailing (Or.inl (by rw [hs]; rfl))]
  · exact sound_fail_after hr hbody e _
  · rw [hset]
    exact hfields _ _ rfl rfl rfl (Or.inr ⟨rfl, rfl⟩)

/-- A character of a field changes what the parser expects and nothing of where it is. -/
theorem header_field_char_frame (p : Parser) (ch : UInt8) :
    (header_field_char p ch).state = p.state ∧
      (header_field_char p ch).flags.F_TRAILING = p.flags.F_TRAILING ∧
      (header_field_char p ch).http_errno = p.http_errno ∧
      (header_field_char p ch).nread = p.nread := by
  simp only [header_field_char]
  split <;> (try split) <;> exact ⟨rfl, rfl, rfl, rfl⟩

theorem header_field_sound {e : Exec} {ch : UInt8} (he : e.Ok)
    (hs : e.parser.state = .s_header_field) : (header_field e ch).Sound e ch := by
  have hmark := he.mark_eq (by rw [hs]; rfl)
  have hopened : e.opened = e.parser.flags.F_TRAILING :=
    Parser.opened_eq_trailing (Or.inl (by rw [hs]; rfl))
  have hpart : e.part = .fields := by rw [Exec.part, hs]; rfl
  simp only [header_field]
  split_ifs with htok hover hcolon
  · -- a character of the name: it is counted when the loop ends
    obtain ⟨hstate, hflags, herr, hnread⟩ := header_field_char_frame e.parser ch
    rw [hs] at hstate
    refine ⟨.consume (he.parser.inside herr ?_ ?_ ?_) ?_ ch, ?_, ?_⟩
    · simp [hstate, State.part]
    · simp [hstate]
    · simp [hstate, State.part]
    · simp [hstate, State.allows, hmark, hs]
    · have hopened' : (header_field_char e.parser ch).opened = e.opened := by
        rw [hopened, Parser.opened_eq_trailing (Or.inl (by rw [hstate]; rfl)), hflags]
      show Move e.part e.opened [] (header_field_char e.parser ch).state.part _
      rw [hpart, hstate]
      show Move .fields e.opened [] .fields (header_field_char e.parser ch).opened
      rw [hopened']
      exact .quiet rfl
    · show (header_field_char e.parser ch).nread + (e.run + 1 - 1) ≤ e.parser.nread + e.run
      omega
  · exact Step.sound_fail e ch e.parser _
  · -- the colon: the name is reported, and the loop ends
    obtain ⟨d, hd⟩ := he.calls (m := .header_field) (by rw [hs]; rfl) (by rw [hs]; rfl)
    rw [hd]
    refine ⟨Exec.Ok.consume (he.parser.inside ?_ ?_ ?_ ?_) ?_ ch, ?_, le_refl _⟩
    · rfl
    · simp [State.part]
    · simp
    · simp [State.part]
    · simp [State.allows, Exec.clearMark, State.mark, State.part]
    · have hopened' : Parser.opened { e.parser with
          nread := e.parser.nread + e.run, state := .s_header_value_discard_ws } = e.opened := by
        rw [hopened, Parser.opened_eq_trailing (Or.inr rfl)]
      show Move e.part e.opened _ .value _
      rw [hpart]
      show Move .fields e.opened [.header_field d] .value (Parser.opened _)
      rw [hopened']
      exact .header_field d
  · exact Step.sound_fail e ch e.parser _

/-! ## Header values -/

theorem HeaderState.finish_trailing (h : HeaderState) (f : Flags) :
    (h.finish f).F_TRAILING = f.F_TRAILING := by
  cases h <;> rfl

theorem header_value_first_frame {p q : Parser} {ch : UInt8} (h : header_value_first p ch = .ok q) :
    q.state = .s_header_value ∧ q.flags.F_TRAILING = p.flags.F_TRAILING ∧
      q.http_errno = p.http_errno ∧ q.nread = p.nread := by
  simp only [header_value_first] at h
  split at h <;> (try split_ifs at h) <;> cases h <;> exact ⟨rfl, rfl, rfl, rfl⟩

theorem header_value_char_frame {p q : Parser} {ch : UInt8} (h : header_value_char p ch = .ok q) :
    q.state = p.state ∧ q.flags.F_TRAILING = p.flags.F_TRAILING ∧
      q.http_errno = p.http_errno ∧ q.nread = p.nread := by
  simp only [header_value_char, content_length_num] at h
  split at h <;> (try split_ifs at h) <;> cases h <;>
    exact ⟨rfl, by first | rfl | exact HeaderState.finish_trailing _ _, rfl, rfl⟩

/-- A byte after which the value still goes on. -/
theorem sound_value {e e' : Exec} {ch : UInt8} {cs : List Event} (he : e.parser.Ok)
    (hpart : e.part = .value) (hcs : Reports .value cs) (hpart' : e'.part = .value)
    (hflags : e'.parser.flags.F_TRAILING = e.parser.flags.F_TRAILING)
    (herr : e'.parser.http_errno = e.parser.http_errno)
    (hmark : e'.parser.state.allows (e'.mark.map Prod.fst))
    (hsize : e'.size ≤ e.parser.nread + e.run) : (Step.next cs e').Sound e ch := by
  refine ⟨.consume (he.inside_part herr (Or.inl hpart')) hmark ch, ?_, hsize⟩
  have hopened : e'.opened = e.opened := by
    rw [Exec.opened, Exec.opened, Parser.opened_eq_trailing (Or.inr hpart'),
      Parser.opened_eq_trailing (Or.inr hpart), hflags]
  rw [hopened, hpart, hpart']
  cases hcs with
  | value => exact .quiet rfl
  | header_value d => exact .header_value d (Or.inl rfl)

theorem header_value_start_sound {e : Exec} {ch : UInt8} (he : e.parser.Ok)
    (hpart : e.part = .value) (hmark : e.mark = none) : (header_value_start e ch).Sound e ch := by
  have hset : e.setMark .header_value = { e with mark := some (.header_value, []) } := by
    unfold Exec.setMark
    rw [hmark]
  unfold header_value_start
  rw [hset]
  cases hx : header_value_first e.parser ch with
  | error err => exact Step.sound_fail e ch e.parser err
  | ok q =>
    obtain ⟨hstate, hflags, herr, hnread⟩ := header_value_first_frame hx
    refine sound_value he hpart .value ?_ hflags herr ?_ ?_
    · show q.state.part = .value
      rw [hstate]
      rfl
    · show q.state.allows _
      rw [hstate]
      rfl
    · show q.nread + (e.run - 1) ≤ e.parser.nread + e.run
      omega

theorem header_value_discard_ws_sound {e : Exec} {ch : UInt8} (he : e.Ok)
    (hs : e.parser.state = .s_header_value_discard_ws) :
    (header_value_discard_ws e ch).Sound e ch := by
  have hmark : e.mark = none := he.mark_none (by rw [hs]; rfl) (by rw [hs]; rfl)
  have hpart : e.part = .value := by rw [Exec.part, hs]; rfl
  have hsize : e.parser.nread + (e.run - 1) ≤ e.parser.nread + e.run := by omega
  unfold header_value_discard_ws
  split_ifs
  · exact sound_value he.parser hpart .value hpart rfl rfl he.mark hsize
  · exact sound_value he.parser hpart .value rfl rfl rfl (by rw [hmark]; rfl) hsize
  · exact sound_value he.parser hpart .value rfl rfl rfl (by rw [hmark]; rfl) hsize
  · exact header_value_start_sound he.parser hpart hmark

/-- A character of the value. -/
theorem sound_value_char {e : Exec} {ch : UInt8} (he : e.Ok)
    (hs : e.parser.state = .s_header_value) (general : ℕ) :
    (Exec.lift { e with run := e.run + 1, general := general }
      (header_value_char e.parser ch)).Sound e ch := by
  have hpart : e.part = .value := by rw [Exec.part, hs]; rfl
  cases hx : header_value_char e.parser ch with
  | error err => exact Step.sound_fail e ch e.parser err
  | ok q =>
    obtain ⟨hstate, hflags, herr, hnread⟩ := header_value_char_frame hx
    refine sound_value he.parser hpart .value ?_ hflags herr ?_ ?_
    · show q.state.part = .value
      rw [hstate]
      exact hpart
    · show q.state.allows _
      rw [hstate]
      exact he.mark
    · show q.nread + (e.run + 1 - 1) ≤ e.parser.nread + e.run
      omega

theorem header_value_sound {e : Exec} {ch : UInt8} (he : e.Ok)
    (hs : e.parser.state = .s_header_value) : (header_value e ch).Sound e ch := by
  have hpart : e.part = .value := by rw [Exec.part, hs]; rfl
  obtain ⟨d, hd⟩ := he.calls (m := .header_value) (by rw [hs]; rfl) (by rw [hs]; rfl)
  have hcalls : e.calls .header_value = [.header_value d] := hd
  simp only [header_value, hcalls]
  split
  · exact sound_value he.parser hpart .value hpart rfl rfl he.mark (le_refl _)
  split
  · split
    · exact Or.inl ⟨d, rfl, hpart, by simp [Parser.fail]⟩
    · exact sound_value he.parser hpart (.header_value d) rfl rfl rfl rfl (le_refl _)
  split
  next hlf =>
    split
    · exact Step.sound_fail e ch e.parser _
    · rw [hlf]
      exact sound_value he.parser hpart (.header_value d) rfl rfl rfl rfl (le_refl _)
  split
  · exact Step.sound_fail e ch e.parser _
  · exact sound_value_char he hs _

/-- The header is over, and the byte is looked at as the beginning of a field. -/
theorem sound_value_end {e e' : Exec} {ch : UInt8} {cs : List Event} (he : e.parser.Ok)
    (hpart : e.part = .value) (hcs : Reports .value cs) (hmark : e'.mark = none)
    (hrun : e'.run = e.run) :
    ((header_field_start
      { e' with
        parser := { e.parser with
          flags := e.parser.header_state.finish e.parser.flags, state := .s_header_field_start } }
      ch).after cs).Sound e ch := by
  refine header_field_start_sound (he.inside ?_ ?_ ?_ ?_) rfl hmark (hpart ▸ hcs) ?_ ?_ ?_
  · rfl
  · simp [State.part]
  · simp
  · simp [State.part]
  · rw [hpart]
    simp
  · rw [Exec.opened, Exec.opened, Parser.opened_eq_trailing (Or.inr hpart),
      Parser.opened_eq_trailing (Or.inl rfl)]
    exact HeaderState.finish_trailing _ _
  · show e.parser.nread + e'.run = e.parser.nread + e.run
    rw [hrun]

theorem header_value_lws_sound {e : Exec} {ch : UInt8} (he : e.Ok)
    (hs : e.parser.state = .s_header_value_lws) : (header_value_lws e ch).Sound e ch := by
  have hmark : e.mark = none := he.mark_none (by rw [hs]; rfl) (by rw [hs]; rfl)
  have hpart : e.part = .value := by rw [Exec.part, hs]; rfl
  have hopened : e.opened = e.parser.flags.F_TRAILING := Parser.opened_eq_trailing (Or.inr hpart)
  simp only [header_value_lws]
  split
  · -- the value goes on in the next line
    have hfold : ∀ q : Parser, q.state = .s_header_value_start → q.flags = e.parser.flags →
        q.http_errno = e.parser.http_errno → q.nread = e.parser.nread →
        (header_value_start { e with parser := q } ch).Sound e ch := by
      intro q hstate hflags herr hnread
      have hqpart : q.state.part = .value := by rw [hstate]; rfl
      have hq : q.Ok := by
        refine he.parser.inside herr ?_ ?_ ?_ <;> rw [hstate] <;> simp [State.part]
      have hqopened : q.opened = e.opened := by
        rw [hopened, Parser.opened_eq_trailing (Or.inr hqpart), hflags]
      have : (header_value_start { e with parser := q } ch).Does q.state.part q.opened
          (q.nread + e.run) ch := header_value_start_sound hq hqpart hmark
      rwa [hqpart, hqopened, hnread, ← hpart] at this
    exact hfold _ rfl rfl rfl rfl
  · have : ((header_field_start { e with
        parser := { e.parser with
          flags := e.parser.header_state.finish e.parser.flags, state := .s_header_field_start } }
        ch).after []).Sound e ch := sound_value_end he.parser hpart .value hmark rfl
    rwa [Step.after_nil] at this

theorem header_value_discard_lws_sound {e : Exec} {ch : UInt8} (he : e.Ok)
    (hs : e.parser.state = .s_header_value_discard_lws) :
    (header_value_discard_lws e ch).Sound e ch := by
  have hmark : e.mark = none := he.mark_none (by rw [hs]; rfl) (by rw [hs]; rfl)
  have hpart : e.part = .value := by rw [Exec.part, hs]; rfl
  have hset : e.setMark .header_value = { e with mark := some (.header_value, []) } := by
    unfold Exec.setMark
    rw [hmark]
  simp only [header_value_discard_lws, hset]
  split
  · refine sound_value he.parser hpart .value rfl rfl rfl (by rw [hmark]; rfl) ?_
    show e.parser.nread + (e.run - 1) ≤ e.parser.nread + e.run
    omega
  split
  · exact Step.sound_fail e ch e.parser _
  · exact sound_value_end he.parser hpart (.header_value []) rfl rfl

/-! ## Bodies -/

/-- A byte of the body, with the mark as the next state has it. -/
theorem sound_body {e e' : Exec} {ch : UInt8} {cs : List Event} (he : e.parser.Ok)
    (hpart : e.part = .body) (hcs : Reports .body cs) (hpart' : e'.part = .body)
    (herr : e'.parser.http_errno = e.parser.http_errno)
    (hmark : e'.parser.state.allows (e'.mark.map Prod.fst))
    (hsize : e'.size ≤ e.parser.nread + e.run) : (Step.next cs e').Sound e ch := by
  refine ⟨.consume (he.inside_part herr (Or.inr hpart')) hmark ch, ?_, hsize⟩
  have hopened : e.opened = true := Parser.opened_of_body hpart
  have hopened' : e'.opened = true := Parser.opened_of_body hpart'
  rw [hopened, hopened', hpart, hpart']
  cases hcs with
  | body => exact .quiet rfl
  | body_data d => exact .body d

/-- In a state that can begin with the mark unset, setting it leaves the mark of the body. -/
theorem Exec.Ok.setMark_body {e : Exec} (he : e.Ok) (hs : e.parser.state.mark = some .body) :
    ∃ d, e.setMark .body = { e with mark := some (.body, d) } := by
  have hm := he.mark
  unfold Exec.setMark
  cases h : e.mark with
  | none => exact ⟨[], rfl⟩
  | some md =>
    obtain ⟨m, d⟩ := md
    rw [h, State.allows, hs] at hm
    simp only [Option.map_some, Option.some.injEq, Bool.or_eq_true, decide_eq_true_eq,
      Bool.and_eq_true, reduceCtorEq, false_and, or_false] at hm
    subst hm
    refine ⟨d, ?_⟩
    show e = _
    rw [← h]

theorem chunk_data_sound {e : Exec} {ch : UInt8} (he : e.Ok)
    (hs : e.parser.state = .s_chunk_data) : (chunk_data e).Sound e ch := by
  obtain ⟨d, hd⟩ := he.setMark_body (by rw [hs]; rfl)
  have hpart : e.part = .body := by rw [Exec.part, hs]; rfl
  have hsize : e.parser.nread + (e.run - 1) ≤ e.parser.nread + e.run := by omega
  simp only [chunk_data, hd]
  split
  · exact sound_body he.parser hpart .body rfl rfl rfl hsize
  · exact sound_body he.parser hpart .body hpart rfl (by simp only [hs]; rfl) hsize

theorem chunk_data_almost_done_sound {e : Exec} {ch : UInt8} (he : e.Ok)
    (hs : e.parser.state = .s_chunk_data_almost_done) : (chunk_data_almost_done e ch).Sound e ch := by
  have hpart : e.part = .body := by rw [Exec.part, hs]; rfl
  obtain ⟨d, hd⟩ := he.calls (m := .body) (by rw [hs]; rfl) (by rw [hs]; rfl)
  unfold chunk_data_almost_done
  split
  · exact Step.sound_fail e ch e.parser _
  · rw [hd]
    refine sound_body he.parser hpart (.body_data d) rfl rfl rfl ?_
    show e.parser.nread + (e.run - 1) ≤ e.parser.nread + e.run
    omega

theorem body_identity_sound {e : Exec} {ch : UInt8} (he : e.Ok)
    (hs : e.parser.state = .s_body_identity) : (body_identity e ch).Sound e ch := by
  obtain ⟨d, hd⟩ := he.setMark_body (by rw [hs]; rfl)
  have hpart : e.part = .body := by rw [Exec.part, hs]; rfl
  have hsize : e.parser.nread + (e.run - 1) ≤ e.parser.nread + e.run := by omega
  simp only [body_identity, hd]
  split
  · have hcalls : (Exec.consume { e with mark := some (.body, d) } ch).calls .body =
        [.body (d ++ [ch])] := rfl
    rw [hcalls]
    exact sound_message_done (hpart ▸ .body_data _) (Parser.opened_of_body hpart) he.parser.errno
      rfl hsize
  · exact sound_body he.parser hpart .body hpart rfl (by simp only [hs]; rfl) hsize

theorem body_identity_eof_sound {e : Exec} {ch : UInt8} (he : e.Ok)
    (hs : e.parser.state = .s_body_identity_eof) : (body_identity_eof e).Sound e ch := by
  obtain ⟨d, hd⟩ := he.setMark_body (by rw [hs]; rfl)
  have hpart : e.part = .body := by rw [Exec.part, hs]; rfl
  unfold body_identity_eof
  rw [hd]
  refine sound_body he.parser hpart .body hpart rfl (by simp only [hs]; rfl) ?_
  show e.parser.nread + (e.run - 1) ≤ e.parser.nread + e.run
  omega

/-! ## The loop -/

theorem dispatch_sound {e : Exec} (he : e.Ok) (ch : UInt8) : (dispatch e ch).Sound e ch := by
  have hp := he.parser
  -- the arms without a callback are lifted, the others have a lemma each
  have hlift : ∀ {s : State} {x : Except Errno Parser}, e.parser.state = s → s.awaits = false →
      (∀ q, x = .ok q → Quiet e.parser q) → (e.lift x).Sound e ch :=
    fun hs ha hx => Step.sound_lift he (hs ▸ ha) hx
  cases hs : e.parser.state <;> simp only [dispatch, hs]
  case s_dead => exact hlift hs rfl fun q => dead_quiet hp hs
  case s_start_req => exact hlift hs rfl fun q => start_req_quiet hp hs
  case s_req_method => exact hlift hs rfl fun q => req_method_quiet hp hs
  case s_req_spaces_before_url => exact req_spaces_before_url_sound he hs
  case s_req_schema | s_req_schema_slash | s_req_schema_slash_slash | s_req_server_start =>
    exact req_schema_sound he (by rw [Exec.part, hs]; rfl)
  case s_req_server | s_req_server_with_at | s_req_path | s_req_query_string_start
    | s_req_query_string | s_req_fragment_start | s_req_fragment =>
    exact req_url_sound he (by rw [Exec.part, hs]; rfl)
  case s_req_http_start => exact hlift hs rfl fun q => req_http_start_quiet hp hs
  case s_req_http_H | s_req_http_HT | s_req_http_HTT | s_req_http_HTTP | s_req_http_I
    | s_req_http_IC | s_header_value_discard_ws_almost_done =>
    exact hlift hs rfl fun q => expect_quiet hp (by rw [hs]; rfl)
  case s_req_http_major => exact hlift hs rfl fun q => req_http_major_quiet hp hs
  case s_req_http_dot => exact hlift hs rfl fun q => req_http_dot_quiet hp hs
  case s_req_http_minor => exact hlift hs rfl fun q => req_http_minor_quiet hp hs
  case s_req_http_end => exact hlift hs rfl fun q => req_http_end_quiet hp hs
  case s_req_line_almost_done => exact hlift hs rfl fun q => req_line_almost_done_quiet hp hs
  case s_header_field_start =>
    have hmark : e.mark = none := he.mark_none (by rw [hs]; rfl) (by rw [hs]; rfl)
    have hpart : e.part = .fields := by rw [Exec.part, hs]; rfl
    have : ((header_field_start e ch).after []).Sound e ch :=
      header_field_start_sound hp hs hmark (by rw [hpart]; exact .fields) (by simp [hpart]) rfl rfl
    rwa [Step.after_nil] at this
  case s_header_field => exact header_field_sound he hs
  case s_header_value_discard_ws => exact header_value_discard_ws_sound he hs
  case s_header_value_discard_lws => exact header_value_discard_lws_sound he hs
  case s_header_value_start =>
    exact header_value_start_sound hp (by rw [Exec.part, hs]; rfl)
      (he.mark_none (by rw [hs]; rfl) (by rw [hs]; rfl))
  case s_header_value => exact header_value_sound he hs
  case s_header_value_lws => exact header_value_lws_sound he hs
  case s_header_almost_done => exact hlift hs rfl fun q => header_almost_done_quiet hp hs
  case s_chunk_size_start => exact hlift hs rfl fun q => chunk_size_start_quiet hp hs
  case s_chunk_size => exact hlift hs rfl fun q => chunk_size_quiet hp hs
  case s_chunk_parameters => exact hlift hs rfl fun q => chunk_parameters_quiet hp hs
  case s_chunk_size_almost_done => exact hlift hs rfl fun q => chunk_size_almost_done_quiet hp hs
  case s_headers_almost_done =>
    have hmark : e.mark = none := he.mark_none (by rw [hs]; rfl) (by rw [hs]; rfl)
    have hpart : e.part = .fields := by rw [Exec.part, hs]; rfl
    have : ((headers_almost_done e ch).after []).Sound e ch :=
      headers_almost_done_sound hp hs hmark (by rw [hpart]; exact .fields) (by simp [hpart]) rfl rfl
    rwa [Step.after_nil] at this
  case s_headers_done => exact absurd hs hp.asked
  case s_chunk_data => exact chunk_data_sound he hs
  case s_chunk_data_almost_done => exact chunk_data_almost_done_sound he hs
  case s_chunk_data_done => exact hlift hs rfl fun q => chunk_data_done_quiet hp hs
  case s_body_identity => exact body_identity_sound he hs
  case s_body_identity_eof => exact body_identity_eof_sound he hs
  case s_message_done =>
    have hmark : e.mark = none := he.mark_none (by rw [hs]; rfl) (by rw [hs]; rfl)
    have hpart : e.part = .body := by rw [Exec.part, hs]; rfl
    have : ((e.ending (message_done e.parser)).after []).Sound e ch :=
      sound_message_done (by rw [hpart]; exact .body) (Parser.opened_of_body hpart) hp.errno hmark
        (by omega)
    rwa [Step.after_nil] at this

theorem feed_does {e : Exec} (he : e.Ok) (ch : UInt8) :
    (feed e ch).Does e.part e.opened (e.size + 1) ch := by
  unfold feed
  split
  next hhead =>
    obtain ⟨-, hrun⟩ := hhead
    split
    · exact Step.sound_fail e ch e.parser _
    · -- the byte is counted before the switch
      have hcounted : Exec.Ok { e with parser := { e.parser with nread := e.parser.nread + 1 } } :=
        ⟨⟨he.parser.trailing, he.parser.upgrade, he.parser.errno, he.parser.asked⟩, he.mark⟩
      refine (dispatch_sound hcounted ch).mono ?_
      show e.parser.nread + 1 + e.run ≤ e.parser.nread + (e.run - 1) + 1
      omega
  next hhead =>
    refine (dispatch_sound he ch).mono ?_
    show e.parser.nread + e.run ≤ e.parser.nread + (e.run - 1) + 1
    omega

/-! ## The headers are complete -/

/-- What the parser does with the answer of `on_headers_complete`. -/
inductive Ending.Does (x : Ending) : Prop
  | failed (hcomplete : x.complete = false) (hstop : x.stop = true)
      (herr : x.parser.http_errno ≠ none)
  | body (hcomplete : x.complete = false) (hstop : x.stop = false) (hok : x.parser.Ok)
      (hpart : x.parser.state.part = .body) (hmark : x.parser.state.allows none)
      (hnread : x.parser.nread = 0)
  | complete (hcomplete : x.complete = true) (herr : x.parser.http_errno = none)
      (hpart : x.parser.state.part = .idle) (hmark : x.parser.state.allows none)
      (hnread : x.parser.nread = 0) (hok : x.stop = false → x.parser.Ok)

theorem Parser.complete_does {p : Parser} {stop : Bool} (herr : p.http_errno = none)
    (hnread : p.nread = 0) (hup : stop = false → p.upgrade = false) : (p.complete stop).Does :=
  .complete rfl herr p.new_message_part
    (by simp [Parser.complete, State.allows, p.new_message_mark]) hnread
    fun h => Parser.complete_ok herr (hup h) stop

theorem headers_done_does {p : Parser} (herr : p.http_errno = none) :
    (headers_done p LF).Does := by
  have hbody : ∀ s : State, s.part = .body → s.allows none = true →
      (Ending.mk { p with nread := 0, state := s } false false).Does := by
    intro s hpart hmark
    refine .body rfl rfl ⟨?_, ?_, herr, ?_⟩ hpart hmark rfl
    · show s.part = _ ∨ s.part = _ ∨ s.part = _ → _
      rw [hpart]
      simp
    · rintro rfl
      cases hpart
    · rintro rfl
      cases hpart
  simp only [headers_done]
  rw [if_neg (by simp)]
  split
  · exact Parser.complete_does herr rfl (by simp)
  next hexit =>
    -- a message that ends here does not change the protocol
    have hup : p.flags.F_SKIPBODY = true ∨ p.hasBody = false → p.upgrade = false := by
      intro h
      by_contra hne
      refine hexit ⟨by simpa using hne, Or.inr ?_⟩
      rcases h with h | h
      · exact Or.inl h
      · right
        show ¬p.hasBody = true
        simp [h]
    split
    next hskip => exact Parser.complete_does herr rfl fun _ => hup (Or.inl hskip)
    split
    · exact hbody .s_chunk_size_start rfl rfl
    next hchunked =>
      have hno : p.content_length = 0 ∨ p.content_length = ULLONG_MAX → p.hasBody = false := by
        intro h
        have : p.flags.F_CHUNKED = false := by simpa using hchunked
        rcases h with h | h <;> simp [Parser.hasBody, this, h]
      split
      · exact .failed rfl rfl (by simp [Parser.fail])
      split
      next h0 => exact Parser.complete_does herr rfl fun _ => hup (Or.inr (hno (Or.inl h0)))
      split
      · exact hbody .s_body_identity rfl rfl
      next hmax =>
        exact Parser.complete_does herr rfl fun _ => hup (Or.inr (hno (Or.inr (not_not.mp hmax))))

theorem headers_complete_does (answer : ℤ) {p : Parser} (herr : p.http_errno = none) :
    (headers_complete answer p LF).Does := by
  unfold headers_complete
  split
  · exact headers_done_does herr
  split
  · exact headers_done_does herr
  split
  · exact headers_done_does herr
  · exact .failed rfl rfl (by simp [Parser.fail])

end Http
end SomoNet
