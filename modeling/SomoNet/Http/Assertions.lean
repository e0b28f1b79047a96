import SomoNet.Http.HeaderLines

/-!
# The assertions of the parser

`sn_http_parser_execute` asserts what it relies on where an arm of its switch is entered: the
flags and the length behind a chunk, the header that is being matched, that no error is set and
that there is one mark at most. None of this can fail, whatever the input, however it is cut and
whatever `on_headers_complete` answers (`assertions_hold`). It comes down to what holds of the
parser between two bytes (`Parser.Sane`).

The count of header bytes is a `uint32_t`. It does not wrap around in calls that are not too long
for it (`countFits`), which is where `nread` is what the parser has.
-/

namespace SomoNet
namespace Http

variable {σ : Type*}

/-! ## What is asserted -/

/-- The headers for which the switch of `case s_header_field` has an arm. -/
def HeaderState.ofField : HeaderState → Bool
  | h_general | h_C | h_CO | h_CON | h_matching_connection | h_matching_proxy_connection
  | h_matching_content_length | h_matching_transfer_encoding | h_matching_upgrade | h_connection
  | h_content_length | h_transfer_encoding | h_upgrade => true
  | _ => false

/-- The headers that the switch of `case s_header_value` may meet. -/
def HeaderState.ofValue : HeaderState → Bool
  | h_connection | h_transfer_encoding => false
  | _ => true

/-- The assertions in the arms of the switch. -/
def Parser.armAsserts (p : Parser) : Prop :=
  match p.state with
  | .s_header_field => p.header_state.ofField = true
  | .s_header_value => p.header_state.ofValue = true
  | .s_body_identity => p.content_length ≠ 0 ∧ p.content_length ≠ ULLONG_MAX
  | .s_chunk_size_start => p.nread = 1 ∧ p.flags.F_CHUNKED = true
  | .s_chunk_size | .s_chunk_parameters | .s_chunk_size_almost_done | .s_chunk_data_done =>
    p.flags.F_CHUNKED = true
  | .s_chunk_data =>
    p.flags.F_CHUNKED = true ∧ p.content_length ≠ 0 ∧ p.content_length ≠ ULLONG_MAX
  | .s_chunk_data_almost_done => p.flags.F_CHUNKED = true ∧ p.content_length = 0
  | _ => True

/-- The mark that is set goes with the state, so that no other is. -/
def Exec.Marked (e : Exec) : Prop := ∀ md ∈ e.mark, e.parser.state.mark = some md.1

/-- What is asserted where a byte is read. -/
structure Exec.Asserts (e : Exec) : Prop where
  arm : e.parser.armAsserts
  errno : e.parser.http_errno = none
  mark : e.Marked

/-- The numbers fit the fields of `struct http_parser`. -/
structure Parser.InRange (p : Parser) : Prop where
  index : p.index < 2 ^ 5
  nread : p.nread < 2 ^ 32
  content_length : p.content_length < 2 ^ 64

/-- What the switch is entered with. -/
def Exec.entry (e : Exec) : Exec :=
  if e.parser.state.parsingHeader ∧ e.run = 0 then e.count (e.parser.nread + 1) else e

/-! ## What holds between two bytes -/

/-- The furthest position in what is being matched. -/
def HeaderState.reach : HeaderState → ℕ
  | h_C | h_matching_transfer_encoding_token_start | h_matching_connection_token_start => 0
  | h_CO => 1
  | h_CON => 2
  | h_matching_connection | h_matching_connection_keep_alive => 10
  | h_matching_proxy_connection => 16
  | h_matching_content_length => 14
  | h_matching_transfer_encoding => 17
  | h_matching_upgrade | h_matching_transfer_encoding_chunked | h_matching_connection_upgrade => 7
  | h_matching_connection_close => 5
  | _ => 18

/-- What an arm relies on. -/
def Parser.relies (p : Parser) : Prop :=
  match p.state with
  | .s_req_method => p.index ≤ p.method.str.length
  | .s_header_field => p.header_state.ofField = true ∧ p.index ≤ p.header_state.reach
  | .s_header_value => p.header_state.ofValue = true ∧ p.index ≤ p.header_state.reach
  | .s_body_identity => p.content_length ≠ 0 ∧ p.content_length < ULLONG_MAX
  | .s_chunk_size_start | .s_chunk_data_done => p.flags.F_CHUNKED = true
  | .s_chunk_size | .s_chunk_parameters | .s_chunk_size_almost_done =>
    p.flags.F_CHUNKED = true ∧ p.content_length < ULLONG_MAX
  | .s_chunk_data =>
    p.flags.F_CHUNKED = true ∧ p.content_length ≠ 0 ∧ p.content_length < ULLONG_MAX
  | .s_chunk_data_almost_done => p.flags.F_CHUNKED = true ∧ p.content_length = 0
  | _ => True

structure Parser.Sane (p : Parser) : Prop where
  relies : p.relies
  index : p.index ≤ 18
  nread : p.nread ≤ max_header_size
  length : p.content_length ≤ ULLONG_MAX
  errno : p.http_errno = none

/-- The count begins anew with the size of a chunk. -/
def Parser.Anew (p : Parser) : Prop := p.state = .s_chunk_size_start → p.nread = 0

/-- The states in which no arm relies on anything. -/
def State.free : State → Bool
  | s_req_method | s_header_field | s_header_value | s_body_identity | s_chunk_size_start
  | s_chunk_size | s_chunk_parameters | s_chunk_size_almost_done | s_chunk_data
  | s_chunk_data_almost_done | s_chunk_data_done => false
  | _ => true

section

variable {p q : Parser}

theorem State.free_url {s : State} (h : s.part = .url) : s.free = true := by
  revert h
  cases s <;> decide

theorem relies_of_free (h : p.state.free = true) : p.relies := by
  unfold Parser.relies
  revert h
  cases p.state <;> simp [State.free]

theorem anew_of_free (h : p.state.free = true) : p.Anew := by
  intro hs
  rw [hs] at h
  cases h

/-- The arms that go on to a state in which nothing is relied on. -/
theorem Parser.Sane.of_free (hp : p.Sane) (hs : q.state.free = true) (hindex : q.index ≤ 18)
    (hnread : q.nread ≤ p.nread) (hlength : q.content_length ≤ ULLONG_MAX)
    (herr : q.http_errno = p.http_errno) : q.Sane ∧ q.Anew :=
  ⟨⟨relies_of_free hs, hindex, hnread.trans hp.nread, hlength, herr.trans hp.errno⟩,
    anew_of_free hs⟩

theorem Parser.Sane.count (hp : p.Sane) {n : ℕ} (hn : n ≤ max_header_size) : (p.count n).Sane :=
  ⟨hp.relies, hp.index, hn, hp.length, hp.errno⟩

theorem Parser.Sane.inRange (hp : p.Sane) : p.InRange := by
  have hindex := hp.index
  have hnread := hp.nread
  have hlength := hp.length
  unfold max_header_size at hnread
  unfold ULLONG_MAX at hlength
  exact ⟨by omega, by omega, by omega⟩

end

/-- What a byte leaves behind. -/
def Step.Safe : Step → Prop
  | .next _ e => (e.parser.Sane ∧ e.parser.Anew) ∧ e.Marked
  | .ask _ e => (e.parser.Sane ∧ e.parser.state.free = true) ∧ e.mark = none
  | .stop _ p => p.http_errno = none → p.Sane ∧ p.Anew

theorem safe_fail (e : Exec) (err : Errno) : (e.fail err).Safe := by
  intro h
  cases h

theorem Step.Safe.after {s : Step} (h : s.Safe) (cs : List Event) : (s.after cs).Safe := by
  cases s with
  | next | ask | stop => exact h

theorem safe_lift {e : Exec} {x : Except Errno Parser}
    (h : ∀ q, x = .ok q → (q.Sane ∧ q.Anew) ∧ ∀ md ∈ e.mark, q.state.mark = some md.1) :
    (e.lift x).Safe := by
  cases x with
  | ok q => exact h q rfl
  | error err => exact safe_fail e err

/-- A state without a mark. -/
theorem Exec.Marked.none {e : Exec} (h : e.Marked) (hs : e.parser.state.mark = .none) :
    e.mark = .none := by
  cases hmark : e.mark with
  | none => rfl
  | some md =>
    have := h md hmark
    rw [hs] at this
    cases this

theorem marked_of_none {e : Exec} (h : e.mark = none) : e.Marked := by
  intro md hmd
  rw [h] at hmd
  cases hmd

/-- An arm that neither calls back nor sets a mark, in a state that has none. -/
theorem safe_lift_none {e : Exec} {x : Except Errno Parser} (hmark : e.mark = none)
    (h : ∀ q, x = .ok q → q.Sane ∧ q.Anew) : (e.lift x).Safe := by
  refine safe_lift fun q hq => ⟨h q hq, fun md hmd => ?_⟩
  rw [hmark] at hmd
  cases hmd

/-! ## The request line -/

section

variable {p q : Parser} {ch : UInt8}

theorem start_req_sane (hp : p.Sane) (hs : p.state = .s_start_req) (h : start_req p ch = .ok q) :
    q.Sane ∧ q.Anew := by
  unfold start_req at h
  split at h
  · cases h
    exact ⟨hp, anew_of_free (by rw [hs]; rfl)⟩
  split at h
  · cases h
  cases hfirst : Method.ofFirst ch with
  | none =>
    rw [hfirst] at h
    cases h
  | some m =>
    rw [hfirst] at h
    cases h
    obtain ⟨-, hlength, -⟩ := Method.ofFirst_take hfirst
    exact ⟨⟨hlength, by show 1 ≤ 18; omega, hp.nread, le_refl _, hp.errno⟩, fun h => by cases h⟩

theorem str_length (m : Method) : m.str.length ≤ 17 := by
  cases m <;> decide

theorem req_method_sane (hp : p.Sane) (hs : p.state = .s_req_method) (h : req_method p ch = .ok q) :
    q.Sane ∧ q.Anew := by
  have hindex : p.index ≤ p.method.str.length := by
    have := hp.relies
    unfold Parser.relies at this
    rwa [hs] at this
  have hstr := str_length p.method
  simp only [req_method] at h
  split at h
  · cases h
  next hzero =>
    split at h
    · cases h
      exact hp.of_free rfl (by show p.index + 1 ≤ 18; omega) (le_refl _) hp.length rfl
    split at h
    next hch =>
      cases h
      -- a byte that agrees with the name is no zero, so the name does not end here
      have hlt : p.index < p.method.str.length := by
        by_contra hle
        rw [List.getD_eq_getElem?_getD, List.getElem?_eq_none (by simpa using hle)] at hch
        exact hzero hch
      refine ⟨⟨?_, by show p.index + 1 ≤ 18; omega, hp.nread, hp.length, hp.errno⟩, ?_⟩
      · unfold Parser.relies
        simp only [hs]
        omega
      · intro hsize
        rw [show p.state = _ from hsize] at hs
        cases hs
    split at h
    · cases hswitch : p.method.switch p.index ch with
      | none =>
        rw [hswitch] at h
        cases h
      | some m =>
        rw [hswitch] at h
        cases h
        -- the other name is long enough: it agrees with what was read so far
        obtain ⟨-, hle⟩ := Method.switch_take hswitch
        have := str_length m
        refine ⟨⟨?_, by show p.index + 1 ≤ 18; omega, hp.nread, hp.length, hp.errno⟩, ?_⟩
        · unfold Parser.relies
          simp only [hs]
          exact hle
        · intro hsize
          rw [show p.state = _ from hsize] at hs
          cases hs
    · cases h

/-! ## Header fields and values -/

theorem matchWord_reach {word : Bytes} {matched missed : HeaderState} {c : UInt8}
    (hindex : p.index ≤ p.header_state.reach) (hself : p.header_state.reach = word.length)
    (hword : word.length ≤ 17) (hmatched : matched.reach = 18) (hmissed : missed.reach = 18) :
    (p.matchWord word matched missed c).index ≤
      (p.matchWord word matched missed c).header_state.reach := by
  simp only [Parser.matchWord]
  split_ifs with hmiss hlast
  · omega
  · omega
  · rw [not_or] at hmiss
    omega

theorem matchWord_of {P : HeaderState → Bool} {word : Bytes} {matched missed : HeaderState}
    {c : UInt8} (h : P p.header_state = true) (hmatched : P matched = true)
    (hmissed : P missed = true) : P (p.matchWord word matched missed c).header_state = true := by
  simp only [Parser.matchWord]
  split_ifs <;> assumption

/-- A character of a name keeps to what it can match. -/
theorem header_field_char_reach (h : p.header_state.ofField = true)
    (hindex : p.index ≤ p.header_state.reach) :
    (header_field_char p ch).header_state.ofField = true ∧
      (header_field_char p ch).index ≤ (header_field_char p ch).header_state.reach := by
  cases hs : p.header_state <;> rw [hs] at h <;> cases h <;> simp only [header_field_char, hs]
  case h_general =>
    rw [hs] at hindex
    exact ⟨rfl, hindex⟩
  case h_C | h_CO | h_CON =>
    have hle : p.index ≤ _ := hindex
    rw [hs] at hle
    simp only [HeaderState.reach] at hle
    refine ⟨by split_ifs <;> rfl, ?_⟩
    split_ifs <;> simp only [HeaderState.reach] <;> omega
  case h_matching_connection | h_matching_proxy_connection | h_matching_content_length
      | h_matching_upgrade =>
    exact ⟨matchWord_of (by rw [hs]; rfl) rfl rfl,
      matchWord_reach hindex (by rw [hs]; rfl) (by decide) rfl rfl⟩
  case h_matching_transfer_encoding =>
    split <;>
      exact ⟨matchWord_of (by rw [hs]; rfl) rfl rfl,
        matchWord_reach hindex (by rw [hs]; rfl) (by decide) rfl rfl⟩
  case h_connection | h_content_length | h_transfer_encoding | h_upgrade =>
    rw [hs] at hindex
    split
    · exact ⟨rfl, hindex⟩
    · exact ⟨by rw [hs]; rfl, by rw [hs]; exact hindex⟩

theorem reach_le (h : HeaderState) : h.reach ≤ 18 := by
  cases h <;> decide

theorem header_field_char_sane (hp : p.Sane) (hs : p.state = .s_header_field) :
    (header_field_char p ch).Sane ∧ (header_field_char p ch).Anew := by
  have hrelies := hp.relies
  unfold Parser.relies at hrelies
  rw [hs] at hrelies
  obtain ⟨hof, hreach⟩ := @header_field_char_reach p ch hrelies.1 hrelies.2
  obtain ⟨h, i, t, heq⟩ := header_field_char_eq p ch
  have hle := reach_le (header_field_char p ch).header_state
  have hindex : (header_field_char p ch).index ≤ 18 := by omega
  rw [heq] at hof hreach hindex ⊢
  refine ⟨⟨?_, hindex, hp.nread, hp.length, hp.errno⟩, fun hsize => ?_⟩
  · unfold Parser.relies
    simp only [hs]
    exact ⟨hof, hreach⟩
  · rw [show p.state = _ from hsize] at hs
    cases hs

theorem digit_le : ∀ {ch}, isNum ch = true → digit ch ≤ 9 := @(forall_byte (by decide +kernel))

/-- What a value is left in. -/
theorem sane_of_value (hp : p.Sane) (hs : q.state = .s_header_value)
    (hof : q.header_state.ofValue = true) (hindex : q.index ≤ q.header_state.reach)
    (hlength : q.content_length ≤ ULLONG_MAX) (hnread : q.nread = p.nread)
    (herr : q.http_errno = p.http_errno) : q.Sane ∧ q.Anew := by
  have hle := reach_le q.header_state
  refine ⟨⟨?_, by omega, by rw [hnread]; exact hp.nread, hlength, herr.trans hp.errno⟩,
    fun hsize => ?_⟩
  · unfold Parser.relies
    simp only [hs]
    exact ⟨hof, hindex⟩
  · rw [hsize] at hs
    cases hs

theorem header_value_first_sane (hp : p.Sane) (h : header_value_first p ch = .ok q) :
    q.Sane ∧ q.Anew := by
  obtain ⟨hstate, -, herr, hnread⟩ := header_value_first_frame h
  have hdigit : ∀ {c : UInt8}, isNum c = true → digit c ≤ ULLONG_MAX := by
    intro c hc
    have := digit_le hc
    unfold ULLONG_MAX
    omega
  have hall : q.header_state.ofValue = true ∧ q.index = 0 ∧ q.content_length ≤ ULLONG_MAX := by
    cases hs : p.header_state <;> simp only [header_value_first, hs] at h
    case h_content_length =>
      split at h
      · cases h
      next hnum =>
        split at h
        · cases h
        · cases h
          exact ⟨rfl, rfl, hdigit (by simpa using hnum)⟩
    case h_transfer_encoding | h_connection =>
      cases h
      refine ⟨?_, rfl, hp.length⟩
      simp only
      split_ifs <;> rfl
    all_goals
      cases h
      exact ⟨rfl, rfl, hp.length⟩
  exact sane_of_value hp hstate hall.1 (by rw [hall.2.1]; exact Nat.zero_le _) hall.2.2 hnread herr

theorem content_length_num_le (hp : p.Sane) (h : content_length_num p ch = .ok q) :
    ∃ s n, q = { p with header_state := s, content_length := n } ∧ s.ofValue = true ∧
      s.reach = 18 ∧ n ≤ ULLONG_MAX := by
  unfold content_length_num at h
  split at h
  · cases h
    exact ⟨_, _, rfl, rfl, rfl, hp.length⟩
  split at h
  · cases h
  next hnum =>
    split at h
    · cases h
    next hsmall =>
      cases h
      have hdigit : digit ch ≤ 9 := digit_le (by simpa using hnum)
      refine ⟨_, _, rfl, rfl, rfl, ?_⟩
      show p.content_length * 10 + digit ch ≤ ULLONG_MAX
      unfold ULLONG_MAX at hsmall ⊢
      omega

theorem tokenStart_of {c : UInt8} {other here : HeaderState} (hother : other.ofValue = true)
    (hhere : here.ofValue = true) : (tokenStart c other here).ofValue = true := by
  unfold tokenStart
  split_ifs
  · exact hother
  · exact hhere
  · rfl

/-- What a character of a value matches next. -/
theorem header_value_char_reach (hp : p.Sane) (hof : p.header_state.ofValue = true)
    (hindex : p.index ≤ p.header_state.reach) (h : header_value_char p ch = .ok q) :
    q.header_state.ofValue = true ∧ q.index ≤ q.header_state.reach ∧
      q.content_length ≤ ULLONG_MAX := by
  have hself : q = p → q.header_state.ofValue = true ∧ q.index ≤ q.header_state.reach ∧
      q.content_length ≤ ULLONG_MAX := by
    rintro rfl
    exact ⟨hof, hindex, hp.length⟩
  have hnum : content_length_num p ch = .ok q → q.header_state.ofValue = true ∧
      q.index ≤ q.header_state.reach ∧ q.content_length ≤ ULLONG_MAX := by
    intro h
    obtain ⟨s, n, rfl, hs, hreach, hn⟩ := content_length_num_le hp h
    exact ⟨hs, by show p.index ≤ s.reach; rw [hreach]; exact hp.index, hn⟩
  cases hs : p.header_state <;> rw [hs] at hof <;> simp only [header_value_char, hs] at h
  case h_connection | h_transfer_encoding => cases hof
  case h_general =>
    cases h
    exact hself rfl
  case h_content_length =>
    split at h
    · cases h
      exact hself rfl
    · exact hnum h
  case h_content_length_num => exact hnum h
  case h_content_length_ws =>
    split at h
    · cases h
      exact hself rfl
    · cases h
  case h_matching_transfer_encoding_token_start | h_matching_connection_token_start =>
    cases h
    rw [hs] at hindex
    have hzero : p.index = 0 := Nat.le_zero.mp hindex
    refine ⟨?_, by show p.index ≤ _; omega, hp.length⟩
    simp only
    split_ifs <;> first | rfl | exact tokenStart_of rfl rfl
  case h_matching_transfer_encoding_chunked | h_matching_connection_keep_alive
      | h_matching_connection_close | h_matching_connection_upgrade =>
    cases h
    exact ⟨matchWord_of (by rw [hs]; rfl) rfl rfl,
      matchWord_reach hindex (by rw [hs]; rfl) (by decide) rfl rfl, hp.length⟩
  case h_matching_transfer_encoding_token | h_matching_connection_token =>
    split at h
    · cases h
      exact ⟨rfl, Nat.zero_le _, hp.length⟩
    · cases h
      exact hself rfl
  case h_transfer_encoding_chunked =>
    split at h
    · cases h
      exact ⟨rfl, hp.index, hp.length⟩
    · cases h
      exact hself rfl
  case h_connection_keep_alive | h_connection_close | h_connection_upgrade =>
    split at h
    · cases h
      exact ⟨rfl, Nat.zero_le _, hp.length⟩
    split at h
    · cases h
      exact ⟨rfl, hp.index, hp.length⟩
    · cases h
      exact hself rfl
  -- the other headers are not looked into
  all_goals
    cases h
    exact ⟨rfl, hp.index, hp.length⟩

theorem header_value_char_sane (hp : p.Sane) (hs : p.state = .s_header_value)
    (h : header_value_char p ch = .ok q) : q.Sane ∧ q.Anew := by
  have hrelies := hp.relies
  unfold Parser.relies at hrelies
  rw [hs] at hrelies
  obtain ⟨hof, hindex, hlength⟩ := header_value_char_reach hp hrelies.1 hrelies.2 h
  obtain ⟨hstate, -, herr, hnread⟩ := header_value_char_frame h
  exact sane_of_value hp (hstate.trans hs) hof hindex hlength hnread herr

/-! ## Bodies -/

theorem unhex_le : ∀ {ch v}, unhex ch = some v → v ≤ 15 := by
  have hall : ∀ ch, ∀ v ∈ unhex ch, v ≤ 15 := forall_byte (by decide +kernel)
  exact @hall

theorem chunk_size_start_sane (hp : p.Sane) (hs : p.state = .s_chunk_size_start)
    (h : chunk_size_start p ch = .ok q) : q.Sane ∧ q.Anew := by
  have hchunked : p.flags.F_CHUNKED = true := by
    have := hp.relies
    unfold Parser.relies at this
    rwa [hs] at this
  unfold chunk_size_start at h
  cases hv : unhex ch with
  | none =>
    rw [hv] at h
    cases h
  | some v =>
    rw [hv] at h
    cases h
    have hle := unhex_le hv
    have hlt : v < ULLONG_MAX := by
      unfold ULLONG_MAX
      omega
    exact ⟨⟨⟨hchunked, hlt⟩, hp.index, hp.nread, hlt.le, hp.errno⟩, fun h => by cases h⟩

theorem chunk_size_sane (hp : p.Sane) (hs : p.state = .s_chunk_size) (h : chunk_size p ch = .ok q) :
    q.Sane ∧ q.Anew := by
  have hrelies : p.flags.F_CHUNKED = true ∧ p.content_length < ULLONG_MAX := by
    have := hp.relies
    unfold Parser.relies at this
    rwa [hs] at this
  unfold chunk_size at h
  split at h
  · cases h
    exact ⟨⟨hrelies, hp.index, hp.nread, hp.length, hp.errno⟩, fun h => by cases h⟩
  cases hv : unhex ch with
  | none =>
    rw [hv] at h
    dsimp only at h
    split at h
    · cases h
      exact ⟨⟨hrelies, hp.index, hp.nread, hp.length, hp.errno⟩, fun h => by cases h⟩
    · cases h
  | some v =>
    rw [hv] at h
    dsimp only at h
    split at h
    · cases h
    next hsmall =>
      cases h
      have hle := unhex_le hv
      -- the test before the digit leaves room for it
      have hlt : p.content_length * 16 + v < ULLONG_MAX := by
        unfold ULLONG_MAX at hsmall ⊢
        omega
      refine ⟨⟨?_, hp.index, hp.nread, hlt.le, hp.errno⟩, fun hsize => ?_⟩
      · unfold Parser.relies
        simp only [hs]
        exact ⟨hrelies.1, hlt⟩
      · rw [show p.state = _ from hsize] at hs
        cases hs

theorem chunk_parameters_sane (hp : p.Sane) (hs : p.state = .s_chunk_parameters)
    (h : chunk_parameters p ch = .ok q) : q.Sane ∧ q.Anew := by
  have hrelies : p.flags.F_CHUNKED = true ∧ p.content_length < ULLONG_MAX := by
    have := hp.relies
    unfold Parser.relies at this
    rwa [hs] at this
  unfold chunk_parameters at h
  split at h
  · cases h
    exact ⟨⟨hrelies, hp.index, hp.nread, hp.length, hp.errno⟩, fun h => by cases h⟩
  · cases h
    exact ⟨hp, fun hsize => by rw [hsize] at hs; cases hs⟩

theorem chunk_size_almost_done_sane (hp : p.Sane) (hs : p.state = .s_chunk_size_almost_done)
    (h : chunk_size_almost_done p ch = .ok q) : q.Sane ∧ q.Anew := by
  have hrelies : p.flags.F_CHUNKED = true ∧ p.content_length < ULLONG_MAX := by
    have := hp.relies
    unfold Parser.relies at this
    rwa [hs] at this
  unfold chunk_size_almost_done at h
  split at h
  · cases h
  split at h
  · cases h
    exact hp.of_free rfl hp.index (Nat.zero_le _) hp.length rfl
  next hzero =>
    cases h
    exact ⟨⟨⟨hrelies.1, hzero, hrelies.2⟩, hp.index, Nat.zero_le _, hp.length, hp.errno⟩,
      fun h => by cases h⟩

theorem chunk_data_done_sane (hp : p.Sane) (hs : p.state = .s_chunk_data_done)
    (h : chunk_data_done p ch = .ok q) : q.Sane ∧ q.Anew := by
  have hchunked : p.flags.F_CHUNKED = true := by
    have := hp.relies
    unfold Parser.relies at this
    rwa [hs] at this
  unfold chunk_data_done at h
  split at h
  · cases h
  · cases h
    exact ⟨⟨hchunked, hp.index, Nat.zero_le _, hp.length, hp.errno⟩, fun _ => rfl⟩

end

/-! ## The end of a message -/

section

variable {p : Parser} {e : Exec} {ch : UInt8}

theorem new_message_free (p : Parser) : p.new_message.free = true := by
  unfold Parser.new_message
  split <;> rfl

theorem complete_sane (hp : p.Sane) (stop : Bool) :
    (p.complete stop).parser.Sane ∧ (p.complete stop).parser.Anew :=
  hp.of_free (q := { p with state := p.new_message }) (new_message_free p) hp.index (le_refl _)
    hp.length rfl

/-- An ending that keeps the parser in order. -/
structure Ending.Safe (x : Ending) : Prop where
  sane : x.parser.http_errno = none → x.parser.Sane ∧ x.parser.Anew
  going : x.stop = false → x.parser.http_errno = none

theorem safe_complete (hp : p.Sane) (stop : Bool) : (p.complete stop).Safe :=
  ⟨fun _ => complete_sane hp stop, fun _ => hp.errno⟩

theorem safe_ending (hmark : e.mark = none) {x : Ending} (h : x.Safe) : (e.ending x).Safe := by
  unfold Exec.ending
  cases hstop : x.stop with
  | true => exact h.sane
  | false => exact ⟨h.sane (h.going hstop), marked_of_none hmark⟩

theorem safe_headers_done (hp : p.Sane) (ch : UInt8) : (headers_done p ch).Safe := by
  have hfail : ∀ (q : Parser) (err : Errno), Ending.Safe ⟨q.fail err, false, true⟩ :=
    fun q err => ⟨fun h => (by cases h), fun h => (by cases h)⟩
  have hp' : Parser.Sane { p with nread := 0 } := hp.count (Nat.zero_le _)
  simp only [headers_done]
  split
  · exact hfail p _
  split
  · exact safe_complete hp' _
  split
  · exact safe_complete hp' _
  split
  next hchunked =>
    refine ⟨fun _ => ⟨⟨hchunked, hp.index, Nat.zero_le _, hp.length, hp.errno⟩, fun _ => rfl⟩,
      fun _ => hp.errno⟩
  split
  · exact hfail _ _
  split
  · exact safe_complete hp' _
  next hzero =>
    split
    next hknown =>
      have hlt : p.content_length < ULLONG_MAX := lt_of_le_of_ne hp.length hknown
      exact ⟨fun _ => ⟨⟨⟨hzero, hlt⟩, hp.index, Nat.zero_le _, hp.length, hp.errno⟩,
        fun h => by cases h⟩, fun _ => hp.errno⟩
    next => exact safe_complete hp' _

theorem safe_headers_complete (hp : p.Sane) (hs : p.state.free = true) (answer : ℤ) (ch : UInt8) :
    (headers_complete answer p ch).Safe := by
  have hother : ∀ (f : Flags) (up : Bool), Parser.Sane { p with flags := f, upgrade := up } :=
    fun f up => ⟨relies_of_free hs, hp.index, hp.nread, hp.length, hp.errno⟩
  unfold headers_complete
  split_ifs
  · exact safe_headers_done hp ch
  · exact safe_headers_done (hother { p.flags with F_SKIPBODY := true } p.upgrade) ch
  · exact safe_headers_done (hother { p.flags with F_SKIPBODY := true } true) ch
  · exact ⟨fun h => (by cases h), fun h => (by cases h)⟩

/-! ## The arms of the switch -/

/-- The mark of a body. -/
theorem setMark_body_marked (hmark : e.Marked) (hs : e.parser.state.mark = some .body) :
    ∀ md ∈ (e.setMark .body).mark, md.1 = .body := by
  intro md hmd
  cases hset : e.mark with
  | none =>
    rw [Exec.setMark, hset] at hmd
    cases hmd
    rfl
  | some md' =>
    rw [Exec.setMark, hset] at hmd
    have := hmark md hmd
    rw [hs] at this
    exact (Option.some.inj this).symm

section

variable (he : e.parser.Sane)
include he

theorem headers_almost_done_safe (hmark : e.mark = none) : (headers_almost_done e ch).Safe := by
  simp only [headers_almost_done]
  split_ifs
  · exact safe_fail e _
  · exact safe_ending hmark (safe_complete he _)
  · exact safe_fail e _
  · exact ⟨⟨⟨relies_of_free rfl, he.index, he.nread, he.length, he.errno⟩, rfl⟩, hmark⟩

theorem header_field_start_safe (hmark : e.mark = none) : (header_field_start e ch).Safe := by
  unfold header_field_start
  split_ifs
  · exact ⟨he.of_free rfl he.index (le_refl _) he.length rfl, marked_of_none hmark⟩
  · exact headers_almost_done_safe
      (e := { e with parser := { e.parser with state := .s_headers_almost_done } })
      ⟨relies_of_free rfl, he.index, he.nread, he.length, he.errno⟩ hmark
  · exact safe_fail e _
  · have hof : (HeaderState.ofFirst (token ch)).ofField = true := by
      unfold HeaderState.ofFirst
      split_ifs <;> rfl
    refine ⟨⟨⟨⟨hof, Nat.zero_le _⟩, Nat.zero_le _, he.nread, he.length, he.errno⟩,
      fun h => by cases h⟩, fun md hmd => ?_⟩
    have hset : e.setMark .header_field = { e with mark := some (.header_field, []) } := by
      unfold Exec.setMark
      rw [hmark]
    rw [hset] at hmd
    cases hmd
    rfl

theorem header_value_start_safe (hmark : e.mark = none) : (header_value_start e ch).Safe := by
  unfold header_value_start
  refine safe_lift fun q hq => ⟨header_value_first_sane he hq, fun md hmd => ?_⟩
  have hset : e.setMark .header_value = { e with mark := some (.header_value, []) } := by
    unfold Exec.setMark
    rw [hmark]
  rw [hset] at hmd
  cases hmd
  rw [(header_value_first_frame hq).1]
  rfl

theorem req_spaces_before_url_safe (hmark : e.mark = none) (hs : e.parser.state.free = true) :
    (req_spaces_before_url e ch).Safe := by
  unfold req_spaces_before_url
  split
  · exact ⟨⟨he, anew_of_free hs⟩, marked_of_none hmark⟩
  · refine safe_lift fun q hq => ?_
    obtain ⟨heq, hpart⟩ := url_char_ok hq
    have hset : e.setMark .url = { e with mark := some (.url, []) } := by
      unfold Exec.setMark
      rw [hmark]
    refine ⟨?_, fun md hmd => ?_⟩
    · rw [heq]
      exact he.of_free (State.free_url hpart) he.index (le_refl _) he.length rfl
    · rw [hset] at hmd
      cases hmd
      exact State.mark_url hpart

/-- One more character of a url. -/
theorem safe_url_char (hmark : e.Marked) (hpart : e.parser.state.part = .url) {s : State} :
    (e.lift (url_char e.parser s ch)).Safe := by
  refine safe_lift fun q hq => ?_
  obtain ⟨heq, hpart'⟩ := url_char_ok hq
  refine ⟨?_, fun md hmd => ?_⟩
  · rw [heq]
    exact he.of_free (State.free_url hpart') he.index (le_refl _) he.length rfl
  · rw [State.mark_url hpart', ← State.mark_url hpart]
    exact hmark md hmd

theorem req_schema_safe (hmark : e.Marked) (hpart : e.parser.state.part = .url) :
    (req_schema e ch).Safe := by
  unfold req_schema
  split
  · exact safe_fail e _
  · exact safe_url_char he hmark hpart

theorem req_url_safe (hmark : e.Marked) (hpart : e.parser.state.part = .url) :
    (req_url e ch).Safe := by
  unfold req_url
  split
  · exact ⟨he.of_free rfl he.index (le_refl _) he.length rfl, marked_of_none rfl⟩
  split
  · refine ⟨he.of_free ?_ he.index (le_refl _) he.length rfl, marked_of_none rfl⟩
    show State.free (if ch = CR then _ else _) = true
    split <;> rfl
  · exact safe_url_char he hmark hpart

theorem header_field_safe (hmark : e.Marked) (hs : e.parser.state = .s_header_field) :
    (header_field e ch).Safe := by
  simp only [header_field]
  split_ifs with htoken hover hcolon
  · refine ⟨header_field_char_sane he hs, fun md hmd => ?_⟩
    show (header_field_char e.parser ch).state.mark = _
    rw [(header_field_char_frame e.parser ch).1]
    exact hmark md hmd
  · exact safe_fail e _
  · exact ⟨⟨⟨relies_of_free rfl, he.index, not_lt.mp hover, he.length, he.errno⟩,
      anew_of_free rfl⟩, marked_of_none rfl⟩
  · exact safe_fail e _

theorem header_value_discard_ws_safe (hmark : e.mark = none)
    (hs : e.parser.state = .s_header_value_discard_ws) : (header_value_discard_ws e ch).Safe := by
  unfold header_value_discard_ws
  split_ifs
  · exact ⟨⟨he, anew_of_free (by rw [hs]; rfl)⟩, marked_of_none hmark⟩
  · exact ⟨he.of_free rfl he.index (le_refl _) he.length rfl, marked_of_none hmark⟩
  · exact ⟨he.of_free rfl he.index (le_refl _) he.length rfl, marked_of_none hmark⟩
  · exact header_value_start_safe he hmark

theorem header_value_safe (hmark : e.Marked) (hs : e.parser.state = .s_header_value) :
    (header_value e ch).Safe := by
  have hanew : e.parser.Anew := fun h => by rw [h] at hs; cases hs
  simp only [header_value]
  split
  · exact ⟨⟨he, hanew⟩, hmark⟩
  split
  · split
    · exact fun h => by cases h
    next hover =>
      exact ⟨⟨⟨relies_of_free rfl, he.index, not_lt.mp hover, he.length, he.errno⟩,
        anew_of_free rfl⟩, marked_of_none rfl⟩
  split
  · split
    · exact safe_fail e _
    next hover =>
      refine Step.Safe.after (safe_lift_none rfl fun q hq => ?_) _
      unfold header_almost_done at hq
      split at hq
      · cases hq
      · cases hq
        exact ⟨⟨relies_of_free rfl, he.index, not_lt.mp hover, he.length, he.errno⟩,
          anew_of_free rfl⟩
  split
  · exact safe_fail e _
  · refine safe_lift fun q hq => ⟨header_value_char_sane he hs hq, fun md hmd => ?_⟩
    rw [(header_value_char_frame hq).1]
    exact hmark md hmd

theorem header_value_lws_safe (hmark : e.mark = none) : (header_value_lws e ch).Safe := by
  simp only [header_value_lws]
  split
  · refine header_value_start_safe ?_ hmark
    exact ⟨relies_of_free rfl, he.index, he.nread, he.length, he.errno⟩
  · refine header_field_start_safe ?_ hmark
    exact ⟨relies_of_free rfl, he.index, he.nread, he.length, he.errno⟩

theorem header_value_discard_lws_safe (hmark : e.mark = none) :
    (header_value_discard_lws e ch).Safe := by
  simp only [header_value_discard_lws]
  split_ifs
  · exact ⟨he.of_free rfl he.index (le_refl _) he.length rfl, marked_of_none hmark⟩
  · exact safe_fail e _
  · refine Step.Safe.after (header_field_start_safe ?_ rfl) _
    exact ⟨relies_of_free rfl, he.index, he.nread, he.length, he.errno⟩

theorem chunk_data_safe (hmark : e.Marked) (hs : e.parser.state = .s_chunk_data) :
    (chunk_data e).Safe := by
  have hrelies : e.parser.flags.F_CHUNKED = true ∧ e.parser.content_length ≠ 0 ∧
      e.parser.content_length < ULLONG_MAX := by
    have := he.relies
    unfold Parser.relies at this
    rwa [hs] at this
  have hbody := setMark_body_marked hmark (by rw [hs]; rfl)
  have hlength := he.length
  simp only [chunk_data, Exec.setMark_parser]
  split
  next hzero =>
    refine ⟨⟨⟨⟨hrelies.1, hzero⟩, he.index, he.nread, ?_, he.errno⟩, fun h => by cases h⟩,
      fun md hmd => ?_⟩
    · show e.parser.content_length - 1 ≤ _
      omega
    · rw [hbody md hmd]
      rfl
  next hzero =>
    refine ⟨⟨⟨?_, he.index, he.nread, ?_, he.errno⟩, fun h => ?_⟩, fun md hmd => ?_⟩
    · unfold Parser.relies
      simp only [hs]
      exact ⟨hrelies.1, hzero, by omega⟩
    · show e.parser.content_length - 1 ≤ _
      omega
    · rw [show e.parser.state = _ from h] at hs
      cases hs
    · rw [hbody md hmd]
      show e.parser.state.mark = _
      rw [hs]
      rfl

theorem chunk_data_almost_done_safe (hs : e.parser.state = .s_chunk_data_almost_done) :
    (chunk_data_almost_done e ch).Safe := by
  have hrelies : e.parser.flags.F_CHUNKED = true ∧ e.parser.content_length = 0 := by
    have := he.relies
    unfold Parser.relies at this
    rwa [hs] at this
  unfold chunk_data_almost_done
  split
  · exact safe_fail e _
  · exact ⟨⟨⟨hrelies.1, he.index, he.nread, he.length, he.errno⟩, fun h => by cases h⟩,
      marked_of_none rfl⟩

theorem body_identity_safe (hmark : e.Marked) (hs : e.parser.state = .s_body_identity) :
    (body_identity e ch).Safe := by
  have hrelies : e.parser.content_length ≠ 0 ∧ e.parser.content_length < ULLONG_MAX := by
    have := he.relies
    unfold Parser.relies at this
    rwa [hs] at this
  have hbody := setMark_body_marked hmark (by rw [hs]; rfl)
  have hlength := he.length
  have hle : e.parser.content_length - 1 ≤ ULLONG_MAX := by omega
  simp only [body_identity, Exec.setMark_parser]
  split
  next hzero =>
    refine (safe_ending rfl ⟨fun _ => ?_, fun _ => he.errno⟩).after _
    exact he.of_free (q := { e.parser with
      content_length := e.parser.content_length - 1, state := Parser.new_message _ })
      (new_message_free _) he.index (le_refl _) hle rfl
  next hzero =>
    refine ⟨⟨⟨?_, he.index, he.nread, hle, he.errno⟩, fun h => ?_⟩, fun md hmd => ?_⟩
    · unfold Parser.relies
      simp only [hs]
      exact ⟨hzero, by omega⟩
    · rw [show e.parser.state = _ from h] at hs
      cases hs
    · rw [hbody md hmd]
      show e.parser.state.mark = _
      rw [hs]
      rfl

theorem body_identity_eof_safe (hmark : e.Marked) (hs : e.parser.state = .s_body_identity_eof) :
    (body_identity_eof e).Safe := by
  have hbody := setMark_body_marked hmark (by rw [hs]; rfl)
  refine ⟨?_, fun md hmd => ?_⟩
  · rw [Exec.setMark_parser]
    exact ⟨he, anew_of_free (by rw [hs]; rfl)⟩
  · rw [hbody md hmd, Exec.setMark_parser, hs]
    rfl

/-- The arms that only go on to a state in which nothing is relied on. -/
theorem safe_lift_free {x : Except Errno Parser} (hmark : e.mark = none)
    (h : ∀ q, x = .ok q → q.state.free = true ∧ q.index = e.parser.index ∧
      q.nread = e.parser.nread ∧ q.content_length = e.parser.content_length ∧
      q.http_errno = e.parser.http_errno) : (e.lift x).Safe := by
  refine safe_lift_none hmark fun q hq => ?_
  obtain ⟨hfree, hindex, hnread, hlength, herr⟩ := h q hq
  exact he.of_free hfree (by rw [hindex]; exact he.index) hnread.le (by rw [hlength]; exact he.length)
    herr

theorem expect_safe (hmark : e.mark = none) {c : UInt8} {s : State} (hs : s.free = true) :
    (e.lift (expect c s e.parser ch)).Safe := by
  refine safe_lift_free he hmark fun q hq => ?_
  unfold expect at hq
  split at hq
  · cases hq
  · cases hq
    exact ⟨hs, rfl, rfl, rfl, rfl⟩

theorem version_safe (hmark : e.mark = none) {f : Parser → UInt8 → Except Errno Parser}
    (hf : f = req_http_start ∨ f = req_http_major ∨ f = req_http_dot ∨ f = req_http_minor ∨
      f = req_http_end ∨ f = req_line_almost_done ∨ f = header_almost_done ∨ f = dead)
    (hs : e.parser.state.free = true) : (e.lift (f e.parser ch)).Safe := by
  refine safe_lift_free he hmark fun q hq => ?_
  rcases hf with rfl | rfl | rfl | rfl | rfl | rfl | rfl | rfl <;>
    simp only [req_http_start, req_http_major, req_http_dot, req_http_minor, req_http_end,
      req_line_almost_done, header_almost_done, dead] at hq <;>
    split_ifs at hq <;> cases hq <;> first | exact ⟨rfl, rfl, rfl, rfl, rfl⟩ | exact ⟨hs, rfl, rfl, rfl, rfl⟩

theorem dispatch_safe (hmark : e.Marked) (ch : UInt8) : (dispatch e ch).Safe := by
  have hnone : e.parser.state.mark = none → e.mark = none := hmark.none
  cases hs : e.parser.state <;> rw [hs] at hnone <;> simp only [dispatch, hs]
  case s_dead | s_req_http_start | s_req_http_major | s_req_http_dot | s_req_http_minor
      | s_req_http_end | s_req_line_almost_done | s_header_almost_done =>
    exact version_safe he (hnone rfl) (by simp) (by rw [hs]; rfl)
  case s_start_req => exact safe_lift_none (hnone rfl) fun q hq => start_req_sane he hs hq
  -- the states in which an index is used, one by one
  case s_req_method => exact safe_lift_none (hnone rfl) fun q hq => req_method_sane he hs hq
  case s_req_spaces_before_url =>
    exact req_spaces_before_url_safe he (hnone rfl) (by rw [hs]; rfl)
  case s_req_schema | s_req_schema_slash | s_req_schema_slash_slash | s_req_server_start =>
    exact req_schema_safe he hmark (by rw [hs]; rfl)
  case s_req_server | s_req_server_with_at | s_req_path | s_req_query_string_start
      | s_req_query_string | s_req_fragment_start | s_req_fragment =>
    exact req_url_safe he hmark (by rw [hs]; rfl)
  case s_req_http_H | s_req_http_HT | s_req_http_HTT | s_req_http_HTTP | s_req_http_I
      | s_req_http_IC | s_header_value_discard_ws_almost_done =>
    exact expect_safe he (hnone rfl) rfl
  case s_header_field_start => exact header_field_start_safe he (hnone rfl)
  case s_header_field => exact header_field_safe he hmark hs
  case s_header_value_discard_ws => exact header_value_discard_ws_safe he (hnone rfl) hs
  case s_header_value_discard_lws => exact header_value_discard_lws_safe he (hnone rfl)
  case s_header_value_start => exact header_value_start_safe he (hnone rfl)
  case s_header_value => exact header_value_safe he hmark hs
  case s_header_value_lws => exact header_value_lws_safe he (hnone rfl)
  case s_chunk_size_start =>
    exact safe_lift_none (hnone rfl) fun q hq => chunk_size_start_sane he hs hq
  case s_chunk_size => exact safe_lift_none (hnone rfl) fun q hq => chunk_size_sane he hs hq
  case s_chunk_parameters =>
    exact safe_lift_none (hnone rfl) fun q hq => chunk_parameters_sane he hs hq
  case s_chunk_size_almost_done =>
    exact safe_lift_none (hnone rfl) fun q hq => chunk_size_almost_done_sane he hs hq
  case s_headers_almost_done => exact headers_almost_done_safe he (hnone rfl)
  case s_headers_done => exact safe_ending (hnone rfl) (safe_headers_done he ch)
  case s_chunk_data => exact chunk_data_safe he hmark hs
  case s_chunk_data_almost_done => exact chunk_data_almost_done_safe he hs
  case s_chunk_data_done =>
    exact safe_lift_none (hnone rfl) fun q hq => chunk_data_done_sane he hs hq
  case s_body_identity => exact body_identity_safe he hmark hs
  case s_body_identity_eof => exact body_identity_eof_safe he hmark hs
  case s_message_done => exact safe_ending (hnone rfl) (safe_complete he _)

/-- **One byte** leaves the parser in order. -/
theorem feed_safe (hmark : e.Marked) (ch : UInt8) : (feed e ch).Safe := by
  unfold feed
  split
  · split
    · exact safe_fail e _
    next hmax =>
      exact dispatch_safe (e := e.count (e.parser.nread + 1)) (he.count (by omega)) hmark ch
  · exact dispatch_safe he hmark ch

end

end

/-! ## Runs -/

/-- The parser between two calls: in order, unless there was an error. -/
def Parser.InOrder (p : Parser) : Prop := p.http_errno = none → p.Sane ∧ p.Anew

theorem inOrder_init : Parser.init.InOrder := fun _ =>
  ⟨⟨trivial, by decide, by decide, by decide, rfl⟩, fun h => by cases h⟩

namespace Execution

variable {S : Settings σ} {r : Execution σ}

/-- What holds in the middle of a call. -/
structure Sound (r : Execution σ) : Prop where
  going : r.stopped = false → (r.exec.parser.Sane ∧ r.exec.parser.Anew) ∧ r.exec.Marked
  stopped : r.stopped = true → r.exec.parser.InOrder
  loops : r.stopped = false → r.exec.Loops

theorem sound_start {p : Parser} (hp : p.InOrder) (herr : p.http_errno = none) (u : σ) :
    (start p u).Sound := by
  refine ⟨fun _ => ⟨hp herr, fun md hmd => ?_⟩, fun h => (by cases h),
    fun _ => ⟨fun _ _ => rfl, fun _ => rfl⟩⟩
  obtain ⟨m, hm, rfl⟩ := Option.map_eq_some_iff.mp (show p.state.resumed.map _ = some md from hmd)
  show p.state.mark = some m
  revert hm
  cases p.state <;> simp [State.resumed, State.mark, State.part]

theorem Sound.step (h : r.Sound) (ch : UInt8) : (r.step S ch).Sound := by
  cases hstop : r.stopped with
  | true => rwa [step_stopped S hstop]
  | false =>
    obtain ⟨⟨hsane, -⟩, hmark⟩ := h.going hstop
    have hsafe := feed_safe hsane hmark ch
    have hloops := step_loops S h.loops ch
    unfold Execution.step at hloops ⊢
    rw [if_neg (by simp [hstop])] at hloops ⊢
    cases hfeed : feed r.exec ch with
    | next cs e =>
      rw [hfeed] at hsafe hloops
      refine ⟨fun _ => ⟨hsafe.1, fun md hmd => ?_⟩, fun h => (by cases h), hloops⟩
      obtain ⟨md', hmd', rfl⟩ := Option.map_eq_some_iff.mp (show e.mark.map _ = some md from hmd)
      exact hsafe.2 md' hmd'
    | stop cs p =>
      rw [hfeed] at hsafe hloops
      exact ⟨fun h => (by cases h), fun _ => hsafe, hloops⟩
    | ask cs e =>
      rw [hfeed] at hsafe hloops
      obtain ⟨⟨hsane', hfree⟩, hnone⟩ := hsafe
      have hending := safe_headers_complete hsane' hfree
        (S.on_headers_complete e.parser (S.callAll r.user cs)).2 ch
      refine ⟨fun hgoing => ⟨hending.sane (hending.going hgoing), ?_⟩, fun _ => hending.sane,
        hloops⟩
      apply marked_of_none
      show e.mark.map _ = none
      rw [hnone]
      rfl

theorem Sound.scan (h : r.Sound) (data : Bytes) : (r.scan S data).Sound := by
  induction data generalizing r with
  | nil => exact h
  | cons ch data ih => exact ih (h.step ch)

theorem Sound.finish (h : r.Sound) : (r.finish S).1.InOrder := by
  unfold Execution.finish
  cases hstop : r.stopped with
  | true => exact h.stopped hstop
  | false =>
    simp only [Bool.false_eq_true, if_false]
    split
    · intro herr
      cases herr
    next hover =>
      intro _
      obtain ⟨⟨hsane, hanew⟩, -⟩ := h.going hstop
      have hmax := hsane.nread
      have hle : r.exec.parser.nread + (r.exec.run - 1) ≤ max_header_size := by
        by_cases hrun : r.exec.run = 0
        · omega
        · by_contra hgt
          exact hover ⟨by omega, by omega⟩
      refine ⟨hsane.count hle, fun hsize => ?_⟩
      have hs : r.exec.parser.state = .s_chunk_size_start := hsize
      have hrun := (h.loops hstop).run (by rw [hs]; decide) (by rw [hs]; decide)
      show r.exec.parser.nread + (r.exec.run - 1) = 0
      rw [hanew hs, hrun]

end Execution

open Execution

theorem execute_inOrder (S : Settings σ) {p : Parser} (hp : p.InOrder) (u : σ) (data : Bytes) :
    (execute S p u data).1.InOrder := by
  unfold execute
  split
  next herr =>
    intro h
    exact absurd h herr
  next herr =>
    rw [not_not] at herr
    split
    · split
      · exact hp
      · exact hp
      · exact hp
      · intro h
        cases h
    · exact ((sound_start hp herr u).scan data).finish

theorem executeAll_inOrder (S : Settings σ) {p : Parser} (hp : p.InOrder) (u : σ)
    (pieces : List Bytes) : (executeAll S p u pieces).1.InOrder := by
  induction pieces generalizing p u with
  | nil => exact hp
  | cons data pieces ih => exact ih (execute_inOrder S hp u data) _

/-- Where the parser is in order, the assertions hold. -/
theorem asserts_of_sane {e : Exec} (he : e.parser.Sane) (hanew : e.parser.Anew) (hmark : e.Marked)
    (hloops : e.Loops) : e.entry.Asserts ∧ e.parser.InRange := by
  refine ⟨⟨?_, ?_, ?_⟩, he.inRange⟩
  · have hrelies := he.relies
    have hentry : e.entry.parser = e.parser ∨
        e.entry.parser = e.parser.count (e.parser.nread + 1) := by
      unfold Exec.entry
      split
      · exact Or.inr rfl
      · exact Or.inl rfl
    -- the byte of a size is counted
    have hsize : e.parser.state = .s_chunk_size_start → e.entry.parser.nread = 1 := by
      intro hs
      have hrun := hloops.run (by rw [hs]; decide) (by rw [hs]; decide)
      unfold Exec.entry
      rw [if_pos ⟨by rw [hs]; rfl, hrun⟩]
      show e.parser.nread + 1 = 1
      rw [hanew hs]
    have hsame : e.entry.parser.state = e.parser.state ∧ e.entry.parser.flags = e.parser.flags ∧
        e.entry.parser.header_state = e.parser.header_state ∧
        e.entry.parser.content_length = e.parser.content_length := by
      rcases hentry with h | h <;> rw [h] <;> exact ⟨rfl, rfl, rfl, rfl⟩
    obtain ⟨hstate, hflags, hheader, hlength⟩ := hsame
    unfold Parser.armAsserts
    rw [hstate, hflags, hheader, hlength]
    unfold Parser.relies at hrelies
    cases hs : e.parser.state <;> rw [hs] at hrelies <;>
      first
        | trivial
        | exact hrelies.1
        | exact ⟨hsize hs, hrelies⟩
        | exact ⟨hrelies.1, hrelies.2.ne⟩
        | exact ⟨hrelies.1, hrelies.2.1, hrelies.2.2.ne⟩
  · unfold Exec.entry
    split <;> exact he.errno
  · unfold Exec.entry
    split <;> exact hmark

/-- The middle of a call, with the calls and the bytes before. -/
def Execution.within (S : Settings σ) (u : σ) (pieces : List Bytes) (data : Bytes) : Execution σ :=
  (start (executeAll S .init u pieces).1 (executeAll S .init u pieces).2).scan S data

/-! ## The count of header bytes -/

/-- A loop takes one byte at a time. -/
def Step.Runs (n : ℕ) : Step → Prop
  | .next _ e | .ask _ e => e.run ≤ n
  | .stop _ _ => True

theorem Step.Counted.runs {s : Step} {a b n : ℕ} (h : s.Counted a b) (hle : a ≤ n) : s.Runs n := by
  cases s with
  | next cs e => exact h.1.le.trans hle
  | ask cs e => exact h.1.le.trans hle
  | stop => exact trivial

theorem header_value_runs (e : Exec) (ch : UInt8) : (header_value e ch).Runs (e.run + 1) := by
  simp only [header_value]
  split
  · exact le_rfl
  split
  · split
    · exact trivial
    · exact Nat.zero_le _
  split
  · split
    · exact trivial
    · exact ((Step.counted_lift _ ⟨rfl, rfl⟩).after _).runs (Nat.zero_le _)
  split
  · exact trivial
  · exact (Step.counted_lift _ ⟨rfl, rfl⟩).runs le_rfl

theorem dispatch_runs (e : Exec) (ch : UInt8) : (dispatch e ch).Runs (e.run + 1) := by
  by_cases hfield : e.parser.state = .s_header_field
  · simp only [dispatch, hfield, header_field]
    split_ifs
    · exact le_rfl
    · exact trivial
    · exact Nat.zero_le _
    · exact trivial
  by_cases hvalue : e.parser.state = .s_header_value
  · simp only [dispatch, hvalue]
    exact header_value_runs e ch
  exact (dispatch_counted ⟨rfl, rfl⟩ ch hfield hvalue).runs (Nat.le_succ _)

theorem feed_runs (e : Exec) (ch : UInt8) : (feed e ch).Runs (e.run + 1) := by
  unfold feed
  split
  · split
    · exact trivial
    · exact dispatch_runs _ ch
  · exact dispatch_runs e ch

theorem Execution.step_run (S : Settings σ) (r : Execution σ) (ch : UInt8) :
    (r.step S ch).exec.run ≤ r.exec.run + 1 := by
  have hfeed := feed_runs r.exec ch
  unfold Execution.step
  split
  · exact Nat.le_succ _
  · cases hs : feed r.exec ch with
    | next cs e =>
      rw [hs] at hfeed
      exact hfeed
    | ask cs e =>
      rw [hs] at hfeed
      exact hfeed
    | stop => exact Nat.le_succ _

/-- A loop has taken no more than the bytes of the call. -/
theorem Execution.scan_run (S : Settings σ) (r : Execution σ) (data : Bytes) :
    (r.scan S data).exec.run ≤ r.exec.run + data.length := by
  induction data generalizing r with
  | nil => exact le_rfl
  | cons ch data ih =>
    have hstep := step_run S r ch
    have hrest := ih (r.step S ch)
    rw [scan_cons, List.length_cons]
    omega

/-- Calls that the count of header bytes has room for. -/
def Short (pieces : List Bytes) : Prop :=
  ∀ data ∈ pieces, data.length + max_header_size < 2 ^ 32

instance (pieces : List Bytes) : Decidable (Short pieces) :=
  inferInstanceAs (Decidable (∀ data ∈ pieces, data.length + max_header_size < 2 ^ 32))

/-- In the middle of every call, what has been counted fits a `uint32_t` together with what the
loop that is under way has still to count. -/
def CountFits (S : Settings σ) (u : σ) (pieces : List Bytes) : Prop :=
  ∀ before piece after read rest, pieces = before ++ piece :: after → piece = read ++ rest →
    (executeAll S .init u before).1.http_errno = none → (within S u before read).stopped = false →
    (within S u before read).exec.parser.nread + (within S u before read).exec.run < 2 ^ 32

theorem countFits (S : Settings σ) (u : σ) {pieces : List Bytes} (h : Short pieces) :
    CountFits S u pieces := by
  intro before piece after read rest hpieces hpiece herr hgoing
  have hp := executeAll_inOrder S inOrder_init u before
  have hsound : (within S u before read).Sound := (sound_start hp herr _).scan read
  have hnread : (within S u before read).exec.parser.nread ≤ max_header_size :=
    (hsound.going hgoing).1.1.nread
  have hrun : (within S u before read).exec.run ≤ 0 + read.length := scan_run S _ read
  have hlen : piece.length + max_header_size < 2 ^ 32 := h piece (by simp [hpieces])
  rw [hpiece, List.length_append] at hlen
  omega

/-! ## No assertion fails -/

/-- **No assertion fails.** Whatever the calls before, what `on_headers_complete` answers and the
bytes of this call so far: where the next byte is read, what the parser asserts holds, and its
numbers fit their fields. -/
theorem assertions_hold (S : Settings σ) (u : σ) (pieces : List Bytes) (data : Bytes)
    (hshort : Short (pieces ++ [data]))
    (herr : (executeAll S .init u pieces).1.http_errno = none)
    (hgoing : (within S u pieces data).stopped = false) :
    ((within S u pieces data).exec.entry.Asserts ∧ (within S u pieces data).exec.parser.InRange) ∧
      CountFits S u (pieces ++ [data]) := by
  have hp := executeAll_inOrder S inOrder_init u pieces
  have hsound : (within S u pieces data).Sound := (sound_start hp herr _).scan data
  obtain ⟨⟨hsane, hanew⟩, hmark⟩ := hsound.going hgoing
  exact ⟨asserts_of_sane hsane hanew hmark (hsound.loops hgoing), countFits S u hshort⟩

theorem assertions_hold_chunk :
    ((within transcript [] [bytes "POST / HTTP/1.1\r\nTransfer-Enc",
        bytes "oding: chunked\r\n\r\n3\r\nab"] (bytes "c\r\n")).exec.entry.Asserts ∧
      (within transcript [] [bytes "POST / HTTP/1.1\r\nTransfer-Enc",
        bytes "oding: chunked\r\n\r\n3\r\nab"] (bytes "c\r\n")).exec.parser.InRange) ∧
      CountFits transcript [] ([bytes "POST / HTTP/1.1\r\nTransfer-Enc",
        bytes "oding: chunked\r\n\r\n3\r\nab"] ++ [bytes "c\r\n"]) :=
  assertions_hold transcript [] [bytes "POST / HTTP/1.1\r\nTransfer-Enc",
    bytes "oding: chunked\r\n\r\n3\r\nab"] (bytes "c\r\n") (by decide) (by decide) (by decide)

end Http
end SomoNet
