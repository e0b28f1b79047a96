import SomoNet.Http.Assertions

/-!
# The count of header bytes

The count of header bytes is part of what calls with the pieces of an input leave behind, and it is
the same that one call leaves behind (`executeAll_eq`).

The parser counts header bytes to protect users who keep what is reported of a request from headers
without an end. Such a user drops what it has kept when the headers are complete
(`Settings.Frugal`). As long as there is no error, it never keeps more than `max_header_size`
bytes, whatever is sent and however it is cut (`kept_le`).

With an error this may fail: a value that is ended by a carriage return is reported before its
length is checked.
-/

namespace SomoNet
namespace Http

variable {σ : Type*}

open Execution

/-! ## Cuts -/

/-- **Cuts make no difference.** Calls with the pieces of some input, one after the other, leave
the parser and its user exactly where one call with the whole input leaves them, or both fail;
the callbacks have to take data in pieces, the protocol must not change on the way, and the input
must not be too long for the count of header bytes. -/
theorem executeAll_eq {S : Settings σ} (hS : S.Additive) (u : σ) {pieces : List Bytes}
    (hpieces : ∀ data ∈ pieces, data ≠ []) (hshort : Short [pieces.flatten])
    (hexit : ¬((start .init u).scan S pieces.flatten).Exits) :
    (executeAll S .init u pieces = execute S .init u pieces.flatten ∨
      (executeAll S .init u pieces).1.http_errno ≠ none ∧
        (execute S .init u pieces.flatten).1.http_errno ≠ none) ∧
      CountFits S u pieces ∧ CountFits S u [pieces.flatten] := by
  have hpiece : Short pieces := by
    intro data hdata
    have hle : data.length ≤ pieces.flatten.length := (List.sublist_flatten_of_mem hdata).length_le
    have hlen := hshort _ (List.mem_singleton_self _)
    omega
  exact ⟨executeAll_flatten hS u hpieces hexit, countFits S u hpiece, countFits S u hshort⟩

theorem executeAll_eq_post :
    let pieces := [bytes "POST /a HT", bytes "TP/1.1\r\nContent-Le", bytes "ngth: 5\r\n\r\nhe",
      bytes "llo"]
    (executeAll transcript .init [] pieces = execute transcript .init [] pieces.flatten ∨
      (executeAll transcript .init [] pieces).1.http_errno ≠ none ∧
        (execute transcript .init [] pieces.flatten).1.http_errno ≠ none) ∧
      CountFits transcript [] pieces ∧ CountFits transcript [] [pieces.flatten] := by
  refine executeAll_eq transcript_additive [] (by decide) (by decide) ?_
  rintro ⟨hstop, -⟩
  revert hstop
  decide +kernel

/-! ## What is reported -/

/-- The bytes of a url, a field or a value that a call reports. -/
def Event.headBytes : Event → ℕ
  | .url _ d | .header_field d | .header_value d => d.length
  | .body _ | .message_complete => 0

def headBytes (cs : List Event) : ℕ := (cs.map Event.headBytes).sum

/-- The headers of the request are complete. -/
def State.pastHeaders (s : State) : Bool := s.part = .body || s = .s_headers_done

/-- Those that a mark will report. -/
def Exec.held (e : Exec) : ℕ :=
  match e.mark with
  | none | some (.body, _) => 0
  | some (_, d) => d.length

/-- A user of which `kept` says how much it keeps: at most the bytes of urls, fields and values that
were reported since the headers or the message were last complete. -/
structure Settings.Frugal (S : Settings σ) (kept : σ → ℕ) : Prop where
  call : ∀ u c, kept (S.call u c) ≤ kept u + c.headBytes
  headers : ∀ p u, kept (S.on_headers_complete p u).1 = 0
  complete : ∀ u, kept (S.on_message_complete u) = 0

/-- The user who counts the bytes, with any answer to `on_headers_complete`. -/
def meter (answer : Parser → ℕ → ℤ) : Settings ℕ where
  on_url _ d n := n + d.length
  on_header_field d n := n + d.length
  on_header_value d n := n + d.length
  on_headers_complete p n := (0, answer p n)
  on_body _ n := n
  on_message_complete _ := 0

theorem meter_frugal (answer : Parser → ℕ → ℤ) : (meter answer).Frugal id where
  call u c := by cases c <;> first | exact le_rfl | exact Nat.zero_le _
  headers _ _ := rfl
  complete _ := rfl

namespace Settings.Frugal

variable {S : Settings σ} {kept : σ → ℕ} (hS : S.Frugal kept)
include hS

theorem calls (u : σ) (cs : List Event) : kept (S.callAll u cs) ≤ kept u + headBytes cs := by
  induction cs generalizing u with
  | nil => exact le_rfl
  | cons c cs ih =>
    have hcs := ih (S.call u c)
    have hc := hS.call u c
    have hsum : headBytes (c :: cs) = c.headBytes + headBytes cs := List.sum_cons
    rw [Settings.callAll_cons, hsum]
    omega

/-- Once the message is complete, nothing is kept. -/
theorem calls_complete {cs : List Event} (h : [.message_complete] <:+ cs) (u : σ) :
    kept (S.callAll u cs) = 0 := by
  obtain ⟨before, rfl⟩ := h
  rw [Settings.callAll_append]
  exact hS.complete _

end Settings.Frugal

variable {e e' : Exec} {ch : UInt8} {n k : ℕ}

/-! ## Marks -/

theorem held_consume_le (e : Exec) (ch : UInt8) : (e.consume ch).held ≤ e.held + 1 := by
  obtain ⟨p, mark, run, general⟩ := e
  obtain _ | ⟨m, d⟩ := mark
  · exact Nat.zero_le _
  · cases m <;> simp [Exec.consume, Exec.held]

theorem held_of_none (h : e.mark = none) : e.held = 0 := by
  unfold Exec.held
  rw [h]

theorem held_consume_of_none (h : e.mark = none) (ch : UInt8) : (e.consume ch).held = 0 := by
  apply held_of_none
  unfold Exec.consume
  rw [h]
  rfl

theorem held_setMark (e : Exec) (m : Mark) : (e.setMark m).held = e.held := by
  obtain ⟨p, mark, run, general⟩ := e
  obtain _ | ⟨m', d⟩ := mark
  · cases m <;> rfl
  · rfl

/-- What is reported of a mark is what it holds. -/
theorem headBytes_calls_le (e : Exec) (m : Mark) : headBytes (e.calls m) ≤ e.held := by
  obtain ⟨p, mark, run, general⟩ := e
  obtain _ | ⟨m', d⟩ := mark
  · exact Nat.zero_le _
  · unfold Exec.calls
    dsimp only
    split
    next h =>
      subst h
      cases m' <;> simp [headBytes, Event.headBytes, Exec.held, Mark.call]
    next => exact Nat.zero_le _

/-! ## One byte -/

/-- What a byte reports and then holds is what was held before and that byte at most; with it `n`
header bytes have been counted or are going to be. -/
structure Tallied (n k : ℕ) (ch : UInt8) (cs : List Event) (e : Exec) : Prop where
  bytes : headBytes cs + (e.consume ch).held ≤ k + 1
  size : n ≤ e.size
  run : cs ≠ [] → e.run = 0
  state : e.parser.state.pastHeaders = false

/-- A byte of the headers is counted, completes the message or is an error. -/
def Step.Counts (n k : ℕ) (ch : UInt8) : Step → Prop
  | .next cs e => Tallied n k ch cs e ∨ [.message_complete] <:+ cs ∧ e.mark = none
  | .stop cs p => p.http_errno = none → [.message_complete] <:+ cs
  | .ask _ _ => True

theorem counts_fail (e : Exec) (err : Errno) : (e.fail err).Counts n k ch := by
  intro h
  cases h

/-- Nothing is reported. -/
theorem counts_next (hheld : e.held ≤ k) (hsize : n ≤ e.size)
    (hstate : e.parser.state.pastHeaders = false) : (Step.next [] e).Counts n k ch := by
  have hle := held_consume_le e ch
  refine Or.inl ⟨?_, hsize, fun h => absurd rfl h, hstate⟩
  show 0 + _ ≤ _
  omega

/-- What the mark holds is reported. -/
theorem counts_report {m : Mark} (hheld : e.held ≤ k) (hmark : e'.mark = none) (hrun : e'.run = 0)
    (hsize : n ≤ e'.size) (hstate : e'.parser.state.pastHeaders = false) :
    (Step.next (e.calls m) e').Counts n k ch := by
  have hle := headBytes_calls_le e m
  have hnone := held_consume_of_none hmark ch
  exact Or.inl ⟨by omega, hsize, fun _ => hrun, hstate⟩

theorem counts_lift {x : Except Errno Parser} (hheld : e.held ≤ k)
    (h : ∀ q, x = .ok q → n ≤ q.nread + (e.run - 1) ∧ q.state.pastHeaders = false) :
    (e.lift x).Counts n k ch := by
  unfold Exec.lift
  cases hx : x with
  | error err => exact counts_fail e err
  | ok q => exact counts_next (e := { e with parser := q }) hheld (h q hx).1 (h q hx).2

/-- What the mark holds is reported before a byte that holds itself at most. -/
theorem counts_after {s : Step} {m : Mark} (hheld : e.held ≤ k) (h : s.Counts n 0 ch)
    (hrun : ∀ cs e', s = .next cs e' → e'.run = 0) : (s.after (e.calls m)).Counts n k ch := by
  have hle := headBytes_calls_le e m
  cases s with
  | stop cs p => exact fun herr => (h herr).trans (List.suffix_append _ _)
  | ask => trivial
  | next cs e' =>
    rcases h with htallied | ⟨hmem, hmark⟩
    · have hbytes := htallied.bytes
      have hsum : headBytes (e.calls m ++ cs) = headBytes (e.calls m) + headBytes cs := by
        simp [headBytes]
      exact Or.inl ⟨by omega, htallied.size, fun _ => hrun cs e' rfl, htallied.state⟩
    · exact Or.inr ⟨hmem.trans (List.suffix_append _ _), hmark⟩

theorem State.pastHeaders_url {s : State} (h : s.part = .url) : s.pastHeaders = false := by
  revert h
  cases s <;> decide

/-! ## The arms of the switch -/

/-- The arms that call nothing back and set no mark. -/
theorem counts_quiet {x : Except Errno Parser}
    (h : ∀ q, x = .ok q → q.nread = e.parser.nread ∧ q.state.pastHeaders = false) :
    (e.lift x).Counts e.parser.nread e.held ch := by
  refine counts_lift le_rfl fun q hq => ⟨?_, (h q hq).2⟩
  rw [(h q hq).1]
  exact Nat.le_add_right _ _

theorem req_spaces_before_url_counts (hs : e.parser.state = .s_req_spaces_before_url) :
    (req_spaces_before_url e ch).Counts e.parser.nread e.held ch := by
  unfold req_spaces_before_url
  split
  · exact counts_next le_rfl (Nat.le_add_right _ _) (by rw [hs]; rfl)
  · refine counts_lift (held_setMark e .url).le fun q hq => ?_
    obtain ⟨hframe, hpart⟩ := url_char_ok hq
    refine ⟨?_, State.pastHeaders_url hpart⟩
    rw [hframe]
    exact Nat.le_add_right _ _

theorem counts_url_char {s : State} :
    (e.lift (url_char e.parser s ch)).Counts e.parser.nread e.held ch := by
  refine counts_quiet fun q hq => ?_
  obtain ⟨hframe, hpart⟩ := url_char_ok hq
  refine ⟨?_, State.pastHeaders_url hpart⟩
  rw [hframe]

theorem req_schema_counts : (req_schema e ch).Counts e.parser.nread e.held ch := by
  unfold req_schema
  split
  · exact counts_fail e _
  · exact counts_url_char

theorem headers_almost_done_counts (hmark : e.mark = none) :
    (headers_almost_done e ch).Counts e.parser.nread k ch := by
  unfold headers_almost_done
  dsimp only
  split
  · exact counts_fail e _
  split
  · unfold Exec.ending
    split
    · exact fun _ => List.suffix_rfl
    · exact Or.inr ⟨List.suffix_rfl, hmark⟩
  split
  · exact counts_fail e _
  · trivial

theorem header_field_start_counts (hheld : e.held ≤ k) (hmark : e.mark = none) :
    (header_field_start e ch).Counts e.parser.nread k ch := by
  unfold header_field_start
  split
  · exact counts_next (by exact hheld) (Nat.le_add_right _ _) rfl
  split
  · exact headers_almost_done_counts (by exact hmark)
  split
  · exact counts_fail e _
  · refine counts_next ?_ (Nat.le_add_right _ _) rfl
    exact ((held_setMark e .header_field).le).trans hheld

theorem header_value_start_counts (hheld : e.held ≤ k) :
    (header_value_start e ch).Counts e.parser.nread k ch := by
  refine counts_lift ((held_setMark e .header_value).le.trans hheld) fun q hq => ?_
  obtain ⟨hstate, -, -, hnread⟩ := header_value_first_frame hq
  rw [hstate, hnread]
  exact ⟨Nat.le_add_right _ _, rfl⟩

theorem header_value_discard_ws_counts (hs : e.parser.state = .s_header_value_discard_ws) :
    (header_value_discard_ws e ch).Counts e.parser.nread e.held ch := by
  unfold header_value_discard_ws
  split
  · exact counts_next le_rfl (Nat.le_add_right _ _) (by rw [hs]; rfl)
  split
  · exact counts_next (by exact le_rfl) (Nat.le_add_right _ _) rfl
  split
  · exact counts_next (by exact le_rfl) (Nat.le_add_right _ _) rfl
  · exact header_value_start_counts le_rfl

theorem header_value_lws_counts (hmark : e.mark = none) :
    (header_value_lws e ch).Counts e.parser.nread e.held ch := by
  unfold header_value_lws
  dsimp only
  split
  · exact header_value_start_counts (by exact le_rfl)
  · exact header_field_start_counts (by exact le_rfl) (by exact hmark)

section

variable (hrun : e.run = 0)
include hrun

theorem req_url_counts : (req_url e ch).Counts e.parser.nread e.held ch := by
  unfold req_url
  split
  · exact counts_report (by exact le_rfl) rfl hrun (Nat.le_add_right _ _) rfl
  split
  · refine counts_report (by exact le_rfl) rfl hrun (Nat.le_add_right _ _) ?_
    show State.pastHeaders (if ch = CR then _ else _) = false
    split <;> rfl
  · exact counts_url_char

/-- An arm that goes on to the next field leaves no loop behind. -/
theorem header_field_start_run {cs : List Event} (h : header_field_start e ch = .next cs e') :
    e'.run = 0 := by
  have hcounted := header_field_start_counted ⟨hrun, rfl⟩ ch
  rw [h] at hcounted
  exact hcounted.1

theorem header_value_discard_lws_counts :
    (header_value_discard_lws e ch).Counts e.parser.nread e.held ch := by
  unfold header_value_discard_lws
  dsimp only
  split
  · exact counts_next (by exact le_rfl) (Nat.le_add_right _ _) rfl
  split
  · exact counts_fail e _
  · have hrun' : (e.setMark .header_value).run = 0 := (e.setMark_counters _).1.trans hrun
    refine counts_after (held_setMark e .header_value).le ?_ fun cs e' h => ?_
    · exact header_field_start_counts (held_of_none rfl).le rfl
    · exact header_field_start_run (by exact hrun') h

end

theorem header_field_counts (hs : e.parser.state = .s_header_field) :
    (header_field e ch).Counts (e.parser.nread + e.run) e.held ch := by
  unfold header_field
  dsimp only
  split
  · obtain ⟨hstate, -, -, hnread⟩ := header_field_char_frame e.parser ch
    refine counts_next (by exact le_rfl) ?_ ?_
    · show _ ≤ (header_field_char e.parser ch).nread + (e.run + 1 - 1)
      rw [hnread]
      omega
    · show (header_field_char e.parser ch).state.pastHeaders = false
      rw [hstate, hs]
      rfl
  split
  · exact counts_fail e _
  split
  · exact counts_report (by exact le_rfl) rfl rfl (Nat.le_add_right _ _) rfl
  · exact counts_fail e _

theorem header_value_counts (hs : e.parser.state = .s_header_value) :
    (header_value e ch).Counts (e.parser.nread + e.run) e.held ch := by
  have hvalue : e.parser.state.pastHeaders = false := by
    rw [hs]
    rfl
  unfold header_value
  dsimp only
  split
  · refine counts_next (by exact le_rfl) ?_ hvalue
    show _ ≤ e.parser.nread + (e.run + 1 - 1)
    omega
  split
  · split
    -- the value has been reported although it is too long, but with an error
    · intro herr
      cases herr
    · exact counts_report (by exact le_rfl) rfl rfl (Nat.le_add_right _ _) rfl
  split
  · split
    · exact counts_fail e _
    · refine counts_after le_rfl ?_ fun cs e' h => ?_
      · refine counts_lift (held_of_none rfl).le fun q hq => ?_
        unfold header_almost_done at hq
        split_ifs at hq
        cases hq
        exact ⟨Nat.le_add_right _ _, rfl⟩
      · unfold Exec.lift Exec.fail at h
        cases hq : header_almost_done { e.parser with nread := e.parser.nread + e.run } ch <;>
          rw [hq] at h <;> cases h
        rfl
  split
  · exact counts_fail e _
  · refine counts_lift (by exact le_rfl) fun q hq => ?_
    obtain ⟨hstate, -, -, hnread⟩ := header_value_char_frame hq
    rw [hstate, hnread]
    refine ⟨?_, hvalue⟩
    show _ ≤ e.parser.nread + (e.run + 1 - 1)
    omega

/-! ## Bytes of the headers -/

theorem start_req_nread {p q : Parser} (h : start_req p ch = .ok q) (hs : p.state = .s_start_req) :
    q.nread = p.nread ∧ q.state.pastHeaders = false := by
  unfold start_req at h
  split_ifs at h
  · cases h
    rw [hs]
    exact ⟨rfl, rfl⟩
  · cases hm : Method.ofFirst ch <;> rw [hm] at h <;> cases h
    exact ⟨rfl, rfl⟩

theorem req_method_nread {p q : Parser} (h : req_method p ch = .ok q)
    (hs : p.state = .s_req_method) : q.nread = p.nread ∧ q.state.pastHeaders = false := by
  unfold req_method at h
  dsimp only at h
  split_ifs at h
  · cases h
    exact ⟨rfl, rfl⟩
  · cases h
    exact ⟨rfl, by rw [hs]; rfl⟩
  · cases hm : p.method.switch p.index ch <;> rw [hm] at h <;> cases h
    exact ⟨rfl, by rw [hs]; rfl⟩

theorem expect_nread {p q : Parser} {c : UInt8} {s : State} (hs : s.pastHeaders = false)
    (h : expect c s p ch = .ok q) : q.nread = p.nread ∧ q.state.pastHeaders = false := by
  unfold expect at h
  split_ifs at h
  cases h
  exact ⟨rfl, hs⟩

theorem version_nread {p q : Parser} {f : Parser → UInt8 → Except Errno Parser}
    (hf : f = req_http_start ∨ f = req_http_major ∨ f = req_http_dot ∨ f = req_http_minor ∨
      f = req_http_end ∨ f = req_line_almost_done ∨ f = header_almost_done ∨ f = dead)
    (hs : p.state.pastHeaders = false) (h : f p ch = .ok q) :
    q.nread = p.nread ∧ q.state.pastHeaders = false := by
  rcases hf with rfl | rfl | rfl | rfl | rfl | rfl | rfl | rfl <;>
    simp only [req_http_start, req_http_major, req_http_dot, req_http_minor, req_http_end,
      req_line_almost_done, header_almost_done, dead] at h <;>
    split_ifs at h <;> cases h <;> first | exact ⟨rfl, rfl⟩ | exact ⟨rfl, hs⟩

theorem dispatch_counts (hpast : e.parser.state.pastHeaders = false) (hmark : e.Marked)
    (hloops : e.Loops) (ch : UInt8) :
    (dispatch e ch).Counts (e.parser.nread + e.run) e.held ch := by
  have hrun := hloops.run
  have hnone : e.parser.state.mark = none → e.mark = none := hmark.none
  cases hs : e.parser.state <;> rw [hs] at hpast hrun hnone <;> simp only [dispatch, hs]
  case s_header_field => exact header_field_counts hs
  case s_header_value => exact header_value_counts hs
  case s_headers_done | s_chunk_size_start | s_chunk_size | s_chunk_parameters
      | s_chunk_size_almost_done | s_chunk_data | s_chunk_data_almost_done | s_chunk_data_done
      | s_body_identity | s_body_identity_eof | s_message_done =>
    cases hpast
  -- elsewhere no loop is under way
  all_goals
    have hzero : e.run = 0 := hrun (by decide) (by decide)
    rw [hzero, Nat.add_zero]
  case s_dead | s_req_http_start | s_req_http_major | s_req_http_dot | s_req_http_minor
      | s_req_http_end | s_req_line_almost_done | s_header_almost_done =>
    exact counts_quiet fun q hq => version_nread (by simp) (by rw [hs]; rfl) hq
  case s_start_req => exact counts_quiet fun q hq => start_req_nread hq hs
  case s_req_method => exact counts_quiet fun q hq => req_method_nread hq hs
  case s_req_spaces_before_url => exact req_spaces_before_url_counts hs
  case s_req_schema | s_req_schema_slash | s_req_schema_slash_slash | s_req_server_start =>
    exact req_schema_counts
  case s_req_server | s_req_server_with_at | s_req_path | s_req_query_string_start
      | s_req_query_string | s_req_fragment_start | s_req_fragment =>
    exact req_url_counts hzero
  case s_req_http_H | s_req_http_HT | s_req_http_HTT | s_req_http_HTTP | s_req_http_I
      | s_req_http_IC | s_header_value_discard_ws_almost_done =>
    exact counts_quiet fun q hq => expect_nread rfl hq
  case s_header_field_start => exact header_field_start_counts le_rfl (hnone rfl)
  case s_header_value_discard_ws => exact header_value_discard_ws_counts hs
  case s_header_value_discard_lws => exact header_value_discard_lws_counts hzero
  case s_header_value_start => exact header_value_start_counts le_rfl
  case s_header_value_lws => exact header_value_lws_counts (hnone rfl)
  case s_headers_almost_done => exact headers_almost_done_counts (hnone rfl)

/-- **A byte of the headers** is counted. -/
theorem feed_counts (hpast : e.parser.state.pastHeaders = false) (hmark : e.Marked)
    (hloops : e.Loops) (ch : UInt8) : (feed e ch).Counts (e.size + 1) e.held ch := by
  have hparsing : e.parser.state.parsingHeader = true := by
    revert hpast
    cases e.parser.state <;> decide
  unfold feed
  split
  next h =>
    split
    · exact counts_fail e _
    · have hsize : e.size + 1 = e.parser.nread + 1 + e.run := by
        unfold Exec.size
        omega
      rw [hsize]
      exact dispatch_counts (e := e.count (e.parser.nread + 1)) hpast hmark
        ⟨hloops.run, hloops.general⟩ ch
  next h =>
    -- the byte is one of a loop, which has counted it already
    have hne : e.run ≠ 0 := fun hzero => h ⟨hparsing, hzero⟩
    have hsize : e.size + 1 = e.parser.nread + e.run := by
      unfold Exec.size
      omega
    rw [hsize]
    exact dispatch_counts hpast hmark hloops ch

/-! ## Bytes after the headers -/

/-- Nothing of the headers is reported. -/
def Silent (cs : List Event) : Prop := ∀ c ∈ cs, c.headBytes = 0

/-- What is reported and then held is not of the headers. -/
def Step.Silent : Step → Prop
  | .next cs e => Http.Silent cs ∧ ∀ md ∈ e.mark, md.1 = .body
  | .stop cs _ => Http.Silent cs
  | .ask _ _ => False

theorem Settings.Frugal.calls_silent {S : Settings σ} {kept : σ → ℕ} (hS : S.Frugal kept) {u : σ}
    (hu : kept u = 0) {cs : List Event} (h : Silent cs) : kept (S.callAll u cs) = 0 := by
  have hle := hS.calls u cs
  have hzero : headBytes cs = 0 := List.sum_eq_zero (by simpa [Silent] using h)
  omega

theorem silent_nil : Silent [] := fun c hc => by cases hc

theorem silent_ending_calls (x : Ending) : Silent x.calls := by
  unfold Ending.calls
  split <;> simp [Silent, Event.headBytes]

theorem silent_body_calls (e : Exec) : Silent (e.calls .body) := by
  obtain ⟨p, mark, run, general⟩ := e
  obtain _ | ⟨m, d⟩ := mark
  · exact silent_nil
  · unfold Exec.calls
    dsimp only
    split
    · simp [Silent, Event.headBytes, Mark.call]
    · exact silent_nil

theorem silent_lift {x : Except Errno Parser} (h : ∀ md ∈ e.mark, md.1 = .body) :
    (e.lift x).Silent := by
  cases x with
  | error => exact silent_nil
  | ok q => exact ⟨silent_nil, h⟩

theorem silent_ending (h : ∀ md ∈ e.mark, md.1 = .body) (x : Ending) : (e.ending x).Silent := by
  unfold Exec.ending
  split
  · exact silent_ending_calls x
  · exact ⟨silent_ending_calls x, h⟩

theorem silent_after {s : Step} (h : s.Silent) {cs : List Event} (hcs : Silent cs) :
    (s.after cs).Silent := by
  have happend : ∀ {cs'}, Silent cs' → Silent (cs ++ cs') := fun h c hc =>
    (List.mem_append.mp hc).elim (hcs c) (h c)
  cases s with
  | next => exact ⟨happend h.1, h.2⟩
  | stop => exact happend h
  | ask => exact h

theorem body_setMark (h : ∀ md ∈ e.mark, md.1 = .body) :
    ∀ md ∈ (e.setMark .body).mark, md.1 = .body := by
  obtain ⟨p, mark, run, general⟩ := e
  obtain _ | ⟨m, d⟩ := mark
  · simp [Exec.setMark]
  · exact h

theorem dispatch_silent (hpast : e.parser.state.pastHeaders = true)
    (hbody : ∀ md ∈ e.mark, md.1 = .body) (ch : UInt8) : (dispatch e ch).Silent := by
  cases hs : e.parser.state <;> rw [hs] at hpast <;> simp only [dispatch, hs]
  case s_chunk_size_start | s_chunk_size | s_chunk_parameters | s_chunk_size_almost_done
      | s_chunk_data_done =>
    exact silent_lift hbody
  case s_headers_done | s_message_done => exact silent_ending hbody _
  case s_chunk_data =>
    unfold chunk_data
    dsimp only
    split
    · exact ⟨silent_nil, body_setMark hbody⟩
    · exact ⟨silent_nil, body_setMark hbody⟩
  case s_chunk_data_almost_done =>
    unfold chunk_data_almost_done
    split
    · exact silent_nil
    · exact ⟨silent_body_calls e, fun md hmd => by cases hmd⟩
  case s_body_identity =>
    unfold body_identity
    dsimp only
    split
    · exact silent_after (silent_ending (fun md hmd => by cases hmd) _) (silent_body_calls _)
    · exact ⟨silent_nil, body_setMark hbody⟩
  case s_body_identity_eof => exact ⟨silent_nil, body_setMark hbody⟩
  all_goals cases hpast

/-- **A byte after the headers** reports nothing of them. -/
theorem feed_silent (hpast : e.parser.state.pastHeaders = true)
    (hbody : ∀ md ∈ e.mark, md.1 = .body) (ch : UInt8) : (feed e ch).Silent := by
  unfold feed
  split
  · split
    · exact silent_nil
    · exact dispatch_silent (e := e.count (e.parser.nread + 1)) hpast hbody ch
  · exact dispatch_silent hpast hbody ch

/-! ## Runs -/

theorem held_of_body (h : ∀ md ∈ e.mark, md.1 = .body) : e.held = 0 := by
  obtain ⟨p, mark, run, general⟩ := e
  obtain _ | ⟨m, d⟩ := mark
  · rfl
  · obtain rfl : m = .body := h _ rfl
    rfl

theorem held_consume_of_body (h : ∀ md ∈ e.mark, md.1 = .body) (ch : UInt8) :
    (e.consume ch).held = 0 := by
  refine held_of_body fun md hmd => ?_
  obtain ⟨md', hmd', rfl⟩ := Option.map_eq_some_iff.mp (show e.mark.map _ = some md from hmd)
  exact h md' hmd'

/-- After the headers there is no mark but that of the body. -/
theorem Exec.Marked.body (h : e.Marked) (hpast : e.parser.state.pastHeaders = true) :
    ∀ md ∈ e.mark, md.1 = .body := by
  intro md hmd
  have hmark := h md hmd
  revert hpast hmark
  cases e.parser.state <;> simp [State.pastHeaders, State.mark, State.part, eq_comm]

theorem headBytes_mark (e : Exec) (p : Parser) :
    headBytes (e.mark.toList.map fun md => md.1.call p md.2) = e.held := by
  obtain ⟨q, mark, run, general⟩ := e
  obtain _ | ⟨m, d⟩ := mark
  · rfl
  · cases m <;> simp [headBytes, Event.headBytes, Exec.held, Mark.call]

/-- What is kept between two calls. -/
def Parser.Keeps (p : Parser) (n : ℕ) : Prop :=
  p.http_errno = none → n ≤ p.nread ∧ (p.state.pastHeaders = true → n = 0)

namespace Execution

/-- What is kept in the middle of a call. -/
structure Keeps (kept : σ → ℕ) (r : Execution σ) : Prop where
  held : r.stopped = false → kept r.user + r.exec.held ≤ r.exec.size
  past : r.stopped = false → r.exec.parser.state.pastHeaders = true → kept r.user = 0
  limit : r.exec.parser.http_errno = none → kept r.user ≤ max_header_size
  stopped : r.stopped = true → r.exec.parser.http_errno = none → kept r.user = 0

variable {S : Settings σ} {kept : σ → ℕ} {r : Execution σ}

theorem keeps_zero (huser : kept r.user = 0) (hheld : r.exec.held = 0) : r.Keeps kept :=
  ⟨fun _ => by omega, fun _ _ => huser, fun _ => by omega, fun _ _ => huser⟩

variable (hS : S.Frugal kept)
include hS

/-- A byte of the headers. -/
theorem keeps_tallied {cs : List Event} (h : r.Keeps kept) (hstop : r.stopped = false)
    (herr : r.exec.parser.http_errno = none)
    (htallied : Tallied (r.exec.size + 1) r.exec.held ch cs e) (hsane : e.parser.Sane) :
    Keeps kept ⟨e.consume ch, false, S.callAll r.user cs⟩ := by
  have huser := hS.calls r.user cs
  have hheld := h.held hstop
  have hbytes := htallied.bytes
  have hsize := htallied.size
  have hle : kept (S.callAll r.user cs) + (e.consume ch).held ≤ e.size := by omega
  refine ⟨fun _ => hle, fun _ hpast => ?_, fun _ => ?_, fun hstop' => (by cases hstop')⟩
  · have hstate := htallied.state
    rw [show e.parser.state.pastHeaders = true from hpast] at hstate
    cases hstate
  -- what is kept grows only where a loop has ended and its bytes are in `nread`
  · by_cases hcs : cs = []
    · rw [hcs]
      exact h.limit herr
    · have hrun := htallied.run hcs
      have hnread := hsane.nread
      show kept (S.callAll r.user cs) ≤ _
      unfold Exec.size at hle
      omega

theorem Keeps.step (h : r.Keeps kept) (hr : r.Sound) (ch : UInt8) : (r.step S ch).Keeps kept := by
  cases hstop : r.stopped with
  | true => rwa [step_stopped _ hstop]
  | false =>
    obtain ⟨⟨hsane, -⟩, hmark⟩ := hr.going hstop
    have hsafe := feed_safe hsane hmark ch
    unfold Execution.step
    rw [if_neg (by simp [hstop])]
    cases hpast : r.exec.parser.state.pastHeaders with
    | true =>
      -- what is reported from here on is not of the headers, and nothing of them is kept
      have hsilent := feed_silent hpast (hmark.body hpast) ch
      have huser := h.past hstop hpast
      cases hfeed : feed r.exec ch with
      | next cs e =>
        rw [hfeed] at hsilent
        exact keeps_zero (hS.calls_silent huser hsilent.1) (held_consume_of_body hsilent.2 ch)
      | stop cs p =>
        rw [hfeed] at hsilent
        exact keeps_zero (hS.calls_silent huser hsilent) (held_of_body (hmark.body hpast))
      | ask cs e =>
        rw [hfeed] at hsilent
        exact hsilent.elim
    | false =>
      have hcounts := feed_counts hpast hmark (hr.loops hstop) ch
      cases hfeed : feed r.exec ch with
      | next cs e =>
        rw [hfeed] at hcounts hsafe
        -- the byte is counted, or it completes the message
        rcases hcounts with htallied | ⟨hcomplete, hnone⟩
        · exact keeps_tallied hS h hstop hsane.errno htallied hsafe.1.1
        · exact keeps_zero (hS.calls_complete hcomplete _) (held_consume_of_none hnone ch)
      | stop cs p =>
        rw [hfeed] at hcounts
        have hzero : p.http_errno = none → kept (S.callAll r.user cs) = 0 := fun herr =>
          hS.calls_complete (hcounts herr) _
        exact ⟨fun hstop' => (by cases hstop'), fun hstop' => (by cases hstop'),
          fun herr => (hzero herr).le.trans (Nat.zero_le _), fun _ => hzero⟩
      | ask cs e =>
        -- the headers are complete
        rw [hfeed] at hsafe
        exact keeps_zero (hS.calls_silent (hS.headers _ _) (silent_ending_calls _))
          (held_consume_of_none hsafe.2 ch)

theorem Keeps.scan (h : r.Keeps kept) (hr : r.Sound) (data : Bytes) :
    (r.scan S data).Keeps kept := by
  induction data generalizing r with
  | nil => exact h
  | cons ch data ih => exact ih (h.step hS hr ch) (hr.step ch)

theorem Keeps.finish (h : r.Keeps kept) (hr : r.Sound) :
    (r.finish S).1.Keeps (kept (r.finish S).2) := by
  unfold Execution.finish
  cases hstop : r.stopped with
  | true =>
    intro herr
    have huser := h.stopped hstop herr
    exact ⟨huser.le.trans (Nat.zero_le _), fun _ => huser⟩
  | false =>
    simp only [Bool.false_eq_true, if_false]
    split
    · intro herr
      cases herr
    · intro _
      obtain ⟨-, hmark⟩ := hr.going hstop
      have hle := hS.calls r.user (r.exec.mark.toList.map fun md => md.1.call r.exec.parser md.2)
      rw [headBytes_mark] at hle
      refine ⟨hle.trans (h.held hstop), fun hpast => ?_⟩
      have huser := h.past hstop hpast
      have hzero := held_of_body (hmark.body hpast)
      show kept (S.callAll _ _) = 0
      omega

end Execution

open Execution

section

variable {S : Settings σ} {kept : σ → ℕ} {p : Parser} {u : σ}

theorem keeps_start (hp : p.InOrder) (h : p.Keeps (kept u)) (herr : p.http_errno = none) :
    (start p u).Keeps kept := by
  have hheld : (start p u).exec.held = 0 := by
    unfold Exec.held start
    cases p.state.resumed with
    | none => rfl
    | some m => cases m <;> rfl
  obtain ⟨hnread, hpast⟩ := h herr
  refine ⟨fun _ => ?_, fun _ => hpast, fun _ => hnread.trans (hp herr).1.nread,
    fun hstop => (by cases hstop)⟩
  rw [hheld]
  exact hnread

variable (hS : S.Frugal kept)
include hS

theorem Parser.Keeps.execute (h : p.Keeps (kept u)) (hp : p.InOrder) (data : Bytes) :
    (Http.execute S p u data).1.Keeps (kept (Http.execute S p u data).2) := by
  unfold Http.execute
  split
  · exact h
  next herr =>
    rw [not_not] at herr
    split
    · split
      · exact fun _ => ⟨(hS.complete u).le.trans (Nat.zero_le _), fun _ => hS.complete u⟩
      · exact h
      · exact h
      · intro herr
        cases herr
    · have hsound := sound_start hp herr u
      exact ((keeps_start hp h herr).scan hS hsound data).finish hS (hsound.scan data)

theorem Parser.Keeps.executeAll (h : p.Keeps (kept u)) (hp : p.InOrder) (pieces : List Bytes) :
    (Http.executeAll S p u pieces).1.Keeps (kept (Http.executeAll S p u pieces).2) := by
  induction pieces generalizing p u with
  | nil => exact h
  | cons data pieces ih => exact ih (h.execute hS hp data) (execute_inOrder S hp u data)

end

/-! ## The limit -/

/-- **The limit.** Whatever the calls before, what `on_headers_complete` answers and the bytes of
this call so far: without an error, a frugal user keeps at most `max_header_size` bytes. -/
theorem kept_le {S : Settings σ} {kept : σ → ℕ} (hS : S.Frugal kept) {u : σ} (hu : kept u = 0)
    (pieces : List Bytes) (data : Bytes) (hshort : Short (pieces ++ [data]))
    (herr : (executeAll S .init u pieces).1.http_errno = none)
    (herr' : (within S u pieces data).exec.parser.http_errno = none) :
    kept (within S u pieces data).user ≤ max_header_size ∧ CountFits S u (pieces ++ [data]) := by
  have hinit : Parser.init.Keeps (kept u) := fun _ => ⟨hu.le, fun _ => hu⟩
  have hkeeps := hinit.executeAll hS inOrder_init pieces
  have hp := executeAll_inOrder S inOrder_init u pieces
  have hstart := keeps_start hp hkeeps herr
  exact ⟨(hstart.scan hS (sound_start hp herr _) data).limit herr', countFits S u hshort⟩

/-- In the middle of a field. -/
theorem kept_le_get :
    (within (meter fun _ _ => 0) 0 [bytes "GET / HTTP/1.1\r\nHo"]
      (bytes "st: a\r\nAccept")).user ≤ max_header_size ∧
      CountFits (meter fun _ _ => 0) 0
        ([bytes "GET / HTTP/1.1\r\nHo"] ++ [bytes "st: a\r\nAccept"]) :=
  kept_le (meter_frugal fun _ _ => 0) rfl [bytes "GET / HTTP/1.1\r\nHo"]
    (bytes "st: a\r\nAccept") (by decide) (by decide) (by decide)

end Http
end SomoNet
