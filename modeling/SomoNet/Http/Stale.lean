import SomoNet.Http.ParserSpec

/-!
# What is left over from the message before

A message begins in `s_start_req`, whatever the parser has read before. Some fields of the
parser are cleared with its first byte, others keep their values until the parser comes to
the place where it sets them, and the count of header bytes goes on. This file shows that
none of that matters: parsers that differ in such fields only (`Parser.Agree`) do the same
with the next byte and differ in such fields only after it, as long as the count stays below
the limit.
-/

namespace SomoNet
namespace Http

/-- The states in which `header_state` says something about the header that is being read. -/
def State.needsHeaderState (s : State) : Bool := s.part = .value || s = .s_header_field

/-- The states in which the version of the message is known, down to its minor number. -/
def State.needsMinor (s : State) : Bool :=
  s.part = .fields || s.part = .value || s.part = .body ||
    s = .s_req_http_end || s = .s_req_line_almost_done

/-- The states in which the major number of the version is known. -/
def State.needsMajor (s : State) : Bool :=
  s.needsMinor || s = .s_req_http_dot || s = .s_req_http_minor

/-- The parser with other values in the fields that can be left over. -/
def Parser.stale (p : Parser) (h : HeaderState) (a b n : ℕ) : Parser :=
  { p with header_state := h, http_major := a, http_minor := b, nread := n }

/-- The values are those of the parser where it needs them. -/
structure Live (p : Parser) (h : HeaderState) (a b : ℕ) : Prop where
  header_state : p.state.needsHeaderState → h = p.header_state
  major : p.state.needsMajor → a = p.http_major
  minor : p.state.needsMinor → b = p.http_minor

/-- The parsers are the same but for what the first has left over, of which it has counted
no fewer header bytes. Before a message everything but the state is left over. -/
inductive Parser.Agree (p : Parser) : Parser → Prop
  | idle {q : Parser} (hpart : p.state.part = .idle) (hstate : q.state = p.state)
      (hup : q.upgrade = p.upgrade) (herr : q.http_errno = p.http_errno)
      (hnread : q.nread ≤ p.nread) : Parser.Agree p q
  | inside {h : HeaderState} {a b n : ℕ} (hlive : Live p h a b) (hnread : n ≤ p.nread) :
      Parser.Agree p (p.stale h a b n)

structure Exec.Agree (e f : Exec) : Prop where
  parser : e.parser.Agree f.parser
  mark : f.mark = e.mark
  run : f.run = e.run
  general : f.general = e.general

/-- Both end the byte in the same way, with the same calls. -/
def Step.Agree : Step → Step → Prop
  | .next cs e, .next cs' f => cs' = cs ∧ e.Agree f
  | .stop cs p, .stop cs' q => cs' = cs ∧ q.http_errno = p.http_errno
  | .ask cs e, .ask cs' f => cs' = cs ∧ e.Agree f
  | _, _ => False

theorem Parser.Agree.state_eq {p q : Parser} (h : p.Agree q) : q.state = p.state := by
  cases h with
  | idle _ hstate => exact hstate
  | inside => rfl

theorem Parser.Agree.errno_eq {p q : Parser} (h : p.Agree q) : q.http_errno = p.http_errno := by
  cases h with
  | idle _ _ _ herr _ => exact herr
  | inside => rfl

theorem Parser.Agree.refl (p : Parser) : p.Agree p :=
  .inside (p := p) ⟨fun _ => rfl, fun _ => rfl, fun _ => rfl⟩ (le_refl _)

theorem Exec.Agree.refl (e : Exec) : e.Agree e := ⟨.refl _, rfl, rfl, rfl⟩

/-! ## Arms without a callback -/

/-- The arms that do not read what is left over: what they do with it is to leave it there. -/
def Blind (f : Parser → UInt8 → Except Errno Parser) : Prop :=
  ∀ p h a b n ch, f (p.stale h a b n) ch = (f p ch).map fun q => q.stale h a b n

theorem req_method_blind : Blind req_method := by
  intro p h a b n ch
  have hm : (p.stale h a b n).method.switch (p.stale h a b n).index ch =
      p.method.switch p.index ch := rfl
  simp only [req_method, hm, apply_ite (Except.map _)]
  cases p.method.switch p.index ch <;> rfl

theorem url_char_blind (s : State) : Blind fun p => url_char p s := by
  intro p h a b n ch
  simp only [url_char, apply_ite (Except.map _)]
  rfl

theorem expect_blind (c : UInt8) (s : State) : Blind (expect c s) := by
  intro p h a b n ch
  simp only [expect, apply_ite (Except.map _)]
  rfl

theorem req_http_start_blind : Blind req_http_start := by
  intro p h a b n ch
  simp only [req_http_start, apply_ite (Except.map _)]
  rfl

theorem req_http_dot_blind : Blind req_http_dot := by
  intro p h a b n ch
  simp only [req_http_dot, apply_ite (Except.map _)]
  rfl

theorem req_http_end_blind : Blind req_http_end := by
  intro p h a b n ch
  simp only [req_http_end, apply_ite (Except.map _)]
  rfl

theorem req_line_almost_done_blind : Blind req_line_almost_done := by
  intro p h a b n ch
  simp only [req_line_almost_done, apply_ite (Except.map _)]
  rfl

theorem header_almost_done_blind : Blind header_almost_done := by
  intro p h a b n ch
  simp only [header_almost_done, apply_ite (Except.map _)]
  rfl

theorem chunk_size_start_blind : Blind chunk_size_start := by
  intro p h a b n ch
  unfold chunk_size_start
  cases unhex ch <;> rfl

theorem chunk_size_blind : Blind chunk_size := by
  intro p h a b n ch
  unfold chunk_size
  cases unhex ch <;> simp only [apply_ite (Except.map _)] <;> rfl

theorem chunk_parameters_blind : Blind chunk_parameters := by
  intro p h a b n ch
  simp only [chunk_parameters, apply_ite (Except.map _)]
  rfl

/-! ## Agreement, arm by arm -/

theorem Step.Agree.after {s t : Step} (h : s.Agree t) (cs : List Event) :
    (s.after cs).Agree (t.after cs) := by
  cases s <;> cases t <;> first | exact h.elim | exact ⟨by rw [h.1], h.2⟩

/-- Agreement, branch by branch. -/
theorem Step.agree_ite {c c' : Prop} [Decidable c] [Decidable c'] {s s' t t' : Step} (hc : c ↔ c')
    (hpos : c → s.Agree t) (hneg : ¬c → s'.Agree t') :
    (if c then s else s').Agree (if c' then t else t') := by
  by_cases h : c
  · rw [if_pos h, if_pos (hc.mp h)]
    exact hpos h
  · rw [if_neg h, if_neg (mt hc.mpr h)]
    exact hneg h

theorem Step.agree_fail {e f : Exec} (err : Errno) : (e.fail err).Agree (f.fail err) := ⟨rfl, rfl⟩

/-- A parser that gets over the byte agrees with the one that differs in what is left over. -/
theorem Step.agree_lift {e f : Exec} {x y : Except Errno Parser} {g : Parser → Parser}
    (hy : y = x.map g) (hg : ∀ p, x = .ok p → p.Agree (g p))
    (hmark : f.mark = e.mark) (hrun : f.run = e.run) (hgeneral : f.general = e.general) :
    (e.lift x).Agree (f.lift y) := by
  subst hy
  cases x with
  | error err => exact ⟨rfl, rfl⟩
  | ok p => exact ⟨rfl, hg p rfl, hmark, hrun, hgeneral⟩

/-- Nothing is needed before the version. -/
theorem State.needs_nothing {s : State} (h : s.part = .line ∨ s.part = .url) :
    s.needsHeaderState = false ∧ s.needsMajor = false ∧ s.needsMinor = false := by
  revert h
  cases s <;> decide

theorem Live.of_early {p : Parser} (hpart : p.state.part = .line ∨ p.state.part = .url)
    (h : HeaderState) (a b : ℕ) : Live p h a b := by
  obtain ⟨hheader, hmajor, hminor⟩ := State.needs_nothing hpart
  constructor
  · intro hneeds
    rw [hheader] at hneeds
    contradiction
  · intro hneeds
    rw [hmajor] at hneeds
    contradiction
  · intro hneeds
    rw [hminor] at hneeds
    contradiction

/-- `s'` needs no more than `s`. -/
def State.needsNoMore (s' s : State) : Bool :=
  (!s'.needsHeaderState || s.needsHeaderState) && (!s'.needsMajor || s.needsMajor) &&
    (!s'.needsMinor || s.needsMinor)

theorem Live.of_needsNoMore {p q : Parser} {h : HeaderState} {a b : ℕ} (hlive : Live p h a b)
    (hneeds : q.state.needsNoMore p.state) (hh : q.header_state = p.header_state)
    (ha : q.http_major = p.http_major) (hb : q.http_minor = p.http_minor) : Live q h a b := by
  simp only [State.needsNoMore, Bool.and_eq_true, Bool.or_eq_true, Bool.not_eq_true'] at hneeds
  obtain ⟨⟨h1, h2⟩, h3⟩ := hneeds
  refine ⟨fun h => ?_, fun h => ?_, fun h => ?_⟩
  · rw [hh, hlive.header_state (h1.resolve_left (by simp [h]))]
  · rw [ha, hlive.major (h2.resolve_left (by simp [h]))]
  · rw [hb, hlive.minor (h3.resolve_left (by simp [h]))]

/-- A blind arm leaves alone what it does not read. -/
theorem Blind.frame {f : Parser → UInt8 → Except Errno Parser} (hf : Blind f) {p q : Parser}
    {ch : UInt8} (h : f p ch = .ok q) :
    q = q.stale p.header_state p.http_major p.http_minor p.nread := by
  have := hf p p.header_state p.http_major p.http_minor p.nread ch
  have hp : p.stale p.header_state p.http_major p.http_minor p.nread = p := rfl
  rw [hp, h] at this
  exact Except.ok.inj this

/-- A blind arm keeps the agreement, if the state it leads to needs no more. -/
theorem Blind.agree {f : Parser → UInt8 → Except Errno Parser} (hf : Blind f) {e : Exec}
    {h : HeaderState} {a b n : ℕ} {ch : UInt8} (hn : n ≤ e.parser.nread)
    (hlive : Live e.parser h a b)
    (hneeds : ∀ q, f e.parser ch = .ok q → q.state.needsNoMore e.parser.state) :
    (e.lift (f e.parser ch)).Agree
      (Exec.lift { e with parser := e.parser.stale h a b n } (f (e.parser.stale h a b n) ch)) := by
  refine Step.agree_lift (hf e.parser h a b n ch) (fun q hx => ?_) rfl rfl rfl
  have hq := hf.frame hx
  refine .inside (hlive.of_needsNoMore (hneeds q hx) ?_ ?_ ?_) ?_
  all_goals rw [hq]
  · rfl
  · rfl
  · rfl
  · exact hn

def Exec.stale (e : Exec) (h : HeaderState) (a b n : ℕ) : Exec :=
  { e with parser := e.parser.stale h a b n }

theorem Exec.setMark_stale (e : Exec) (m : Mark) (h : HeaderState) (a b n : ℕ) :
    (e.stale h a b n).setMark m = (e.setMark m).stale h a b n := by
  obtain ⟨p, mark, run, general⟩ := e
  cases mark <;> rfl

theorem Exec.setMark_parser (e : Exec) (m : Mark) : (e.setMark m).parser = e.parser := by
  unfold Exec.setMark
  cases e.mark <;> rfl

/-- One more byte of the url. -/
theorem url_char_agree {e e' : Exec} {s : State} {h : HeaderState} {a b n : ℕ} {ch : UInt8}
    (hn : n ≤ e.parser.nread) :
    (e'.lift (url_char e.parser s ch)).Agree
      ((e'.stale h a b n).lift (url_char (e.parser.stale h a b n) s ch)) := by
  refine Step.agree_lift (url_char_blind s e.parser h a b n ch) (fun q hq => ?_) rfl rfl rfl
  obtain ⟨hq, hpart⟩ := url_char_ok hq
  refine .inside (Live.of_early (Or.inr hpart) h a b) ?_
  rw [hq]
  exact hn

theorem req_spaces_before_url_agree {e : Exec} {h : HeaderState} {a b n : ℕ} {ch : UInt8}
    (hs : e.parser.state = .s_req_spaces_before_url) (hn : n ≤ e.parser.nread) :
    (req_spaces_before_url e ch).Agree (req_spaces_before_url (e.stale h a b n) ch) := by
  unfold req_spaces_before_url
  refine Step.agree_ite Iff.rfl (fun _ => ?_) fun _ => ?_
  · exact ⟨rfl, .inside (Live.of_early (Or.inl (by rw [hs]; rfl)) h a b) hn, rfl, rfl, rfl⟩
  · rw [Exec.setMark_stale]
    exact url_char_agree hn

theorem req_schema_agree {e : Exec} {h : HeaderState} {a b n : ℕ} {ch : UInt8}
    (hn : n ≤ e.parser.nread) : (req_schema e ch).Agree (req_schema (e.stale h a b n) ch) := by
  unfold req_schema
  refine Step.agree_ite Iff.rfl (fun _ => ?_) fun _ => ?_
  · exact Step.agree_fail _
  · exact url_char_agree hn

theorem req_url_agree {e : Exec} {h : HeaderState} {a b n : ℕ} {ch : UInt8}
    (hn : n ≤ e.parser.nread) : (req_url e ch).Agree (req_url (e.stale h a b n) ch) := by
  unfold req_url
  refine Step.agree_ite Iff.rfl (fun _ => ?_) fun _ => ?_
  · -- the version comes later in the line
    have hlive : Live { e.parser with state := .s_req_http_start } h a b :=
      ⟨fun h => (by cases h), fun h => (by cases h), fun h => (by cases h)⟩
    exact ⟨rfl, .inside hlive hn, rfl, rfl, rfl⟩
  refine Step.agree_ite Iff.rfl (fun _ => ?_) fun _ => ?_
  · have hlive : Live { e.parser with
        http_major := 0, http_minor := 9,
        state := if ch = CR then .s_req_line_almost_done else .s_header_field_start } h 0 9 := by
      refine ⟨fun h => ?_, fun _ => rfl, fun _ => rfl⟩
      by_cases h13 : ch = CR <;> simp only [h13, if_true, if_false] at h <;> cases h
    exact ⟨rfl, .inside hlive hn, rfl, rfl, rfl⟩
  · exact url_char_agree hn

theorem req_http_major_agree {e : Exec} {h : HeaderState} {a b n : ℕ} {ch : UInt8}
    (hn : n ≤ e.parser.nread) :
    (e.lift (req_http_major e.parser ch)).Agree
      ((e.stale h a b n).lift (req_http_major (e.parser.stale h a b n) ch)) := by
  unfold req_http_major
  by_cases hnum : ¬isNum ch
  · rw [if_pos hnum, if_pos hnum]
    exact Step.agree_fail _
  · rw [if_neg hnum, if_neg hnum]
    refine ⟨rfl, .inside ⟨fun h => (by cases h), fun _ => rfl, fun h => (by cases h)⟩ hn, rfl, rfl, rfl⟩

theorem req_http_minor_agree {e : Exec} {h : HeaderState} {a b n : ℕ} {ch : UInt8}
    (hs : e.parser.state = .s_req_http_minor) (hlive : Live e.parser h a b)
    (hn : n ≤ e.parser.nread) :
    (e.lift (req_http_minor e.parser ch)).Agree
      ((e.stale h a b n).lift (req_http_minor (e.parser.stale h a b n) ch)) := by
  have ha := hlive.major (by rw [hs]; rfl)
  unfold req_http_minor
  by_cases hnum : ¬isNum ch
  · rw [if_pos hnum, if_pos hnum]
    exact Step.agree_fail _
  · rw [if_neg hnum, if_neg hnum]
    refine ⟨rfl, .inside ⟨fun h => (by cases h), fun _ => ha, fun _ => rfl⟩ hn, rfl, rfl, rfl⟩

/-! ### The end of a message -/

def Ending.Agree (x y : Ending) : Prop :=
  x.parser.Agree y.parser ∧ y.complete = x.complete ∧ y.stop = x.stop

theorem Step.agree_ending {e f : Exec} {x y : Ending} (h : x.Agree y) (hmark : f.mark = e.mark)
    (hrun : f.run = e.run) (hgeneral : f.general = e.general) :
    (e.ending x).Agree (f.ending y) := by
  have hcalls : y.calls = x.calls := by rw [Ending.calls, Ending.calls, h.2.1]
  unfold Exec.ending
  rw [h.2.2, hcalls]
  split
  · exact ⟨rfl, h.1.errno_eq⟩
  · exact ⟨rfl, h.1, hmark, hrun, hgeneral⟩

theorem complete_agree (p : Parser) (h : HeaderState) {n : ℕ} (hn : n ≤ p.nread) (stop : Bool) :
    (p.complete stop).Agree ((p.stale h p.http_major p.http_minor n).complete stop) :=
  ⟨.idle p.new_message_part rfl rfl rfl hn, rfl, rfl⟩

theorem message_done_agree (p : Parser) (h : HeaderState) {n : ℕ} (hn : n ≤ p.nread) :
    (message_done p).Agree (message_done (p.stale h p.http_major p.http_minor n)) :=
  complete_agree p h hn p.upgrade

/-- Where the version is known, and nothing else that can be left over is needed. -/
theorem Live.of_version (p : Parser) (h : HeaderState) (hs : p.state.needsHeaderState = false) :
    Live p h p.http_major p.http_minor := by
  refine ⟨fun hneeds => ?_, fun _ => rfl, fun _ => rfl⟩
  rw [hs] at hneeds
  cases hneeds

def Ending.map (g : Parser → Parser) (x : Ending) : Ending := { x with parser := g x.parser }

/-- The end of the headers forgets the header and the count. -/
theorem headers_done_stale (p : Parser) (h : HeaderState) (n : ℕ) :
    headers_done (p.stale h p.http_major p.http_minor n) LF =
      (headers_done p LF).map fun q => { q with header_state := h } := by
  unfold headers_done
  simp only [apply_ite (Ending.map _)]
  rfl

theorem headers_done_needs (p : Parser) (hs : p.state = .s_headers_done) (ch : UInt8) :
    (headers_done p ch).parser.state.needsHeaderState = false := by
  have hnew : ∀ q : Parser, q.new_message.needsHeaderState = false := by
    intro q
    unfold Parser.new_message
    split <;> rfl
  simp only [headers_done]
  split
  · simp only [Parser.fail, hs]
    rfl
  split
  · exact hnew _
  split
  · exact hnew _
  split
  · rfl
  split
  · simp only [Parser.fail, hs]
    rfl
  split
  · exact hnew _
  split
  · rfl
  · exact hnew _

theorem headers_done_agree (p : Parser) (h : HeaderState) (n : ℕ) (hs : p.state = .s_headers_done) :
    (headers_done p LF).Agree (headers_done (p.stale h p.http_major p.http_minor n) LF) := by
  rw [headers_done_stale]
  exact ⟨.inside (.of_version _ h (headers_done_needs p hs LF)) (le_refl _), rfl, rfl⟩

theorem headers_complete_agree (answer : ℤ) {p : Parser} {h : HeaderState} {n : ℕ}
    (hs : p.state = .s_headers_done) (hn : n ≤ p.nread) :
    (headers_complete answer p LF).Agree
      (headers_complete answer (p.stale h p.http_major p.http_minor n) LF) := by
  unfold headers_complete
  by_cases h0 : answer = 0
  · rw [if_pos h0, if_pos h0]
    exact headers_done_agree p h n hs
  rw [if_neg h0, if_neg h0]
  by_cases h1 : answer = 1
  · rw [if_pos h1, if_pos h1]
    exact headers_done_agree { p with flags := { p.flags with F_SKIPBODY := true } } h n hs
  rw [if_neg h1, if_neg h1]
  by_cases h2 : answer = 2
  · rw [if_pos h2, if_pos h2]
    exact headers_done_agree
      { p with flags := { p.flags with F_SKIPBODY := true }, upgrade := true } h n hs
  · rw [if_neg h2, if_neg h2]
    exact ⟨.inside (.of_version (p.fail _) h (by simp only [Parser.fail, hs]; rfl)) hn, rfl, rfl⟩

theorem headers_almost_done_agree {e : Exec} (h : HeaderState) {n : ℕ} {ch : UInt8}
    (hn : n ≤ e.parser.nread) :
    (headers_almost_done e ch).Agree
      (headers_almost_done (e.stale h e.parser.http_major e.parser.http_minor n) ch) := by
  simp only [headers_almost_done]
  refine Step.agree_ite Iff.rfl (fun _ => ?_) fun _ => ?_
  · exact Step.agree_fail _
  refine Step.agree_ite Iff.rfl (fun _ => ?_) fun _ => ?_
  · exact Step.agree_ending (message_done_agree e.parser h hn) rfl rfl rfl
  refine Step.agree_ite Iff.rfl (fun _ => ?_) fun _ => ?_
  · exact Step.agree_fail _
  · exact ⟨rfl, .inside (.of_version { e.parser with state := .s_headers_done, upgrade := _ } h rfl)
      hn, rfl, rfl, rfl⟩

/-! ### Header fields and values -/

theorem header_field_start_agree {e : Exec} (h : HeaderState) {n : ℕ} {ch : UInt8}
    (hn : n ≤ e.parser.nread) :
    (header_field_start e ch).Agree
      (header_field_start (e.stale h e.parser.http_major e.parser.http_minor n) ch) := by
  unfold header_field_start
  refine Step.agree_ite Iff.rfl (fun _ => ?_) fun _ => ?_
  · exact ⟨rfl, .inside (.of_version { e.parser with state := .s_headers_almost_done } h rfl) hn,
      rfl, rfl, rfl⟩
  refine Step.agree_ite Iff.rfl (fun _ => ?_) fun _ => ?_
  · exact headers_almost_done_agree
      (e := { e with parser := { e.parser with state := .s_headers_almost_done } }) h hn
  refine Step.agree_ite Iff.rfl (fun _ => ?_) fun _ => ?_
  · exact Step.agree_fail _
  · rw [Exec.setMark_stale]
    -- the header that is expected is set anew
    have hlive : Live { e.parser with
        index := 0, state := .s_header_field, header_state := .ofFirst (token ch) }
        (.ofFirst (token ch)) e.parser.http_major e.parser.http_minor :=
      ⟨fun _ => rfl, fun _ => rfl, fun _ => rfl⟩
    exact ⟨rfl, .inside hlive hn, rfl, rfl, rfl⟩

/-- The parser with another count of header bytes. -/
def Parser.count (p : Parser) (n : ℕ) : Parser := { p with nread := n }

theorem Parser.agree_count {p : Parser} {n : ℕ} (hn : n ≤ p.nread) : p.Agree (p.count n) :=
  .inside (p := p) ⟨fun _ => rfl, fun _ => rfl, fun _ => rfl⟩ hn

def Exec.count (e : Exec) (n : ℕ) : Exec := { e with parser := e.parser.count n }

theorem Exec.setMark_count (e : Exec) (m : Mark) (n : ℕ) :
    (e.count n).setMark m = (e.setMark m).count n := by
  obtain ⟨p, mark, run, general⟩ := e
  cases mark <;> rfl

theorem header_field_char_count (p : Parser) (n : ℕ) (ch : UInt8) :
    header_field_char (p.count n) ch = (header_field_char p ch).count n := by
  obtain ⟨state, header_state, flags, index, nread, length, major, minor, method, err, up⟩ := p
  have hpush : ∀ (c : Prop) [Decidable c] (q q' : Parser),
      (if c then q else q').count n = if c then q.count n else q'.count n :=
    fun c _ q q' => apply_ite (Parser.count · n) c q q'
  cases header_state <;> simp only [header_field_char, hpush] <;> rfl

theorem header_value_first_count (p : Parser) (n : ℕ) (ch : UInt8) :
    header_value_first (p.count n) ch = (header_value_first p ch).map (Parser.count · n) := by
  obtain ⟨state, header_state, flags, index, nread, length, major, minor, method, err, up⟩ := p
  cases header_state <;>
    simp only [header_value_first, Parser.count, apply_ite (Except.map _)] <;> rfl

theorem header_value_char_count (p : Parser) (n : ℕ) (ch : UInt8) :
    header_value_char (p.count n) ch = (header_value_char p ch).map (Parser.count · n) := by
  obtain ⟨state, header_state, flags, index, nread, length, major, minor, method, err, up⟩ := p
  cases header_state <;>
    simp only [header_value_char, content_length_num, apply_ite (Except.map _)] <;> rfl

/-- Neither of the two parsers overflows where the one that has counted more does not. -/
theorem Step.agree_count {n n' k : ℕ} {s s' t t' : Step} (hn : n' ≤ n) (hk : n + k ≤ max_header_size)
    (h : s'.Agree t') :
    (if n + k > max_header_size then s else s').Agree
      (if n' + k > max_header_size then t else t') := by
  rw [if_neg (by omega), if_neg (by omega)]
  exact h

theorem header_field_agree {e : Exec} {n : ℕ} {ch : UInt8} (hn : n ≤ e.parser.nread)
    (hmax : e.parser.nread + e.run ≤ max_header_size) :
    (header_field e ch).Agree (header_field (e.count n) ch) := by
  have hfield : ∀ q : Parser, q.nread = e.parser.nread → q.Agree (q.count n) :=
    fun q hq => Parser.agree_count (hq ▸ hn)
  simp only [header_field]
  refine Step.agree_ite Iff.rfl (fun _ => ?_) fun _ => ?_
  · have := header_field_char_count e.parser n ch
    refine ⟨rfl, ?_, rfl, rfl, rfl⟩
    show Parser.Agree _ (header_field_char (e.parser.count n) ch)
    rw [this]
    exact hfield _ (header_field_char_frame e.parser ch).2.2.2
  refine Step.agree_count hn hmax ?_
  refine Step.agree_ite Iff.rfl (fun _ => ?_) fun _ => ?_
  · refine ⟨rfl, ?_, rfl, rfl, rfl⟩
    exact Parser.agree_count (p := { e.parser with
      nread := e.parser.nread + e.run, state := .s_header_value_discard_ws }) (by
        show n + e.run ≤ e.parser.nread + e.run
        omega)
  · exact Step.agree_fail _

theorem header_value_start_agree {e : Exec} {n : ℕ} {ch : UInt8} (hn : n ≤ e.parser.nread) :
    (header_value_start e ch).Agree (header_value_start (e.count n) ch) := by
  unfold header_value_start
  rw [Exec.setMark_count]
  refine Step.agree_lift (header_value_first_count e.parser n ch) (fun q hq => ?_) rfl rfl rfl
  refine Parser.agree_count ?_
  rw [(header_value_first_frame hq).2.2.2]
  exact hn

theorem header_value_discard_ws_agree {e : Exec} {n : ℕ} {ch : UInt8} (hn : n ≤ e.parser.nread) :
    (header_value_discard_ws e ch).Agree (header_value_discard_ws (e.count n) ch) := by
  unfold header_value_discard_ws
  refine Step.agree_ite Iff.rfl (fun _ => ?_) fun _ => ?_
  · exact ⟨rfl, Parser.agree_count hn, rfl, rfl, rfl⟩
  refine Step.agree_ite Iff.rfl (fun _ => ?_) fun _ => ?_
  · exact ⟨rfl, Parser.agree_count hn, rfl, rfl, rfl⟩
  refine Step.agree_ite Iff.rfl (fun _ => ?_) fun _ => ?_
  · exact ⟨rfl, Parser.agree_count hn, rfl, rfl, rfl⟩
  · exact header_value_start_agree hn

theorem header_value_agree {e : Exec} {n : ℕ} {ch : UInt8} (hn : n ≤ e.parser.nread)
    (hmax : e.parser.nread + e.run ≤ max_header_size) :
    (header_value e ch).Agree (header_value (e.count n) ch) := by
  have hpast : n + e.run ≤ e.parser.nread + e.run := by omega
  simp only [header_value]
  refine Step.agree_ite Iff.rfl (fun _ => ?_) fun _ => ?_
  · exact ⟨rfl, Parser.agree_count hn, rfl, rfl, rfl⟩
  refine Step.agree_ite Iff.rfl (fun _ => ?_) fun _ => ?_
  · refine Step.agree_count hn hmax ⟨rfl, ?_, rfl, rfl, rfl⟩
    exact Parser.agree_count (p := { e.parser with
      nread := e.parser.nread + e.run, state := .s_header_almost_done }) hpast
  refine Step.agree_ite Iff.rfl (fun hlf => ?_) fun _ => ?_
  · refine Step.agree_count hn hmax (Step.Agree.after ?_ _)
    rw [hlf]
    refine ⟨rfl, ?_, rfl, rfl, rfl⟩
    exact Parser.agree_count (p := { e.parser with
      nread := e.parser.nread + e.run, state := .s_header_value_lws }) hpast
  refine Step.agree_ite Iff.rfl (fun _ => ?_) fun _ => ?_
  · exact Step.agree_fail _
  · refine Step.agree_lift (header_value_char_count e.parser n ch) (fun q hq => ?_) rfl rfl rfl
    refine Parser.agree_count ?_
    rw [(header_value_char_frame hq).2.2.2]
    exact hn

/-- The value is over, and a field may begin. -/
theorem value_end_agree {e e' : Exec} {n : ℕ} {ch : UInt8} (hn : n ≤ e.parser.nread) :
    (header_field_start
      { e' with
        parser := { e.parser with
          flags := e.parser.header_state.finish e.parser.flags, state := .s_header_field_start } }
      ch).Agree
    (header_field_start
      { e' with
        parser := { e.parser.count n with
          flags := e.parser.header_state.finish e.parser.flags, state := .s_header_field_start } }
      ch) :=
  header_field_start_agree
    (e := { e' with
      parser := { e.parser with
        flags := e.parser.header_state.finish e.parser.flags, state := .s_header_field_start } })
    e.parser.header_state hn

theorem header_value_lws_agree {e : Exec} {n : ℕ} {ch : UInt8} (hn : n ≤ e.parser.nread) :
    (header_value_lws e ch).Agree (header_value_lws (e.count n) ch) := by
  simp only [header_value_lws]
  refine Step.agree_ite Iff.rfl (fun _ => ?_) fun _ => ?_
  · exact header_value_start_agree (e := { e with
      parser := { e.parser with
        state := .s_header_value_start
        header_state :=
          if e.parser.header_state = .h_content_length_num then .h_content_length_ws
          else e.parser.header_state } }) hn
  · exact value_end_agree hn

theorem header_value_discard_lws_agree {e : Exec} {n : ℕ} {ch : UInt8} (hn : n ≤ e.parser.nread) :
    (header_value_discard_lws e ch).Agree (header_value_discard_lws (e.count n) ch) := by
  simp only [header_value_discard_lws]
  refine Step.agree_ite Iff.rfl (fun _ => ?_) fun _ => ?_
  · exact ⟨rfl, Parser.agree_count hn, rfl, rfl, rfl⟩
  refine Step.agree_ite Iff.rfl (fun _ => ?_) fun _ => ?_
  · exact Step.agree_fail _
  · rw [Exec.setMark_count]
    exact (value_end_agree hn).after _

/-! ### Bodies -/

/-- The next state is one in which nothing is needed of what can be left over but the
version. -/
theorem agree_body {e f : Exec} (q : Parser) (h : HeaderState) {n : ℕ} (hn : n ≤ q.nread)
    (hq : q.state.needsHeaderState = false) (he : e.parser = q)
    (hf : f.parser = q.stale h q.http_major q.http_minor n) (hmark : f.mark = e.mark)
    (hrun : f.run = e.run) (hgeneral : f.general = e.general) (cs : List Event) :
    (Step.next cs e).Agree (.next cs f) := by
  refine ⟨rfl, ?_, hmark, hrun, hgeneral⟩
  rw [he, hf]
  exact .inside (.of_version q h hq) hn

theorem chunk_size_almost_done_agree {e : Exec} (h : HeaderState) (n : ℕ) {ch : UInt8} :
    (e.lift (chunk_size_almost_done e.parser ch)).Agree
      ((e.stale h e.parser.http_major e.parser.http_minor n).lift
        (chunk_size_almost_done
          (e.parser.stale h e.parser.http_major e.parser.http_minor n) ch)) := by
  simp only [chunk_size_almost_done]
  by_cases hlf : ch ≠ LF
  · rw [if_pos hlf, if_pos hlf]
    exact Step.agree_fail _
  rw [if_neg hlf, if_neg hlf]
  by_cases h0 : e.parser.content_length = 0
  · rw [if_pos h0, if_pos (show (e.parser.stale _ _ _ n).content_length = 0 from h0)]
    refine agree_body { e.parser with
      nread := 0, flags := { e.parser.flags with F_TRAILING := true }, state := .s_header_field_start }
      h (le_refl 0) rfl ?_ ?_ ?_ ?_ ?_ [] <;> rfl
  · rw [if_neg h0, if_neg (show ¬(e.parser.stale _ _ _ n).content_length = 0 from h0)]
    refine agree_body { e.parser with nread := 0, state := .s_chunk_data }
      h (le_refl 0) rfl ?_ ?_ ?_ ?_ ?_ [] <;> rfl

theorem chunk_data_done_agree {e : Exec} (h : HeaderState) (n : ℕ) {ch : UInt8} :
    (e.lift (chunk_data_done e.parser ch)).Agree
      ((e.stale h e.parser.http_major e.parser.http_minor n).lift
        (chunk_data_done (e.parser.stale h e.parser.http_major e.parser.http_minor n) ch)) := by
  unfold chunk_data_done
  by_cases hlf : ch ≠ LF
  · rw [if_pos hlf, if_pos hlf]
    exact Step.agree_fail _
  · rw [if_neg hlf, if_neg hlf]
    refine agree_body { e.parser with nread := 0, state := .s_chunk_size_start }
      h (le_refl 0) rfl ?_ ?_ ?_ ?_ ?_ [] <;> rfl

theorem chunk_data_agree {e : Exec} (h : HeaderState) {n : ℕ} (hs : e.parser.state = .s_chunk_data)
    (hn : n ≤ e.parser.nread) :
    (chunk_data e).Agree
      (chunk_data (e.stale h e.parser.http_major e.parser.http_minor n)) := by
  simp only [chunk_data]
  rw [Exec.setMark_stale, ← e.setMark_parser .body]
  rw [← e.setMark_parser .body] at hs hn
  generalize e.setMark .body = e at hs hn
  refine Step.agree_ite Iff.rfl (fun _ => ?_) fun _ => ?_
  · refine agree_body { e.parser with
      content_length := e.parser.content_length - 1, state := .s_chunk_data_almost_done }
      h hn rfl ?_ ?_ ?_ ?_ ?_ [] <;> rfl
  · refine agree_body { e.parser with content_length := e.parser.content_length - 1 }
      h hn (by simp only [hs]; rfl) ?_ ?_ ?_ ?_ ?_ [] <;> rfl

theorem chunk_data_almost_done_agree {e : Exec} (h : HeaderState) {n : ℕ} {ch : UInt8}
    (hn : n ≤ e.parser.nread) :
    (chunk_data_almost_done e ch).Agree
      (chunk_data_almost_done (e.stale h e.parser.http_major e.parser.http_minor n) ch) := by
  unfold chunk_data_almost_done
  refine Step.agree_ite Iff.rfl (fun _ => ?_) fun _ => ?_
  · exact Step.agree_fail _
  · refine agree_body { e.parser with state := .s_chunk_data_done } h hn rfl ?_ ?_ ?_ ?_ ?_ _ <;> rfl

theorem body_identity_agree {e : Exec} (h : HeaderState) {n : ℕ} {ch : UInt8}
    (hs : e.parser.state = .s_body_identity) (hn : n ≤ e.parser.nread) :
    (body_identity e ch).Agree
      (body_identity (e.stale h e.parser.http_major e.parser.http_minor n) ch) := by
  simp only [body_identity]
  rw [Exec.setMark_stale, ← e.setMark_parser .body]
  rw [← e.setMark_parser .body] at hs hn
  generalize e.setMark .body = e at hs hn
  refine Step.agree_ite Iff.rfl (fun _ => Step.Agree.after ?_ _) fun _ => ?_
  · exact Step.agree_ending (message_done_agree
      { e.parser with content_length := e.parser.content_length - 1 } h hn) rfl rfl rfl
  · refine agree_body { e.parser with content_length := e.parser.content_length - 1 }
      h hn (by simp only [hs]; rfl) ?_ ?_ ?_ ?_ ?_ [] <;> rfl

/-! ## Agreement over a byte -/

/-- Among the fields, in a value and in the body the version is known. -/
theorem Live.eq_version {p : Parser} {h : HeaderState} {a b : ℕ} (hlive : Live p h a b)
    (hs : p.state.needsMinor) : a = p.http_major ∧ b = p.http_minor :=
  ⟨hlive.major (by simp [State.needsMajor, hs]), hlive.minor hs⟩

/-- In a value the header is known too. -/
theorem Live.stale_eq_count {p : Parser} {h : HeaderState} {a b : ℕ} (hlive : Live p h a b)
    (hs : p.state.needsMinor) (hs' : p.state.needsHeaderState) (n : ℕ) :
    p.stale h a b n = p.count n := by
  obtain ⟨rfl, rfl⟩ := hlive.eq_version hs
  rw [hlive.header_state hs']
  rfl

theorem State.needsNoMore_refl (s : State) : s.needsNoMore s := by simp [State.needsNoMore]

theorem State.needsNoMore_of_early {s s' : State} (h : s'.part = .line ∨ s'.part = .url) :
    s'.needsNoMore s := by
  obtain ⟨hheader, hmajor, hminor⟩ := State.needs_nothing h
  simp [State.needsNoMore, hheader, hmajor, hminor]

/-- **The bytes of a message.** Inside a message, what is left over makes no difference. -/
theorem dispatch_agree {e : Exec} (he : e.Ok) {h : HeaderState} {a b n : ℕ} {ch : UInt8}
    (hlive : Live e.parser h a b) (hn : n ≤ e.parser.nread)
    (hmax : e.parser.nread + e.run ≤ max_header_size) (hidle : e.part ≠ .idle) :
    (dispatch e ch).Agree (dispatch (e.stale h a b n) ch) := by
  have hstate : (e.stale h a b n).parser.state = e.parser.state := rfl
  -- among the fields, in a value and in the body, less can be left over
  have hversion : e.parser.state.needsMinor → e.stale h a b n =
      e.stale h e.parser.http_major e.parser.http_minor n := by
    intro hs
    obtain ⟨rfl, rfl⟩ := hlive.eq_version hs
    rfl
  have hcount : e.parser.state.needsMinor → e.parser.state.needsHeaderState →
      e.stale h a b n = e.count n := by
    intro hs hs'
    rw [Exec.stale, hlive.stale_eq_count hs hs']
    rfl
  have hexpect : ∀ c s, s.needsNoMore e.parser.state →
      (e.lift (expect c s e.parser ch)).Agree
        ((e.stale h a b n).lift (expect c s (e.stale h a b n).parser ch)) := by
    intro c s hs
    refine (expect_blind c s).agree hn hlive fun q hq => ?_
    unfold expect at hq
    split_ifs at hq
    cases hq
    exact hs
  cases hs : e.parser.state <;> rw [hs] at hstate <;> simp only [dispatch, hs, hstate]
  case s_dead | s_start_req => exact absurd (by rw [Exec.part, hs]; rfl) hidle
  case s_req_method =>
    refine req_method_blind.agree hn hlive fun q hq => ?_
    have hpart := (req_method_quiet he.parser hs hq).part
    rw [hs] at hpart
    exact State.needsNoMore_of_early (by simpa [State.part, Part.quiet] using hpart)
  case s_req_spaces_before_url => exact req_spaces_before_url_agree hs hn
  case s_req_schema | s_req_schema_slash | s_req_schema_slash_slash | s_req_server_start =>
    exact req_schema_agree hn
  case s_req_server | s_req_server_with_at | s_req_path | s_req_query_string_start
    | s_req_query_string | s_req_fragment_start | s_req_fragment =>
    exact req_url_agree hn
  case s_req_http_start =>
    refine req_http_start_blind.agree hn hlive fun q hq => ?_
    unfold req_http_start at hq
    split_ifs at hq <;> cases hq <;> first | exact State.needsNoMore_refl _ | (rw [hs]; rfl)
  case s_req_http_H | s_req_http_HT | s_req_http_HTT | s_req_http_HTTP | s_req_http_I
    | s_req_http_IC | s_header_value_discard_ws_almost_done => exact hexpect _ _ (by rw [hs]; rfl)
  case s_req_http_major => exact req_http_major_agree hn
  case s_req_http_dot =>
    refine req_http_dot_blind.agree hn hlive fun q hq => ?_
    unfold req_http_dot at hq
    split_ifs at hq
    cases hq
    rw [hs]
    rfl
  case s_req_http_minor => exact req_http_minor_agree hs hlive hn
  case s_req_http_end =>
    refine req_http_end_blind.agree hn hlive fun q hq => ?_
    unfold req_http_end at hq
    split_ifs at hq <;> cases hq <;> rw [hs] <;> rfl
  case s_req_line_almost_done =>
    refine req_line_almost_done_blind.agree hn hlive fun q hq => ?_
    unfold req_line_almost_done at hq
    split_ifs at hq
    cases hq
    rw [hs]
    rfl
  case s_header_field_start =>
    rw [hversion (by rw [hs]; rfl)]
    exact header_field_start_agree h hn
  case s_header_field =>
    rw [hcount (by rw [hs]; rfl) (by rw [hs]; rfl)]
    exact header_field_agree hn hmax
  case s_header_value_discard_ws =>
    rw [hcount (by rw [hs]; rfl) (by rw [hs]; rfl)]
    exact header_value_discard_ws_agree hn
  case s_header_value_discard_lws =>
    rw [hcount (by rw [hs]; rfl) (by rw [hs]; rfl)]
    exact header_value_discard_lws_agree hn
  case s_header_value_start =>
    rw [hcount (by rw [hs]; rfl) (by rw [hs]; rfl)]
    exact header_value_start_agree hn
  case s_header_value =>
    rw [hcount (by rw [hs]; rfl) (by rw [hs]; rfl)]
    exact header_value_agree hn hmax
  case s_header_value_lws =>
    rw [hcount (by rw [hs]; rfl) (by rw [hs]; rfl)]
    exact header_value_lws_agree hn
  case s_header_almost_done =>
    refine header_almost_done_blind.agree hn hlive fun q hq => ?_
    unfold header_almost_done at hq
    split_ifs at hq
    cases hq
    rw [hs]
    rfl
  case s_chunk_size_start =>
    refine chunk_size_start_blind.agree hn hlive fun q hq => ?_
    unfold chunk_size_start at hq
    split at hq <;> cases hq
    rw [hs]
    rfl
  case s_chunk_size =>
    refine chunk_size_blind.agree hn hlive fun q hq => ?_
    cases hv : unhex ch <;> simp only [chunk_size, hv] at hq <;> split_ifs at hq <;> cases hq <;>
      first | exact State.needsNoMore_refl _ | (rw [hs]; rfl)
  case s_chunk_parameters =>
    refine chunk_parameters_blind.agree hn hlive fun q hq => ?_
    unfold chunk_parameters at hq
    split_ifs at hq <;> cases hq <;> first | exact State.needsNoMore_refl _ | (rw [hs]; rfl)
  case s_chunk_size_almost_done =>
    rw [hversion (by rw [hs]; rfl)]
    exact chunk_size_almost_done_agree h n
  case s_headers_almost_done =>
    rw [hversion (by rw [hs]; rfl)]
    exact headers_almost_done_agree h hn
  case s_headers_done => exact absurd hs he.parser.asked
  case s_chunk_data =>
    rw [hversion (by rw [hs]; rfl)]
    exact chunk_data_agree h hs hn
  case s_chunk_data_almost_done =>
    rw [hversion (by rw [hs]; rfl)]
    exact chunk_data_almost_done_agree h hn
  case s_chunk_data_done =>
    rw [hversion (by rw [hs]; rfl)]
    exact chunk_data_done_agree h n
  case s_body_identity =>
    rw [hversion (by rw [hs]; rfl)]
    exact body_identity_agree h hs hn
  case s_body_identity_eof =>
    unfold body_identity_eof
    rw [Exec.setMark_stale]
    refine ⟨rfl, .inside ?_ ?_, rfl, rfl, rfl⟩
    · rw [e.setMark_parser]
      exact hlive
    · rw [e.setMark_parser]
      exact hn
  case s_message_done =>
    rw [hversion (by rw [hs]; rfl)]
    exact Step.agree_ending (message_done_agree e.parser h hn) rfl rfl rfl

theorem Parser.Agree.upgrade_eq {p q : Parser} (h : p.Agree q) : q.upgrade = p.upgrade := by
  cases h with
  | idle _ _ hup _ _ => exact hup
  | inside => rfl

theorem Parser.Agree.nread_le {p q : Parser} (h : p.Agree q) : q.nread ≤ p.nread := by
  cases h with
  | idle _ _ _ _ hnread => exact hnread
  | inside _ hnread => exact hnread

/-- The first byte of a message sets what is not left over. -/
theorem start_req_agree {e f : Exec} {ch : UInt8} (h : e.Agree f) :
    (e.lift (start_req e.parser ch)).Agree (f.lift (start_req f.parser ch)) := by
  unfold start_req
  by_cases hcrlf : isCRLF ch
  · rw [if_pos hcrlf, if_pos hcrlf]
    exact ⟨rfl, h.parser, h.mark, h.run, h.general⟩
  rw [if_neg hcrlf, if_neg hcrlf]
  by_cases halpha : ¬isAlpha ch
  · rw [if_pos halpha, if_pos halpha]
    exact Step.agree_fail _
  rw [if_neg halpha, if_neg halpha]
  cases Method.ofFirst ch with
  | none => exact Step.agree_fail _
  | some m =>
    have hlive := Live.of_early (p := { e.parser with
      flags := {}, content_length := ULLONG_MAX, method := m, index := 1, state := .s_req_method })
      (Or.inl rfl) f.parser.header_state f.parser.http_major f.parser.http_minor
    have hagree := Parser.Agree.inside hlive h.parser.nread_le
    refine ⟨rfl, ?_, h.mark, h.run, h.general⟩
    simp only [Parser.stale] at hagree
    rw [← h.parser.errno_eq, ← h.parser.upgrade_eq] at hagree ⊢
    exact hagree

theorem dead_agree {e f : Exec} {ch : UInt8} (h : e.Agree f) :
    (e.lift (dead e.parser ch)).Agree (f.lift (dead f.parser ch)) := by
  unfold dead
  by_cases hcrlf : isCRLF ch
  · rw [if_pos hcrlf, if_pos hcrlf]
    exact ⟨rfl, h.parser, h.mark, h.run, h.general⟩
  · rw [if_neg hcrlf, if_neg hcrlf]
    exact Step.agree_fail _

/-- The bytes between messages too. -/
theorem dispatch_agree' {e f : Exec} (he : e.Ok) (h : e.Agree f)
    (hmax : e.parser.nread + e.run ≤ max_header_size) (ch : UInt8) :
    (dispatch e ch).Agree (dispatch f ch) := by
  have hstate : f.parser.state = e.parser.state := h.parser.state_eq
  by_cases hidle : e.part = .idle
  · have hs : e.parser.state = .s_dead ∨ e.parser.state = .s_start_req := by
      revert hidle
      unfold Exec.part
      cases e.parser.state <;> simp [State.part]
    rcases hs with hs | hs <;> rw [hs] at hstate <;> simp only [dispatch, hs, hstate]
    · exact dead_agree h
    · exact start_req_agree h
  · obtain ⟨hparser, hmark, hrun, hgeneral⟩ := h
    obtain ⟨q, mark, run, general⟩ := f
    subst hmark hrun hgeneral
    cases hparser with
    | idle hpart => exact absurd hpart hidle
    | inside hlive hn => exact dispatch_agree he hlive hn hmax hidle

theorem Exec.Ok.count {e : Exec} (he : e.Ok) (n : ℕ) : (e.count n).Ok :=
  ⟨⟨he.parser.trailing, he.parser.upgrade, he.parser.errno, he.parser.asked⟩, he.mark⟩

theorem Exec.Agree.counted {e f : Exec} (h : e.Agree f) :
    (e.count (e.parser.nread + 1)).Agree (f.count (f.parser.nread + 1)) := by
  have hn : f.parser.nread + 1 ≤ e.parser.nread + 1 := Nat.succ_le_succ h.parser.nread_le
  refine ⟨?_, h.mark, h.run, h.general⟩
  obtain ⟨hparser, -, -, -⟩ := h
  obtain ⟨q, mark, run, general⟩ := f
  cases hparser with
  | idle hpart hstate hup herr _ => exact .idle hpart hstate hup herr hn
  | inside hlive _ =>
    exact .inside (p := e.parser.count (e.parser.nread + 1))
      ⟨hlive.header_state, hlive.major, hlive.minor⟩ hn

/-- **A byte.** Executions that agree still agree after the next byte, as long as the header
bytes counted stay below the limit. -/
theorem feed_agree {e f : Exec} (he : e.Ok) (h : e.Agree f) (hmax : e.size < max_header_size)
    (ch : UInt8) : (feed e ch).Agree (feed f ch) := by
  have hn := h.parser.nread_le
  have hsize : e.parser.nread + (e.run - 1) < max_header_size := hmax
  have hhead : (f.parser.state.parsingHeader ∧ f.run = 0) ↔
      (e.parser.state.parsingHeader ∧ e.run = 0) := by rw [h.parser.state_eq, h.run]
  unfold feed
  refine Step.agree_ite hhead.symm (fun hc => ?_) fun hc => ?_
  · rw [if_neg (by omega), if_neg (by omega)]
    refine dispatch_agree' (he.count _) h.counted ?_ ch
    show e.parser.nread + 1 + e.run ≤ max_header_size
    omega
  · refine dispatch_agree' he h ?_ ch
    have : e.run = 0 ∨ 0 < e.run := Nat.eq_zero_or_pos _
    omega

end Http
end SomoNet
