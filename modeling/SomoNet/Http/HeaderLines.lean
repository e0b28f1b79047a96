import SomoNet.Lib.Numerals
import SomoNet.Http.RequestLine

/-!
# Header lines

What the parser does with the text of a header line: a name, a colon, blanks, a value and the
end of the line. The value is reported as it stands. A header that is none of those that decide
how long the body is leaves alone what the parser knows of the body (`Parser.SameHead`).
-/

namespace SomoNet
namespace Http

variable {σ : Type*} {S : Settings σ} {p : Parser} {u : σ}

/-! ## Values -/

/-- The parser after the characters of a value. -/
def Parser.valued (p : Parser) : Bytes → Except Errno Parser
  | [] => .ok p
  | ch :: value => value.foldlM header_value_char =<< header_value_first p ch

/-- The characters that a value can go on with. -/
def isValueChar (ch : UInt8) : Bool := isHeaderChar ch && !isCRLF ch

theorem isValueChar_iff {ch : UInt8} :
    isValueChar ch = true ↔ isHeaderChar ch = true ∧ ch ≠ CR ∧ ch ≠ LF := by
  simp [isValueChar, isCRLF]

theorem valued_concat (p : Parser) {value : Bytes} (hne : value ≠ []) (ch : UInt8) :
    p.valued (value ++ [ch]) = (p.valued value).bind fun q => header_value_char q ch := by
  obtain ⟨c, value, rfl⟩ := List.exists_cons_of_ne_nil hne
  simp only [List.cons_append, Parser.valued]
  cases header_value_first p c with
  | error => rfl
  | ok q =>
    show (value ++ [ch]).foldlM header_value_char q =
      (value.foldlM header_value_char q).bind fun q => header_value_char q ch
    rw [List.foldlM_append]
    simp only [List.foldlM_cons, List.foldlM_nil, bind_pure]
    rfl

/-- A value does not depend on where the parser is and on what it has counted. -/
theorem valued_moved (p : Parser) (s : State) (n : ℕ) {value : Bytes} (hne : value ≠ []) :
    Parser.valued { p with state := s, nread := n } value =
      (p.valued value).map (Parser.count · n) := by
  induction value using List.reverseRecOn with
  | nil => exact absurd rfl hne
  | append_singleton value ch ih =>
    by_cases hnil : value = []
    · subst hnil
      have hfirst : header_value_first { p with state := s, nread := n } ch =
          header_value_first (p.count n) ch := by
        simp only [header_value_first, Parser.count]
        rfl
      show header_value_first _ ch >>= pure = (header_value_first p ch >>= pure).map _
      rw [bind_pure, bind_pure, hfirst, header_value_first_count]
    · rw [valued_concat _ hnil, valued_concat _ hnil, ih hnil]
      cases p.valued value with
      | error => rfl
      | ok q => exact header_value_char_count q n ch

theorem valued_frame {p q : Parser} {value : Bytes} (hne : value ≠ []) (h : p.valued value = .ok q) :
    q.state = .s_header_value ∧ q.nread = p.nread := by
  induction value using List.reverseRecOn generalizing q with
  | nil => exact absurd rfl hne
  | append_singleton value ch ih =>
    by_cases hnil : value = []
    · subst hnil
      have hfirst : header_value_first p ch = .ok q := by
        have : header_value_first p ch >>= pure = .ok q := h
        rwa [bind_pure] at this
      obtain ⟨hstate, -, -, hn⟩ := header_value_first_frame hfirst
      exact ⟨hstate, hn⟩
    · rw [valued_concat _ hnil] at h
      cases hq : p.valued value with
      | error err =>
        rw [hq] at h
        cases h
      | ok q' =>
        rw [hq] at h
        obtain ⟨hstate, hn⟩ := ih hnil hq
        obtain ⟨hstate', -, -, hn'⟩ := header_value_char_frame (p := q') h
        exact ⟨hstate'.trans hstate, hn'.trans hn⟩

/-- A character of a value. -/
theorem feed_value_char {q q' : Parser} {d : Bytes} {n k g : ℕ} {ch : UInt8}
    (hs : q.state = .s_header_value) (hch : isValueChar ch = true)
    (hmax : n + (k - 1) + 1 ≤ max_header_size) (hg : g ≤ n + (k - 1))
    (h : header_value_char q ch = .ok q') :
    ∃ n' g', n' + (k + 1 - 1) = n + (k - 1) + 1 ∧ g' ≤ n' + (k + 1 - 1) ∧
      feed ⟨q.count n, some (.header_value, d), k, g⟩ ch =
        .next [] ⟨q'.count n', some (.header_value, d), k + 1, g'⟩ := by
  obtain ⟨hheader, hcr, hlf⟩ := isValueChar_iff.mp hch
  have hnread := Exec.headed_nread (e := ⟨q.count n, some (.header_value, d), k, g⟩)
  have hfeed := feed_loop (e := ⟨q.count n, some (.header_value, d), k, g⟩) (Or.inr hs) ch
  rw [if_neg (by rintro ⟨-, h⟩; have : max_header_size ≤ n + (k - 1) := h; omega),
    Exec.headed_eq] at hfeed
  generalize (Exec.headed ⟨q.count n, some (.header_value, d), k, g⟩).parser.nread = n' at hnread hfeed
  have hsum : n' + k = n + (k - 1) + 1 := hnread
  rw [dispatch_header_value hs] at hfeed
  simp only [header_value] at hfeed
  have hinner : ¬((q.count n).header_state = .h_general ∧ g = max_header_size) := by omega
  have hinner' : ¬(((q.count n).count n').header_state = .h_general ∧ g = max_header_size) := hinner
  rw [if_neg hinner', if_neg hcr, if_neg hlf, if_neg (by simp [hheader])] at hfeed
  have hvalue : header_value_char ((q.count n).count n') ch = .ok (q'.count n') := by
    rw [show (q.count n).count n' = q.count n' from rfl, header_value_char_count, h]
    rfl
  rw [hvalue] at hfeed
  have hcounted : (if ((q.count n).count n').header_state = .h_general then g + 1 else 0) ≤
      n' + (k + 1 - 1) := by
    split <;> omega
  exact ⟨n', _, by omega, hcounted, hfeed⟩

/-- The first character of a value. -/
theorem step_value_first (hs : p.state = .s_header_value_discard_ws) {ch : UInt8}
    (hch : ch ≠ SP ∧ ch ≠ HT ∧ ch ≠ CR ∧ ch ≠ LF) {q : Parser} (h : header_value_first p ch = .ok q)
    (hmax : p.nread + 1 ≤ max_header_size) :
    (Execution.between p u).step S ch =
      ⟨⟨q.count (p.nread + 1), some (.header_value, [ch]), 0, 0⟩, false, u⟩ := by
  obtain ⟨hsp, hht, hcr, hlf⟩ := hch
  have hfeed := feed_between (p := p) (by rw [hs]; rfl) hmax ch
  have hcount : header_value_first (p.count (p.nread + 1)) ch = .ok (q.count (p.nread + 1)) := by
    rw [header_value_first_count, h]
    rfl
  simp only [dispatch, hs, show (p.count (p.nread + 1)).state = p.state from rfl,
    header_value_discard_ws] at hfeed
  rw [if_neg (by simp [hsp, hht]), if_neg hcr, if_neg hlf] at hfeed
  simp only [header_value_start, hcount] at hfeed
  unfold Execution.step Execution.between
  rw [if_neg (by simp), hfeed]
  rfl

/-- The characters of a value, up to the end of the line. -/
theorem scan_value (hs : p.state = .s_header_value_discard_ws) {value : Bytes} (hne : value ≠ [])
    (hlead : ∀ ch ∈ value.head?, ch ≠ SP ∧ ch ≠ HT ∧ ch ≠ CR ∧ ch ≠ LF)
    (hrest : ∀ ch ∈ value.tail, isValueChar ch = true) {q : Parser} (h : p.valued value = .ok q)
    (hmax : p.nread + value.length ≤ max_header_size) :
    ∃ n k g, n + (k - 1) = p.nread + value.length ∧ g ≤ n + (k - 1) ∧
      (Execution.between p u).scan S value =
        ⟨⟨q.count n, some (.header_value, value), k, g⟩, false, u⟩ := by
  induction value using List.reverseRecOn generalizing q with
  | nil => exact absurd rfl hne
  | append_singleton value ch ih =>
    rw [List.length_append, List.length_singleton] at hmax ⊢
    rw [Execution.scan_append, Execution.scan_cons, Execution.scan_nil]
    by_cases hnil : value = []
    · subst hnil
      -- the first character is read outside the loop, the others in it
      have hfirst : header_value_first p ch = .ok q := by
        have : header_value_first p ch >>= pure = .ok q := h
        rwa [bind_pure] at this
      exact ⟨p.nread + 1, 0, 0, rfl, Nat.zero_le _,
        step_value_first hs (hlead ch rfl) hfirst (by simpa using hmax)⟩
    · rw [valued_concat _ hnil] at h
      cases hq : p.valued value with
      | error err =>
        rw [hq] at h
        cases h
      | ok q' =>
        rw [hq] at h
        have hhead : ∀ c ∈ value.head?, c ≠ SP ∧ c ≠ HT ∧ c ≠ CR ∧ c ≠ LF := by
          intro c hc
          apply hlead c
          rw [List.head?_append_of_ne_nil _ hnil]
          exact hc
        have htail : (value ++ [ch]).tail = value.tail ++ [ch] := List.tail_append_of_ne_nil hnil
        rw [htail] at hrest
        -- `k` bytes of the loop are still to be counted
        obtain ⟨n, k, g, hn, hg, hscan⟩ := ih hnil hhead
          (fun c hc => hrest c (List.mem_append_left _ hc)) hq (by omega)
        obtain ⟨n', g', hn', hg', hfeed⟩ := feed_value_char (d := value) (valued_frame hnil hq).1
          (hrest ch (by simp)) (by omega) hg h
        rw [hscan]
        refine ⟨n', k + 1, g', by omega, hg', ?_⟩
        unfold Execution.step
        rw [if_neg (by simp), hfeed]
        rfl

/-! ## Lines -/

/-- The next byte of the line that begins is read as it would be by a parser that nothing is
left to be done in. -/
structure Ready (S : Settings σ) (r : Execution σ) (p : Parser) (u : σ) : Prop where
  state : p.state = .s_header_field_start
  step : p.nread + 1 ≤ max_header_size → ∀ ch, ch ≠ SP → ch ≠ HT →
    r.step S ch = (Execution.between p u).step S ch

theorem Ready.scan {r : Execution σ} (h : Ready S r p u) (hmax : p.nread + 1 ≤ max_header_size)
    {ch : UInt8} (hsp : ch ≠ SP) (hht : ch ≠ HT) (data : Bytes) :
    r.scan S (ch :: data) = (Execution.between p u).scan S (ch :: data) := by
  rw [Execution.scan_cons, Execution.scan_cons, h.step hmax ch hsp hht]

/-- The parser at the beginning of the line after a header. -/
def Parser.lineDone (p : Parser) : Parser :=
  { p with flags := p.header_state.finish p.flags, state := .s_header_field_start }

/-- After a value. -/
theorem ready_lws (hs : p.state = .s_header_value_lws) :
    Ready S (Execution.between p u) p.lineDone u := by
  refine ⟨rfl, fun hmax ch hsp hht => ?_⟩
  have hfeed := feed_between (p := p) (by rw [hs]; rfl) hmax ch
  have hfeed' := feed_between (p := p.lineDone) rfl hmax ch
  simp only [dispatch, hs, show (p.count (p.nread + 1)).state = p.state from rfl,
    header_value_lws] at hfeed
  rw [if_neg (by simp [hsp, hht])] at hfeed
  unfold Execution.step Execution.between
  rw [if_neg (by simp), if_neg (by simp), hfeed, hfeed']
  rfl

/-- After a line without a value, which is reported only now. -/
theorem ready_discard_lws (hs : p.state = .s_header_value_discard_lws)
    (hlength : p.header_state ≠ .h_content_length) :
    Ready S (Execution.between p u) p.lineDone (S.call u (.header_value [])) := by
  refine ⟨rfl, fun hmax ch hsp hht => ?_⟩
  have hfeed := feed_between (p := p) (by rw [hs]; rfl) hmax ch
  have hfeed' := feed_between (p := p.lineDone) rfl hmax ch
  simp only [dispatch, hs, show (p.count (p.nread + 1)).state = p.state from rfl,
    header_value_discard_lws] at hfeed
  have hlength' : ¬(p.count (p.nread + 1)).header_state = .h_content_length := hlength
  rw [if_neg (by simp [hsp, hht]), if_neg hlength'] at hfeed
  have hlate : feed ⟨p, none, 0, 0⟩ ch =
      (header_field_start ⟨p.lineDone.count (p.nread + 1), none, 0, 0⟩ ch).after
        [.header_value []] := hfeed
  have hdone : feed ⟨p.lineDone, none, 0, 0⟩ ch =
      header_field_start ⟨p.lineDone.count (p.nread + 1), none, 0, 0⟩ ch := hfeed'
  unfold Execution.step Execution.between
  rw [if_neg (by simp), if_neg (by simp), hlate, hdone]
  cases header_field_start ⟨p.lineDone.count (p.nread + 1), none, 0, 0⟩ ch <;> rfl

/-- A header line. -/
structure HeaderLine where
  name : Bytes
  blanks : Bytes
  value : Bytes
  name_ne : name ≠ []
  name_token : ∀ ch ∈ name, token ch ≠ 0
  blank : ∀ ch ∈ blanks, ch = SP ∨ ch = HT
  lead : ∀ ch ∈ value.head?, ch ≠ SP ∧ ch ≠ HT ∧ ch ≠ CR ∧ ch ≠ LF
  rest : ∀ ch ∈ value.tail, isValueChar ch = true

namespace HeaderLine

def text (l : HeaderLine) : Bytes := (l.name ++ [chr ':']) ++ (l.blanks ++ (l.value ++ [CR, LF]))

/-- What is reported of the line. -/
def calls (l : HeaderLine) : List Event := [.header_field l.name, .header_value l.value]

theorem text_length (l : HeaderLine) :
    l.text.length = l.name.length + l.blanks.length + l.value.length + 3 := by
  simp only [text, List.length_append, List.length_cons, List.length_nil]
  omega

/-- A line begins with a character of its name. -/
theorem text_eq (l : HeaderLine) : ∃ ch rest, l.text = ch :: rest ∧ ch ≠ SP ∧ ch ≠ HT := by
  obtain ⟨ch, name, hname⟩ := List.exists_cons_of_ne_nil l.name_ne
  have htoken := l.name_token ch (by rw [hname]; exact List.mem_cons_self)
  refine ⟨ch, _, by rw [text, hname]; rfl, ?_, ?_⟩ <;> rintro rfl <;> exact htoken (by decide)

end HeaderLine

/-- A name and its colon. -/
theorem scan_colon (hs : p.state = .s_header_field_start) {name : Bytes} (hne : name ≠ [])
    (hname : ∀ ch ∈ name, token ch ≠ 0) (hmax : p.nread + (name.length + 1) ≤ max_header_size) :
    (Execution.between p u).scan S (name ++ [chr ':']) =
      Execution.between { p.named name with
        state := .s_header_value_discard_ws, nread := p.nread + (name.length + 1) }
        (S.call u (.header_field name)) := by
  obtain ⟨n, k, hn, hscan⟩ := scan_name S u hs hne hname (by omega)
  rw [Execution.scan_append, hscan, Execution.scan_cons, Execution.scan_nil]
  have hstate := named_state p hne
  let e : Exec := ⟨(p.named name).count n, some (.header_field, name), k, 0⟩
  have hsize : e.size = p.nread + name.length := hn
  have hnread : e.headed.parser.nread + k = e.size + 1 := e.headed_nread
  have hfeed := feed_loop (e := e) (Or.inl hstate) (chr ':')
  rw [if_neg (by omega), e.headed_eq] at hfeed
  generalize e.headed.parser.nread = n' at hnread hfeed
  rw [dispatch_header_field hstate] at hfeed
  simp only [header_field] at hfeed
  rw [if_neg (by decide), if_neg (by show ¬n' + k > max_header_size; omega),
    if_pos trivial] at hfeed
  unfold Execution.step
  rw [if_neg (by simp), hfeed]
  have hsum : n' + k = p.nread + (name.length + 1) := by omega
  show Execution.between { p.named name with
    state := .s_header_value_discard_ws, nread := n' + k } _ = _
  rw [hsum]
  rfl

/-- Blanks before a value. -/
theorem scan_blanks (hs : p.state = .s_header_value_discard_ws) {blanks : Bytes}
    (hblanks : ∀ ch ∈ blanks, ch = SP ∨ ch = HT) (hmax : p.nread + blanks.length ≤ max_header_size) :
    (Execution.between p u).scan S blanks =
      Execution.between (p.count (p.nread + blanks.length)) u := by
  induction blanks generalizing p with
  | nil => rfl
  | cons ch blanks ih =>
    rw [List.length_cons] at hmax
    have hstep : (Execution.between p u).step S ch = Execution.between (p.count (p.nread + 1)) u := by
      refine step_ok S u (by rw [hs]; rfl) (by omega) ?_
      simp only [dispatch, hs, show (p.count (p.nread + 1)).state = p.state from rfl,
        header_value_discard_ws]
      rw [if_pos (hblanks ch List.mem_cons_self)]
      rfl
    rw [Execution.scan_cons, hstep,
      ih (p := p.count (p.nread + 1)) hs (fun c hc => hblanks c (List.mem_cons_of_mem ch hc))
        (by show p.nread + 1 + blanks.length ≤ _; omega)]
    show Execution.between (p.count (p.nread + 1 + blanks.length)) u = _
    rw [List.length_cons, show p.nread + 1 + blanks.length = p.nread + (blanks.length + 1) by omega]

/-- The end of a line that has a value. -/
theorem scan_value_end {q : Parser} {value : Bytes} {n k g : ℕ} (hs : q.state = .s_header_value)
    (hg : g ≤ n + (k - 1)) (hmax : n + (k - 1) + 2 ≤ max_header_size) :
    (⟨⟨q.count n, some (.header_value, value), k, g⟩, false, u⟩ : Execution σ).scan S [CR, LF] =
      Execution.between { q with
        state := .s_header_value_lws, nread := n + (k - 1) + 2 } (S.call u (.header_value value)) := by
  let e : Exec := ⟨q.count n, some (.header_value, value), k, g⟩
  have hsize : e.size = n + (k - 1) := rfl
  have hnread : e.headed.parser.nread + k = e.size + 1 := e.headed_nread
  have hfeed := feed_loop (e := e) (Or.inr hs) CR
  rw [if_neg (by omega), e.headed_eq] at hfeed
  generalize e.headed.parser.nread = n' at hnread hfeed
  rw [dispatch_header_value hs] at hfeed
  simp only [header_value] at hfeed
  have hinner : ¬((e.parser.count n').header_state = .h_general ∧ e.general = max_header_size) := by
    rintro ⟨-, h⟩
    have : g = max_header_size := h
    omega
  rw [if_neg hinner, if_pos trivial, if_neg (by show ¬n' + k > max_header_size; omega)] at hfeed
  have hcr : (⟨e, false, u⟩ : Execution σ).step S CR =
      Execution.between { q with state := .s_header_almost_done, nread := n' + k }
        (S.call u (.header_value value)) := by
    unfold Execution.step
    rw [if_neg (by simp), hfeed]
    rfl
  rw [Execution.scan_cons, Execution.scan_cons, Execution.scan_nil]
  show ((⟨e, false, u⟩ : Execution σ).step S CR).step S LF = _
  rw [hcr, show n' + k = n + (k - 1) + 1 by omega]
  exact step_ok S _ rfl (by show n + (k - 1) + 1 + 1 ≤ _; omega) rfl

/-- The end of a line that has no value. -/
theorem scan_blank_end (hs : p.state = .s_header_value_discard_ws)
    (hmax : p.nread + 2 ≤ max_header_size) :
    (Execution.between p u).scan S [CR, LF] =
      Execution.between { p with
        state := .s_header_value_discard_lws, nread := p.nread + 2 } u := by
  have hcr : (Execution.between p u).step S CR = Execution.between { p with
      state := .s_header_value_discard_ws_almost_done, nread := p.nread + 1 } u := by
    refine step_ok S u (by rw [hs]; rfl) (by omega) ?_
    simp only [dispatch, hs, show (p.count (p.nread + 1)).state = p.state from rfl,
      header_value_discard_ws]
    rfl
  rw [Execution.scan_cons, Execution.scan_cons, Execution.scan_nil, hcr]
  exact step_ok S u rfl (by show p.nread + 1 + 1 ≤ _; omega) rfl

/-- **Header lines are read back.** The name and the value of a line are reported as they stand,
and what the parser makes of them is what it makes of a name and a value. -/
theorem scan_line (l : HeaderLine) (hs : p.state = .s_header_field_start) {q : Parser}
    (h : (p.named l.name).valued l.value = .ok q)
    (hempty : l.value = [] → (p.named l.name).header_state ≠ .h_content_length)
    (hmax : p.nread + l.text.length ≤ max_header_size) :
    Ready S ((Execution.between p u).scan S l.text)
      (q.lineDone.count (p.nread + l.text.length)) (S.callAll u l.calls) := by
  have hlength := l.text_length
  rw [hlength] at hmax ⊢
  unfold HeaderLine.text
  rw [Execution.scan_append, scan_colon hs l.name_ne l.name_token (by omega),
    Execution.scan_append, scan_blanks rfl l.blank
      (by show p.nread + (l.name.length + 1) + l.blanks.length ≤ _; omega)]
  show Ready S ((Execution.between { p.named l.name with
      state := .s_header_value_discard_ws
      nread := p.nread + (l.name.length + 1) + l.blanks.length } _).scan S _) _ _
  generalize hn : p.nread + (l.name.length + 1) + l.blanks.length = n
  by_cases hnil : l.value = []
  · -- the value is empty
    rw [hnil] at h
    cases h
    rw [hnil, List.nil_append, scan_blank_end rfl (by show n + 2 ≤ _; omega)]
    show Ready S _ _ (S.call (S.call u (.header_field l.name)) (.header_value l.value))
    rw [hnil, show p.nread + (l.name.length + l.blanks.length + ([] : Bytes).length + 3) = n + 2 by
      simp; omega]
    exact ready_discard_lws (p := { p.named l.name with
      state := .s_header_value_discard_lws, nread := n + 2 }) rfl (hempty hnil)
  -- what has been counted so far does not change how the value is read
  · have hvalued : Parser.valued { p.named l.name with
        state := .s_header_value_discard_ws, nread := n } l.value = .ok (q.count n) := by
      rw [valued_moved _ _ _ hnil, h]
      rfl
    obtain ⟨n', k, g, hsum, hg, hscan⟩ := scan_value (S := S)
      (u := S.call u (.header_field l.name)) (p := { p.named l.name with
        state := .s_header_value_discard_ws, nread := n }) rfl hnil l.lead l.rest hvalued
      (by show n + l.value.length ≤ _; omega)
    have hsum' : n' + (k - 1) = n + l.value.length := hsum
    rw [Execution.scan_append, hscan,
      scan_value_end (q := q.count n) (valued_frame hnil h).1 hg (by omega)]
    rw [show p.nread + (l.name.length + l.blanks.length + l.value.length + 3) =
      n' + (k - 1) + 2 by omega]
    exact ready_lws (p := { q with state := .s_header_value_lws, nread := n' + (k - 1) + 2 }) rfl

/-! ## What headers say of the body -/

/-- The parsers know the same of the message and of the length of its body. -/
structure Parser.SameHead (p q : Parser) : Prop where
  method : q.method = p.method
  errno : q.http_errno = p.http_errno
  length : q.content_length = p.content_length
  chunked : q.flags.F_CHUNKED = p.flags.F_CHUNKED
  transfer : q.flags.F_TRANSFER_ENCODING = p.flags.F_TRANSFER_ENCODING
  trailing : q.flags.F_TRAILING = p.flags.F_TRAILING
  skipbody : q.flags.F_SKIPBODY = p.flags.F_SKIPBODY
  hasLength : q.flags.F_CONTENTLENGTH = p.flags.F_CONTENTLENGTH

namespace Parser.SameHead

variable {q q' : Parser}

theorem refl (p : Parser) : p.SameHead p := ⟨rfl, rfl, rfl, rfl, rfl, rfl, rfl, rfl⟩

theorem trans (h : p.SameHead q) (h' : q.SameHead q') : p.SameHead q' where
  method := h'.method.trans h.method
  errno := h'.errno.trans h.errno
  length := h'.length.trans h.length
  chunked := h'.chunked.trans h.chunked
  transfer := h'.transfer.trans h.transfer
  trailing := h'.trailing.trans h.trailing
  skipbody := h'.skipbody.trans h.skipbody
  hasLength := h'.hasLength.trans h.hasLength

end Parser.SameHead

/-- The parsers know the same of the message. -/
structure Parser.SameMessage (p q : Parser) : Prop where
  method : q.method = p.method
  errno : q.http_errno = p.http_errno
  length : q.content_length = p.content_length
  flags : q.flags = p.flags
  major : q.http_major = p.http_major
  minor : q.http_minor = p.http_minor
  upgrade : q.upgrade = p.upgrade

namespace Parser.SameMessage

variable {q q' : Parser}

theorem refl (p : Parser) : p.SameMessage p := ⟨rfl, rfl, rfl, rfl, rfl, rfl, rfl⟩

theorem trans (h : p.SameMessage q) (h' : q.SameMessage q') : p.SameMessage q' where
  method := h'.method.trans h.method
  errno := h'.errno.trans h.errno
  length := h'.length.trans h.length
  flags := h'.flags.trans h.flags
  major := h'.major.trans h.major
  minor := h'.minor.trans h.minor
  upgrade := h'.upgrade.trans h.upgrade

theorem sameHead (h : p.SameMessage q) : p.SameHead q where
  method := h.method
  errno := h.errno
  length := h.length
  chunked := by rw [h.flags]
  transfer := by rw [h.flags]
  trailing := by rw [h.flags]
  skipbody := by rw [h.flags]
  hasLength := by rw [h.flags]

end Parser.SameMessage

/-! ### Headers that leave the body alone -/

/-- The states of headers that do not decide how long the body is. -/
def HeaderState.harmless : HeaderState → Bool
  | h_content_length | h_content_length_num | h_content_length_ws | h_transfer_encoding
  | h_matching_transfer_encoding_token_start | h_matching_transfer_encoding_chunked
  | h_matching_transfer_encoding_token | h_transfer_encoding_chunked => false
  | _ => true

theorem header_value_first_harmless (h : p.header_state.harmless = true) (ch : UInt8) :
    ∃ q, header_value_first p ch = .ok q ∧ p.SameHead q ∧ q.header_state.harmless = true := by
  have hsame : ∀ q : Parser, q.method = p.method → q.http_errno = p.http_errno →
      q.content_length = p.content_length → q.flags = p.flags → p.SameHead q :=
    fun q hm he hl hf => ⟨hm, he, hl, by rw [hf], by rw [hf], by rw [hf], by rw [hf], by rw [hf]⟩
  cases hs : p.header_state <;> rw [hs] at h <;> cases h <;> simp only [header_value_first, hs]
  case h_connection =>
    refine ⟨_, rfl, hsame _ rfl rfl rfl rfl, ?_⟩
    split_ifs <;> rfl
  case h_upgrade => exact ⟨_, rfl, ⟨rfl, rfl, rfl, rfl, rfl, rfl, rfl, rfl⟩, rfl⟩
  case h_matching_connection_token_start =>
    exact ⟨_, rfl, hsame _ rfl rfl rfl rfl, rfl⟩
  all_goals exact ⟨_, rfl, hsame _ rfl rfl rfl rfl, rfl⟩

theorem matchWord_harmless {word : Bytes} {matched missed : HeaderState} {c : UInt8}
    (h : p.header_state.harmless = true) (hmatched : matched.harmless = true)
    (hmissed : missed.harmless = true) :
    (p.matchWord word matched missed c).header_state.harmless = true := by
  simp only [Parser.matchWord]
  split_ifs <;> assumption

theorem header_value_char_harmless (h : p.header_state.harmless = true) (ch : UInt8) :
    ∃ q, header_value_char p ch = .ok q ∧ p.SameHead q ∧ q.header_state.harmless = true := by
  have hsame : ∀ q : Parser, q.method = p.method → q.http_errno = p.http_errno →
      q.content_length = p.content_length → q.flags = p.flags → p.SameHead q :=
    fun q hm he hl hf => ⟨hm, he, hl, by rw [hf], by rw [hf], by rw [hf], by rw [hf], by rw [hf]⟩
  have hword : ∀ (word : Bytes) (matched missed : HeaderState) (c : UInt8),
      p.SameHead (p.matchWord word matched missed c) :=
    fun word matched missed c => hsame _ rfl rfl rfl rfl
  cases hs : p.header_state <;> simp only [header_value_char, hs]
  case h_matching_connection_token_start =>
    refine ⟨_, rfl, hsame _ rfl rfl rfl rfl, ?_⟩
    simp only [tokenStart]
    split_ifs <;> rfl
  case h_matching_connection_keep_alive =>
    exact ⟨_, rfl, hword _ _ _ _, matchWord_harmless h rfl rfl⟩
  case h_matching_connection_close => exact ⟨_, rfl, hword _ _ _ _, matchWord_harmless h rfl rfl⟩
  case h_matching_connection_upgrade => exact ⟨_, rfl, hword _ _ _ _, matchWord_harmless h rfl rfl⟩
  case h_matching_connection_token =>
    split
    · exact ⟨_, rfl, hsame _ rfl rfl rfl rfl, rfl⟩
    · exact ⟨_, rfl, .refl p, h⟩
  case h_connection_keep_alive | h_connection_close | h_connection_upgrade =>
    split
    · exact ⟨_, rfl, ⟨rfl, rfl, rfl, rfl, rfl, rfl, rfl, rfl⟩, rfl⟩
    split
    · exact ⟨_, rfl, hsame _ rfl rfl rfl rfl, rfl⟩
    · exact ⟨_, rfl, .refl p, h⟩
  case h_general | h_connection => exact ⟨_, rfl, .refl p, h⟩
  all_goals first
    | exact ⟨_, rfl, hsame _ rfl rfl rfl rfl, rfl⟩
    | (rw [hs] at h; cases h)

theorem valued_harmless (h : p.header_state.harmless = true) (value : Bytes) :
    ∃ q, p.valued value = .ok q ∧ p.SameHead q ∧ q.header_state.harmless = true := by
  induction value using List.reverseRecOn with
  | nil => exact ⟨p, rfl, .refl p, h⟩
  | append_singleton value ch ih =>
    by_cases hnil : value = []
    · subst hnil
      obtain ⟨q, hq, hsame, hharmless⟩ := header_value_first_harmless h ch
      refine ⟨q, ?_, hsame, hharmless⟩
      show header_value_first p ch >>= pure = _
      rw [bind_pure, hq]
    · obtain ⟨q, hq, hsame, hharmless⟩ := ih
      obtain ⟨q', hq', hsame', hharmless'⟩ := header_value_char_harmless hharmless ch
      refine ⟨q', ?_, hsame.trans hsame', hharmless'⟩
      rw [valued_concat p hnil, hq]
      exact hq'

theorem lineDone_harmless (h : p.header_state.harmless = true) : p.SameHead p.lineDone := by
  unfold Parser.lineDone
  cases hs : p.header_state <;> rw [hs] at h <;> cases h <;>
    exact ⟨rfl, rfl, rfl, rfl, rfl, rfl, rfl, rfl⟩

/-- A name changes nothing but what is expected, and the flag for a transfer encoding. -/
theorem header_field_char_eq (p : Parser) (ch : UInt8) :
    ∃ h i t, header_field_char p ch =
      { p with header_state := h, index := i, flags := { p.flags with F_TRANSFER_ENCODING := t } } := by
  have hself : p = { p with
      header_state := p.header_state
      index := p.index
      flags := { p.flags with F_TRANSFER_ENCODING := p.flags.F_TRANSFER_ENCODING } } := rfl
  cases hs : p.header_state <;> simp only [header_field_char, hs]
  case h_matching_transfer_encoding =>
    split
    · exact ⟨_, _, true, rfl⟩
    · exact ⟨_, _, p.flags.F_TRANSFER_ENCODING, rfl⟩
  case h_connection | h_content_length | h_transfer_encoding | h_upgrade =>
    split
    · exact ⟨_, _, p.flags.F_TRANSFER_ENCODING, rfl⟩
    · exact ⟨_, _, _, hself⟩
  case h_C | h_CO | h_CON | h_matching_connection | h_matching_proxy_connection
      | h_matching_content_length | h_matching_upgrade =>
    exact ⟨_, _, p.flags.F_TRANSFER_ENCODING, rfl⟩
  all_goals exact ⟨_, _, _, hself⟩

theorem named_eq (p : Parser) {name : Bytes} (hne : name ≠ [])
    (hname : ∀ ch ∈ name, token ch ≠ 0) :
    ∃ h i, p.named name = { p with
      state := .s_header_field, header_state := h, index := i
      flags := { p.flags with
        F_TRANSFER_ENCODING :=
          p.flags.F_TRANSFER_ENCODING || decide (bytes "transfer-encoding" <+: name.map token) } } := by
  have hfold : ∀ (name : Bytes) (q : Parser),
      ∃ h i t, name.foldl header_field_char q =
        { q with header_state := h, index := i, flags := { q.flags with F_TRANSFER_ENCODING := t } } := by
    intro name
    induction name with
    | nil => exact fun q => ⟨_, _, _, rfl⟩
    | cons ch name ih =>
      intro q
      obtain ⟨h, i, t, hq⟩ := header_field_char_eq q ch
      obtain ⟨h', i', t', hq'⟩ := ih (header_field_char q ch)
      refine ⟨h', i', t', ?_⟩
      rw [List.foldl_cons, hq', hq]
  have htransfer : (p.named name).flags.F_TRANSFER_ENCODING =
      (p.flags.F_TRANSFER_ENCODING || decide (bytes "transfer-encoding" <+: name.map token)) := by
    rw [Bool.eq_iff_iff, named_transfer p hne hname, Bool.or_eq_true, decide_eq_true_iff]
  rw [← htransfer]
  obtain ⟨ch, name, rfl⟩ := List.exists_cons_of_ne_nil hne
  obtain ⟨h, i, t, hq⟩ := hfold name { p with
    index := 0, state := .s_header_field, header_state := .ofFirst (token ch) }
  have hnamed : p.named (ch :: name) = _ := hq
  rw [hnamed]
  exact ⟨h, i, rfl⟩

theorem named_sameMessage (p : Parser) {name : Bytes} (hne : name ≠ [])
    (hname : ∀ ch ∈ name, token ch ≠ 0) (hplain : ¬bytes "transfer-encoding" <+: name.map token) :
    p.SameMessage (p.named name) := by
  obtain ⟨h, i, heq⟩ := named_eq p hne hname
  rw [heq, decide_eq_false hplain, Bool.or_false]
  exact ⟨rfl, rfl, rfl, rfl, rfl, rfl, rfl⟩

/-! ### Headers that the parser does not look into -/

/-- The states of a name that is not recognised, and of a value of no interest. -/
def HeaderState.idle : HeaderState → Bool
  | h_general | h_C | h_CO | h_CON | h_matching_connection | h_matching_proxy_connection
  | h_matching_content_length | h_matching_transfer_encoding | h_matching_upgrade => true
  | _ => false

theorem valued_idle (h : p.header_state.idle = true) (value : Bytes) :
    ∃ q, p.valued value = .ok q ∧ p.SameMessage q ∧ q.header_state.idle = true := by
  induction value using List.reverseRecOn with
  | nil => exact ⟨p, rfl, .refl p, h⟩
  | append_singleton value ch ih =>
    by_cases hnil : value = []
    · subst hnil
      have hfirst : header_value_first p ch = .ok { p with
          state := .s_header_value, index := 0, header_state := .h_general } := by
        unfold header_value_first
        cases hs : p.header_state <;> rw [hs] at h <;> first | rfl | cases h
      refine ⟨{ p with state := .s_header_value, index := 0, header_state := .h_general }, ?_,
        ⟨rfl, rfl, rfl, rfl, rfl, rfl, rfl⟩, rfl⟩
      show header_value_first p ch >>= pure = _
      rw [bind_pure, hfirst]
    · obtain ⟨q, hq, hsame, hidle⟩ := ih
      have hchar : header_value_char q ch = .ok { q with header_state := .h_general } := by
        obtain ⟨state, header_state, flags, index, nread, length, major, minor, method, err, up⟩ := q
        cases header_state <;> first | rfl | cases hidle
      refine ⟨{ q with header_state := .h_general }, ?_,
        hsame.trans ⟨rfl, rfl, rfl, rfl, rfl, rfl, rfl⟩, rfl⟩
      rw [valued_concat p hnil, hq]
      exact hchar

theorem lineDone_idle (h : p.header_state.idle = true) : p.SameMessage p.lineDone := by
  have hflags : p.header_state.finish p.flags = p.flags := by
    cases hs : p.header_state <;> rw [hs] at h <;> first | rfl | cases h
  exact ⟨rfl, rfl, rfl, hflags, rfl, rfl, rfl⟩

namespace HeaderLine

/-- A header that does not say how long the body is. -/
structure Plain (l : HeaderLine) : Prop where
  length : l.name.map token ≠ bytes "content-length"
  transfer : ¬bytes "transfer-encoding" <+: l.name.map token

/-- A header that the parser does not look into. -/
structure Silent (l : HeaderLine) : Prop where
  unknown : HeaderState.ofName (l.name.map token) = none
  transfer : ¬bytes "transfer-encoding" <+: l.name.map token

instance (l : HeaderLine) : Decidable l.Plain :=
  decidable_of_iff (_ ∧ _) ⟨fun h => ⟨h.1, h.2⟩, fun h => ⟨h.1, h.2⟩⟩

instance (l : HeaderLine) : Decidable l.Silent :=
  decidable_of_iff (_ ∧ _) ⟨fun h => ⟨h.1, h.2⟩, fun h => ⟨h.1, h.2⟩⟩

variable {l : HeaderLine}

theorem Plain.harmless (h : l.Plain) (p : Parser) :
    (p.named l.name).header_state.harmless = true := by
  have hmatched := named_matched p l.name_ne l.name_token
  cases hs : (p.named l.name).header_state <;> rw [hs] at hmatched
  case h_content_length => exact absurd hmatched h.length
  case h_transfer_encoding =>
    have hname : l.name.map token = bytes "transfer-encoding" := hmatched
    exact absurd (by rw [hname]) h.transfer
  all_goals first
    | rfl
    | exact (show False from hmatched).elim

theorem Silent.idle (h : l.Silent) (p : Parser) : (p.named l.name).header_state.idle = true := by
  have hmatched := named_matched p l.name_ne l.name_token
  have hunknown := named_recognised p l.name_ne l.name_token
  rw [h.unknown] at hunknown
  cases hs : (p.named l.name).header_state <;> rw [hs] at hmatched hunknown <;>
    first
      | rfl
      | exact (show False from hmatched).elim
      | exact absurd hunknown (by decide)

/-- A plain header is reported, and the parser knows of the body what it knew before; if it does
not look into the header, it knows of the message what it knew before. -/
theorem Plain.scan (h : l.Plain) (hs : p.state = .s_header_field_start)
    (hmax : p.nread + l.text.length ≤ max_header_size) :
    ∃ q, Ready S ((Execution.between p u).scan S l.text) q (S.callAll u l.calls) ∧
      p.SameHead q ∧ (l.Silent → p.SameMessage q) ∧ q.nread = p.nread + l.text.length := by
  obtain ⟨q, hq, hsame, hharmless⟩ := valued_harmless (h.harmless p) l.value
  have hnamed := named_sameMessage p l.name_ne l.name_token h.transfer
  refine ⟨_, scan_line l hs hq (fun _ hlength => ?_) hmax, ?_, fun hsilent => ?_, rfl⟩
  · have := h.harmless p
    rw [hlength] at this
    cases this
  · have hdone := (hnamed.sameHead.trans hsame).trans (lineDone_harmless hharmless)
    exact ⟨hdone.method, hdone.errno, hdone.length, hdone.chunked, hdone.transfer, hdone.trailing,
      hdone.skipbody, hdone.hasLength⟩
  · obtain ⟨q', hq', hsame', hidle⟩ := valued_idle (hsilent.idle p) l.value
    obtain rfl : q = q' := Except.ok.inj (hq.symm.trans hq')
    have hdone := (hnamed.trans hsame').trans (lineDone_idle hidle)
    exact ⟨hdone.method, hdone.errno, hdone.length, hdone.flags, hdone.major, hdone.minor,
      hdone.upgrade⟩

end HeaderLine

/-- From the beginning of a line on, the text of a line is read as by `between p u`. -/
theorem Ready.scan_text {r : Execution σ} (h : Ready S r p u) (l : HeaderLine)
    (hmax : p.nread + l.text.length ≤ max_header_size) :
    r.scan S l.text = (Execution.between p u).scan S l.text := by
  obtain ⟨ch, rest, htext, hsp, hht⟩ := l.text_eq
  have hlength := l.text_length
  rw [htext]
  exact h.scan (by omega) hsp hht rest

/-- Plain headers, one after the other. -/
theorem Ready.scan_lines {r : Execution σ} (h : Ready S r p u) {lines : List HeaderLine}
    (hlines : ∀ l ∈ lines, l.Plain)
    (hmax : p.nread + (lines.flatMap HeaderLine.text).length ≤ max_header_size) :
    ∃ q, Ready S (r.scan S (lines.flatMap HeaderLine.text)) q
        (S.callAll u (lines.flatMap HeaderLine.calls)) ∧
      p.SameHead q ∧ ((∀ l ∈ lines, l.Silent) → p.SameMessage q) ∧
      q.nread = p.nread + (lines.flatMap HeaderLine.text).length := by
  induction lines generalizing r p u with
  | nil => exact ⟨p, h, .refl p, fun _ => .refl p, rfl⟩
  | cons l lines ih =>
    rw [List.flatMap_cons, List.length_append] at hmax
    rw [List.flatMap_cons, List.flatMap_cons, List.length_append]
    obtain ⟨q, hq, hsame, hsilent, hn⟩ := (hlines l List.mem_cons_self).scan (S := S) (u := u)
      h.state (by omega)
    obtain ⟨q', hq', hsame', hsilent', hn'⟩ := ih hq
      (fun l' hl' => hlines l' (List.mem_cons_of_mem l hl')) (by omega)
    refine ⟨q', ?_, hsame.trans hsame', fun hall => ?_, by omega⟩
    · rw [Execution.scan_append, h.scan_text l (by omega), Settings.callAll_append]
      exact hq'
    · exact (hsilent (hall l List.mem_cons_self)).trans
        (hsilent' fun l' hl' => hall l' (List.mem_cons_of_mem l hl'))

/-! ## Content lengths -/

theorem digit_eq : ∀ {ch}, isNum ch = true → digit ch = Numerals.digitVal ch :=
  @(forall_byte (by decide +kernel))

theorem isNum_ne {ch : UInt8} (h : isNum ch = true) : ch ≠ SP ∧ ch ≠ HT ∧ ch ≠ CR ∧ ch ≠ LF := by
  refine ⟨?_, ?_, ?_, ?_⟩ <;> rintro rfl <;> revert h <;> decide

/-- The parser after the digits of a content length. -/
structure Measured (p : Parser) (n : ℕ) (q : Parser) : Prop where
  same : Parser.SameMessage { p with
    content_length := n, flags := { p.flags with F_CONTENTLENGTH := true } } q
  header_state : q.header_state = .h_content_length_num

/-- The digits of a content length, which has to be small enough to be kept. -/
theorem valued_length (hs : p.header_state = .h_content_length)
    (hfirst : p.flags.F_CONTENTLENGTH = false) {value : Bytes} (hne : value ≠ [])
    (hdigits : ∀ ch ∈ value, isNum ch = true) (hfits : Numerals.value 10 value + 10 ≤ ULLONG_MAX) :
    ∃ q, p.valued value = .ok q ∧ Measured p (Numerals.value 10 value) q := by
  induction value using List.reverseRecOn with
  | nil => exact absurd rfl hne
  | append_singleton value ch ih =>
    have hch := hdigits ch (by simp)
    rw [Numerals.value_concat] at hfits ⊢
    rw [← digit_eq hch] at hfits ⊢
    by_cases hnil : value = []
    · subst hnil
      -- the first digit sets the flag and the state in which the others are read
      have hok : header_value_first p ch = .ok { p with
          state := .s_header_value, index := 0
          flags := { p.flags with F_CONTENTLENGTH := true }
          content_length := digit ch
          header_state := .h_content_length_num } := by
        simp only [header_value_first, hs]
        rw [if_neg (by simp [hch]), if_neg (by simp [hfirst])]
      refine ⟨{ p with
          state := .s_header_value, index := 0
          flags := { p.flags with F_CONTENTLENGTH := true }
          content_length := digit ch
          header_state := .h_content_length_num }, ?_, ⟨?_, rfl⟩⟩
      · show header_value_first p ch >>= pure = _
        rw [bind_pure, hok]
      · simp only [Numerals.value, List.foldl_nil, Nat.mul_zero, Nat.zero_add]
        exact ⟨rfl, rfl, rfl, rfl, rfl, rfl, rfl⟩
    · -- a further digit, for which there is room
      obtain ⟨q, hq, hsame, hstate⟩ := ih hnil (fun c hc => hdigits c (List.mem_append_left _ hc))
        (by omega)
      have hlength : q.content_length = Numerals.value 10 value := hsame.length
      have hsmall : ¬(ULLONG_MAX - 10) / 10 < q.content_length := by
        rw [hlength]
        omega
      refine ⟨{ q with content_length := q.content_length * 10 + digit ch }, ?_, ⟨?_, hstate⟩⟩
      · rw [valued_concat p hnil, hq]
        show header_value_char q ch = _
        simp only [header_value_char, hstate, content_length_num]
        rw [if_neg (isNum_ne hch).1, if_neg (by simp [hch]), if_neg hsmall]
      · refine ⟨hsame.method, hsame.errno, ?_, hsame.flags, hsame.major, hsame.minor, hsame.upgrade⟩
        show q.content_length * 10 + digit ch = _
        rw [hlength, Nat.mul_comm]

end Http
end SomoNet
