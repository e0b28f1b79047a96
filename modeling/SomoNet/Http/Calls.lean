import SomoNet.Http.Boundary

/-!
# One input in several calls

`sn_http_parser_execute` keeps no pointer into its input: at the end of a call the data of
the mark that is left is reported, and the next call sets the mark again. So a user whose
callbacks take data in pieces is left where one call with all of the input would have left
it, and the parser with it, down to its count of header bytes.

The run of one call is compared with the calls made one after the other (`Resumed`): they
are the same but for the data in front of the last cut, which the one still holds in its mark
and the other has reported (`Exec.Apart`).
-/

namespace SomoNet
namespace Http

variable {σ : Type*}

/-- Callbacks to which data may be reported in pieces. -/
def Settings.Additive (S : Settings σ) : Prop :=
  ∀ (p : Parser) (m : Mark) (a b : Bytes) (u : σ),
    S.call (S.call u (m.call p a)) (m.call p b) = S.call u (m.call p (a ++ b))

/-- `sn_http_parser_execute` for one piece of the input after the other. -/
def executeAll (S : Settings σ) (p : Parser) (u : σ) (pieces : List Bytes) : Parser × σ :=
  pieces.foldl (fun x data => execute S x.1 x.2 data) (p, u)

/-- A call that stops before the end of its input because the protocol changes. -/
def Execution.Exits (r : Execution σ) : Prop :=
  r.stopped = true ∧ r.exec.parser.http_errno = none

/-! ## Too many header bytes -/

/-- A loop over a field or a value has taken more than the parser allows, which shows when it
ends. -/
structure Exec.Doomed (e : Exec) : Prop where
  loop : e.parser.state = .s_header_field ∨ e.parser.state = .s_header_value
  running : 0 < e.run
  over_max : max_header_size < e.size

/-- The byte ends in an error, or in a loop that will. -/
def Step.Fails : Step → Prop
  | .next _ e => e.Doomed
  | .stop _ p => p.http_errno ≠ none
  | .ask _ _ => False

theorem Step.fails_fail (e : Exec) (err : Errno) : (e.fail err).Fails := by
  simp [Exec.fail, Step.Fails, Parser.fail]

/-- The count at the head of the loop. -/
def Exec.headed (e : Exec) : Exec := if e.run = 0 then e.count (e.parser.nread + 1) else e

section

variable {e : Exec}

theorem Exec.headed_run : e.headed.run = e.run := by
  unfold headed
  split <;> rfl

theorem Exec.headed_mark : e.headed.mark = e.mark := by
  unfold headed
  split <;> rfl

theorem Exec.headed_general : e.headed.general = e.general := by
  unfold headed
  split <;> rfl

theorem Exec.headed_parser : e.headed.parser = e.parser.count e.headed.parser.nread := by
  unfold headed
  split <;> rfl

theorem Exec.headed_eq : e.headed = { e with parser := e.parser.count e.headed.parser.nread } := by
  unfold headed
  split <;> rfl

/-- All the header bytes so far, and the one at hand. -/
theorem Exec.headed_nread : e.headed.parser.nread + e.run = e.size + 1 := by
  unfold headed size
  split
  next h =>
    show e.parser.nread + 1 + e.run = _
    omega
  next h => omega

/-- A byte of a field or of a value. -/
theorem feed_loop (hs : e.parser.state = .s_header_field ∨ e.parser.state = .s_header_value)
    (ch : UInt8) :
    feed e ch =
      if e.run = 0 ∧ max_header_size ≤ e.size then e.fail .HPE_HEADER_OVERFLOW
      else dispatch e.headed ch := by
  have hparsing : e.parser.state.parsingHeader = true := by
    rcases hs with hs | hs <;> rw [hs] <;> rfl
  unfold feed Exec.headed
  by_cases hrun : e.run = 0
  · have hsize : e.size = e.parser.nread := by
      unfold Exec.size
      omega
    rw [if_pos ⟨hparsing, hrun⟩, hsize]
    by_cases hmax : max_header_size ≤ e.parser.nread
    · rw [if_pos (by omega), if_pos ⟨hrun, hmax⟩]
    · rw [if_neg (by omega), if_neg (by omega), if_pos hrun]
      rfl
  · rw [if_neg (by omega), if_neg (by omega), if_neg hrun]

/-- With its header bytes used up, a loop over a field or a value fails. -/
theorem feed_full (hs : e.parser.state = .s_header_field ∨ e.parser.state = .s_header_value)
    (hfull : max_header_size ≤ e.size) (ch : UInt8) : (feed e ch).Fails := by
  rw [feed_loop hs]
  split
  · exact Step.fails_fail e _
  have hnread := e.headed_nread
  have hrun := e.headed_run
  have hparser := e.headed_parser
  generalize e.headed = e' at hnread hrun hparser
  have hs' : e'.parser.state = e.parser.state := by rw [hparser]; rfl
  -- the loop has taken one more byte
  have hdoomed : ∀ q : Parser, q.state = e.parser.state → q.nread = e'.parser.nread → ∀ g,
      Exec.Doomed { e' with parser := q, run := e'.run + 1, general := g } := by
    intro q hq hn g
    refine ⟨by rw [← hq] at hs; exact hs, Nat.succ_pos _, ?_⟩
    show max_header_size < q.nread + (e'.run + 1 - 1)
    omega
  have hover : e'.parser.nread + e'.run > max_header_size := by omega
  rcases hs with hs | hs
  · rw [hs] at hs'
    simp only [dispatch, hs', header_field]
    split
    · obtain ⟨hstate, -, -, hn⟩ := header_field_char_frame e'.parser ch
      exact hdoomed _ (hstate.trans (hs'.trans hs.symm)) hn _
    · exact Step.fails_fail e' _
  · rw [hs] at hs'
    simp only [dispatch, hs', header_value]
    split
    · exact hdoomed _ (hs'.trans hs.symm) rfl _
    split
    · simp [Step.Fails, Parser.fail]
    split
    · exact Step.fails_fail e' _
    split
    · exact Step.fails_fail e' _
    · unfold Exec.lift
      cases hchar : header_value_char e'.parser ch with
      | error err => exact Step.fails_fail _ err
      | ok q =>
        obtain ⟨hstate, -, -, hn⟩ := header_value_char_frame hchar
        exact hdoomed q (hstate.trans (hs'.trans hs.symm)) hn _

end

namespace Execution

/-- The call has ended in an error or will. -/
structure Fails (r : Execution σ) : Prop where
  stopped : r.stopped = true → r.exec.parser.http_errno ≠ none
  going : r.stopped = false → r.exec.Doomed

theorem fails_step (S : Settings σ) {r : Execution σ} {ch : UInt8} (hgoing : r.stopped = false)
    (h : (feed r.exec ch).Fails) : (r.step S ch).Fails := by
  unfold step
  rw [if_neg (by simp [hgoing])]
  cases hfeed : feed r.exec ch with
  | next cs e =>
    rw [hfeed] at h
    exact ⟨fun h => by simp at h, fun _ => ⟨h.loop, h.running, h.over_max⟩⟩
  | stop cs p =>
    rw [hfeed] at h
    exact ⟨fun _ => h, fun h => by simp at h⟩
  | ask cs e =>
    rw [hfeed] at h
    exact h.elim

theorem Fails.step {r : Execution σ} (h : r.Fails) (S : Settings σ) (ch : UInt8) :
    (r.step S ch).Fails := by
  cases hstop : r.stopped with
  | true => rwa [step_stopped S hstop]
  | false =>
    have hdoomed := h.going hstop
    exact fails_step S hstop (feed_full hdoomed.loop hdoomed.over_max.le ch)

theorem Fails.scan {r : Execution σ} (h : r.Fails) (S : Settings σ) (data : Bytes) :
    (r.scan S data).Fails := by
  induction data generalizing r with
  | nil => exact h
  | cons ch data ih => exact ih (h.step S ch)

theorem Fails.finish {r : Execution σ} (h : r.Fails) (S : Settings σ) :
    (r.finish S).1.http_errno ≠ none := by
  unfold Execution.finish
  cases hstop : r.stopped with
  | true => exact h.stopped hstop
  | false =>
    have hdoomed := h.going hstop
    rw [if_neg (by simp), if_pos ⟨hdoomed.running, hdoomed.over_max⟩]
    simp [Parser.fail]

end Execution

/-! ## A byte after a cut

`a` is the data that has been reported at the cut and `b` what has been read since. -/

/-- The executions differ only in that `f` has reported the data `a` by the call `call`, and in
how they have counted the bytes of the loop that they are in. -/
structure Exec.Apart (call : Bytes → Event) (a : Bytes) (e f : Exec) : Prop where
  mark : ∃ m b, m.call e.parser = call ∧ e.mark = some (m, a ++ b) ∧
    (f.mark = some (m, b) ∨ m = .body ∧ b = [] ∧ f.mark = none)
  parser : f.parser = e.parser.count f.parser.nread
  size : f.size = e.size
  run : e.run = 0 → f.run = 0
  /-- At the cut the bytes so far have been found to be not too many. -/
  small : f.run = 0 → e.run = 0 ∨ e.size ≤ max_header_size
  general : f.general ≤ e.general

/-- What a byte does in two executions that are apart. -/
inductive Step.Cut (call : Bytes → Event) (a : Bytes) : Step → Step → Prop
  | kept {e f : Exec} (h : e.Apart call a f) (hset : f.mark ≠ none) :
      Cut call a (.next [] e) (.next [] f)
  | reported {b : Bytes} {cs : List Event} {e : Exec} {cs' : List Event}
      (h : cs' = call b :: cs ∨ b = [] ∧ cs' = cs) :
      Cut call a (.next (call (a ++ b) :: cs) e) (.next cs' e)
  | failed {s t : Step} (h : s.Fails) (h' : t.Fails) : Cut call a s t
  | exited {b : Bytes} {p : Parser} (herr : p.http_errno = none) :
      Cut call a (.stop [call (a ++ b), .message_complete] p)
        (.stop [call b, .message_complete] p)

section

variable {p : Parser} {a b : Bytes} {ch : UInt8}

theorem cut_fail (call : Bytes → Event) (e f : Exec) (err err' : Errno) :
    Step.Cut call a (e.fail err) (f.fail err') :=
  .failed (Step.fails_fail e err) (Step.fails_fail f err')

/-- A byte of data outside the loops. -/
theorem cut_kept {q : Parser} {m : Mark} {call : Bytes → Event} (hcall : m.call q = call) :
    Step.Cut call a (.next [] ⟨q, some (m, a ++ b), 0, 0⟩) (.next [] ⟨q, some (m, b), 0, 0⟩) :=
  .kept ⟨⟨m, b, hcall, rfl, Or.inl rfl⟩, rfl, rfl, fun _ => rfl, fun _ => Or.inl rfl, le_refl _⟩
    (by simp)

theorem cut_url_char :
    Step.Cut (.url p.method) a
      (Exec.lift ⟨p, some (.url, a ++ b), 0, 0⟩ (url_char p p.state ch))
      (Exec.lift ⟨p, some (.url, b), 0, 0⟩ (url_char p p.state ch)) := by
  unfold url_char
  split
  · exact cut_fail _ _ _ _ _
  · exact cut_kept rfl

theorem req_schema_cut :
    Step.Cut (.url p.method) a (req_schema ⟨p, some (.url, a ++ b), 0, 0⟩ ch)
      (req_schema ⟨p, some (.url, b), 0, 0⟩ ch) := by
  unfold req_schema
  split
  · exact cut_fail _ _ _ _ _
  · exact cut_url_char

theorem req_url_cut :
    Step.Cut (.url p.method) a (req_url ⟨p, some (.url, a ++ b), 0, 0⟩ ch)
      (req_url ⟨p, some (.url, b), 0, 0⟩ ch) := by
  unfold req_url
  split
  · exact .reported (Or.inl rfl)
  split
  · exact .reported (Or.inl rfl)
  · exact cut_url_char

theorem feed_url_cut (hpart : p.state.part = .url) :
    Step.Cut (.url p.method) a (feed ⟨p, some (.url, a ++ b), 0, 0⟩ ch)
      (feed ⟨p, some (.url, b), 0, 0⟩ ch) := by
  have hdispatch : ∀ q : Parser, q.state = p.state → q.method = p.method →
      Step.Cut (.url p.method) a (dispatch ⟨q, some (.url, a ++ b), 0, 0⟩ ch)
        (dispatch ⟨q, some (.url, b), 0, 0⟩ ch) := by
    intro q hq hmethod
    rw [← hmethod]
    rw [← hq] at hpart
    cases hs : q.state <;> rw [hs] at hpart <;> cases hpart <;> simp only [dispatch, hs] <;>
      first | exact req_schema_cut | exact req_url_cut
  unfold feed
  split
  · split
    · exact cut_fail _ _ _ _ _
    · exact hdispatch _ rfl rfl
  · exact hdispatch p rfl rfl

/-! ### In a field and in a value

Only the sums of what has been counted and of what is still to be counted agree. -/

variable {n k k' g g' : ℕ} {call : Bytes → Event} {m : Mark}

/-- One more byte in the loops. -/
theorem cut_loop {q : Parser} (hcall : m.call q = call) (hn : n + k' = q.nread + k) (hg : g' ≤ g) :
    Step.Cut call a (.next [] ⟨q, some (m, a ++ b), k + 1, g⟩)
      (.next [] ⟨q.count n, some (m, b), k' + 1, g'⟩) := by
  refine .kept ⟨⟨m, b, hcall, rfl, Or.inl rfl⟩, rfl, ?_, fun h => absurd h (Nat.succ_ne_zero k),
    fun h => absurd h (Nat.succ_ne_zero k'), hg⟩ (by simp)
  show n + (k' + 1 - 1) = q.nread + (k + 1 - 1)
  omega

theorem header_field_cut (hn : n + k' = p.nread + k) (hmax : p.nread + k ≤ max_header_size) :
    Step.Cut .header_field a (header_field ⟨p, some (.header_field, a ++ b), k, 0⟩ ch)
      (header_field ⟨p.count n, some (.header_field, b), k', 0⟩ ch) := by
  have hmax' : ¬(p.count n).nread + k' > max_header_size := by
    show ¬n + k' > max_header_size
    omega
  simp only [header_field]
  by_cases htoken : token ch ≠ 0
  · rw [if_pos htoken, if_pos htoken, header_field_char_count]
    refine cut_loop rfl ?_ (le_refl _)
    rw [(header_field_char_frame p ch).2.2.2]
    exact hn
  rw [if_neg htoken, if_neg htoken, if_neg (by omega), if_neg hmax']
  by_cases hcolon : ch = chr ':'
  · rw [if_pos hcolon, if_pos hcolon]
    have hsum : (p.count n).nread + k' = p.nread + k := hn
    rw [hsum]
    exact .reported (Or.inl rfl)
  · rw [if_neg hcolon, if_neg hcolon]
    exact cut_fail _ _ _ _ _

theorem header_value_cut (hn : n + k' = p.nread + k) (hmax : p.nread + k ≤ max_header_size)
    (hg : g' ≤ g) (hlt : g < max_header_size) :
    Step.Cut .header_value a (header_value ⟨p, some (.header_value, a ++ b), k, g⟩ ch)
      (header_value ⟨p.count n, some (.header_value, b), k', g'⟩ ch) := by
  have hmax' : ¬(p.count n).nread + k' > max_header_size := by
    show ¬n + k' > max_header_size
    omega
  have hsum : (p.count n).nread + k' = p.nread + k := hn
  have hmax : ¬p.nread + k > max_header_size := by omega
  have hinner : ¬(p.header_state = .h_general ∧ g = max_header_size) := by omega
  have hinner' : ¬((p.count n).header_state = .h_general ∧ g' = max_header_size) := by omega
  simp only [header_value]
  rw [if_neg hinner, if_neg hinner']
  -- both calls look at the same byte in the same state, and take the same branch
  by_cases hcr : ch = CR
  · rw [if_pos hcr, if_pos hcr, if_neg hmax, if_neg hmax', hsum]
    exact .reported (Or.inl rfl)
  rw [if_neg hcr, if_neg hcr]
  by_cases hlf : ch = LF
  · rw [if_pos hlf, if_pos hlf, if_neg hmax, if_neg hmax', hsum]
    simp only [header_almost_done]
    rw [if_neg (by simp [hlf]), if_neg (by simp [hlf])]
    exact .reported (Or.inl rfl)
  rw [if_neg hlf, if_neg hlf]
  by_cases hchar : ¬isHeaderChar ch
  · rw [if_pos hchar, if_pos hchar]
    exact cut_fail _ _ _ _ _
  rw [if_neg hchar, if_neg hchar, header_value_char_count]
  cases hvalue : header_value_char p ch with
  | error err => exact cut_fail _ _ _ _ _
  | ok q =>
    refine cut_loop rfl ?_ ?_
    · rw [(header_value_char_frame hvalue).2.2.2]
      exact hn
    · show (if p.header_state = .h_general then g' + 1 else 0) ≤
        if p.header_state = .h_general then g + 1 else 0
      split <;> omega

/-! ### In a body

After the cut the mark is not set before the next byte of the body. -/

/-- The mark of a body as a cut leaves it. -/
theorem setMark_cut {mark : Option (Mark × Bytes)}
    (hmark : mark = some (.body, b) ∨ b = [] ∧ mark = none) :
    Exec.setMark ⟨p, mark, 0, 0⟩ .body = ⟨p, some (.body, b), 0, 0⟩ := by
  rcases hmark with rfl | ⟨rfl, rfl⟩ <;> rfl

theorem chunk_data_almost_done_cut {mark : Option (Mark × Bytes)}
    (hmark : mark = some (.body, b) ∨ b = [] ∧ mark = none) :
    Step.Cut .body a (chunk_data_almost_done ⟨p, some (.body, a ++ b), 0, 0⟩ ch)
      (chunk_data_almost_done ⟨p, mark, 0, 0⟩ ch) := by
  unfold chunk_data_almost_done
  split
  · exact cut_fail _ _ _ _ _
  rcases hmark with rfl | ⟨rfl, rfl⟩
  · exact .reported (Or.inl rfl)
  · exact .reported (Or.inr ⟨rfl, rfl⟩)

theorem chunk_data_cut {mark : Option (Mark × Bytes)}
    (hmark : mark = some (.body, b) ∨ b = [] ∧ mark = none) :
    Step.Cut .body a (chunk_data ⟨p, some (.body, a ++ b), 0, 0⟩)
      (chunk_data ⟨p, mark, 0, 0⟩) := by
  simp only [chunk_data, setMark_cut hmark, setMark_cut (Or.inl rfl)]
  split
  · exact cut_kept rfl
  · exact cut_kept rfl

theorem body_identity_cut {mark : Option (Mark × Bytes)} (herr : p.http_errno = none)
    (hmark : mark = some (.body, b) ∨ b = [] ∧ mark = none) :
    Step.Cut .body a (body_identity ⟨p, some (.body, a ++ b), 0, 0⟩ ch)
      (body_identity ⟨p, mark, 0, 0⟩ ch) := by
  simp only [body_identity, setMark_cut hmark, setMark_cut (Or.inl rfl)]
  split
  · -- the last byte is reported with the data before it
    have hcalls : ∀ d : Bytes, (Exec.consume ⟨p, some (.body, d), 0, 0⟩ ch).calls .body =
        [.body (d ++ [ch])] := fun _ => rfl
    rw [hcalls, hcalls]
    simp only [message_done, Parser.complete, Exec.ending, Ending.calls]
    split
    · simp only [Step.after, List.singleton_append, if_true, List.append_assoc]
      exact .exited herr
    · simp only [Step.after, List.singleton_append, if_true, List.append_assoc]
      exact .reported (Or.inl rfl)
  · exact cut_kept rfl

theorem feed_body_cut {mark : Option (Mark × Bytes)} (herr : p.http_errno = none)
    (hs : p.state.mark = some .body) (hmark : mark = some (.body, b) ∨ b = [] ∧ mark = none) :
    Step.Cut .body a (feed ⟨p, some (.body, a ++ b), 0, 0⟩ ch) (feed ⟨p, mark, 0, 0⟩ ch) := by
  cases hstate : p.state <;> rw [hstate] at hs <;> cases hs <;>
    simp only [feed, dispatch, hstate, State.parsingHeader, Bool.false_eq_true, false_and, if_false]
  case s_chunk_data => exact chunk_data_cut hmark
  case s_chunk_data_almost_done => exact chunk_data_almost_done_cut hmark
  case s_body_identity => exact body_identity_cut herr hmark
  case s_body_identity_eof =>
    unfold body_identity_eof
    rw [setMark_cut hmark, setMark_cut (Or.inl rfl)]
    exact cut_kept rfl

end

section

variable {call : Bytes → Event} {a : Bytes} {e f : Exec} {ch : UInt8}

theorem dispatch_header_field (hs : e.parser.state = .s_header_field) :
    dispatch e ch = header_field e ch := by
  simp only [dispatch, hs]

theorem dispatch_header_value (hs : e.parser.state = .s_header_value) :
    dispatch e ch = header_value e ch := by
  simp only [dispatch, hs]

theorem Exec.eq_unlooped (hrun : e.run = 0) (hgeneral : e.general = 0) :
    e = ⟨e.parser, e.mark, 0, 0⟩ := by
  obtain ⟨p, mark, run, general⟩ := e
  cases hrun
  cases hgeneral
  rfl

/-- Outside the loops the executions agree on the parser. -/
theorem Exec.Apart.parser_eq (h : e.Apart call a f) (hrun : e.run = 0) : f.parser = e.parser := by
  have hrun' := h.run hrun
  have hsize := h.size
  unfold Exec.size at hsize
  rw [hrun, hrun'] at hsize
  rw [h.parser, show f.parser.nread = e.parser.nread by omega]
  rfl

/-- Inside the loops, what has been counted and what is still to be counted agree. -/
theorem Exec.Apart.headed (h : e.Apart call a f) :
    ∃ p n, e.headed = ⟨p, e.mark, e.run, e.general⟩ ∧ f.headed = ⟨p.count n, f.mark, f.run, f.general⟩ ∧
      p.state = e.parser.state ∧ n + f.run = p.nread + e.run ∧ p.nread + e.run = e.size + 1 := by
  have hn := e.headed_nread
  have hn' := f.headed_nread
  refine ⟨e.headed.parser, f.headed.parser.nread, ?_, ?_, ?_, ?_, hn⟩
  · rw [← e.headed_mark, ← e.headed_run, ← e.headed_general]
  · have hparser : f.headed.parser = e.headed.parser.count f.headed.parser.nread := by
      rw [f.headed_parser, h.parser, e.headed_parser]
      rfl
    rw [← hparser, ← f.headed_mark, ← f.headed_run, ← f.headed_general]
  · rw [e.headed_parser]
    rfl
  · rw [hn, hn', h.size]

/-- A byte of a field or a value, in executions that are apart. -/
theorem Exec.Apart.feed_loop (h : e.Apart call a f)
    (hs : e.parser.state = .s_header_field ∨ e.parser.state = .s_header_value)
    (hcut : e.size < max_header_size → Step.Cut call a (dispatch e.headed ch) (dispatch f.headed ch)) :
    Step.Cut call a (feed e ch) (feed f ch) := by
  have hs' : f.parser.state = .s_header_field ∨ f.parser.state = .s_header_value := by
    rw [h.parser]
    exact hs
  by_cases hmax : max_header_size ≤ e.size
  · exact .failed (feed_full hs hmax ch) (feed_full hs' (h.size ▸ hmax) ch)
  · rw [Http.feed_loop hs, Http.feed_loop hs', if_neg (by omega), if_neg (by rw [h.size]; omega)]
    exact hcut (by omega)

theorem feed_cut (he : e.Ok) (hloops : e.Loops) (hgeneral : e.general ≤ e.size)
    (h : e.Apart call a f) : Step.Cut call a (feed e ch) (feed f ch) := by
  obtain ⟨m, b, rfl, hmark, hmark'⟩ := h.mark
  have hstate : e.parser.state.mark = some m := by
    have := he.mark
    simpa [hmark, State.allows, eq_comm] using this
  -- outside the loops nothing differs but the data
  have houtside : e.parser.state ≠ .s_header_field → e.parser.state ≠ .s_header_value →
      e = ⟨e.parser, some (m, a ++ b), 0, 0⟩ ∧ f = ⟨e.parser, f.mark, 0, 0⟩ := by
    intro hfield hvalue
    have hrun := hloops.run hfield hvalue
    have hgen := hloops.general hvalue
    have hgen' := h.general
    rw [hgen, Nat.le_zero] at hgen'
    rw [← hmark]
    refine ⟨Exec.eq_unlooped hrun hgen, ?_⟩
    rw [← h.parser_eq hrun]
    exact Exec.eq_unlooped (h.run hrun) hgen'
  cases m with
  | url =>
    have hpart : e.parser.state.part = .url := by
      revert hstate
      cases e.parser.state <;> simp [State.mark, State.part]
    obtain ⟨hee, hff⟩ := houtside (by rintro hs; rw [hs] at hpart; cases hpart)
      (by rintro hs; rw [hs] at hpart; cases hpart)
    rw [hee, hff, hmark'.resolve_right (by simp)]
    exact feed_url_cut hpart
  | header_field =>
    have hs : e.parser.state = .s_header_field := by
      revert hstate
      cases e.parser.state <;> simp [State.mark, State.part]
    refine h.feed_loop (Or.inl hs) fun hmax => ?_
    have hgen := hloops.general (by rw [hs]; decide)
    have hgen' := h.general
    rw [hgen, Nat.le_zero] at hgen'
    obtain ⟨p, n, hp, hp', hstate', hn, hsize⟩ := h.headed
    rw [hp, hp', hmark, hgen, hgen', hmark'.resolve_right (by simp),
      dispatch_header_field (hstate'.trans hs), dispatch_header_field (hstate'.trans hs)]
    exact header_field_cut hn (by omega)
  | header_value =>
    have hs : e.parser.state = .s_header_value := by
      revert hstate
      cases e.parser.state <;> simp [State.mark, State.part]
    refine h.feed_loop (Or.inr hs) fun hmax => ?_
    obtain ⟨p, n, hp, hp', hstate', hn, hsize⟩ := h.headed
    rw [hp, hp', hmark, hmark'.resolve_right (by simp),
      dispatch_header_value (hstate'.trans hs), dispatch_header_value (hstate'.trans hs)]
    exact header_value_cut hn (by omega) h.general (by omega)
  | body =>
    have hpart : e.parser.state ≠ .s_header_field ∧ e.parser.state ≠ .s_header_value := by
      constructor <;> intro hs <;> rw [hs] at hstate <;> cases hstate
    obtain ⟨hee, hff⟩ := houtside hpart.1 hpart.2
    rw [hee, hff]
    exact feed_body_cut he.parser.errno hstate (hmark'.imp_right fun h => h.2)

end

/-! ## The run of one call -/

/-- What the inner loop over a value has counted, the parser will have to count. -/
def Step.Within : Step → Prop
  | .next _ e => e.general ≤ e.size
  | .ask _ e => e.general = 0
  | .stop _ _ => True

theorem header_field_within {e : Exec} (hzero : e.general = 0) (ch : UInt8) :
    (header_field e ch).Within := by
  simp only [header_field]
  split
  · exact hzero.trans_le (Nat.zero_le _)
  split
  · trivial
  split
  · exact hzero.trans_le (Nat.zero_le _)
  · trivial

theorem header_value_within {e : Exec} (hgeneral : e.general < e.parser.nread + e.run) (ch : UInt8) :
    (header_value e ch).Within := by
  simp only [header_value]
  split
  · exact Nat.zero_le _
  split
  · split
    · trivial
    · exact Nat.zero_le _
  split
  · split
    · trivial
    · unfold Exec.lift
      cases header_almost_done _ _ with
      | error => trivial
      | ok => exact Nat.zero_le _
  split
  · trivial
  · unfold Exec.lift
    cases hvalue : header_value_char e.parser ch with
    | error => trivial
    | ok q =>
      -- the loop counts the byte, and so does the run
      have hn := (header_value_char_frame hvalue).2.2.2
      show (if e.parser.header_state = .h_general then e.general + 1 else 0) ≤
        q.nread + (e.run + 1 - 1)
      split <;> omega

theorem feed_within {e : Exec} (hloops : e.Loops) (hgeneral : e.general ≤ e.size) (ch : UInt8) :
    (feed e ch).Within := by
  by_cases hs : e.parser.state = .s_header_field ∨ e.parser.state = .s_header_value
  · rw [feed_loop hs]
    split
    · trivial
    have hnread := e.headed_nread
    have hrun := e.headed_run
    have hgen := e.headed_general
    have hs' : e.headed.parser.state = e.parser.state := by rw [e.headed_parser]; rfl
    generalize e.headed = e' at hnread hrun hgen hs' ⊢
    rcases hs with hs | hs
    · rw [dispatch_header_field (hs'.trans hs)]
      exact header_field_within (hgen.trans (hloops.general (by rw [hs]; decide))) ch
    · rw [dispatch_header_value (hs'.trans hs)]
      exact header_value_within (by omega) ch
  · rw [not_or] at hs
    -- outside the two loops every byte is counted at once
    have hcounted : ∀ f : Exec, f.parser.state = e.parser.state → f.run = e.run →
        f.general = e.general → (dispatch f ch).Within := by
      intro f hfs hrun hgen
      have hzero : f.run = 0 ∧ f.general = 0 :=
        ⟨hrun.trans (hloops.run hs.1 hs.2), hgen.trans (hloops.general hs.2)⟩
      have := dispatch_counted hzero ch (by rw [hfs]; exact hs.1) (by rw [hfs]; exact hs.2)
      revert this
      cases dispatch f ch with
      | next cs e' =>
        rintro ⟨-, hg⟩
        show e'.general ≤ _
        omega
      | stop => exact fun _ => trivial
      | ask cs e' => exact fun h => h.2
    unfold feed
    split_ifs
    · trivial
    · exact hcounted _ rfl rfl rfl
    · exact hcounted e rfl rfl rfl

namespace Execution

/-- What holds of a call in the middle of its bytes. -/
structure Regular (r : Execution σ) : Prop where
  ok : r.stopped = false → r.exec.Ok
  loops : r.stopped = false → r.exec.Loops
  general : r.stopped = false → r.exec.general ≤ r.exec.size

theorem regular_start (u : σ) : (start .init u : Execution σ).Regular where
  ok _ := (start_ok u 0).exec
  loops _ := ⟨fun _ _ => rfl, fun _ => rfl⟩
  general _ := Nat.zero_le _

theorem Regular.step {r : Execution σ} (h : r.Regular) (S : Settings σ) (ch : UInt8) :
    (r.step S ch).Regular := by
  cases hstop : r.stopped with
  | true => rwa [step_stopped S hstop]
  | false =>
    have hdoes := feed_does (h.ok hstop) ch
    have hwithin := feed_within (h.loops hstop) (h.general hstop) ch
    refine ⟨?_, step_loops S h.loops ch, ?_⟩ <;> unfold Execution.step <;>
      rw [if_neg (by simp [hstop])]
    · cases hfeed : feed r.exec ch with
      | next cs e =>
        rw [hfeed] at hdoes
        exact fun _ => hdoes.1
      | stop => exact fun h => by simp at h
      | ask cs e =>
        rw [hfeed] at hdoes
        obtain ⟨-, -, rfl, -, -, herr, hmark, hle⟩ := hdoes
        intro hgoing
        rcases (headers_headers S herr hmark hle (S.callAll r.user cs)).ok with h | h
        · rw [h] at hgoing
          cases hgoing
        · exact h.exec
    · cases hfeed : feed r.exec ch with
      | next cs e =>
        rw [hfeed] at hwithin
        exact fun _ => hwithin
      | stop => exact fun h => by simp at h
      | ask cs e =>
        rw [hfeed] at hwithin
        have hzero : e.general = 0 := hwithin
        intro _
        show e.general ≤ _
        omega

theorem Regular.scan {r : Execution σ} (h : r.Regular) (S : Settings σ) (data : Bytes) :
    (r.scan S data).Regular := by
  induction data generalizing r with
  | nil => exact h
  | cons ch data ih => exact ih (h.step S ch)

/-- An error at the end of the bytes. -/
theorem Regular.fails_of_finish {r : Execution σ} (h : r.Regular) (S : Settings σ)
    (herr : (r.finish S).1.http_errno ≠ none) : r.Fails := by
  unfold Execution.finish at herr
  cases hstop : r.stopped with
  | true =>
    rw [if_pos hstop] at herr
    exact ⟨fun _ => herr, fun h => by rw [hstop] at h; cases h⟩
  | false =>
    rw [if_neg (by simp [hstop])] at herr
    split at herr
    next hover =>
      refine ⟨fun h => (by rw [hstop] at h; cases h), fun _ => ⟨?_, hover.1, hover.2⟩⟩
      by_contra hloop
      rw [not_or] at hloop
      have := (h.loops hstop).run hloop.1 hloop.2
      omega
    next => exact absurd (h.ok hstop).parser.errno herr

/-! ## The calls and the run of one call -/

/-- `d` is where the calls are and `r` where one call with all of the bytes would be. -/
inductive Resumed (S : Settings σ) (r d : Execution σ) : Prop
  | same (h : d = r)
  | apart {c : Bytes → Event} {a : Bytes} (hgoing : r.stopped = false)
      (hgoing' : d.stopped = false) (h : r.exec.Apart c a d.exec)
      (huser : d.user = S.call r.user (c a))
  | failed (h : r.Fails) (h' : d.Fails)
  | exited (h : r.Exits) (h' : d.Exits)

variable {S : Settings σ} {r d : Execution σ}

theorem Resumed.step (h : Resumed S r d) (hS : S.Additive) (hr : r.Regular) (ch : UInt8) :
    Resumed S (r.step S ch) (d.step S ch) := by
  cases h with
  | same h =>
    subst h
    exact .same rfl
  | failed h h' => exact .failed (h.step S ch) (h'.step S ch)
  | exited h h' =>
    rw [step_stopped S h.1, step_stopped S h'.1]
    exact .exited h h'
  | @apart call a hgoing hgoing' h huser =>
    have hcut : Step.Cut call a (feed r.exec ch) (feed d.exec ch) :=
      feed_cut (hr.ok hgoing) (hr.loops hgoing) (hr.general hgoing) h
    -- what has been reported, and what will be
    have hadd : ∀ b, S.call d.user (call b) = S.call r.user (call (a ++ b)) := by
      intro b
      obtain ⟨m, -, hcall, -⟩ := h.mark
      rw [huser, ← hcall]
      exact hS _ m a b r.user
    have hfail : (feed r.exec ch).Fails → (r.step S ch).Fails := fails_step S hgoing
    have hfail' : (feed d.exec ch).Fails → (d.step S ch).Fails := fails_step S hgoing'
    unfold Execution.step at hfail hfail' ⊢
    rw [if_neg (by simp [hgoing])] at hfail ⊢
    rw [if_neg (by simp [hgoing'])] at hfail' ⊢
    generalize feed r.exec ch = s at hcut hfail ⊢
    generalize feed d.exec ch = t at hcut hfail' ⊢
    cases hcut with
    | @kept e f h hset =>
      obtain ⟨m, b, hcall, hmark, hmark'⟩ := h.mark
      refine .apart rfl rfl (c := call) (a := a) ⟨⟨m, b ++ [ch], hcall, ?_, Or.inl ?_⟩, h.parser,
        h.size, h.run, h.small, h.general⟩ huser
      · simp [Exec.consume, hmark]
      · simp [Exec.consume, hmark'.resolve_right fun h => hset h.2.2]
    | @reported b cs e cs' h =>
      have husers : S.callAll d.user cs' = S.callAll r.user (call (a ++ b) :: cs) := by
        rw [Settings.callAll_cons]
        rcases h with rfl | ⟨rfl, rfl⟩
        · rw [Settings.callAll_cons, hadd]
        · rw [List.append_nil, huser]
      refine .same ?_
      show (⟨e.consume ch, false, S.callAll d.user cs'⟩ : Execution σ) = ⟨e.consume ch, false, _⟩
      rw [husers]
    | failed h h' => exact .failed (hfail h) (hfail' h')
    | exited herr => exact .exited ⟨rfl, herr⟩ ⟨rfl, herr⟩

theorem Resumed.scan (h : Resumed S r d) (hS : S.Additive) (hr : r.Regular) (data : Bytes) :
    Resumed S (r.scan S data) (d.scan S data) := by
  induction data generalizing r d with
  | nil => exact h
  | cons ch data ih => exact ih (h.step hS hr ch) (hr.step S ch)

theorem Mark.call_count (p : Parser) (n : ℕ) (m : Mark) : m.call (p.count n) = m.call p := by
  cases m <;> rfl

theorem finish_eq (S : Settings σ) (hgoing : r.stopped = false)
    (hover : ¬(r.exec.run > 0 ∧ r.exec.size > max_header_size)) :
    r.finish S = (r.exec.parser.count r.exec.size,
      S.callAll r.user (r.exec.mark.toList.map fun md => md.1.call r.exec.parser md.2)) := by
  unfold Execution.finish
  rw [if_neg (by simp [hgoing])]
  exact if_neg hover

/-- At the end of a call the user has been told what one call would have told it by then. -/
theorem Resumed.finish (h : Resumed S r d) (hS : S.Additive) (hr : r.Regular) (hexit : ¬r.Exits) :
    d.finish S = r.finish S ∨ d.Fails ∧ r.Fails := by
  cases h with
  | same h => exact Or.inl (by rw [h])
  | failed h h' => exact Or.inr ⟨h', h⟩
  | exited h => exact absurd h hexit
  | @apart call a hgoing hgoing' h huser =>
    obtain ⟨m, b, rfl, hmark, hmark'⟩ := h.mark
    by_cases hover : r.exec.run > 0 ∧ r.exec.size > max_header_size
    · -- too many bytes for both
      have hs : r.exec.parser.state = .s_header_field ∨ r.exec.parser.state = .s_header_value := by
        by_contra hloop
        rw [not_or] at hloop
        have := (hr.loops hgoing).run hloop.1 hloop.2
        omega
      have hrun : 0 < d.exec.run := by
        by_contra hzero
        have := h.small (by omega)
        omega
      refine Or.inr ⟨⟨fun h => ?_, fun _ => ⟨?_, hrun, ?_⟩⟩, ⟨fun h => ?_, fun _ => ⟨hs, hover.1, hover.2⟩⟩⟩
      · rw [hgoing'] at h
        cases h
      · rw [h.parser]
        exact hs
      · rw [h.size]
        exact hover.2
      · rw [hgoing] at h
        cases h
    -- the call with the rest has counted no more than the call with all
    · have hover' : ¬(d.exec.run > 0 ∧ d.exec.size > max_header_size) := by
        rintro ⟨hrun, hsize⟩
        rw [h.size] at hsize
        have := h.run
        omega
      refine Or.inl ?_
      rw [finish_eq S hgoing hover, finish_eq S hgoing' hover', h.size, hmark, huser, h.parser]
      refine Prod.ext rfl ?_
      have hdata := hS r.exec.parser m a b r.user
      rcases hmark' with hmark' | ⟨rfl, rfl, hmark'⟩
      · rw [hmark']
        simp only [Option.toList_some, List.map_cons, List.map_nil, Mark.call_count]
        exact hdata
      · rw [hmark', List.append_nil]
        rfl

/-- A call that begins where one call has got to. -/
theorem resumed_start (hr : r.Regular) (hgoing : r.stopped = false)
    (herr : (r.finish S).1.http_errno = none) :
    Resumed S r (start (r.finish S).1 (r.finish S).2) := by
  have hok := hr.ok hgoing
  -- the call did not fail at its end
  have hover : ¬(r.exec.run > 0 ∧ r.exec.size > max_header_size) := by
    intro hover
    have hfails : (r.finish S).1.http_errno ≠ none := by
      unfold Exec.size at hover
      unfold Execution.finish
      rw [if_neg (by simp [hgoing]), if_pos hover]
      simp [Parser.fail]
    exact hfails herr
  rw [finish_eq S hgoing hover]
  cases hmark : r.exec.mark with
  | none =>
    -- nothing was being reported, and nothing is taken up again
    have hallows := hok.mark
    rw [hmark] at hallows
    have hstate : r.exec.parser.state.resumed = none ∧ r.exec.parser.state ≠ .s_header_field ∧
        r.exec.parser.state ≠ .s_header_value := by
      revert hallows
      cases r.exec.parser.state <;> simp [State.allows, State.mark, State.part, State.awaits,
        State.resumed]
    have hrun := (hr.loops hgoing).run hstate.2.1 hstate.2.2
    have hgeneral := (hr.loops hgoing).general hstate.2.2
    refine .same ?_
    obtain ⟨⟨p, mark, run, general⟩, stopped, u⟩ := r
    dsimp only at hgoing hmark hrun hgeneral hstate ⊢
    subst hgoing hmark hrun hgeneral
    show (⟨⟨p, p.state.resumed.map fun m => (m, []), 0, 0⟩, false, u⟩ : Execution σ) = _
    rw [hstate.1]
    rfl
  | some md =>
    -- what was being reported is taken up again, except for a body, which the state says
    obtain ⟨m, a⟩ := md
    have hallows := hok.mark
    rw [hmark] at hallows
    have hstate : r.exec.parser.state.resumed = some m ∨
        m = .body ∧ r.exec.parser.state.resumed = none := by
      revert hallows
      cases r.exec.parser.state <;> simp [State.allows, State.mark, State.part, State.awaits,
        State.resumed] <;> (rintro rfl; simp)
    refine .apart hgoing rfl (c := m.call r.exec.parser) (a := a)
      ⟨⟨m, [], rfl, ?_, ?_⟩, rfl, rfl, fun _ => rfl, fun _ => ?_, Nat.zero_le _⟩ rfl
    · rw [List.append_nil]
      exact hmark
    · rcases hstate with h | ⟨rfl, h⟩
      · left
        show r.exec.parser.state.resumed.map _ = _
        rw [h]
        rfl
      · right
        refine ⟨rfl, rfl, ?_⟩
        show r.exec.parser.state.resumed.map _ = _
        rw [h]
        rfl
    · omega

end Execution

open Execution

variable {S : Settings σ}

/-- After an error nothing is read any more. -/
theorem executeAll_failed {p : Parser} (hp : p.http_errno ≠ none) (u : σ) (pieces : List Bytes) :
    executeAll S p u pieces = (p, u) := by
  induction pieces with
  | nil => rfl
  | cons data pieces ih =>
    have hfirst : execute S p u data = (p, u) := if_pos hp
    show executeAll S (execute S p u data).1 (execute S p u data).2 pieces = _
    rw [hfirst]
    exact ih

/-- The calls that are left, where one call has got to with the ones before. -/
theorem executeAll_resumed (hS : S.Additive) {pieces : List Bytes} (hne : pieces ≠ [])
    (hpieces : ∀ data ∈ pieces, data ≠ []) {r : Execution σ} (hr : r.Regular) {p : Parser}
    (hp : p.http_errno = none) {u : σ} (h : Resumed S r (start p u))
    (hexit : ¬(r.scan S pieces.flatten).Exits) :
    executeAll S p u pieces = (r.scan S pieces.flatten).finish S ∨
      (executeAll S p u pieces).1.http_errno ≠ none ∧ (r.scan S pieces.flatten).Fails := by
  induction pieces generalizing r p u with
  | nil => exact absurd rfl hne
  | cons data pieces ih =>
    have hscan := h.scan hS hr data
    have hreg := hr.scan S data
    rw [List.flatten_cons, scan_append] at hexit ⊢
    have hexit' : ¬(r.scan S data).Exits := by
      intro hexits
      rw [scan_stopped S hexits.1] at hexit
      exact hexit hexits
    have hfirst : execute S p u data = ((start p u).scan S data).finish S :=
      execute_eq S hp u (hpieces data List.mem_cons_self)
    show executeAll S (execute S p u data).1 (execute S p u data).2 pieces = _ ∨
      (executeAll S (execute S p u data).1 (execute S p u data).2 pieces).1.http_errno ≠ none ∧ _
    rw [hfirst]
    -- once a call has failed, the others do nothing
    have hfailed : ((start p u).scan S data).Fails → (r.scan S data).Fails →
        (executeAll S (((start p u).scan S data).finish S).1 (((start p u).scan S data).finish S).2
          pieces).1.http_errno ≠ none ∧ ((r.scan S data).scan S pieces.flatten).Fails := by
      intro hd hr
      refine ⟨?_, hr.scan S _⟩
      rw [executeAll_failed (hd.finish S)]
      exact hd.finish S
    rcases hscan.finish hS hreg hexit' with heq | ⟨hd, hr'⟩
    · by_cases hnil : pieces = []
      · subst hnil
        exact Or.inl heq
      · by_cases herr : ((r.scan S data).finish S).1.http_errno = none
        · have hgoing : (r.scan S data).stopped = false := by
            by_contra hstop
            have hstop : (r.scan S data).stopped = true := by simpa using hstop
            refine hexit' ⟨hstop, ?_⟩
            rwa [Execution.finish, if_pos hstop] at herr
          rw [heq]
          exact ih hnil (fun d hd => hpieces d (List.mem_cons_of_mem data hd)) hreg herr
            (resumed_start hreg hgoing herr) hexit
        · have hr' := hreg.fails_of_finish S herr
          rw [heq, executeAll_failed herr]
          exact Or.inr ⟨herr, hr'.scan S _⟩
    · exact Or.inr (hfailed hd hr')

/-- Calls with the pieces of some input, one after the other, leave the parser and its user exactly
where one call with the whole input leaves them, or both fail; the callbacks have to take data in
pieces, and the protocol must not change on the way. -/
theorem executeAll_flatten (hS : S.Additive) (u : σ) {pieces : List Bytes}
    (hpieces : ∀ data ∈ pieces, data ≠ [])
    (hexit : ¬((start .init u).scan S pieces.flatten).Exits) :
    executeAll S .init u pieces = execute S .init u pieces.flatten ∨
      (executeAll S .init u pieces).1.http_errno ≠ none ∧
        (execute S .init u pieces.flatten).1.http_errno ≠ none := by
  by_cases hnil : pieces = []
  · subst hnil
    exact Or.inl rfl
  have hflat : pieces.flatten ≠ [] := by
    obtain ⟨data, pieces', rfl⟩ := List.exists_cons_of_ne_nil hnil
    rw [List.flatten_cons]
    exact List.append_ne_nil_of_left_ne_nil (hpieces data List.mem_cons_self) _
  rw [execute_eq S rfl u hflat]
  refine (executeAll_resumed hS hnil hpieces (regular_start u) rfl (.same rfl) hexit).imp_right ?_
  rintro ⟨herr, hfails⟩
  exact ⟨herr, hfails.finish S⟩

/-! ## A user that takes data in pieces -/

/-- One call for two that report pieces of the same data. -/
def Event.join : Event → Event → Option Event
  | .url m a, .url m' b => if m' = m then some (.url m (a ++ b)) else none
  | .header_field a, .header_field b => some (.header_field (a ++ b))
  | .header_value a, .header_value b => some (.header_value (a ++ b))
  | .body a, .body b => some (.body (a ++ b))
  | _, _ => none

/-- The calls so far, the last one first, with data in pieces joined. -/
def transcribe (c : Event) : List Event → List Event
  | [] => [c]
  | c' :: cs => ((c'.join c).elim [c, c'] fun c'' => [c'']) ++ cs

def transcript : Settings (List Event) where
  on_url m data := transcribe (.url m data)
  on_header_field data := transcribe (.header_field data)
  on_header_value data := transcribe (.header_value data)
  on_headers_complete _ cs := (cs, 0)
  on_body data := transcribe (.body data)
  on_message_complete := transcribe .message_complete

theorem transcript_additive : transcript.Additive := by
  intro p m a b cs
  cases cs with
  | nil => cases m <;> simp [Mark.call, Settings.call, transcript, transcribe, Event.join]
  | cons c cs =>
    cases m with
    | url =>
      cases c with
      | url m' d =>
        simp only [Mark.call, Settings.call, transcript, transcribe, Event.join]
        by_cases hm : p.method = m'
        · simp [hm]
        · simp [hm]
      | header_field | header_value | body | message_complete =>
        simp [Mark.call, Settings.call, transcript, transcribe, Event.join]
    | header_field | header_value | body =>
      cases c <;> simp [Mark.call, Settings.call, transcript, transcribe, Event.join]

end Http
end SomoNet
