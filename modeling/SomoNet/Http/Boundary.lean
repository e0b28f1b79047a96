import SomoNet.Http.Lockstep

/-!
# Between two messages

Where the parser waits for a message it is as good as new: no mark is set, no loop over a
field or a value is under way, and what is left over from the messages before does not matter
(`Execution.Ok.agree_start`). So whatever has been parsed, the next message is read as the
first one of a fresh parser is.
-/

namespace SomoNet
namespace Http

variable {σ τ : Type*}

/-! ## The loops over fields and values -/

/-- A loop is under way only in a field or in a value. -/
structure Exec.Loops (e : Exec) : Prop where
  run : e.parser.state ≠ .s_header_field → e.parser.state ≠ .s_header_value → e.run = 0
  general : e.parser.state ≠ .s_header_value → e.general = 0

/-- What the loops have counted after a byte. -/
def Step.Counted (a b : ℕ) : Step → Prop
  | .next _ e | .ask _ e => e.run = a ∧ e.general = b
  | .stop _ _ => True

namespace Step

variable {a b : ℕ}

theorem counted_fail (e : Exec) (err : Errno) : (e.fail err).Counted a b := trivial

theorem counted_lift {e : Exec} (x : Except Errno Parser) (h : e.run = a ∧ e.general = b) :
    (e.lift x).Counted a b := by
  cases x with
  | ok p => exact h
  | error err => exact counted_fail e err

theorem counted_ending {e : Exec} (x : Ending) (h : e.run = a ∧ e.general = b) :
    (e.ending x).Counted a b := by
  unfold Exec.ending
  split
  · exact trivial
  · exact h

theorem Counted.after {s : Step} (h : s.Counted a b) (cs : List Event) :
    (s.after cs).Counted a b := by
  cases s with
  | next | ask => exact h
  | stop => exact trivial

end Step

theorem Exec.setMark_counters (e : Exec) (m : Mark) :
    (e.setMark m).run = e.run ∧ (e.setMark m).general = e.general := by
  unfold Exec.setMark
  split
  · exact ⟨rfl, rfl⟩
  · exact ⟨rfl, rfl⟩

section

variable {e : Exec} {a b : ℕ} (h : e.run = a ∧ e.general = b) (ch : UInt8)
include h

theorem headers_almost_done_counted : (headers_almost_done e ch).Counted a b := by
  simp only [headers_almost_done]
  split_ifs
  · exact Step.counted_fail _ _
  · exact Step.counted_ending _ h
  · exact Step.counted_fail _ _
  · exact h

theorem header_field_start_counted : (header_field_start e ch).Counted a b := by
  unfold header_field_start
  split_ifs
  · exact h
  · exact headers_almost_done_counted (by exact h) ch
  · exact Step.counted_fail _ _
  · obtain ⟨hrun, hgeneral⟩ := e.setMark_counters .header_field
    exact ⟨hrun.trans h.1, hgeneral.trans h.2⟩

theorem header_value_start_counted : (header_value_start e ch).Counted a b := by
  obtain ⟨hrun, hgeneral⟩ := e.setMark_counters .header_value
  exact Step.counted_lift _ ⟨hrun.trans h.1, hgeneral.trans h.2⟩

theorem req_spaces_before_url_counted : (req_spaces_before_url e ch).Counted a b := by
  unfold req_spaces_before_url
  split
  · exact h
  · obtain ⟨hrun, hgeneral⟩ := e.setMark_counters .url
    exact Step.counted_lift _ ⟨hrun.trans h.1, hgeneral.trans h.2⟩

theorem req_schema_counted : (req_schema e ch).Counted a b := by
  unfold req_schema
  split
  · exact Step.counted_fail _ _
  · exact Step.counted_lift _ h

theorem req_url_counted : (req_url e ch).Counted a b := by
  unfold req_url
  split
  · exact h
  split
  · exact h
  · exact Step.counted_lift _ h

theorem header_value_discard_ws_counted : (header_value_discard_ws e ch).Counted a b := by
  unfold header_value_discard_ws
  split_ifs
  · exact h
  · exact h
  · exact h
  · exact header_value_start_counted h ch

theorem header_value_lws_counted : (header_value_lws e ch).Counted a b := by
  simp only [header_value_lws]
  split
  · exact header_value_start_counted (by exact h) ch
  · exact header_field_start_counted (by exact h) ch

theorem header_value_discard_lws_counted : (header_value_discard_lws e ch).Counted a b := by
  simp only [header_value_discard_lws]
  split_ifs
  · exact h
  · exact Step.counted_fail _ _
  · obtain ⟨hrun, hgeneral⟩ := e.setMark_counters .header_value
    have hset : (e.setMark .header_value).run = a ∧ (e.setMark .header_value).general = b :=
      ⟨hrun.trans h.1, hgeneral.trans h.2⟩
    exact (header_field_start_counted (by exact hset) ch).after _

theorem chunk_data_counted : (chunk_data e).Counted a b := by
  obtain ⟨hrun, hgeneral⟩ := e.setMark_counters .body
  simp only [chunk_data]
  split
  · exact ⟨hrun.trans h.1, hgeneral.trans h.2⟩
  · exact ⟨hrun.trans h.1, hgeneral.trans h.2⟩

theorem chunk_data_almost_done_counted : (chunk_data_almost_done e ch).Counted a b := by
  unfold chunk_data_almost_done
  split
  · exact Step.counted_fail _ _
  · exact h

theorem body_identity_counted : (body_identity e ch).Counted a b := by
  obtain ⟨hrun, hgeneral⟩ := e.setMark_counters .body
  have hset : (e.setMark .body).run = a ∧ (e.setMark .body).general = b :=
    ⟨hrun.trans h.1, hgeneral.trans h.2⟩
  simp only [body_identity]
  split
  · exact (Step.counted_ending _ (by exact hset)).after _
  · exact hset

theorem body_identity_eof_counted : (body_identity_eof e).Counted a b := by
  obtain ⟨hrun, hgeneral⟩ := e.setMark_counters .body
  exact ⟨hrun.trans h.1, hgeneral.trans h.2⟩

/-- The other arms leave the counters of the loops as they are. -/
theorem dispatch_counted (hfield : e.parser.state ≠ .s_header_field)
    (hvalue : e.parser.state ≠ .s_header_value) : (dispatch e ch).Counted a b := by
  cases hs : e.parser.state <;> simp only [dispatch, hs]
  all_goals first
    | exact absurd hs hfield
    | exact absurd hs hvalue
    | exact Step.counted_lift _ h
    | exact Step.counted_ending _ h
    | skip
  case s_req_spaces_before_url => exact req_spaces_before_url_counted h ch
  case s_req_schema | s_req_schema_slash | s_req_schema_slash_slash | s_req_server_start =>
    exact req_schema_counted h ch
  case s_req_server | s_req_server_with_at | s_req_path | s_req_query_string_start |
      s_req_query_string | s_req_fragment_start | s_req_fragment =>
    exact req_url_counted h ch
  case s_header_field_start => exact header_field_start_counted h ch
  case s_header_value_discard_ws => exact header_value_discard_ws_counted h ch
  case s_header_value_discard_lws => exact header_value_discard_lws_counted h ch
  case s_header_value_start => exact header_value_start_counted h ch
  case s_header_value_lws => exact header_value_lws_counted h ch
  case s_headers_almost_done => exact headers_almost_done_counted h ch
  case s_chunk_data => exact chunk_data_counted h
  case s_chunk_data_almost_done => exact chunk_data_almost_done_counted h ch
  case s_body_identity => exact body_identity_counted h ch
  case s_body_identity_eof => exact body_identity_eof_counted h

end

/-- What holds of the loops after a byte. -/
def Step.Loops : Step → Prop
  | .next _ e => e.Loops
  | .ask _ e => e.run = 0 ∧ e.general = 0
  | .stop _ _ => True

/-- Where no loop is under way, any state may follow. -/
theorem Step.Counted.loops {s : Step} (h : s.Counted 0 0) : s.Loops := by
  cases s with
  | next cs e => exact ⟨fun _ _ => h.1, fun _ => h.2⟩
  | ask cs e => exact h
  | stop => exact trivial

theorem header_field_loops {e : Exec} (he : e.Loops) (hs : e.parser.state = .s_header_field)
    (ch : UInt8) : (header_field e ch).Loops := by
  have hgeneral : e.general = 0 := he.general (by rw [hs]; decide)
  simp only [header_field]
  split_ifs
  · have hstate := (header_field_char_frame e.parser ch).1
    refine ⟨fun hfield _ => absurd (hstate.trans hs) hfield, fun _ => hgeneral⟩
  · exact trivial
  · exact ⟨fun _ _ => rfl, fun _ => hgeneral⟩
  · exact trivial

theorem header_value_loops {e : Exec} (hs : e.parser.state = .s_header_value) (ch : UInt8) :
    (header_value e ch).Loops := by
  -- inside a value the loop may have counted anything
  have hvalue : ∀ f : Exec, f.parser.state = .s_header_value → f.Loops := fun f hf =>
    ⟨fun _ hne => absurd hf hne, fun hne => absurd hf hne⟩
  simp only [header_value]
  split
  · exact hvalue _ hs
  split
  · split
    · exact trivial
    · exact ⟨fun _ _ => rfl, fun _ => rfl⟩
  split
  · split
    · exact trivial
    · exact ((Step.counted_lift _ ⟨rfl, rfl⟩).after _).loops
  split
  · exact trivial
  · unfold Exec.lift
    cases hchar : header_value_char e.parser ch with
    | error => exact trivial
    | ok q => exact hvalue _ ((header_value_char_frame hchar).1.trans hs)

theorem dispatch_loops {e : Exec} (he : e.Loops) (ch : UInt8) : (dispatch e ch).Loops := by
  by_cases hfield : e.parser.state = .s_header_field
  · simp only [dispatch, hfield]
    exact header_field_loops he hfield ch
  by_cases hvalue : e.parser.state = .s_header_value
  · simp only [dispatch, hvalue]
    exact header_value_loops hvalue ch
  -- elsewhere no loop is under way, and none begins
  have hzero : e.run = 0 ∧ e.general = 0 := ⟨he.run hfield hvalue, he.general hvalue⟩
  exact (dispatch_counted hzero ch hfield hvalue).loops

theorem feed_loops {e : Exec} (he : e.Loops) (ch : UInt8) : (feed e ch).Loops := by
  have hcounted : Exec.Loops { e with parser := { e.parser with nread := e.parser.nread + 1 } } :=
    ⟨he.run, he.general⟩
  unfold feed
  split
  · split
    · exact trivial
    · exact dispatch_loops hcounted ch
  · exact dispatch_loops he ch

namespace Execution

/-- An execution that goes on, with the loops as they should be. -/
theorem step_loops (S : Settings σ) {r : Execution σ} (h : r.stopped = false → r.exec.Loops)
    (ch : UInt8) : (r.step S ch).stopped = false → (r.step S ch).exec.Loops := by
  intro hgoing
  have hrgoing : r.stopped = false := by
    cases hstop : r.stopped with
    | false => rfl
    | true => rwa [step_stopped S hstop, hstop] at hgoing
  have hfeed := feed_loops (h hrgoing) ch
  have hnot : ¬r.stopped = true := by rw [hrgoing]; decide
  unfold step at hgoing ⊢
  rw [if_neg hnot] at hgoing ⊢
  cases hs : feed r.exec ch with
  | next cs e =>
    rw [hs] at hfeed
    exact ⟨hfeed.run, hfeed.general⟩
  | stop cs p =>
    rw [hs] at hgoing
    cases hgoing
  | ask cs e =>
    rw [hs] at hfeed
    exact ⟨fun _ _ => hfeed.1, fun _ => hfeed.2⟩

theorem scan_loops (S : Settings σ) (data : Bytes) {r : Execution σ}
    (h : r.stopped = false → r.exec.Loops) :
    (r.scan S data).stopped = false → (r.scan S data).exec.Loops := by
  induction data generalizing r with
  | nil => exact h
  | cons ch data ih =>
    rw [scan_cons]
    exact ih (step_loops S h ch)

/-! ## Up to the next message -/

theorem scan_ok (S : Settings σ) (data : Bytes) {n : ℕ} {r : Execution σ} (h : r.Ok n)
    (hn : n + data.length ≤ max_header_size) :
    (r.scan S data).stopped = true ∨ (r.scan S data).Ok (n + data.length) := by
  induction data generalizing n r with
  | nil => exact Or.inr h
  | cons ch data ih =>
    rw [List.length_cons] at hn ⊢
    rw [scan_cons, show n + (data.length + 1) = n + 1 + data.length by omega]
    -- an execution is in lockstep with itself
    have hstep : (r.step S ch).stopped = true ∨ (r.step S ch).Ok (n + 1) := by
      cases step_lockstep S S h h (.refl _) (by omega) ch with
      | moved _ hok => exact Or.inr hok
      | failed _ hstop => exact Or.inl hstop
      | exited _ _ hstop => exact Or.inl hstop
      | asked _ _ _ _ _ _ hheaders => exact hheaders.ok
    rcases hstep with hstop | hok
    · rw [scan_stopped S hstop]
      exact Or.inl hstop
    · exact ih hok (by omega)

/-- Where a message is awaited, what has been read before makes no difference. -/
theorem Ok.agree_start {r : Execution σ} {n : ℕ} (h : r.Ok n) (hloops : r.exec.Loops)
    (hstate : r.exec.parser.state = .s_start_req) (v : τ) :
    r.exec.Agree (start .init v).exec := by
  have hmark : r.exec.mark = none := h.exec.mark_none (by rw [hstate]; rfl) (by rw [hstate]; rfl)
  have hrun : r.exec.run = 0 := hloops.run (by rw [hstate]; decide) (by rw [hstate]; decide)
  have hgeneral : r.exec.general = 0 := hloops.general (by rw [hstate]; decide)
  refine ⟨.idle (by rw [hstate]; rfl) hstate.symm ?_ ?_ (Nat.zero_le _), ?_, hrun.symm, hgeneral.symm⟩
  · exact (h.exec.parser.upgrade hstate).symm
  · exact h.exec.parser.errno.symm
  · exact hmark.symm

end Execution

end Http
end SomoNet
