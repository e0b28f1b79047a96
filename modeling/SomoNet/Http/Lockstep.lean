import SomoNet.Http.Stale

/-!
# Two executions over the same bytes

Executions with different users, or with different things left over from the message before,
take the same steps and make the same calls until their users answer
`on_headers_complete` differently. `step_lockstep` is that, for one byte, with everything
`feed_does` and `feed_agree` say about it.
-/

namespace SomoNet
namespace Http

variable {σ τ : Type*}

/-- Where a mark is set, the method that is reported with the url is not left over. -/
theorem Exec.Agree.call_eq {e f : Exec} (h : e.Agree f) (he : e.Ok) {m : Mark} {data : Bytes}
    (hmark : e.mark = some (m, data)) : m.call f.parser data = m.call e.parser data := by
  have hallows := he.mark
  rw [hmark] at hallows
  have hparser := h.parser
  generalize f.parser = q at hparser
  cases hparser with
  | idle hpart =>
    revert hpart hallows
    cases e.parser.state <;> simp [State.part, State.allows, State.mark]
  | inside => cases m <;> rfl

namespace Execution

/-- What holds of an execution that goes on, when `n` bytes have been read since the count of
header bytes was no more than 0. -/
structure Ok (r : Execution σ) (n : ℕ) : Prop where
  going : r.stopped = false
  exec : r.exec.Ok
  size : r.exec.size ≤ n

/-- A byte after which the call goes on. -/
theorem Ok.step_next {r : Execution σ} {n : ℕ} (h : r.Ok n) (S : Settings σ) {ch : UInt8}
    {cs : List Event} {e : Exec} (hfeed : feed r.exec ch = .next cs e) :
    r.step S ch = ⟨e.consume ch, false, S.callAll r.user cs⟩ ∧ (r.step S ch).Ok (n + 1) := by
  have hstep : r.step S ch = ⟨e.consume ch, false, S.callAll r.user cs⟩ := by
    simp [step, h.going, hfeed]
  have hdoes := feed_does h.exec ch
  rw [hfeed] at hdoes
  obtain ⟨hok, -, hle⟩ := hdoes
  rw [hstep]
  exact ⟨rfl, rfl, hok, hle.trans (Nat.succ_le_succ h.size)⟩

/-- A byte with which the call returns. -/
theorem Ok.step_stop {r : Execution σ} {n : ℕ} (h : r.Ok n) (S : Settings σ) {ch : UInt8}
    {cs : List Event} {p : Parser} (hfeed : feed r.exec ch = .stop cs p) :
    r.step S ch = ⟨{ r.exec with parser := p }, true, S.callAll r.user cs⟩ := by
  simp [step, h.going, hfeed]

theorem start_ok (u : σ) (n : ℕ) : (start .init u : Execution σ).Ok n where
  going := rfl
  exec := ⟨⟨fun _ => rfl, fun _ => rfl, rfl, by simp [start, Parser.init]⟩, rfl⟩
  size := Nat.zero_le n

/-- What `headers` does, by the answer of the user. -/
inductive Headers (S : Settings σ) (e : Exec) (u : σ) (n : ℕ) (r : Execution σ) : Prop
  | failed (hstop : r.stopped = true) (herr : r.exec.parser.http_errno ≠ none)
      (huser : r.user = (S.on_headers_complete e.parser u).1)
  | body (hok : r.Ok n) (hpart : r.exec.part = .body)
      (huser : r.user = (S.on_headers_complete e.parser u).1)
  | complete (herr : r.exec.parser.http_errno = none) (hpart : r.exec.part = .idle)
      (hok : r.stopped = false → r.Ok n)
      (huser : r.user = S.on_message_complete (S.on_headers_complete e.parser u).1)

theorem Headers.ok {S : Settings σ} {e : Exec} {u : σ} {n : ℕ} {r : Execution σ}
    (h : Headers S e u n r) : r.stopped = true ∨ r.Ok n := by
  cases h with
  | failed hstop _ _ => exact Or.inl hstop
  | body hok _ _ => exact Or.inr hok
  | complete _ _ hok _ =>
    cases hstop : r.stopped with
    | true => exact Or.inl rfl
    | false => exact Or.inr (hok hstop)

theorem headers_headers (S : Settings σ) {e : Exec} (herr : e.parser.http_errno = none)
    (hmark : e.mark = none) {n : ℕ} (hsize : e.size ≤ n) (u : σ) :
    Headers S e u n (headers S e u LF) := by
  have hx := headers_complete_does (S.on_headers_complete e.parser u).2 herr
  -- what the answer does to the parser, with the byte consumed
  have hok : ∀ q : Parser, q.Ok → q.state.allows none = true → q.nread = 0 →
      (Exec.consume { e with parser := q } LF).Ok ∧
        (Exec.consume { e with parser := q } LF).size ≤ n := by
    intro q hq hm hn
    refine ⟨.consume hq (by rw [hmark]; exact hm) LF, ?_⟩
    have : e.parser.nread + (e.run - 1) ≤ n := hsize
    show q.nread + (e.run - 1) ≤ n
    omega
  cases hx with
  | failed hcomplete hstop herr =>
    refine .failed hstop herr ?_
    simp only [headers, Ending.calls, hcomplete]
    rfl
  | body hcomplete hstop hq hpart hm hn =>
    obtain ⟨hexec, hsize⟩ := hok _ hq hm hn
    refine .body ⟨hstop, hexec, hsize⟩ hpart ?_
    simp only [headers, Ending.calls, hcomplete]
    rfl
  | complete hcomplete herr hpart hm hn hq =>
    refine .complete herr hpart (fun hstop => ?_) ?_
    · obtain ⟨hexec, hsize⟩ := hok _ (hq hstop) hm hn
      exact ⟨hstop, hexec, hsize⟩
    · simp only [headers, Ending.calls, hcomplete]
      rfl

/-- One byte in two executions that agree. -/
inductive Lockstep (S : Settings σ) (T : Settings τ) (n : ℕ) (r r' : Execution σ)
    (d d' : Execution τ) : Prop
  /-- Both go on, with the same calls. -/
  | moved {cs : List Event}
      (hmove : Move r.exec.part r.exec.opened cs r'.exec.part r'.exec.opened)
      (hok : r'.Ok n) (hok' : d'.Ok n) (hagree : r'.exec.Agree d'.exec)
      (hr : r'.user = S.callAll r.user cs) (hd : d'.user = T.callAll d.user cs)
  /-- Both stop on an error. -/
  | failed {cs : List Event} (hcs : cs = [] ∨ r.exec.part = .value ∧ ∃ d, cs = [.header_value d])
      (hstop : r'.stopped = true) (hstop' : d'.stopped = true)
      (herr : r'.exec.parser.http_errno ≠ none) (herr' : d'.exec.parser.http_errno ≠ none)
      (hr : r'.user = S.callAll r.user cs) (hd : d'.user = T.callAll d.user cs)
  /-- Both complete the message and stop, because the protocol changes. -/
  | exited {cs : List Event} (hreports : Reports r.exec.part cs) (hopened : r.exec.opened = true)
      (hstop : r'.stopped = true) (hstop' : d'.stopped = true)
      (herr : r'.exec.parser.http_errno = none) (herr' : d'.exec.parser.http_errno = none)
      (hr : r'.user = S.callAll r.user (cs ++ [.message_complete]))
      (hd : d'.user = T.callAll d.user (cs ++ [.message_complete]))
  /-- Both complete the headers, and the users decide. -/
  | asked {cs : List Event} {e f : Exec} (hreports : Reports r.exec.part cs)
      (hopened : r.exec.opened = false) (hs : e.parser.state = .s_headers_done)
      (hmark : e.mark = none) (hagree : e.Agree f) (herr : e.parser.http_errno = none)
      (hheaders : Headers S e (S.callAll r.user cs) n r')
      (hheaders' : Headers T f (T.callAll d.user cs) n d')
      (hr : r' = headers S e (S.callAll r.user cs) LF)
      (hd : d' = headers T f (T.callAll d.user cs) LF)

theorem step_lockstep (S : Settings σ) (T : Settings τ) {n : ℕ} {r : Execution σ}
    {d : Execution τ} (hr : r.Ok n) (hd : d.Ok n) (hagree : r.exec.Agree d.exec)
    (hn : n < max_header_size) (ch : UInt8) :
    Lockstep S T (n + 1) r (r.step S ch) d (d.step T ch) := by
  have hdoes := feed_does hr.exec ch
  have hdoes' := feed_does hd.exec ch
  have hfeed := feed_agree hr.exec hagree (lt_of_le_of_lt hr.size hn) ch
  have hsize : r.exec.size + 1 ≤ n + 1 := Nat.succ_le_succ hr.size
  have hsize' : d.exec.size + 1 ≤ n + 1 := Nat.succ_le_succ hd.size
  have hrgoing : ¬ r.stopped = true := by rw [hr.going]; decide
  have hdgoing : ¬ d.stopped = true := by rw [hd.going]; decide
  unfold step
  rw [if_neg hrgoing, if_neg hdgoing]
  generalize feed r.exec ch = s at hdoes hfeed ⊢
  generalize feed d.exec ch = t at hdoes' hfeed ⊢
  cases s <;> cases t <;> first | exact hfeed.elim | skip
  -- both go on
  case next.next cs e cs' f =>
    obtain ⟨rfl, hef⟩ := hfeed
    obtain ⟨hok, hmove, hle⟩ := hdoes
    obtain ⟨hok', -, hle'⟩ := hdoes'
    refine .moved hmove ⟨rfl, hok, hle.trans hsize⟩ ⟨rfl, hok', hle'.trans hsize'⟩ ?_ rfl rfl
    exact ⟨hef.parser, by simp [Exec.consume, hef.mark], hef.run, hef.general⟩
  -- both stop, on an error or for a change of the protocol
  case stop.stop cs p cs' q =>
    obtain ⟨rfl, herr⟩ := hfeed
    rcases hdoes with ⟨v, rfl, hpart, hne⟩ | ⟨rfl, hne⟩ | ⟨cs', rfl, hreports, hopened, hnone⟩
    · exact .failed (Or.inr ⟨hpart, v, rfl⟩) rfl rfl hne (herr ▸ hne) rfl rfl
    · exact .failed (Or.inl rfl) rfl rfl hne (herr ▸ hne) rfl rfl
    · exact .exited hreports hopened rfl rfl hnone (herr.trans hnone) rfl rfl
  -- both ask their users
  case ask.ask cs e cs' f =>
    obtain ⟨rfl, hef⟩ := hfeed
    obtain ⟨hreports, hopened, rfl, hs, -, herr, hmark, hle⟩ := hdoes
    obtain ⟨-, -, -, -, -, herr', hmark', hle'⟩ := hdoes'
    exact .asked hreports hopened hs hmark hef herr
      (headers_headers S herr hmark (hle.trans hsize) _)
      (headers_headers T herr' hmark' (hle'.trans hsize') _) rfl rfl

/-- The same answer keeps the executions together. -/
theorem headers_agree (S : Settings σ) (T : Settings τ) {e f : Exec} (hef : e.Agree f)
    (hs : e.parser.state = .s_headers_done) (u : σ) (v : τ)
    (hanswer : (T.on_headers_complete f.parser v).2 = (S.on_headers_complete e.parser u).2) :
    (headers T f v LF).stopped = (headers S e u LF).stopped ∧
      (headers S e u LF).exec.Agree (headers T f v LF).exec ∧
      ∃ cs : List Event, (headers S e u LF).user = S.callAll (S.on_headers_complete e.parser u).1 cs ∧
        (headers T f v LF).user = T.callAll (T.on_headers_complete f.parser v).1 cs := by
  have hx : (headers_complete (S.on_headers_complete e.parser u).2 e.parser LF).Agree
      (headers_complete (S.on_headers_complete e.parser u).2 f.parser LF) := by
    have hparser := hef.parser
    -- the version decides whether the connection goes on
    generalize f.parser = q at hparser
    cases hparser with
    | idle hpart =>
      rw [hs] at hpart
      cases hpart
    | inside hlive hn =>
      obtain ⟨rfl, rfl⟩ := hlive.eq_version (by rw [hs]; rfl)
      exact headers_complete_agree _ hs hn
  obtain ⟨hparser, hcomplete, hstop⟩ := hx
  refine ⟨?_, ⟨?_, ?_, hef.run, hef.general⟩, _, rfl, ?_⟩
  · simp only [headers, hanswer]
    exact hstop
  · simp only [headers, hanswer]
    exact hparser
  · simp [headers, Exec.consume, hef.mark]
  · simp only [headers, hanswer, Ending.calls, hcomplete]

/-! ## The same user

Executions that differ in what is left over, and not in their users, stay together. -/

/-- Together, or both over. -/
def Together (n : ℕ) (r d : Execution σ) : Prop :=
  d.user = r.user ∧
    (r.stopped = true ∧ d.stopped = true ∨ r.Ok n ∧ d.Ok n ∧ r.exec.Agree d.exec)

/-- A user that does not look at the parser when the headers are complete. -/
def Oblivious (S : Settings σ) : Prop :=
  ∀ p q u, S.on_headers_complete p u = S.on_headers_complete q u

theorem step_together {S : Settings σ} (hS : Oblivious S) {n : ℕ} {r d : Execution σ}
    (h : Together n r d) (hn : n < max_header_size) (ch : UInt8) :
    Together (n + 1) (r.step S ch) (d.step S ch) := by
  obtain ⟨huser, ⟨hr, hd⟩ | ⟨hr, hd, hagree⟩⟩ := h
  · rw [step_stopped S hr, step_stopped S hd]
    exact ⟨huser, Or.inl ⟨hr, hd⟩⟩
  cases step_lockstep S S hr hd hagree hn ch with
  | moved _ hok hok' hagree' hu hv => exact ⟨by rw [hu, hv, huser], Or.inr ⟨hok, hok', hagree'⟩⟩
  | failed _ hstop hstop' _ _ hu hv => exact ⟨by rw [hu, hv, huser], Or.inl ⟨hstop, hstop'⟩⟩
  | exited _ _ hstop hstop' _ _ hu hv => exact ⟨by rw [hu, hv, huser], Or.inl ⟨hstop, hstop'⟩⟩
  | @asked cs e f _ _ hs _ hef _ hheaders hheaders' hu hv =>
    have hsame : S.on_headers_complete f.parser (S.callAll d.user cs) =
        S.on_headers_complete e.parser (S.callAll r.user cs) := by rw [huser]; exact hS _ _ _
    obtain ⟨hstop, hagree', cs', hu', hv'⟩ :=
      headers_agree S S hef hs (S.callAll r.user cs) (S.callAll d.user cs) (by rw [hsame])
    rw [← hu, ← hv] at hstop hagree'
    refine ⟨by rw [hu, hv, hu', hv', hsame], ?_⟩
    rcases hheaders.ok with h | hok
    · exact Or.inl ⟨h, hstop.trans h⟩
    · have hgoing : (d.step S ch).stopped = false := hstop.trans hok.going
      exact Or.inr ⟨hok, hheaders'.ok.resolve_left (by simp [hgoing]), hagree'⟩

theorem scan_together {S : Settings σ} (hS : Oblivious S) (data : Bytes) {n : ℕ}
    {r d : Execution σ} (h : Together n r d) (hn : n + data.length ≤ max_header_size) :
    Together (n + data.length) (r.scan S data) (d.scan S data) := by
  induction data generalizing n r d with
  | nil => exact h
  | cons ch data ih =>
    rw [List.length_cons] at hn ⊢
    have := ih (step_together hS h (by omega) ch) (by omega)
    rwa [show n + (data.length + 1) = n + 1 + data.length by omega]

/-- What is left in the marks is reported alike. -/
theorem finish_together {S : Settings σ} {n : ℕ} {r d : Execution σ} (h : Together n r d)
    (hn : n ≤ max_header_size) : (d.finish S).2 = (r.finish S).2 := by
  obtain ⟨huser, ⟨hr, hd⟩ | ⟨hr, hd, hagree⟩⟩ := h
  · simp [finish, hr, hd, huser]
  · have hover : ∀ e : Exec, e.size ≤ n →
        ¬(e.run > 0 ∧ e.parser.nread + (e.run - 1) > max_header_size) := by
      intro e he h
      have : e.parser.nread + (e.run - 1) ≤ n := he
      omega
    simp only [finish, hr.going, hd.going, Bool.false_eq_true, if_false]
    rw [if_neg (hover _ hr.size), if_neg (hover _ hd.size)]
    simp only [huser, hagree.mark]
    cases hmark : r.exec.mark with
    | none => rfl
    | some md =>
      obtain ⟨m, data⟩ := md
      simp only [Option.toList_some, List.map_cons, List.map_nil]
      rw [hagree.call_eq hr.exec hmark]

end Execution

end Http
end SomoNet
