import SomoNet.Http.HeaderLines

/-!
# Bodies

What the parser does with a body, of a length that it has been told or in chunks. A body of a
given length is reported at once, and chunks one by one.
-/

namespace SomoNet
namespace Http

variable {σ : Type*} {S : Settings σ} {p : Parser} {u : σ}

/-! ## Data -/

/-- The mark over the data of a body. -/
def held (d : Bytes) : Option (Mark × Bytes) := if d = [] then none else some (.body, d)

theorem held_ne {d : Bytes} (h : d ≠ []) : held d = some (.body, d) := if_neg h

theorem held_concat (d : Bytes) (ch : UInt8) : held (d ++ [ch]) = some (.body, d ++ [ch]) :=
  held_ne (by simp)

/-- A byte of a body goes to the mark. -/
theorem setMark_held (q : Parser) (d : Bytes) (ch : UInt8) :
    (Exec.setMark ⟨q, held d, 0, 0⟩ .body).consume ch = ⟨q, held (d ++ [ch]), 0, 0⟩ := by
  rw [held_concat]
  by_cases hd : d = []
  · subst hd
    rfl
  · rw [held_ne hd]
    rfl

theorem setMark_calls (q : Parser) (d : Bytes) (ch : UInt8) :
    ((Exec.setMark ⟨q, held d, 0, 0⟩ .body).consume ch).calls .body = [.body (d ++ [ch])] := by
  rw [setMark_held, held_concat]
  rfl

theorem feed_chunk_data {e : Exec} (hs : e.parser.state = .s_chunk_data) (ch : UInt8) :
    feed e ch = chunk_data e := by
  unfold feed
  rw [if_neg (by simp [hs, State.parsingHeader])]
  simp only [dispatch, hs]

theorem feed_identity {e : Exec} (hs : e.parser.state = .s_body_identity) (ch : UInt8) :
    feed e ch = body_identity e ch := by
  unfold feed
  rw [if_neg (by simp [hs, State.parsingHeader])]
  simp only [dispatch, hs]

/-- The bytes of a body before the last one. -/
theorem scan_data (hs : p.state = .s_chunk_data ∨ p.state = .s_body_identity) {data : Bytes}
    (hlt : data.length < p.content_length) :
    (Execution.between p u).scan S data =
      ⟨⟨{ p with content_length := p.content_length - data.length }, held data, 0, 0⟩, false, u⟩ := by
  induction data using List.reverseRecOn with
  | nil => rfl
  | append_singleton data ch ih =>
    rw [List.length_append, List.length_singleton] at hlt ⊢
    rw [Execution.scan_append, ih (by omega), Execution.scan_cons, Execution.scan_nil]
    let q : Parser := { p with content_length := p.content_length - data.length }
    let e : Exec := ⟨q, held data, 0, 0⟩
    have hmark : (e.setMark .body).parser = q := Exec.setMark_parser e .body
    have hmore : ¬q.content_length - 1 = 0 := by
      show ¬p.content_length - data.length - 1 = 0
      omega
    have hfeed : feed e ch = .next [] { e.setMark .body with
        parser := { q with content_length := q.content_length - 1 } } := by
      rcases hs with hs | hs
      · rw [feed_chunk_data (e := e) hs, chunk_data, hmark, if_neg hmore]
      · rw [feed_identity (e := e) hs, body_identity, hmark, if_neg hmore]
    unfold Execution.step
    rw [if_neg (by simp), hfeed]
    have hconsume : Exec.consume { e.setMark .body with
        parser := { q with content_length := q.content_length - 1 } } ch =
        { (e.setMark .body).consume ch with
          parser := { q with content_length := q.content_length - 1 } } := rfl
    show (⟨Exec.consume _ ch, false, u⟩ : Execution σ) = _
    rw [hconsume, setMark_held q data ch, ← Nat.sub_sub]

/-- A message has ended, and the user has been told so. -/
structure Completed (r : Execution σ) (p : Parser) (u : σ) : Prop where
  user : r.user = u
  going : p.upgrade = false → r = Execution.between { p with state := p.new_message } u
  stopped : p.upgrade = true → r.stopped = true

/-- A body of a given length. -/
theorem scan_identity (hs : p.state = .s_body_identity) {data : Bytes} (hne : data ≠ [])
    (hlength : p.content_length = data.length) :
    Completed ((Execution.between p u).scan S data) { p with content_length := 0 }
      (S.callAll u [.body data, .message_complete]) := by
  -- the last byte ends the message, those before it are only marked
  obtain ⟨data, ch, rfl⟩ : ∃ d ch, data = d ++ [ch] :=
    ⟨_, _, (List.dropLast_append_getLast hne).symm⟩
  rw [List.length_append, List.length_singleton] at hlength
  rw [Execution.scan_append, scan_data (Or.inr hs) (by omega), Execution.scan_cons,
    Execution.scan_nil, show p.content_length - data.length = 1 by omega]
  let e : Exec := ⟨{ p with content_length := 1 }, held data, 0, 0⟩
  have hmark : (e.setMark .body).parser = { p with content_length := 1 } :=
    Exec.setMark_parser e .body
  have hfeed : feed e ch =
      ((e.setMark .body).clearMark.ending (message_done { p with content_length := 0 })).after
        [.body (data ++ [ch])] := by
    rw [feed_identity (e := e) hs, body_identity, setMark_calls, hmark]
    rfl
  -- the mark is gone once the body is reported
  have hmarked : ∀ q : Parser, Exec.consume { (e.setMark .body).clearMark with parser := q } ch =
      ⟨q, none, 0, 0⟩ := by
    intro q
    unfold Exec.setMark
    split <;> rfl
  show Completed (Execution.step S ⟨e, false, u⟩ ch) _ _
  unfold Execution.step
  rw [if_neg (by simp), hfeed]
  simp only [Exec.ending, message_done, Parser.complete]
  cases hup : p.upgrade with
  | true => exact ⟨rfl, fun h => (by cases h), fun _ => rfl⟩
  | false =>
    refine ⟨rfl, fun _ => ?_, fun h => by cases h⟩
    show (⟨Exec.consume _ ch, false, _⟩ : Execution σ) = _
    rw [hmarked]
    rfl

/-! ## Chunks -/

theorem unhex_eq : ∀ {ch}, Numerals.isDigit 16 ch = true →
    unhex ch = some (Numerals.digitVal ch) ∧ ch ≠ CR :=
  @(forall_byte (by decide +kernel))

/-- The line with the size of a chunk. -/
structure SizeLine (size : ℕ) where
  digits : Bytes
  params : Bytes
  digits_ne : digits ≠ []
  hex : ∀ ch ∈ digits, Numerals.isDigit 16 ch = true
  worth : Numerals.value 16 digits = size
  opens : ∀ ch ∈ params.head?, ch = chr ';' ∨ ch = SP
  inLine : ∀ ch ∈ params, ch ≠ CR

def SizeLine.text {size : ℕ} (l : SizeLine size) : Bytes := l.digits ++ (l.params ++ [CR, LF])

/-- The digits of a size, which has to be small enough to be kept. -/
theorem scan_digits (hs : p.state = .s_chunk_size_start) {digits : Bytes} (hne : digits ≠ [])
    (hhex : ∀ ch ∈ digits, Numerals.isDigit 16 ch = true)
    (hfits : Numerals.value 16 digits + 16 ≤ ULLONG_MAX)
    (hmax : p.nread + digits.length ≤ max_header_size) :
    (Execution.between p u).scan S digits = Execution.between { p with
      state := .s_chunk_size, content_length := Numerals.value 16 digits
      nread := p.nread + digits.length } u := by
  induction digits using List.reverseRecOn with
  | nil => exact absurd rfl hne
  | append_singleton digits ch ih =>
    obtain ⟨hch, hcr⟩ := unhex_eq (hhex ch (by simp))
    rw [List.length_append, List.length_singleton] at hmax ⊢
    rw [Numerals.value_concat] at hfits ⊢
    rw [Execution.scan_append, Execution.scan_cons, Execution.scan_nil]
    by_cases hnil : digits = []
    · subst hnil
      have hworth : 16 * Numerals.value 16 [] + Numerals.digitVal ch = Numerals.digitVal ch := by
        simp [Numerals.value]
      rw [hworth]
      refine step_ok S u (by rw [hs]; rfl) (by simpa using hmax) ?_
      simp only [dispatch, hs, show (p.count (p.nread + 1)).state = p.state from rfl,
        chunk_size_start, hch]
      rfl
    · rw [ih hnil (fun c hc => hhex c (List.mem_append_left _ hc)) (by omega) (by omega)]
      let q : Parser := { p with
        state := .s_chunk_size, content_length := Numerals.value 16 digits
        nread := p.nread + digits.length + 1 }
      -- a further digit, for which there is room
      have hsmall : ¬(ULLONG_MAX - 16) / 16 < q.content_length := by
        show ¬(ULLONG_MAX - 16) / 16 < Numerals.value 16 digits
        omega
      have hsize : chunk_size q ch =
          .ok { q with content_length := q.content_length * 16 + Numerals.digitVal ch } := by
        unfold chunk_size
        simp only [hch]
        rw [if_neg hcr, if_neg hsmall]
      rw [Nat.mul_comm]
      exact step_ok S u rfl (by show p.nread + digits.length + 1 ≤ _; omega)
        (congrArg (Exec.lift ⟨q, none, 0, 0⟩) hsize)

/-- The rest of the line with a size. -/
theorem scan_params (hs : p.state = .s_chunk_size) {params : Bytes}
    (hopens : ∀ ch ∈ params.head?, ch = chr ';' ∨ ch = SP) (hline : ∀ ch ∈ params, ch ≠ CR)
    (hmax : p.nread + params.length ≤ max_header_size) :
    (Execution.between p u).scan S params = Execution.between { p with
      state := if params = [] then .s_chunk_size else .s_chunk_parameters
      nread := p.nread + params.length } u := by
  induction params using List.reverseRecOn with
  | nil =>
    rw [Execution.scan_nil, if_pos rfl]
    obtain ⟨state, header_state, flags, index, nread, length, major, minor, method, err, up⟩ := p
    cases hs
    rfl
  | append_singleton params ch ih =>
    have hcr := hline ch (by simp)
    rw [List.length_append, List.length_singleton] at hmax ⊢
    rw [Execution.scan_append, Execution.scan_cons, Execution.scan_nil, if_neg (by simp)]
    by_cases hnil : params = []
    · subst hnil
      refine step_ok S u (by rw [hs]; rfl) (by simpa using hmax) ?_
      have hch : ch = chr ';' ∨ ch = SP := hopens ch rfl
      -- what opens the parameters is no digit, so the size ends
      have hhex : unhex ch = none := by
        rcases hch with rfl | rfl <;> decide
      simp only [dispatch, hs, show (p.count (p.nread + 1)).state = p.state from rfl, chunk_size,
        hhex]
      rw [if_neg hcr, if_pos hch]
      rfl
    · have hhead : ∀ c ∈ params.head?, c = chr ';' ∨ c = SP := by
        intro c hc
        apply hopens c
        rw [List.head?_append_of_ne_nil _ hnil]
        exact hc
      rw [ih hhead (fun c hc => hline c (List.mem_append_left _ hc)) (by omega), if_neg hnil]
      refine step_ok S u rfl (by show p.nread + params.length + 1 ≤ _; omega) ?_
      simp only [dispatch, Parser.count, chunk_parameters]
      rw [if_neg hcr]
      rfl

/-- The parser after the size of a chunk, the last of which has none. -/
def Parser.chunked (p : Parser) (size : ℕ) : Parser :=
  if size = 0 then { p with
    state := .s_header_field_start, content_length := 0, nread := 0
    flags := { p.flags with F_TRAILING := true } }
  else { p with state := .s_chunk_data, content_length := size, nread := 0 }

theorem scan_size (hs : p.state = .s_chunk_size_start) {size : ℕ} (l : SizeLine size)
    (hfits : size + 16 ≤ ULLONG_MAX) (hmax : p.nread + l.text.length ≤ max_header_size) :
    (Execution.between p u).scan S l.text = Execution.between (p.chunked size) u := by
  have hlength : l.text.length = l.digits.length + (l.params.length + 2) := by
    simp [SizeLine.text]
  have hworth := l.worth
  unfold SizeLine.text
  rw [Execution.scan_append, Execution.scan_append,
    scan_digits hs l.digits_ne l.hex (by omega) (by omega), hworth,
    scan_params rfl l.opens l.inLine (by show p.nread + _ + _ ≤ _; omega)]
  -- the end of the line
  have hcr : (Execution.between { p with
        state := if l.params = [] then .s_chunk_size else .s_chunk_parameters
        content_length := size
        nread := p.nread + l.digits.length + l.params.length } u).step S CR =
      Execution.between { p with
        state := .s_chunk_size_almost_done, content_length := size
        nread := p.nread + l.digits.length + l.params.length + 1 } u := by
    by_cases hparams : l.params = []
    · rw [if_pos hparams]
      exact step_ok S u rfl (by show p.nread + _ + _ + 1 ≤ _; omega) rfl
    · rw [if_neg hparams]
      exact step_ok S u rfl (by show p.nread + _ + _ + 1 ≤ _; omega) rfl
  rw [Execution.scan_cons, Execution.scan_cons, Execution.scan_nil, hcr]
  let q : Parser := { p with
    state := .s_chunk_size_almost_done, content_length := size
    nread := p.nread + l.digits.length + l.params.length + 1 + 1 }
  have hdone : chunk_size_almost_done q LF = .ok (p.chunked size) := by
    unfold chunk_size_almost_done Parser.chunked
    rw [if_neg (by decide)]
    by_cases hsize : size = 0
    · rw [if_pos (show q.content_length = 0 from hsize), if_pos hsize]
      simp only [q, hsize]
    · rw [if_neg (show ¬q.content_length = 0 from hsize), if_neg hsize]
  exact step_ok S u rfl (by show p.nread + _ + _ + 1 + 1 ≤ _; omega)
    (congrArg (Exec.lift ⟨q, none, 0, 0⟩) hdone)

/-- A chunk of a body. -/
structure Chunk where
  data : Bytes
  data_ne : data ≠ []
  size : SizeLine data.length

namespace Chunk

def text (c : Chunk) : Bytes := c.size.text ++ (c.data ++ [CR, LF])

/-- The size can be kept, and its line is not too long. -/
def Fits (c : Chunk) : Prop :=
  c.data.length + 16 ≤ ULLONG_MAX ∧ c.size.text.length ≤ max_header_size

instance (c : Chunk) : Decidable c.Fits := inferInstanceAs (Decidable (_ ∧ _))

end Chunk

/-- The data of a chunk. -/
theorem scan_chunk_data (p : Parser) {data : Bytes} (hne : data ≠ []) :
    (Execution.between { p with
        state := .s_chunk_data, content_length := data.length, nread := 0 } u).scan S data =
      ⟨⟨{ p with state := .s_chunk_data_almost_done, content_length := 0, nread := 0 }, held data, 0, 0⟩,
        false, u⟩ := by
  obtain ⟨d, ch, rfl⟩ : ∃ d ch, data = d ++ [ch] :=
    ⟨_, _, (List.dropLast_append_getLast hne).symm⟩
  let q : Parser := { p with
    state := .s_chunk_data, content_length := (d ++ [ch]).length, nread := 0 }
  have hlength : (d ++ [ch]).length = d.length + 1 := by
    rw [List.length_append, List.length_singleton]
  show (Execution.between q u).scan S (d ++ [ch]) = _
  rw [Execution.scan_append,
    scan_data (p := q) (Or.inl rfl) (by show _ < (d ++ [ch]).length; omega), Execution.scan_cons,
    Execution.scan_nil, show q.content_length - d.length = 1 by
      show (d ++ [ch]).length - d.length = 1; omega]
  -- the last byte of the data
  let e : Exec := ⟨{ q with content_length := 1 }, held d, 0, 0⟩
  have hmark : (e.setMark .body).parser = { q with content_length := 1 } :=
    Exec.setMark_parser e .body
  have hfeed : feed e ch = .next [] { e.setMark .body with
      parser := { q with state := .s_chunk_data_almost_done, content_length := 0 } } := by
    rw [feed_chunk_data (e := e) rfl, chunk_data, hmark]
    rfl
  show Execution.step S ⟨e, false, u⟩ ch = _
  unfold Execution.step
  rw [if_neg (by simp), hfeed]
  have hconsume : Exec.consume { e.setMark .body with
      parser := { q with state := .s_chunk_data_almost_done, content_length := 0 } } ch =
      { (e.setMark .body).consume ch with
        parser := { q with state := .s_chunk_data_almost_done, content_length := 0 } } := rfl
  show (⟨Exec.consume _ ch, false, u⟩ : Execution σ) = _
  rw [hconsume, setMark_held _ d ch]

/-- A chunk is reported as it stands. -/
theorem scan_chunk (hs : p.state = .s_chunk_size_start) (hn : p.nread = 0) {c : Chunk}
    (hc : c.Fits) :
    (Execution.between p u).scan S c.text =
      Execution.between { p with content_length := 0 } (S.call u (.body c.data)) := by
  obtain ⟨hfits, hmax⟩ := hc
  have hpos : c.data.length ≠ 0 := fun h => c.data_ne (List.eq_nil_of_length_eq_zero h)
  unfold Chunk.text
  rw [Execution.scan_append, scan_size hs c.size hfits (by omega), Parser.chunked, if_neg hpos,
    Execution.scan_append]
  rw [scan_chunk_data p c.data_ne, held_ne c.data_ne]
  obtain ⟨state, header_state, flags, index, nread, length, major, minor, method, err, up⟩ := p
  cases hs
  cases hn
  rfl

/-- The chunks of a body, one after the other. -/
theorem scan_chunks (hs : p.state = .s_chunk_size_start) (hn : p.nread = 0) {chunks : List Chunk}
    (hchunks : ∀ c ∈ chunks, c.Fits) :
    ∃ k, (Execution.between p u).scan S (chunks.flatMap Chunk.text) =
      Execution.between { p with content_length := k }
        (S.callAll u (chunks.map fun c => .body c.data)) := by
  induction chunks generalizing p u with
  | nil => exact ⟨p.content_length, rfl⟩
  | cons c chunks ih =>
    rw [List.flatMap_cons, Execution.scan_append, scan_chunk hs hn (hchunks c List.mem_cons_self)]
    exact ih (p := { p with content_length := 0 }) hs hn
      (fun c' hc' => hchunks c' (List.mem_cons_of_mem c hc'))

end Http
end SomoNet
