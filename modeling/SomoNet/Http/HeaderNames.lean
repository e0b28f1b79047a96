import SomoNet.Http.Calls

/-!
# The names of headers

The parser looks for a few headers while it reads a name, one character at a time. What it has
recognised at the end of a name depends on the lower-cased name alone, and is the header whose
name it is (`name_recognised`), but for `F_TRANSFER_ENCODING`, which every name that begins
with `transfer-encoding` leaves behind.
-/

namespace SomoNet
namespace Http

variable {σ : Type*}

/-- The parser after a name, from the beginning of the line. -/
def Parser.named (p : Parser) : Bytes → Parser
  | [] => p
  | ch :: name =>
    name.foldl header_field_char
      { p with index := 0, state := .s_header_field, header_state := .ofFirst (token ch) }

/-- What holds of the 256 characters holds of every one. -/
theorem forall_byte {P : UInt8 → Prop} (h : ∀ n : Fin 256, P (UInt8.ofNat n)) (ch : UInt8) : P ch := by
  have hch := h ⟨ch.toNat, ch.toNat_lt⟩
  rwa [UInt8.ofNat_toNat] at hch

/-! ## Letters in upper case -/

theorem token_token : ∀ ch, token (token ch) = token ch := forall_byte (by decide +kernel)

theorem token_SP : token SP = 0 := by decide

/-- A character of a name counts as its lower-case one. -/
theorem header_field_char_token (p : Parser) {ch : UInt8} (h : token ch ≠ 0) :
    header_field_char p (token ch) = header_field_char p ch := by
  have hsp : ch ≠ SP := by
    rintro rfl
    exact h token_SP
  have hsp' : token ch ≠ SP := by
    intro heq
    rw [← token_token, heq] at h
    exact h token_SP
  unfold header_field_char
  rw [token_token, if_pos hsp, if_pos hsp']

theorem Parser.named_token (p : Parser) {name : Bytes} (h : ∀ ch ∈ name, token ch ≠ 0) :
    p.named (name.map token) = p.named name := by
  have hfold : ∀ (name : Bytes), (∀ ch ∈ name, token ch ≠ 0) → ∀ q : Parser,
      (name.map token).foldl header_field_char q = name.foldl header_field_char q := by
    intro name
    induction name with
    | nil => exact fun _ _ => rfl
    | cons ch name ih =>
      intro h q
      rw [List.map_cons, List.foldl_cons, List.foldl_cons,
        header_field_char_token q (h ch List.mem_cons_self)]
      exact ih (fun c hc => h c (List.mem_cons_of_mem ch hc)) _
  cases name with
  | nil => rfl
  | cons ch name =>
    simp only [List.map_cons, named, token_token]
    exact hfold name (fun c hc => h c (List.mem_cons_of_mem ch hc)) _

/-! ## What has been matched -/

/-- `w` is the beginning of `word` up to position `i`, and not all of it. -/
def Begins (word w : Bytes) (i : ℕ) : Prop := w = word.take (i + 1) ∧ i + 1 < word.length

/-- What the lower-cased name so far is, by what the parser has made of it. -/
def Matched (w : Bytes) (i : ℕ) : HeaderState → Prop
  | .h_general => True
  | .h_C => w = bytes "c" ∧ i = 0
  | .h_CO => w = bytes "co" ∧ i = 1
  | .h_CON => w = bytes "con" ∧ i = 2
  | .h_matching_connection => Begins (bytes "connection") w i
  | .h_matching_proxy_connection => Begins (bytes "proxy-connection") w i
  | .h_matching_content_length => Begins (bytes "content-length") w i
  | .h_matching_transfer_encoding => Begins (bytes "transfer-encoding") w i
  | .h_matching_upgrade => Begins (bytes "upgrade") w i
  | .h_connection => w = bytes "connection" ∨ w = bytes "proxy-connection"
  | .h_content_length => w = bytes "content-length"
  | .h_transfer_encoding => w = bytes "transfer-encoding"
  | .h_upgrade => w = bytes "upgrade"
  | _ => False

/-- One more character of a word: it is complete, or goes on, or is given up. -/
theorem matchWord_matched {p : Parser} {word w : Bytes} {c : UInt8} {matched : HeaderState}
    (hbegins : Begins word w p.index) (hmatched : Matched word (p.index + 1) matched)
    (hsame : Begins word (w ++ [c]) (p.index + 1) → Matched (w ++ [c]) (p.index + 1) p.header_state) :
    Matched (w ++ [c]) (p.index + 1) (p.matchWord word matched .h_general c).header_state := by
  obtain ⟨rfl, hlt⟩ := hbegins
  simp only [Parser.matchWord]
  by_cases hc : p.index + 1 > word.length ∨ c ≠ word.getD (p.index + 1) 0
  · rw [if_pos hc]
    trivial
  rw [if_neg hc]
  rw [not_or, not_not] at hc
  have hnext : word.take (p.index + 1) ++ [c] = word.take (p.index + 1 + 1) := by
    rw [hc.2, List.getD_eq_getElem?_getD, List.getElem?_eq_getElem hlt, Option.getD_some,
      List.take_append_getElem hlt]
  by_cases hlast : p.index + 1 = word.length - 1
  · rw [if_pos hlast, hnext, List.take_of_length_le (by omega)]
    exact hmatched
  · rw [if_neg hlast]
    exact hsame ⟨hnext, by omega⟩

theorem ofFirst_matched (c : UInt8) : Matched [c] 0 (HeaderState.ofFirst c) := by
  unfold HeaderState.ofFirst
  split_ifs with h1 h2 h3 h4
  · exact ⟨by rw [h1]; rfl, rfl⟩
  · exact ⟨by rw [h2]; rfl, by decide⟩
  · exact ⟨by rw [h3]; rfl, by decide⟩
  · exact ⟨by rw [h4]; rfl, by decide⟩
  · trivial

/-- A character of a name keeps up what has been matched. -/
theorem header_field_char_matched {p : Parser} {w : Bytes}
    (h : Matched w p.index p.header_state) {ch : UInt8} (hch : token ch ≠ 0) :
    Matched (w ++ [token ch]) (header_field_char p ch).index
      (header_field_char p ch).header_state := by
  have hsp : ch ≠ SP := by
    rintro rfl
    exact hch token_SP
  -- within a word, the letter goes on with it or ends the match
  have hword : ∀ {word : Bytes} {matched : HeaderState}, Begins word w p.index →
      Matched word (p.index + 1) matched →
      (Begins word (w ++ [token ch]) (p.index + 1) →
        Matched (w ++ [token ch]) (p.index + 1) p.header_state) →
      Matched (w ++ [token ch]) (p.index + 1)
        (p.matchWord word matched .h_general (token ch)).header_state :=
    fun hbegins hmatched hsame => matchWord_matched hbegins hmatched hsame
  cases hs : p.header_state <;> rw [hs] at h hword <;> simp only [header_field_char, hs]
  case h_C =>
    obtain ⟨rfl, hi⟩ := h
    split
    next hc => exact ⟨by rw [hc]; rfl, by rw [hi]⟩
    next => trivial
  case h_CO =>
    obtain ⟨rfl, hi⟩ := h
    split
    next hc => exact ⟨by rw [hc]; rfl, by rw [hi]⟩
    next => trivial
  case h_CON =>
    obtain ⟨rfl, hi⟩ := h
    split
    next hc => exact ⟨by rw [hc, hi]; rfl, by rw [hi]; decide⟩
    split
    next hc => exact ⟨by rw [hc, hi]; rfl, by rw [hi]; decide⟩
    next => trivial
  case h_matching_connection => exact hword h (Or.inl rfl) id
  case h_matching_proxy_connection => exact hword h (Or.inr rfl) id
  case h_matching_content_length => exact hword h rfl id
  case h_matching_transfer_encoding =>
    have hmatch : Matched (w ++ [token ch]) (p.index + 1)
        (p.matchWord (bytes "transfer-encoding") .h_transfer_encoding .h_general
          (token ch)).header_state := hword h rfl id
    split
    next => exact hmatch
    next => exact hmatch
  case h_matching_upgrade => exact hword h rfl id
  -- a name that goes on behind the whole word is another one
  case h_connection | h_content_length | h_transfer_encoding | h_upgrade =>
    rw [if_pos hsp]
    trivial
  all_goals exact h

theorem named_append (p : Parser) {name : Bytes} (hne : name ≠ []) (rest : Bytes) :
    p.named (name ++ rest) = rest.foldl header_field_char (p.named name) := by
  obtain ⟨c, name, rfl⟩ := List.exists_cons_of_ne_nil hne
  simp [Parser.named]

theorem named_concat (p : Parser) {name : Bytes} (hne : name ≠ []) (ch : UInt8) :
    p.named (name ++ [ch]) = header_field_char (p.named name) ch :=
  named_append p hne [ch]

/-- What has been matched at the end of a name. -/
theorem named_matched (p : Parser) {name : Bytes} (hne : name ≠ [])
    (h : ∀ ch ∈ name, token ch ≠ 0) :
    Matched (name.map token) (p.named name).index (p.named name).header_state := by
  induction name using List.reverseRecOn with
  | nil => exact absurd rfl hne
  | append_singleton name ch ih =>
    by_cases hnil : name = []
    · subst hnil
      exact ofFirst_matched (token ch)
    · rw [named_concat p hnil, List.map_append]
      refine header_field_char_matched (ih hnil fun c hc => h c ?_) (h ch ?_)
      · exact List.mem_append_left _ hc
      · simp

/-! ## `F_TRANSFER_ENCODING` -/

theorem header_field_char_transfer {p : Parser} {w : Bytes}
    (h : Matched w p.index p.header_state) {ch : UInt8}
    (hflag : (header_field_char p ch).flags.F_TRANSFER_ENCODING = true) :
    p.flags.F_TRANSFER_ENCODING = true ∨ w ++ [token ch] = bytes "transfer-encoding" := by
  cases hs : p.header_state <;> rw [hs] at h <;> simp only [header_field_char, hs] at hflag
  case h_matching_transfer_encoding =>
    split at hflag
    next heq =>
      right
      have hmatch : Matched (w ++ [token ch]) (p.index + 1)
          (p.matchWord (bytes "transfer-encoding") .h_transfer_encoding .h_general
            (token ch)).header_state := matchWord_matched h rfl (by rw [hs]; exact id)
      rw [heq] at hmatch
      exact hmatch
    next => exact Or.inl hflag
  case h_connection | h_content_length | h_transfer_encoding | h_upgrade =>
    split at hflag <;> exact Or.inl hflag
  all_goals exact Or.inl hflag

/-- The flag is never taken back. -/
theorem header_field_char_transfer_mono {p : Parser} (ch : UInt8)
    (hflag : p.flags.F_TRANSFER_ENCODING = true) :
    (header_field_char p ch).flags.F_TRANSFER_ENCODING = true := by
  cases hs : p.header_state <;> simp only [header_field_char, hs]
  case h_matching_transfer_encoding =>
    split
    · rfl
    · exact hflag
  case h_connection | h_content_length | h_transfer_encoding | h_upgrade => split <;> exact hflag
  all_goals exact hflag

theorem foldl_transfer_mono {p : Parser} (name : Bytes)
    (hflag : p.flags.F_TRANSFER_ENCODING = true) :
    (name.foldl header_field_char p).flags.F_TRANSFER_ENCODING = true := by
  induction name generalizing p with
  | nil => exact hflag
  | cons ch name ih => exact ih (header_field_char_transfer_mono ch hflag)

/-- The parsers have matched the same of a name, and the flag is not behind. -/
structure Parser.SameMatch (q p : Parser) : Prop where
  header_state : p.header_state = q.header_state
  index : p.index = q.index
  transfer : q.flags.F_TRANSFER_ENCODING = true → p.flags.F_TRANSFER_ENCODING = true

theorem matchWord_same {q p : Parser} (h : q.SameMatch p) (word : Bytes)
    (matched missed : HeaderState) (c : UInt8) :
    (q.matchWord word matched missed c).SameMatch (p.matchWord word matched missed c) := by
  refine ⟨?_, ?_, h.transfer⟩
  · simp only [Parser.matchWord, h.header_state, h.index]
  · simp only [Parser.matchWord, h.index]

theorem header_field_char_same {q p : Parser} (h : q.SameMatch p) (ch : UInt8) :
    (header_field_char q ch).SameMatch (header_field_char p ch) := by
  have hs := h.header_state
  have hi := h.index
  cases hq : q.header_state <;> rw [hq] at hs <;> simp only [header_field_char, hq, hs]
  case h_C | h_CO | h_CON => exact ⟨rfl, by simp only [hi], h.transfer⟩
  case h_matching_connection | h_matching_proxy_connection | h_matching_content_length
      | h_matching_upgrade =>
    exact matchWord_same h _ _ _ _
  case h_matching_transfer_encoding =>
    have hword := matchWord_same h (bytes "transfer-encoding") .h_transfer_encoding .h_general
      (token ch)
    rw [hword.header_state]
    split
    · exact ⟨rfl, hword.index, fun _ => rfl⟩
    · exact hword
  case h_connection | h_content_length | h_transfer_encoding | h_upgrade =>
    split
    · exact ⟨rfl, hi, h.transfer⟩
    · exact h
  all_goals exact h

theorem foldl_same {q p : Parser} (h : q.SameMatch p) (name : Bytes) :
    (name.foldl header_field_char q).SameMatch (name.foldl header_field_char p) := by
  induction name generalizing q p with
  | nil => exact h
  | cons ch name ih => exact ih (header_field_char_same h ch)

/-- What is matched of a name does not depend on the parser. -/
theorem named_same (p : Parser) {name : Bytes} (hne : name ≠ []) :
    (Parser.init.named name).SameMatch (p.named name) := by
  obtain ⟨ch, name, rfl⟩ := List.exists_cons_of_ne_nil hne
  unfold Parser.named
  apply foldl_same
  exact ⟨rfl, rfl, fun h => absurd h Bool.false_ne_true⟩

theorem named_transfer (p : Parser) {name : Bytes} (hne : name ≠ [])
    (h : ∀ ch ∈ name, token ch ≠ 0) :
    (p.named name).flags.F_TRANSFER_ENCODING = true ↔
      p.flags.F_TRANSFER_ENCODING = true ∨ bytes "transfer-encoding" <+: name.map token := by
  constructor
  · induction name using List.reverseRecOn with
    | nil => exact absurd rfl hne
    | append_singleton name ch ih =>
      have hname : ∀ c ∈ name, token c ≠ 0 := fun c hc => h c (List.mem_append_left _ hc)
      by_cases hnil : name = []
      · subst hnil
        exact Or.inl
      intro hflag
      rw [named_concat p hnil] at hflag
      rw [List.map_append]
      rcases header_field_char_transfer (named_matched p hnil hname) hflag with hflag | hword
      · exact (ih hnil hname hflag).imp_right fun hpre => hpre.trans (List.prefix_append _ _)
      · exact Or.inr (hword ▸ List.prefix_refl _)
  · rintro (hflag | ⟨rest, hrest⟩)
    · obtain ⟨ch, name, rfl⟩ := List.exists_cons_of_ne_nil hne
      exact foldl_transfer_mono name (by exact hflag)
    · have hword : (Parser.init.named (bytes "transfer-encoding")).flags.F_TRANSFER_ENCODING = true := by
        decide
      rw [← p.named_token h, ← hrest, named_append p (by decide)]
      exact foldl_transfer_mono rest ((named_same p (by decide)).transfer hword)

/-! ## What is recognised -/

/-- The header that the parser takes a lower-cased name for. -/
def HeaderState.ofName (w : Bytes) : Option HeaderState :=
  if w = bytes "connection" ∨ w = bytes "proxy-connection" then some .h_connection
  else if w = bytes "content-length" then some .h_content_length
  else if w = bytes "transfer-encoding" then some .h_transfer_encoding
  else if w = bytes "upgrade" then some .h_upgrade
  else none

/-- The states in which a header is recognised. -/
def HeaderState.recognised (h : HeaderState) : Option HeaderState :=
  if h = .h_connection ∨ h = .h_content_length ∨ h = .h_transfer_encoding ∨ h = .h_upgrade then
    some h
  else none

theorem named_recognised (p : Parser) {name : Bytes} (hne : name ≠ [])
    (h : ∀ ch ∈ name, token ch ≠ 0) :
    (p.named name).header_state.recognised = HeaderState.ofName (name.map token) := by
  have hmatched := named_matched p hne h
  -- a word that is one of the four is recognised
  have hwords : ∀ w ∈ [bytes "connection", bytes "proxy-connection", bytes "content-length",
      bytes "transfer-encoding", bytes "upgrade"], w ≠ [] ∧
      (Parser.init.named w).header_state.recognised = HeaderState.ofName w := by decide
  by_cases hw : name.map token ∈ [bytes "connection", bytes "proxy-connection",
      bytes "content-length", bytes "transfer-encoding", bytes "upgrade"]
  · obtain ⟨hne', heq⟩ := hwords _ hw
    rw [← p.named_token h, (named_same p hne').header_state, heq]
  · -- and nothing else is
    simp only [List.mem_cons, List.not_mem_nil, or_false, not_or] at hw
    obtain ⟨h1, h2, h3, h4, h5⟩ := hw
    have hnone : HeaderState.ofName (name.map token) = none := by
      simp [HeaderState.ofName, h1, h2, h3, h4, h5]
    rw [hnone]
    unfold HeaderState.recognised
    split
    next hs =>
      rcases hs with hs | hs | hs | hs <;> rw [hs] at hmatched
      · exact absurd hmatched (by simp [Matched, h1, h2])
      · exact absurd hmatched h3
      · exact absurd hmatched h4
      · exact absurd hmatched h5
    next => rfl

/-! ## Reading a name -/

/-- No mark is set and no loop is under way. -/
def Execution.between (p : Parser) (u : σ) : Execution σ := ⟨⟨p, none, 0, 0⟩, false, u⟩

theorem named_state (p : Parser) {name : Bytes} (hne : name ≠ []) :
    (p.named name).state = .s_header_field := by
  have hfold : ∀ (name : Bytes) (q : Parser), (name.foldl header_field_char q).state = q.state := by
    intro name
    induction name with
    | nil => exact fun _ => rfl
    | cons ch name ih => exact fun q => (ih _).trans (header_field_char_frame q ch).1
  obtain ⟨ch, name, rfl⟩ := List.exists_cons_of_ne_nil hne
  exact hfold name _

section

variable (S : Settings σ) {p : Parser} (u : σ)

/-- A byte before a mark is set: it is counted, and then dispatched. -/
theorem feed_between (hs : p.state.parsingHeader = true) (hmax : p.nread + 1 ≤ max_header_size)
    (ch : UInt8) :
    feed ⟨p, none, 0, 0⟩ ch = dispatch ⟨p.count (p.nread + 1), none, 0, 0⟩ ch := by
  unfold feed
  rw [if_pos ⟨hs, rfl⟩, if_neg (by show ¬p.nread + 1 > max_header_size; omega)]
  rfl

theorem header_field_start_token {e : Exec} {ch : UInt8} (hch : token ch ≠ 0) :
    header_field_start e ch = .next [] { e.setMark .header_field with
      parser := { e.parser with
        index := 0, state := .s_header_field, header_state := .ofFirst (token ch) } } := by
  have hcr : ch ≠ CR := by
    rintro rfl
    exact hch (by decide)
  have hlf : ch ≠ LF := by
    rintro rfl
    exact hch (by decide)
  unfold header_field_start
  rw [if_neg hcr, if_neg hlf, if_neg hch]

/-- The bytes of a name, up to the colon. -/
theorem scan_name (hs : p.state = .s_header_field_start) {name : Bytes} (hne : name ≠ [])
    (hname : ∀ ch ∈ name, token ch ≠ 0) (hmax : p.nread + name.length ≤ max_header_size) :
    ∃ n k, n + (k - 1) = p.nread + name.length ∧
      (Execution.between p u).scan S name =
        ⟨⟨(p.named name).count n, some (.header_field, name), k, 0⟩, false, u⟩ := by
  induction name using List.reverseRecOn with
  | nil => exact absurd rfl hne
  | append_singleton name ch ih =>
    rw [List.length_append, List.length_singleton] at hmax ⊢
    have hch : token ch ≠ 0 := hname ch (by simp)
    rw [Execution.scan_append, Execution.scan_cons, Execution.scan_nil]
    by_cases hnil : name = []
    · subst hnil
      refine ⟨p.nread + 1, 0, rfl, ?_⟩
      -- the first character begins the name outside the loop
      have hfeed := feed_between (p := p) (by rw [hs]; rfl) (by simpa using hmax) ch
      simp only [dispatch, Parser.count, hs] at hfeed
      rw [header_field_start_token hch] at hfeed
      show Execution.step S (Execution.between p u) ch = _
      unfold Execution.step Execution.between
      rw [if_neg (by simp), hfeed]
      rfl
    · obtain ⟨n, k, hn, hscan⟩ := ih hnil (fun c hc => hname c (List.mem_append_left _ hc)) (by omega)
      rw [hscan]
      have hstate := named_state p hnil
      -- the others are read in the loop, `k` of them not yet counted
      let e : Exec := ⟨(p.named name).count n, some (.header_field, name), k, 0⟩
      have hsize : e.size = p.nread + name.length := hn
      have hnread : e.headed.parser.nread + k = e.size + 1 := e.headed_nread
      have hfeed := feed_loop (e := e) (Or.inl hstate) ch
      rw [if_neg (by omega), e.headed_eq] at hfeed
      generalize e.headed.parser.nread = n' at hnread hfeed
      rw [dispatch_header_field hstate] at hfeed
      simp only [header_field] at hfeed
      rw [if_pos hch] at hfeed
      refine ⟨n', k + 1, by omega, ?_⟩
      unfold Execution.step
      rw [if_neg (by simp), hfeed, named_concat p hnil, ← header_field_char_count]
      rfl

/-- **Header names are recognised.** At the end of a name in one call, in whatever letters it is
written, the parser takes the header for one of those that it looks into exactly if it is that
header; `F_TRANSFER_ENCODING` is set for every name that begins with the name of that header. The
name has to fit the header limit. -/
theorem name_recognised (hs : p.state = .s_header_field_start) {name : Bytes} (hne : name ≠ [])
    (hname : ∀ ch ∈ name, token ch ≠ 0) (hmax : p.nread + name.length ≤ max_header_size) :
    let q := ((Execution.between p u).scan S name).exec.parser
    q.header_state.recognised = HeaderState.ofName (name.map token) ∧
      (q.flags.F_TRANSFER_ENCODING = true ↔
        p.flags.F_TRANSFER_ENCODING = true ∨ bytes "transfer-encoding" <+: name.map token) := by
  obtain ⟨n, k, -, hscan⟩ := scan_name S u hs hne hname hmax
  rw [hscan]
  exact ⟨named_recognised p hne hname, named_transfer p hne hname⟩

end

theorem name_recognised_mixed_case :
    let q := ((Execution.between { Parser.init with state := .s_header_field_start } []).scan
      transcript (bytes "tRANSFER-eNCODINGs")).exec.parser
    q.header_state.recognised = HeaderState.ofName ((bytes "tRANSFER-eNCODINGs").map token) ∧
      (q.flags.F_TRANSFER_ENCODING = true ↔
        false = true ∨ bytes "transfer-encoding" <+: (bytes "tRANSFER-eNCODINGs").map token) :=
  name_recognised transcript [] rfl (by decide) (by decide +kernel) (by decide)

end Http
end SomoNet
