import Mathlib.Data.List.TakeWhile
import SomoNet.Http.HeaderNames

/-!
# Request lines

What the parser does with the text of a request line: a method, a url and a version. The
methods that it takes are those of its table (`method_recognised`), although it keeps no more
of a method than the one that it expects and a position in it.
-/

namespace SomoNet
namespace Http

variable {σ : Type*} (S : Settings σ) {p : Parser} (u : σ)

/-- A byte of a line that neither calls back nor sets a mark. -/
theorem step_ok {q : Parser} {ch : UInt8} (hs : p.state.parsingHeader = true)
    (hmax : p.nread + 1 ≤ max_header_size)
    (h : dispatch ⟨p.count (p.nread + 1), none, 0, 0⟩ ch =
      Exec.lift ⟨p.count (p.nread + 1), none, 0, 0⟩ (.ok q)) :
    (Execution.between p u).step S ch = Execution.between q u := by
  unfold Execution.step Execution.between
  rw [if_neg (by simp), feed_between hs hmax, h]
  rfl

/-- A byte of a line that cannot be there. -/
theorem step_error {x : Errno} {ch : UInt8} (hs : p.state.parsingHeader = true)
    (hmax : p.nread + 1 ≤ max_header_size)
    (h : dispatch ⟨p.count (p.nread + 1), none, 0, 0⟩ ch =
      Exec.lift ⟨p.count (p.nread + 1), none, 0, 0⟩ (.error x)) :
    ((Execution.between p u).step S ch).stopped = true := by
  unfold Execution.step Execution.between
  rw [if_neg (by simp), feed_between hs hmax, h]
  rfl

/-! ## Methods -/

/-- The method expected and the position in it, one letter on. -/
def Method.next (x : Method × ℕ) (ch : UInt8) : Option (Method × ℕ) :=
  if ch = 0 then none
  else if ch = x.1.str.getD x.2 0 then some (x.1, x.2 + 1)
  else if (chr 'A' ≤ ch ∧ ch ≤ chr 'Z') ∨ ch = chr '-' then
    (x.1.switch x.2 ch).map fun m => (m, x.2 + 1)
  else none

/-- The method that some letters make the parser expect, and the position in it. -/
def Method.read : Bytes → Option (Method × ℕ)
  | [] => none
  | ch :: w => w.foldl (fun x ch => x.bind fun x => next x ch) ((Method.ofFirst ch).map (·, 1))

theorem of_lookup {α β : Type*} [BEq α] [LawfulBEq α] {P : α → β → Prop} {l : List (α × β)}
    (hall : ∀ e ∈ l, P e.1 e.2) {k : α} {v : β} (h : l.lookup k = some v) : P k v := by
  obtain ⟨l₁, l₂, rfl, -⟩ := List.lookup_eq_some_iff.mp h
  exact hall (k, v) (by simp)

/-- The parser goes over to a method that begins with the same letters. -/
theorem Method.switch_take {m m' : Method} {pos : ℕ} {ch : UInt8} (h : m.switch pos ch = some m') :
    m'.str.take (pos + 1) = m.str.take pos ++ [ch] ∧ pos + 1 ≤ m'.str.length :=
  of_lookup (P := fun k m' => m'.str.take (k.2.1 + 1) = k.1.str.take k.2.1 ++ [k.2.2] ∧
    k.2.1 + 1 ≤ m'.str.length) (by decide) h

theorem Method.ofFirst_take {m : Method} {ch : UInt8} (h : Method.ofFirst ch = some m) :
    m.str.take 1 = [ch] ∧ 1 ≤ m.str.length ∧ isAlpha ch = true ∧ isCRLF ch = false :=
  of_lookup (P := fun ch m => m.str.take 1 = [ch] ∧ 1 ≤ m.str.length ∧ isAlpha ch = true ∧
    isCRLF ch = false) (by decide) h

theorem Method.next_take {m m' : Method} {i i' : ℕ} {ch : UInt8} {w : Bytes}
    (hw : w = m.str.take i) (h : next (m, i) ch = some (m', i')) :
    w ++ [ch] = m'.str.take i' ∧ i' ≤ m'.str.length ∧ i' = i + 1 := by
  unfold next at h
  split at h
  · cases h
  next hzero =>
    split at h
    next hch =>
      cases h
      have hlt : i < m.str.length := by
        by_contra hle
        rw [List.getD_eq_getElem?_getD, List.getElem?_eq_none (by simpa using hle)] at hch
        exact hzero hch
      dsimp only at hch
      rw [List.getD_eq_getElem?_getD, List.getElem?_eq_getElem hlt, Option.getD_some] at hch
      refine ⟨?_, hlt, rfl⟩
      rw [hw, hch, List.take_append_getElem hlt]
    next =>
      split at h
      · obtain ⟨m'', hswitch, heq⟩ := Option.map_eq_some_iff.mp h
        cases heq
        obtain ⟨htake, hle⟩ := Method.switch_take hswitch
        exact ⟨by rw [hw, htake], hle, rfl⟩
      · cases h

theorem Method.read_concat {w : Bytes} (hne : w ≠ []) (ch : UInt8) :
    read (w ++ [ch]) = (read w).bind fun x => next x ch := by
  obtain ⟨c, w, rfl⟩ := List.exists_cons_of_ne_nil hne
  simp [read]

/-- The letters read are the beginning of the method that is expected. -/
theorem Method.read_take {w : Bytes} {m : Method} {i : ℕ} (h : read w = some (m, i)) :
    w = m.str.take i ∧ i ≤ m.str.length ∧ i = w.length := by
  induction w using List.reverseRecOn generalizing m i with
  | nil => cases h
  | append_singleton w ch ih =>
    by_cases hnil : w = []
    · subst hnil
      obtain ⟨m', hfirst, heq⟩ := Option.map_eq_some_iff.mp h
      cases heq
      obtain ⟨htake, hle, -⟩ := Method.ofFirst_take hfirst
      exact ⟨htake.symm, hle, rfl⟩
    · rw [read_concat hnil] at h
      obtain ⟨⟨m', i'⟩, hread, hnext⟩ := Option.bind_eq_some_iff.mp h
      obtain ⟨hw, -, hlen⟩ := ih hread
      obtain ⟨htake, hle, heq⟩ := Method.next_take hw hnext
      refine ⟨htake, hle, ?_⟩
      rw [heq, hlen, List.length_append, List.length_singleton]

/-- Every method is read. -/
theorem Method.read_str (m : Method) : read m.str = some (m, m.str.length) := by
  cases m <;> decide

/-- The parser in the middle of a method. -/
def Parser.reading (p : Parser) (x : Method × ℕ) (n : ℕ) : Parser :=
  { p with
    flags := {}, content_length := ULLONG_MAX, method := x.1, index := x.2, state := .s_req_method,
    nread := n }

section

variable {S u}

theorem req_method_next (p : Parser) {ch : UInt8} (hch : ch ≠ SP) :
    req_method p ch = match Method.next (p.method, p.index) ch with
      | some x => .ok { p with method := x.1, index := x.2 }
      | none => .error .HPE_INVALID_METHOD := by
  simp only [req_method, Method.next]
  by_cases hzero : ch = 0
  · rw [if_pos hzero, if_pos hzero]
  rw [if_neg hzero, if_neg hzero, if_neg (by simp [hch])]
  by_cases hsame : ch = p.method.str.getD p.index 0
  · rw [if_pos hsame, if_pos hsame]
  rw [if_neg hsame, if_neg hsame]
  by_cases hletter : (chr 'A' ≤ ch ∧ ch ≤ chr 'Z') ∨ ch = chr '-'
  · rw [if_pos hletter, if_pos hletter]
    cases p.method.switch p.index ch <;> rfl
  · rw [if_neg hletter, if_neg hletter]

theorem start_req_first (p : Parser) {ch : UInt8} (hch : isCRLF ch = false) :
    start_req p ch = match Method.ofFirst ch with
      | some m => .ok { p with
          flags := {}, content_length := ULLONG_MAX, method := m, index := 1, state := .s_req_method }
      | none => .error .HPE_INVALID_METHOD := by
  unfold start_req
  rw [if_neg (by simp [hch])]
  cases hfirst : Method.ofFirst ch with
  | none => split <;> rfl
  | some m =>
    obtain ⟨-, -, halpha, -⟩ := Method.ofFirst_take hfirst
    rw [if_neg (by simp [halpha])]

/-- The first letter of a method, or of none. -/
theorem step_first (hs : p.state = .s_start_req) (hmax : p.nread + 1 ≤ max_header_size) {ch : UInt8}
    (hch : isCRLF ch = false) :
    match Method.ofFirst ch with
    | some m => (Execution.between p u).step S ch =
        Execution.between (p.reading (m, 1) (p.nread + 1)) u
    | none => ((Execution.between p u).step S ch).stopped = true := by
  have hparsing : p.state.parsingHeader = true := by rw [hs]; rfl
  have hdispatch : dispatch ⟨p.count (p.nread + 1), none, 0, 0⟩ ch =
      Exec.lift ⟨p.count (p.nread + 1), none, 0, 0⟩ (start_req (p.count (p.nread + 1)) ch) := by
    simp only [dispatch, Parser.count, hs]
  rw [start_req_first _ hch] at hdispatch
  cases hfirst : Method.ofFirst ch with
  | none =>
    rw [hfirst] at hdispatch
    exact step_error S u hparsing hmax hdispatch
  | some m =>
    rw [hfirst] at hdispatch
    exact step_ok S u hparsing hmax hdispatch

/-- A letter in the middle of a method. -/
theorem step_next (p : Parser) (x : Method × ℕ) {n : ℕ} (hmax : n + 1 ≤ max_header_size) {ch : UInt8}
    (hch : ch ≠ SP) :
    match Method.next x ch with
    | some y => (Execution.between (p.reading x n) u).step S ch =
        Execution.between (p.reading y (n + 1)) u
    | none => ((Execution.between (p.reading x n) u).step S ch).stopped = true := by
  have hdispatch : dispatch ⟨(p.reading x n).count ((p.reading x n).nread + 1), none, 0, 0⟩ ch =
      Exec.lift ⟨(p.reading x n).count ((p.reading x n).nread + 1), none, 0, 0⟩
        (req_method (p.reading x (n + 1)) ch) := rfl
  rw [req_method_next _ hch] at hdispatch
  cases hnext : Method.next x ch with
  | none =>
    simp only [Parser.reading, hnext] at hdispatch
    exact step_error S u rfl hmax hdispatch
  | some y =>
    simp only [Parser.reading, hnext] at hdispatch
    exact step_ok S u rfl hmax hdispatch

/-- The letters of a method, or of none. -/
theorem scan_letters (hs : p.state = .s_start_req) {w : Bytes} (hne : w ≠ [])
    (hhead : ∀ ch ∈ w.head?, isCRLF ch = false) (hw : SP ∉ w)
    (hmax : p.nread + w.length ≤ max_header_size) :
    match Method.read w with
    | some x => (Execution.between p u).scan S w =
        Execution.between (p.reading x (p.nread + w.length)) u
    | none => ((Execution.between p u).scan S w).stopped = true := by
  induction w using List.reverseRecOn with
  | nil => exact absurd rfl hne
  | append_singleton w ch ih =>
    rw [List.length_append, List.length_singleton] at hmax ⊢
    rw [Execution.scan_append, Execution.scan_cons, Execution.scan_nil]
    by_cases hnil : w = []
    · subst hnil
      -- the first letter chooses a method, the others agree with it or change it once
      have hfirst := step_first (S := S) (u := u) hs (by simpa using hmax) (hhead ch rfl)
      show match (Method.ofFirst ch).map (·, 1) with
        | some x => (Execution.between p u).step S ch = _
        | none => ((Execution.between p u).step S ch).stopped = true
      cases hread : Method.ofFirst ch <;> rw [hread] at hfirst <;> exact hfirst
    · have hhead' : ∀ c ∈ w.head?, isCRLF c = false := by
        intro c hc
        apply hhead c
        rw [List.head?_append_of_ne_nil _ hnil]
        exact hc
      have hprev := ih hnil hhead' (fun h => hw (List.mem_append_left _ h)) (by omega)
      have hch : ch ≠ SP := fun h => hw (by simp [h])
      rw [Method.read_concat hnil]
      cases hread : Method.read w with
      | none =>
        rw [hread] at hprev
        dsimp only [Option.bind_none] at hprev ⊢
        rw [Execution.step_stopped S hprev]
        exact hprev
      | some x =>
        rw [hread] at hprev
        dsimp only [Option.bind_some] at hprev ⊢
        rw [hprev]
        have hnext := step_next (S := S) (u := u) p x (n := p.nread + w.length) (by omega) hch
        cases hread' : Method.next x ch <;> rw [hread'] at hnext <;> exact hnext

/-- Empty lines before a message. -/
theorem scan_lead (hs : p.state = .s_start_req) {lead : Bytes} (hlead : ∀ ch ∈ lead, isCRLF ch = true)
    (hmax : p.nread + lead.length ≤ max_header_size) :
    (Execution.between p u).scan S lead =
      Execution.between (p.count (p.nread + lead.length)) u := by
  induction lead generalizing p with
  | nil => rfl
  | cons ch lead ih =>
    rw [List.length_cons] at hmax
    have hstep : (Execution.between p u).step S ch = Execution.between (p.count (p.nread + 1)) u := by
      refine step_ok S u (by rw [hs]; rfl) (by omega) ?_
      have hstart : start_req (p.count (p.nread + 1)) ch = .ok (p.count (p.nread + 1)) :=
        if_pos (hlead ch List.mem_cons_self)
      simp only [dispatch, Parser.count, hs] at hstart ⊢
      rw [hstart]
    rw [Execution.scan_cons, hstep,
      ih (p := p.count (p.nread + 1)) hs (fun c hc => hlead c (List.mem_cons_of_mem ch hc))
        (by show p.nread + 1 + lead.length ≤ _; omega)]
    show Execution.between (p.count (p.nread + 1 + lead.length)) u = _
    rw [List.length_cons, show p.nread + 1 + lead.length = p.nread + (lead.length + 1) by omega]

theorem Method.str_plain (m : Method) : 0 ∉ m.str ∧ SP ∉ m.str := by
  cases m <;> decide

/-- A space ends the method that has been read in full. -/
theorem req_method_SP (p : Parser) :
    req_method p SP =
      if p.method.str.length ≤ p.index then
        .ok { p with state := .s_req_spaces_before_url, index := p.index + 1 }
      else .error .HPE_INVALID_METHOD := by
  obtain ⟨hzero, hspace⟩ := p.method.str_plain
  unfold req_method
  dsimp only
  rw [if_neg (by decide)]
  by_cases hle : p.method.str.length ≤ p.index
  · have hget : p.method.str.getD p.index 0 = 0 := by
      rw [List.getD_eq_getElem?_getD, List.getElem?_eq_none hle]
      rfl
    rw [if_pos ⟨rfl, hget⟩, if_pos hle]
  · rw [not_le] at hle
    have hget : p.method.str.getD p.index 0 = p.method.str[p.index] := by
      rw [List.getD_eq_getElem?_getD, List.getElem?_eq_getElem hle, Option.getD_some]
    have hmem : p.method.str[p.index] ∈ p.method.str := List.getElem_mem hle
    have hne : ¬(SP = SP ∧ p.method.str[p.index] = 0) := fun h => hzero (h.2 ▸ hmem)
    have hne' : SP ≠ p.method.str[p.index] := fun h => hspace (h ▸ hmem)
    rw [hget, if_neg hne, if_neg hne', if_neg (by decide), if_neg (by omega)]

/-- The space after a method that has been read in full. -/
theorem step_reading_end {x : Method × ℕ} (h : x.1.str.length ≤ x.2) {n : ℕ}
    (hmax : n + 1 ≤ max_header_size) :
    (Execution.between (p.reading x n) u).step S SP =
      Execution.between { p.reading (x.1, x.2 + 1) (n + 1) with
        state := .s_req_spaces_before_url } u := by
  refine step_ok S u rfl hmax ?_
  show Exec.lift _ (req_method (p.reading x (n + 1)) SP) = _
  rw [req_method_SP]
  show Exec.lift _ (if x.1.str.length ≤ x.2 then _ else _) = _
  rw [if_pos h]
  rfl

/-- A space in the middle of a method. -/
theorem step_reading_early {x : Method × ℕ} (h : x.2 < x.1.str.length) {n : ℕ}
    (hmax : n + 1 ≤ max_header_size) :
    ((Execution.between (p.reading x n) u).step S SP).stopped = true := by
  refine step_error S u rfl hmax (x := .HPE_INVALID_METHOD) ?_
  show Exec.lift _ (req_method (p.reading x (n + 1)) SP) = _
  rw [req_method_SP]
  show Exec.lift _ (if x.1.str.length ≤ x.2 then _ else _) = _
  rw [if_neg (by omega)]

/-- A method and the space after it. -/
theorem scan_method (hs : p.state = .s_start_req) (m : Method)
    (hmax : p.nread + (m.str.length + 1) ≤ max_header_size) :
    (Execution.between p u).scan S (m.str ++ [SP]) =
      Execution.between { p.reading (m, m.str.length + 1) (p.nread + (m.str.length + 1)) with
        state := .s_req_spaces_before_url } u := by
  have hfirst : m.str ≠ [] ∧ ∀ ch ∈ m.str.head?, isCRLF ch = false := by
    have hall : m.str ≠ [] ∧ m.str.head?.all (isCRLF · = false) = true := by cases m <;> decide
    exact ⟨hall.1, fun ch hch => by simpa [Option.mem_def.mp hch] using hall.2⟩
  have hscan := scan_letters (S := S) (u := u) hs hfirst.1 hfirst.2 m.str_plain.2 (by omega)
  rw [Method.read_str] at hscan
  dsimp only at hscan
  rw [Execution.scan_append, hscan, Execution.scan_cons, Execution.scan_nil]
  exact step_reading_end (le_refl _) (by omega)

/-- A space where a method is expected. -/
theorem step_start_SP (hs : p.state = .s_start_req) (hmax : p.nread + 1 ≤ max_header_size) :
    ((Execution.between p u).step S SP).stopped = true := by
  refine step_error S u (by rw [hs]; rfl) hmax (x := .HPE_INVALID_METHOD) ?_
  simp only [dispatch, Parser.count, hs]
  rfl

/-- What can be the method before a space. -/
theorem eq_str_of_scan (hs : p.state = .s_start_req) {w : Bytes}
    (hhead : ∀ ch ∈ w.head?, isCRLF ch = false) (hspace : SP ∉ w)
    (hmax : p.nread + w.length + 1 ≤ max_header_size)
    (hgoing : ((Execution.between p u).scan S (w ++ [SP])).stopped = false) :
    w = ((Execution.between p u).scan S (w ++ [SP])).exec.parser.method.str := by
  rw [Execution.scan_append] at hgoing ⊢
  by_cases hnil : w = []
  · subst hnil
    rw [Execution.scan_nil, Execution.scan_cons, Execution.scan_nil,
      step_start_SP hs (by simpa using hmax)] at hgoing
    cases hgoing
  have hscan := scan_letters (S := S) (u := u) hs hnil hhead hspace (by omega)
  cases hread : Method.read w with
  | none =>
    rw [hread] at hscan
    dsimp only at hscan
    rw [Execution.scan_stopped S hscan, hscan] at hgoing
    cases hgoing
  | some x =>
    obtain ⟨htake, -, -⟩ := Method.read_take hread
    rw [hread] at hscan
    dsimp only at hscan
    rw [hscan, Execution.scan_cons, Execution.scan_nil] at hgoing ⊢
    by_cases hall : x.1.str.length ≤ x.2
    · rw [step_reading_end hall hmax]
      show w = x.1.str
      rw [htake, List.take_of_length_le hall]
    · -- the method is not read in full
      rw [step_reading_early (not_le.mp hall) hmax] at hgoing
      cases hgoing

end

/-- **Methods are recognised.** Whatever is sent before the first space, within the header limit,
the parser goes on to the url, with a method, exactly if it is the name of that method, after any
empty lines. -/
theorem method_recognised (hs : p.state = .s_start_req) {w : Bytes} (hw : SP ∉ w)
    (hmax : p.nread + w.length + 1 ≤ max_header_size) (m : Method) :
    let r := (Execution.between p u).scan S (w ++ [SP])
    (r.stopped = false ∧ r.exec.parser.state = .s_req_spaces_before_url ∧
      r.exec.parser.method = m) ↔ w.dropWhile isCRLF = m.str := by
  intro r
  have hlead : ∀ ch ∈ w.takeWhile isCRLF, isCRLF ch = true := fun ch hch =>
    List.mem_takeWhile_imp hch
  have hsplit := List.takeWhile_append_dropWhile (p := isCRLF) (l := w)
  have hlen : (w.takeWhile isCRLF).length + (w.dropWhile isCRLF).length = w.length := by
    rw [← List.length_append, hsplit]
  have hr : r = (Execution.between (p.count (p.nread + (w.takeWhile isCRLF).length)) u).scan S
      (w.dropWhile isCRLF ++ [SP]) := by
    show (Execution.between p u).scan S (w ++ [SP]) = _
    conv_lhs => rw [← hsplit]
    rw [List.append_assoc, Execution.scan_append, scan_lead hs hlead (by omega)]
  rw [hr]
  have hhead : ∀ ch ∈ (w.dropWhile isCRLF).head?, isCRLF ch = false := by
    intro ch hch
    have := List.head?_dropWhile_not isCRLF w
    rw [Option.mem_def.mp hch] at this
    simpa using this
  have hspace : SP ∉ w.dropWhile isCRLF := fun h => hw ((List.dropWhile_suffix isCRLF).subset h)
  generalize hn : p.nread + (w.takeWhile isCRLF).length = n
  generalize w.dropWhile isCRLF = w' at *
  constructor
  · rintro ⟨hgoing, -, rfl⟩
    exact eq_str_of_scan (p := p.count n) hs hhead hspace
      (by show n + w'.length + 1 ≤ _; omega) hgoing
  · rintro rfl
    rw [scan_method (p := p.count n) hs m (by show n + _ ≤ _; omega)]
    exact ⟨rfl, rfl, rfl⟩

theorem method_recognised_get :
    let r := (Execution.between Parser.init []).scan transcript (bytes "\r\nGET" ++ [SP])
    (r.stopped = false ∧ r.exec.parser.state = .s_req_spaces_before_url ∧
      r.exec.parser.method = .GET) ↔ (bytes "\r\nGET").dropWhile isCRLF = Method.GET.str :=
  method_recognised transcript [] rfl (by decide) (by decide) .GET

/-! ## Urls -/

/-- The state after the characters of a url. -/
def urlState (url : Bytes) : State := url.foldl parse_url_char .s_req_spaces_before_url

/-- The states in which a url can end. -/
def State.endsUrl : State → Bool
  | s_req_server | s_req_server_with_at | s_req_path | s_req_query_string_start
  | s_req_query_string | s_req_fragment_start | s_req_fragment => true
  | _ => false

theorem parse_url_char_dead (ch : UInt8) : parse_url_char .s_dead ch = .s_dead := by
  unfold parse_url_char
  split <;> rfl

theorem parse_url_char_blank {s : State} {ch : UInt8} (h : parse_url_char s ch ≠ .s_dead) :
    ch ≠ SP ∧ ch ≠ CR ∧ ch ≠ LF := by
  refine ⟨?_, ?_, ?_⟩ <;> rintro rfl <;> exact h (if_pos (by decide))

theorem url_part {s : State} {url : Bytes} (hne : url ≠ [])
    (h : url.foldl parse_url_char s ≠ .s_dead) : (url.foldl parse_url_char s).part = .url := by
  obtain ⟨url, ch, rfl⟩ := (List.eq_nil_or_concat url).resolve_left hne
  rw [List.concat_eq_append, List.foldl_concat] at h ⊢
  exact (parse_url_char_part (url.foldl parse_url_char s) ch).resolve_left h

section

variable {S u}

theorem feed_url_char (hpart : p.state.part = .url) (hmax : p.nread + 1 ≤ max_header_size)
    {ch : UInt8} (h : parse_url_char p.state ch ≠ .s_dead) (d : Bytes) :
    feed ⟨p, some (.url, d), 0, 0⟩ ch = .next [] ⟨{ p with
      state := parse_url_char p.state ch, nread := p.nread + 1 }, some (.url, d), 0, 0⟩ := by
  obtain ⟨hsp, hcr, hlf⟩ := parse_url_char_blank h
  have hschema : ∀ e : Exec, e.parser.state = p.state →
      req_schema e ch = e.lift (.ok { e.parser with state := parse_url_char p.state ch }) := by
    intro e he
    rw [req_schema, if_neg (by simp [hsp, hcr, hlf]), url_char, he, if_neg h]
  have hurl : ∀ e : Exec, e.parser.state = p.state →
      req_url e ch = e.lift (.ok { e.parser with state := parse_url_char p.state ch }) := by
    intro e he
    rw [req_url, if_neg hsp, if_neg (by simp [hcr, hlf]), url_char, he, if_neg h]
  have hparsing : p.state.parsingHeader = true := by
    revert hpart
    cases p.state <;> simp [State.part, State.parsingHeader]
  unfold feed
  rw [if_pos ⟨hparsing, rfl⟩, if_neg (by show ¬p.nread + 1 > max_header_size; omega)]
  cases hs : p.state <;> rw [hs] at hpart hschema hurl <;> cases hpart <;>
    simp only [dispatch, hs] <;> first | exact hschema _ rfl | exact hurl _ rfl

theorem feed_url_end (hends : p.state.endsUrl = true) (hmax : p.nread + 1 ≤ max_header_size)
    (d : Bytes) :
    feed ⟨p, some (.url, d), 0, 0⟩ SP = .next [.url p.method d]
      ⟨{ p with state := .s_req_http_start, nread := p.nread + 1 }, none, 0, 0⟩ := by
  have hparsing : p.state.parsingHeader = true := by
    revert hends
    cases p.state <;> simp [State.endsUrl, State.parsingHeader]
  unfold feed
  rw [if_pos ⟨hparsing, rfl⟩, if_neg (by show ¬p.nread + 1 > max_header_size; omega)]
  cases hs : p.state <;> rw [hs] at hends <;> cases hends <;> simp only [dispatch, hs] <;> rfl

/-- The characters of a url, which begins in another state after `CONNECT`. -/
theorem scan_url (hs : p.state = .s_req_spaces_before_url) {s : State}
    (hfirst : (if p.method = .CONNECT then .s_req_server_start else .s_req_spaces_before_url) = s)
    {url : Bytes} (hne : url ≠ []) (hurl : url.foldl parse_url_char s ≠ .s_dead)
    (hmax : p.nread + url.length ≤ max_header_size) :
    (Execution.between p u).scan S url =
      ⟨⟨{ p with state := url.foldl parse_url_char s, nread := p.nread + url.length },
        some (.url, url), 0, 0⟩, false, u⟩ := by
  induction url using List.reverseRecOn with
  | nil => exact absurd rfl hne
  | append_singleton url ch ih =>
    rw [List.length_append, List.length_singleton] at hmax ⊢
    rw [Execution.scan_append, Execution.scan_cons, Execution.scan_nil]
    by_cases hnil : url = []
    · subst hnil
      -- the first character is marked, and begins in the state for the method
      have hch : parse_url_char s ch ≠ .s_dead := hurl
      obtain ⟨hsp, -, -⟩ := parse_url_char_blank hch
      have hfeed := feed_between (p := p) (by rw [hs]; rfl) (by simpa using hmax) ch
      simp only [dispatch, Parser.count, hs, req_spaces_before_url] at hfeed
      rw [if_neg hsp, hfirst, url_char, if_neg hch] at hfeed
      show Execution.step S (Execution.between p u) ch = _
      unfold Execution.step Execution.between
      rw [if_neg (by simp), hfeed]
      rfl
    · rw [List.foldl_concat] at hurl ⊢
      -- the url so far is alive, since it is still after one more character
      have hlive : url.foldl parse_url_char s ≠ .s_dead := by
        intro hdead
        rw [hdead] at hurl
        exact hurl (parse_url_char_dead ch)
      rw [ih hnil hlive (by omega)]
      have hfeed := feed_url_char (p := { p with
        state := url.foldl parse_url_char s, nread := p.nread + url.length })
        (url_part hnil hlive) (by show p.nread + url.length + 1 ≤ _; omega) hurl url
      unfold Execution.step
      rw [if_neg (by simp), hfeed]
      rfl

/-- A url and the space after it. -/
theorem scan_url_end (hs : p.state = .s_req_spaces_before_url) {s : State}
    (hfirst : (if p.method = .CONNECT then .s_req_server_start else .s_req_spaces_before_url) = s)
    {url : Bytes} (hne : url ≠ []) (hurl : (url.foldl parse_url_char s).endsUrl = true)
    (hmax : p.nread + (url.length + 1) ≤ max_header_size) :
    (Execution.between p u).scan S (url ++ [SP]) =
      Execution.between { p with
        state := .s_req_http_start, nread := p.nread + (url.length + 1) }
        (S.call u (.url p.method url)) := by
  have hlive : url.foldl parse_url_char s ≠ .s_dead := by
    intro hdead
    rw [hdead] at hurl
    cases hurl
  rw [Execution.scan_append, scan_url hs hfirst hne hlive (by omega), Execution.scan_cons,
    Execution.scan_nil]
  have hfeed := feed_url_end (p := { p with
    state := url.foldl parse_url_char s, nread := p.nread + url.length }) hurl
    (by show p.nread + url.length + 1 ≤ _; omega) url
  unfold Execution.step
  rw [if_neg (by simp), hfeed]
  rfl

/-! ## Versions -/

/-- A version and the end of the line. -/
def version (major minor : UInt8) : Bytes :=
  bytes "HTTP/" ++ [major, chr '.', minor, CR, LF]

/-- The parser on its way through a version: `n` bytes on. -/
def Parser.versioned (p : Parser) (s : State) (major minor n : ℕ) : Parser :=
  { p with state := s, http_major := major, http_minor := minor, nread := p.nread + n }

theorem step_versioned (s' : State) (a' b' : ℕ) {s : State} {a b n : ℕ} {ch : UInt8}
    (hs : s.parsingHeader = true) (hmax : p.nread + n + 1 ≤ max_header_size)
    (h : dispatch ⟨p.versioned s a b (n + 1), none, 0, 0⟩ ch =
      Exec.lift ⟨p.versioned s a b (n + 1), none, 0, 0⟩ (.ok (p.versioned s' a' b' (n + 1)))) :
    (Execution.between (p.versioned s a b n) u).step S ch =
      Execution.between (p.versioned s' a' b' (n + 1)) u :=
  step_ok S u hs hmax h

theorem scan_version (hs : p.state = .s_req_http_start) {major minor : UInt8}
    (hmajor : isNum major = true) (hminor : isNum minor = true)
    (hmax : p.nread + 10 ≤ max_header_size) :
    (Execution.between p u).scan S (version major minor) =
      Execution.between (p.versioned .s_header_field_start (digit major) (digit minor) 10) u := by
  have htext : version major minor =
      [chr 'H', chr 'T', chr 'T', chr 'P', chr '/', major, chr '.', minor, CR, LF] := rfl
  have hfirst : p = p.versioned .s_req_http_start p.http_major p.http_minor 0 := by
    obtain ⟨state, header_state, flags, index, nread, length, major, minor, method, err, up⟩ := p
    cases hs
    rfl
  have hstart := congrArg (Execution.between · u) hfirst
  have hdot : ∀ a b n, dispatch ⟨p.versioned .s_req_http_major a b n, none, 0, 0⟩ major =
      Exec.lift ⟨p.versioned .s_req_http_major a b n, none, 0, 0⟩
        (.ok (p.versioned .s_req_http_dot (digit major) b n)) := by
    intro a b n
    show Exec.lift _ (req_http_major _ major) = _
    rw [req_http_major, if_neg (by simp [hmajor])]
    rfl
  have hend : ∀ a b n, dispatch ⟨p.versioned .s_req_http_minor a b n, none, 0, 0⟩ minor =
      Exec.lift ⟨p.versioned .s_req_http_minor a b n, none, 0, 0⟩
        (.ok (p.versioned .s_req_http_end a (digit minor) n)) := by
    intro a b n
    show Exec.lift _ (req_http_minor _ minor) = _
    rw [req_http_minor, if_neg (by simp [hminor])]
    rfl
  rw [htext, hstart]
  simp only [Execution.scan_cons, Execution.scan_nil]
  rw [step_versioned .s_req_http_H p.http_major p.http_minor rfl (by omega) rfl,
    step_versioned .s_req_http_HT p.http_major p.http_minor rfl (by omega) rfl,
    step_versioned .s_req_http_HTT p.http_major p.http_minor rfl (by omega) rfl,
    step_versioned .s_req_http_HTTP p.http_major p.http_minor rfl (by omega) rfl,
    step_versioned .s_req_http_major p.http_major p.http_minor rfl (by omega) rfl,
    step_versioned .s_req_http_dot (digit major) p.http_minor rfl (by omega) (hdot _ _ _),
    step_versioned .s_req_http_minor (digit major) p.http_minor rfl (by omega) rfl,
    step_versioned .s_req_http_end (digit major) (digit minor) rfl (by omega) (hend _ _ _),
    step_versioned .s_req_line_almost_done (digit major) (digit minor) rfl (by omega) rfl,
    step_versioned .s_header_field_start (digit major) (digit minor) rfl (by omega) rfl]

/-- The text of a request line. -/
def requestLine (m : Method) (url : Bytes) (major minor : UInt8) : Bytes :=
  m.str ++ [SP] ++ (url ++ [SP]) ++ version major minor

theorem requestLine_length (m : Method) (url : Bytes) (major minor : UInt8) :
    (requestLine m url major minor).length = m.str.length + url.length + 12 := by
  have hversion : (version major minor).length = 10 := rfl
  simp only [requestLine, List.length_append, List.length_singleton, hversion]
  omega

/-- The parser at the end of a request line. -/
def Parser.lined (p : Parser) (m : Method) (url : Bytes) (major minor : UInt8) : Parser :=
  { p with
    flags := {}, content_length := ULLONG_MAX, method := m, index := m.str.length + 1,
    state := .s_header_field_start, http_major := digit major, http_minor := digit minor,
    nread := p.nread + (requestLine m url major minor).length }

/-- **Request lines are read back**, all methods but `CONNECT` alike. -/
theorem scan_requestLine (hs : p.state = .s_start_req) {m : Method} (hm : m ≠ .CONNECT)
    {url : Bytes} (hurl : (urlState url).endsUrl = true) {major minor : UInt8}
    (hmajor : isNum major = true) (hminor : isNum minor = true)
    (hmax : p.nread + (requestLine m url major minor).length ≤ max_header_size) :
    (Execution.between p u).scan S (requestLine m url major minor) =
      Execution.between (p.lined m url major minor) (S.call u (.url m url)) := by
  rw [requestLine_length] at hmax
  have hne : url ≠ [] := by
    rintro rfl
    cases hurl
  unfold requestLine
  rw [Execution.scan_append, Execution.scan_append, scan_method hs m (by omega),
    scan_url_end rfl (if_neg hm) hne hurl
      (by show p.nread + (m.str.length + 1) + (url.length + 1) ≤ _; omega),
    scan_version rfl hmajor hminor
      (by show p.nread + (m.str.length + 1) + (url.length + 1) + 10 ≤ _; omega)]
  unfold Parser.lined Parser.versioned
  rw [requestLine_length]
  simp only [Parser.reading]
  congr 2
  omega

end

end Http
end SomoNet
