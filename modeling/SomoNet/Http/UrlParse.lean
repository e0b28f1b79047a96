import SomoNet.Http.UrlHost

/-!
# The first pass over a url

The first pass over the text of a url leaves its parts in their fields, with the authority in that of
the host.
-/

namespace SomoNet
namespace Http

open Walk UrlField

namespace UrlScan

/-! ## The characters of one field -/

/-- The characters of a field that begins with the first of them. -/
theorem along_part {c : UrlScan} {s : State} {uf : UrlField} (hold : c.old_uf ≠ some uf)
    (hfield : s.urlField = some uf) (hat : s ≠ .s_req_server_with_at) {ch : UInt8} {cs : Bytes}
    (hfirst : parse_url_char c.s ch = s) (hrest : ∀ x ∈ cs, parse_url_char s x = s) (i : ℕ) :
    along next c i (ch :: cs) =
      .ok ⟨s, c.u.put uf i (ch :: cs).length, some uf, c.found_at⟩ := by
  have hlive : s ≠ .s_dead := by
    rintro rfl
    cases hfield
  have hone : c.next i ch = .ok ⟨s, c.u.put uf i 1, some uf, c.found_at⟩ := by
    rw [next_eq, hfirst, if_neg hlive, hfield]
    simp [moved, took, field, hold, hat]
  have hgo : ∀ x ∈ cs, ∀ n k, next ⟨s, c.u.put uf i n, some uf, c.found_at⟩ k x =
      .ok ⟨s, c.u.put uf i (n + 1), some uf, c.found_at⟩ := by
    intro x hx n k
    rw [next_eq, hrest x hx, if_neg hlive, hfield]
    simp [moved, took, field, hat, Url.grow_put]
  have hcount : 1 + cs.length = (ch :: cs).length := by
    rw [List.length_cons]
    omega
  rw [along_cons, hone, ← hcount]
  exact along_count (g := fun n => (⟨s, c.u.put uf i n, some uf, c.found_at⟩ : UrlScan)) hgo 1 (i + 1)

/-- A delimiter. -/
theorem next_delimiter {c : UrlScan} {s : State} {ch : UInt8} (hs : parse_url_char c.s ch = s)
    (hlive : s ≠ .s_dead) (hfield : s.urlField = none) (i : ℕ) :
    c.next i ch = .ok { c with s := s } := by
  have hat : s ≠ .s_req_server_with_at := by
    rintro rfl
    cases hfield
  rw [next_eq, hs, if_neg hlive, hfield]
  simp [moved, took, hat]

/-! ## Authorities -/

/-- The `@`s are seen. -/
theorem server_at {s : State} (hs : s.inServer = true) {ch : UInt8}
    (hne : parse_url_char s ch ≠ .s_dead) :
    parse_url_char s ch = .s_req_server_with_at ↔ ch = chr '@' := by
  constructor
  · cases s <;> cases hs <;> simp only [parse_url_char] <;> split_ifs <;> simp_all
  · rintro rfl
    revert hne
    cases s <;> cases hs <;> decide

theorem server_cons {s : State} {ch : UInt8} {auth : Bytes} (hs : s.inServer = true)
    (h : Server s (ch :: auth)) :
    parse_url_char s ch ≠ .s_dead ∧ (parse_url_char s ch).inServer = true ∧
      (parse_url_char s ch).urlField = some UF_HOST ∧ Server (parse_url_char s ch) auth := by
  obtain ⟨hne, hrest⟩ := h.alive.cons
  have hch := h.inside ch List.mem_cons_self
  rcases server_char hs hne with ⟨hslash, -⟩ | ⟨hquery, -⟩ | ⟨-, hserver, hfield⟩
  · exact absurd hslash hch.1
  · exact absurd hquery hch.2
  · exact ⟨hne, hserver, hfield, hrest, fun c hc => h.inside c (List.mem_cons_of_mem _ hc)⟩

/-- The rest of an authority. -/
theorem along_server_rest {s : State} (hs : s.inServer = true) {auth : Bytes} (h : Server s auth)
    (u : Url) (j n i : ℕ) (found_at : Bool) :
    ∃ s', s'.inServer = true ∧
      along next ⟨s, u.put UF_HOST j n, some UF_HOST, found_at⟩ i auth =
        .ok ⟨s', u.put UF_HOST j (n + auth.length), some UF_HOST,
          found_at || decide (chr '@' ∈ auth)⟩ := by
  induction auth generalizing s n i found_at with
  | nil => exact ⟨s, hs, by simp⟩
  | cons ch auth ih =>
    obtain ⟨hne, hserver, hfield, hauth⟩ := server_cons hs h
    have hone : next ⟨s, u.put UF_HOST j n, some UF_HOST, found_at⟩ i ch =
        .ok ⟨parse_url_char s ch, u.put UF_HOST j (n + 1), some UF_HOST,
          found_at || decide (ch = chr '@')⟩ := by
      rw [next_eq]
      dsimp only
      rw [if_neg hne, hfield]
      simp [moved, took, field, Url.grow_put, server_at hs hne]
    obtain ⟨s', hs', hrest⟩ := ih hserver hauth (n + 1) (i + 1) (found_at || decide (ch = chr '@'))
    refine ⟨s', hs', ?_⟩
    rw [along_cons, hone]
    show along next _ (i + 1) auth = _
    rw [hrest]
    have hlen : n + 1 + auth.length = n + (ch :: auth).length := by
      rw [List.length_cons]
      omega
    rw [hlen]
    simp [Bool.or_assoc, eq_comm]

theorem along_server {c : UrlScan} (hold : c.old_uf ≠ some UF_HOST) (hs : c.s.inServer = true)
    {auth : Bytes} (hne : auth ≠ []) (h : Server c.s auth) (i : ℕ) :
    ∃ s', s'.inServer = true ∧ along next c i auth =
      .ok ⟨s', c.u.put UF_HOST i auth.length, some UF_HOST,
        c.found_at || decide (chr '@' ∈ auth)⟩ := by
  obtain ⟨ch, auth, rfl⟩ := List.exists_cons_of_ne_nil hne
  obtain ⟨hlive, hserver, hfield, hauth⟩ := server_cons hs h
  have hone : c.next i ch = .ok ⟨parse_url_char c.s ch, c.u.put UF_HOST i 1, some UF_HOST,
      c.found_at || decide (ch = chr '@')⟩ := by
    rw [next_eq, if_neg hlive, hfield]
    simp [moved, took, field, hold, server_at hs hlive]
  obtain ⟨s', hs', hrest⟩ := along_server_rest hserver hauth c.u i 1 (i + 1)
    (c.found_at || decide (ch = chr '@'))
  refine ⟨s', hs', ?_⟩
  have hlen : 1 + auth.length = (ch :: auth).length := by
    rw [List.length_cons]
    omega
  rw [along_cons, hone]
  show along next _ (i + 1) auth = _
  rw [hrest, hlen]
  simp [Bool.or_assoc, eq_comm]

/-! ## What comes after a path -/

/-- The loop gets through the characters and leaves the fields as in `u`; no more `@`s are seen. -/
def Leaves (c : UrlScan) (i : ℕ) (as : Bytes) (u : Url) : Prop :=
  ∃ c', along next c i as = .ok c' ∧ c'.u = u ∧ c'.found_at = c.found_at

theorem leaves_nil (c : UrlScan) (i : ℕ) : c.Leaves i [] c.u := ⟨c, rfl, rfl, rfl⟩

theorem Leaves.after {c c' : UrlScan} {i : ℕ} {as bs : Bytes} {u : Url}
    (h : along next c i as = .ok c') (hat : c'.found_at = c.found_at)
    (hrest : c'.Leaves (i + as.length) bs u) : c.Leaves i (as ++ bs) u := by
  obtain ⟨d, hd, hu, hfound⟩ := hrest
  refine ⟨d, ?_, hu, hfound.trans hat⟩
  rw [along_append, h]
  exact hd

theorem leaves_fragment_start {c : UrlScan} (hs : c.s = .s_req_fragment_start)
    (hold : c.old_uf ≠ some UF_FRAGMENT) {f : Bytes} (hf : ∀ ch ∈ f, isFragmentChar ch = true)
    (i : ℕ) : c.Leaves i f
      (c.u.putPart UF_FRAGMENT (i + (f.takeWhile isHash).length) (f.dropWhile isHash)) := by
  have hsplit : f.takeWhile isHash ++ f.dropWhile isHash = f := List.takeWhile_append_dropWhile
  -- the leading `#`s leave the machine where it is
  have hhashes : along next c i (f.takeWhile isHash) = .ok c := by
    refine along_count (g := fun _ => c) (fun ch hch n k => ?_) 0 i
    have hchar : parse_url_char c.s ch = .s_req_fragment_start := by
      rw [hs, fragment_start_char, if_pos (List.mem_takeWhile_imp hch)]
    rw [next_delimiter hchar nofun rfl, ← hs]
  have hrest : c.Leaves (i + (f.takeWhile isHash).length) (f.dropWhile isHash)
      (c.u.putPart UF_FRAGMENT (i + (f.takeWhile isHash).length) (f.dropWhile isHash)) := by
    cases hdrop : f.dropWhile isHash with
    | nil => exact leaves_nil c _
    | cons ch cs =>
      have hhead : isHash ch = false := by
        have hnot := List.head?_dropWhile_not isHash f
        rw [hdrop] at hnot
        exact hnot
      have hmem : ∀ x ∈ ch :: cs, isFragmentChar x = true := by
        intro x hx
        rw [← hdrop] at hx
        exact hf x (List.dropWhile_subset isHash hx)
      have hfirst : parse_url_char c.s ch = .s_req_fragment := by
        rw [hs, fragment_start_char, if_neg (by simp [hhead]), if_pos (hmem ch List.mem_cons_self)]
      have hgo : ∀ x ∈ cs, parse_url_char .s_req_fragment x = .s_req_fragment := by
        intro x hx
        rw [fragment_char, if_pos (hmem x (List.mem_cons_of_mem _ hx))]
      rw [Url.putPart_of_ne_nil _ _ _ (List.cons_ne_nil _ _)]
      exact ⟨_, along_part (s := .s_req_fragment) hold rfl (by decide) hfirst hgo _, rfl, rfl⟩
  have hall := Leaves.after hhashes rfl hrest
  rwa [hsplit] at hall

/-- A fragment, if there is one. -/
theorem leaves_fragment {c : UrlScan} {f : Option Bytes}
    (hs : f.isSome = true → parse_url_char c.s (chr '#') = .s_req_fragment_start)
    (hold : c.old_uf ≠ some UF_FRAGMENT) (hf : ∀ s ∈ f, ∀ ch ∈ s, isFragmentChar ch = true) (i : ℕ) :
    c.Leaves i (announced '#' f) (c.u.putPart UF_FRAGMENT
      (i + (chr '#' :: (f.getD []).takeWhile isHash).length) ((f.getD []).dropWhile isHash)) := by
  cases f with
  | none => exact leaves_nil c i
  | some f =>
    have hnext := next_delimiter (c := c) (hs rfl) nofun rfl i
    have hone : along next c i [chr '#'] = .ok { c with s := .s_req_fragment_start } := by
      rw [along_cons, hnext]
      rfl
    have hrest := leaves_fragment_start (c := { c with s := .s_req_fragment_start }) rfl hold
      (hf f rfl) (i + 1)
    have hlen : i + (chr '#' :: f.takeWhile isHash).length = i + 1 + (f.takeWhile isHash).length := by
      rw [List.length_cons]
      omega
    show c.Leaves i ([chr '#'] ++ f) (c.u.putPart UF_FRAGMENT (i + (chr '#' :: f.takeWhile isHash).length)
      (f.dropWhile isHash))
    rw [hlen]
    exact Leaves.after hone rfl hrest

/-- A query and a fragment, if there are any. -/
theorem leaves_tail {c : UrlScan} {as : Bytes} {q f : Option Bytes} (h : Tail as q f)
    (hquery : q.isSome = true → parse_url_char c.s (chr '?') = .s_req_query_string_start)
    (hhash : q = none → f.isSome = true → parse_url_char c.s (chr '#') = .s_req_fragment_start)
    (hold : c.old_uf ≠ some UF_QUERY ∧ c.old_uf ≠ some UF_FRAGMENT) (i : ℕ) :
    c.Leaves i as ((c.u.putPart UF_QUERY (i + 1) (q.getD [])).putPart UF_FRAGMENT
      (i + (announced '?' q ++ (chr '#' :: (f.getD []).takeWhile isHash)).length)
      ((f.getD []).dropWhile isHash)) := by
  rw [h.text]
  cases q with
  | none => exact leaves_fragment (hhash rfl) hold.2 h.fragment i
  | some q =>
    have hmark : c.next i (chr '?') = .ok { c with s := .s_req_query_string_start } :=
      next_delimiter (hquery rfl) nofun rfl i
    -- the query leaves a state in which a fragment may begin
    obtain ⟨d, hd, hdu, hdat, hdold, hds⟩ : ∃ d, along next c i (chr '?' :: q) = .ok d ∧
        d.u = c.u.putPart UF_QUERY (i + 1) q ∧ d.found_at = c.found_at ∧
        d.old_uf ≠ some UF_FRAGMENT ∧ parse_url_char d.s (chr '#') = .s_req_fragment_start := by
      cases q with
      | nil =>
        refine ⟨{ c with s := .s_req_query_string_start }, ?_, rfl, rfl, hold.2, rfl⟩
        rw [along_cons, hmark]
        rfl
      | cons ch cs =>
        have hchars := h.query _ rfl
        have hfirst : parse_url_char .s_req_query_string_start ch = .s_req_query_string := by
          rw [query_start_char, query_char, if_pos (hchars ch List.mem_cons_self)]
        have hgo : ∀ x ∈ cs, parse_url_char .s_req_query_string x = .s_req_query_string := by
          intro x hx
          rw [query_char, if_pos (hchars x (List.mem_cons_of_mem _ hx))]
        have hpart := along_part (c := { c with s := .s_req_query_string_start })
          (s := .s_req_query_string) hold.1 rfl (by decide) hfirst hgo (i + 1)
        refine ⟨⟨.s_req_query_string, _, some UF_QUERY, _⟩, ?_,
          (Url.putPart_of_ne_nil _ _ _ (List.cons_ne_nil _ _)).symm, rfl, by simp, rfl⟩
        rw [along_cons, hmark]
        exact hpart
    have hrest := leaves_fragment (fun _ => hds) hdold h.fragment (i + (chr '?' :: q).length)
    rw [hdu] at hrest
    have hall := Leaves.after hd hdat hrest
    rwa [Nat.add_assoc, ← List.length_append] at hall

/-- The fields behind the authority: the path is at `i`. -/
def behind (u : Url) (i : ℕ) (path : Bytes) (q f : Option Bytes) : Url :=
  ((u.putPart UF_PATH i path).putPart UF_QUERY (i + path.length + 1) (q.getD [])).putPart UF_FRAGMENT
    (i + path.length + (announced '?' q ++ (chr '#' :: (f.getD []).takeWhile isHash)).length)
    ((f.getD []).dropWhile isHash)

/-- A path and what comes after it. -/
theorem leaves_path {c : UrlScan} {ch : UInt8} {cs rest : Bytes} {q f : Option Bytes}
    (hfirst : parse_url_char c.s ch = .s_req_path) (hcs : ∀ x ∈ cs, isUrlChar x = true)
    (hold : c.old_uf ≠ some UF_PATH) (h : Tail rest q f) (i : ℕ) :
    c.Leaves i (ch :: cs ++ rest) (behind c.u i (ch :: cs) q f) := by
  have hgo : ∀ x ∈ cs, parse_url_char .s_req_path x = .s_req_path := by
    intro x hx
    rw [path_char, if_pos (hcs x hx)]
  have hpart := along_part (s := .s_req_path) hold rfl (by decide) hfirst hgo i
  unfold behind
  rw [Url.putPart_of_ne_nil _ _ _ (List.cons_ne_nil _ _)]
  exact Leaves.after hpart rfl (leaves_tail h (fun _ => rfl) (fun _ _ => rfl)
    ⟨by simp, by simp⟩ (i + (ch :: cs).length))

/-- What comes after an authority. -/
theorem leaves_rest {c : UrlScan} (hs : c.s.inServer = true) (hold : c.old_uf = some UF_HOST)
    {as path : Bytes} {q f : Option Bytes} (h : Rest as path q f) (i : ℕ) :
    c.Leaves i as (behind c.u i path q f) := by
  obtain ⟨hbegins, hfollows, rest, rfl, htail⟩ := h
  have hserver : ∀ s : State, s.inServer = true → parse_url_char s (chr '/') = .s_req_path ∧
      parse_url_char s (chr '?') = .s_req_query_string_start := by
    intro s hs
    cases s <;> cases hs <;> decide
  rcases hbegins with rfl | ⟨cs, rfl, hcs⟩
  · refine leaves_tail htail (fun _ => (hserver c.s hs).2) (fun hq hf => ?_) (by simp [hold]) i
    subst hq
    simp [hf] at hfollows
  · exact leaves_path (hserver c.s hs).1 hcs (by simp [hold]) htail i

/-- An authority and what comes after it. -/
theorem leaves_authority {c : UrlScan} (hs : c.s = .s_req_server_start)
    (hold : c.old_uf ≠ some UF_HOST) (hfound : c.found_at = false) {auth as path : Bytes}
    {q f : Option Bytes} (hauth : auth ≠ [] ∧ Server .s_req_server_start auth)
    (h : Rest as path q f) (i : ℕ) :
    ∃ c', along next c i (auth ++ as) = .ok c' ∧
      c'.u = behind (c.u.putPart UF_HOST i auth) (i + auth.length) path q f ∧
      c'.found_at = decide (chr '@' ∈ auth) := by
  have hserver : c.s.inServer = true := by
    rw [hs]
    rfl
  obtain ⟨s', hs', hrun⟩ := along_server hold hserver hauth.1 (hs ▸ hauth.2) i
  obtain ⟨c', hc', hu, hat⟩ := leaves_rest (c := ⟨s', _, some UF_HOST, _⟩) hs' rfl h (i + auth.length)
  refine ⟨c', ?_, ?_, ?_⟩
  · rw [along_append, hrun]
    exact hc'
  · rw [hu, Url.putPart_of_ne_nil _ _ _ hauth.1]
  · rw [hat, hfound, Bool.false_or]

/-- A schema and the delimiters after it. -/
theorem along_schema (u : Url) {name : Bytes} (hne : name ≠ [])
    (hname : ∀ ch ∈ name, isAlpha ch = true) :
    along next ⟨.s_req_spaces_before_url, u, none, false⟩ 0 (name ++ bytes "://") =
      .ok ⟨.s_req_server_start, u.putPart UF_SCHEMA 0 name, some UF_SCHEMA, false⟩ := by
  have halpha : ∀ ch, isAlpha ch = true → ch ≠ chr '/' ∧ ch ≠ chr '*' := fun _ h =>
    ⟨ne_of_class (by decide) h, ne_of_class (by decide) h⟩
  obtain ⟨ch, cs, rfl⟩ := List.exists_cons_of_ne_nil hne
  have hch := hname ch List.mem_cons_self
  have hfirst : parse_url_char .s_req_spaces_before_url ch = .s_req_schema := by
    have hpath := halpha ch hch
    rw [first_char, if_neg (by simp [hpath]), if_pos hch]
  have hgo : ∀ x ∈ cs, parse_url_char .s_req_schema x = .s_req_schema := by
    intro x hx
    rw [schema_char, if_pos (hname x (List.mem_cons_of_mem _ hx))]
  have hold : (⟨.s_req_spaces_before_url, u, none, false⟩ : UrlScan).old_uf ≠ some UF_SCHEMA := by simp
  have hpart := along_part hold rfl (by decide) hfirst hgo 0
  rw [along_append, hpart, Url.putPart_of_ne_nil _ _ _ (List.cons_ne_nil _ _)]
  rfl

end UrlScan

/-! ## The first pass -/

/-- **The fields of a url**, whatever was in them before; the host is not taken apart yet. -/
theorem parse_fields_shape {is_connect : Bool} {buf name lead auth path : Bytes} {q f : Option Bytes}
    (h : Shape is_connect buf name lead auth path q f) (u : Url) :
    ∃ c, parse_fields buf is_connect u = .ok c ∧ c.found_at = decide (chr '@' ∈ auth) ∧
      c.u = UrlScan.behind (({ u with port := 0, field_set := ∅ }.putPart UF_SCHEMA 0 name).putPart
        UF_HOST lead.length auth) (lead.length + auth.length) path q f := by
  obtain ⟨hopening, hfollows, rest, rfl, htail⟩ := h
  unfold parse_fields
  rw [walk_all]
  cases hopening with
  | path hch hcs =>
    obtain ⟨c, hc, hu, hat⟩ := UrlScan.leaves_path
      (c := ⟨.s_req_spaces_before_url, { u with port := 0, field_set := ∅ }, none, false⟩)
      (by rw [first_char, if_pos hch]) hcs (by simp) htail 0
    exact ⟨c, hc, hat, hu⟩
  | schema hne hname hauth hpath =>
    have hrest : Rest (path ++ rest) path q f := ⟨hpath, hfollows, rest, rfl, htail⟩
    obtain ⟨c, hc, hu, hat⟩ := UrlScan.leaves_authority
      (c := ⟨.s_req_server_start, { u with port := 0, field_set := ∅ }.putPart UF_SCHEMA 0 name,
        some UF_SCHEMA, false⟩) rfl (by simp) rfl hauth hrest
      (name ++ bytes "://").length
    refine ⟨c, ?_, hat, hu⟩
    rw [along_append]
    show Except.bind (along UrlScan.next ⟨.s_req_spaces_before_url, _, none, false⟩ 0 _) _ = _
    rw [UrlScan.along_schema _ hne hname, ← hc, Nat.zero_add]
    rfl
  | connect hauth hpath =>
    have hrest : Rest (path ++ rest) path q f := ⟨hpath, hfollows, rest, rfl, htail⟩
    obtain ⟨c, hc, hu, hat⟩ := UrlScan.leaves_authority
      (c := ⟨.s_req_server_start, { u with port := 0, field_set := ∅ }, none, false⟩) rfl (by simp)
      rfl hauth hrest 0
    exact ⟨c, hc, hat, hu⟩

/-! ## Authorities in a url -/

/-- A character of an authority that the first machine does not look at. -/
def isServerChar (ch : UInt8) : Bool := isUserinfoChar ch || ch = chr '[' || ch = chr ']'

theorem isServerChar_of {ch : UInt8}
    (h : isAlpha ch = true ∨ isNum ch = true ∨ ch ∈ bytes "%.-_~:") : isServerChar ch = true := by
  rcases h with h | h | h
  · simp [isServerChar, isUserinfoChar, h]
  · simp [isServerChar, isUserinfoChar, h]
  · have hall : (bytes "%.-_~:").all isServerChar = true := by decide
    exact List.all_eq_true.mp hall ch h

theorem isServerChar_ne {ch : UInt8} (h : isServerChar ch = true) :
    ch ≠ chr '/' ∧ ch ≠ chr '?' ∧ ch ≠ chr '@' :=
  ⟨ne_of_class (by decide) h, ne_of_class (by decide) h, ne_of_class (by decide) h⟩

/-- Such a character belongs to the authority. -/
theorem server_isServerChar {ch : UInt8} (h : isServerChar ch = true) {s : State} (hs : s.inServer = true) :
    parse_url_char s ch = .s_req_server := by
  obtain ⟨hslash, hmark, hat⟩ := isServerChar_ne h
  have hblank : ¬ (ch = SP ∨ ch = CR ∨ ch = LF ∨ ch = HT ∨ ch = 12) := by
    push Not
    refine ⟨?_, ?_, ?_, ?_, ?_⟩ <;> exact ne_of_class (by decide) h
  have hclass : isUserinfoChar ch ∨ ch = chr '[' ∨ ch = chr ']' := by
    simpa [isServerChar, or_assoc] using h
  unfold parse_url_char
  rw [if_neg hblank]
  cases s <;> cases hs <;> simp [hslash, hmark, hat, hclass]

theorem foldl_server {s : State} (hs : s.inServer = true) {as : Bytes}
    (has : ∀ ch ∈ as, isServerChar ch = true) : (as.foldl parse_url_char s).inServer = true := by
  induction as generalizing s with
  | nil => exact hs
  | cons ch as ih =>
    rw [List.foldl_cons, server_isServerChar (has ch List.mem_cons_self) hs]
    exact ih rfl fun c hc => has c (List.mem_cons_of_mem _ hc)

/-- No `@` has just been read. -/
theorem foldl_server_ne (as : Bytes) (has : ∀ ch ∈ as, isServerChar ch = true) :
    as.foldl parse_url_char .s_req_server_start ≠ .s_req_server_with_at := by
  have hchar : ∀ ch, isServerChar ch = true → ch ≠ chr '@' := fun _ => ne_of_class (by decide)
  obtain rfl | ⟨as, ch, rfl⟩ := List.eq_nil_or_concat as
  · exact nofun
  · rw [List.concat_eq_append] at has ⊢
    have hserver := foldl_server (s := .s_req_server_start) rfl fun c hc =>
      has c (List.mem_append_left _ hc)
    have hend := foldl_server (s := .s_req_server_start) rfl has
    have hch := hchar ch (has ch (by simp))
    rw [List.foldl_append] at hend ⊢
    intro heq
    refine hch ((UrlScan.server_at hserver ?_).mp heq)
    intro hdead
    rw [List.foldl_cons, List.foldl_nil, hdead] at hend
    cases hend

theorem isServerChar_of_host {ch : UInt8} (h : isHostChar ch = true) : isServerChar ch = true := by
  have hsub : bytes ".-" ⊆ bytes "%.-_~:" := by decide
  simp only [isHostChar, Bool.or_eq_true, decide_eq_true_eq, or_assoc] at h
  exact isServerChar_of (h.imp_right fun h => h.imp_right fun h => hsub h)

theorem isServerChar_of_zone {ch : UInt8} (h : isZoneChar ch = true) : isServerChar ch = true := by
  have hsub : bytes "%.-_~" ⊆ bytes "%.-_~:" := by decide
  simp only [isZoneChar, Bool.or_eq_true, decide_eq_true_eq, or_assoc] at h
  exact isServerChar_of (h.imp_right fun h => h.imp_right fun h => hsub h)

theorem isServerChar_of_address {ch : UInt8} (h : isAddressChar ch = true) :
    isServerChar ch = true := by
  simp only [isAddressChar, isHex, Bool.or_eq_true, decide_eq_true_eq] at h
  rcases h with ((hnum | halpha) | rfl) | rfl
  · exact isServerChar_of (Or.inr (Or.inl hnum))
  · have hle : lower ch ≤ chr 'z' := UInt8.le_trans halpha.2 (by decide)
    exact isServerChar_of (Or.inl (decide_eq_true ⟨halpha.1, hle⟩))
  · decide
  · decide

theorem serverChar_host {host : HostText} (h : host.Wf) :
    host.text ≠ [] ∧ ∀ ch ∈ host.text, isServerChar ch = true := by
  cases host with
  | name chars =>
    simp only [HostText.text, HostText.opening, HostText.kept, HostText.closing, List.nil_append,
      List.append_nil]
    exact ⟨h.1, fun ch hch => isServerChar_of_host (h.2 ch hch)⟩
  | v6 address zone =>
    refine ⟨List.cons_ne_nil _ _, fun ch hch => ?_⟩
    simp only [HostText.text, HostText.opening, HostText.kept, HostText.closing, List.mem_append,
      List.mem_singleton] at hch
    rcases hch with rfl | (hch | hch) | rfl
    · decide
    · exact isServerChar_of_address (h.2.1 ch hch)
    · cases zone with
      | none => cases hch
      | some z =>
        rcases List.mem_cons.mp hch with rfl | hch
        · decide
        · exact isServerChar_of_zone ((h.2.2 z rfl).2 ch hch)
    · decide

theorem serverChar_port {port : Option Bytes} (h : PortWf port) :
    ∀ ch ∈ announced ':' port, isServerChar ch = true := by
  intro ch hch
  cases port with
  | none => cases hch
  | some digits =>
    rcases List.mem_cons.mp hch with rfl | hch
    · decide
    · exact isServerChar_of (Or.inr (Or.inl ((h digits rfl).2 ch hch)))

/-- The text of an authority, up to the user. -/
theorem serverChar_host_port {a : Authority} (ha : a.Spelled) :
    ∀ ch ∈ a.host.text ++ announced ':' a.port, isServerChar ch = true := by
  intro ch hch
  rcases List.mem_append.mp hch with hch | hch
  · exact (serverChar_host ha.host).2 ch hch
  · exact serverChar_port ha.port ch hch

/-- The first machine takes an authority for one. -/
theorem server_authority {a : Authority} (ha : a.Spelled) :
    a.text ≠ [] ∧ Server .s_req_server_start a.text := by
  have hhost := serverChar_host_port ha
  have hne : a.text ≠ [] := by
    unfold Authority.text
    simp [(serverChar_host ha.host).1]
  refine ⟨hne, ?_⟩
  cases huser : a.userinfo with
  | none =>
    -- without a user the machine stays in the host
    have htext : a.text = a.host.text ++ announced ':' a.port := by
      simp [Authority.text, Authority.user, huser]
    rw [htext]
    refine ⟨fun hdead => ?_, fun ch hch => ?_⟩
    · have hserver := foldl_server (s := .s_req_server_start) rfl hhost
      rw [hdead] at hserver
      cases hserver
    · have hch' := isServerChar_ne (hhost ch hch)
      exact ⟨hch'.1, hch'.2.1⟩
  | some user =>
    have huserinfo : ∀ ch ∈ user, isServerChar ch = true := by
      intro ch hch
      simp [isServerChar, ha.userinfo user huser ch hch]
    have htext : a.text = user ++ (chr '@' :: (a.host.text ++ announced ':' a.port)) := by
      simp [Authority.text, Authority.user, huser]
    rw [htext]
    refine ⟨fun hdead => ?_, fun ch hch => ?_⟩
    · -- the user, if any, and the `@` lead to the host
      have hat : ∀ s : State, s.inServer = true → s ≠ .s_req_server_with_at →
          parse_url_char s (chr '@') = .s_req_server_with_at := by
        intro s hs hne
        cases s <;> cases hs <;> first | decide | exact absurd rfl hne
      have hserver := foldl_server (s := .s_req_server_start) rfl huserinfo
      have hplain := foldl_server_ne user huserinfo
      rw [List.foldl_append, List.foldl_cons, hat _ hserver hplain] at hdead
      have hend := foldl_server (s := .s_req_server_with_at) rfl hhost
      rw [hdead] at hend
      cases hend
    · rcases List.mem_append.mp hch with hch | hch
      · have hch' := isServerChar_ne (huserinfo ch hch)
        exact ⟨hch'.1, hch'.2.1⟩
      · rcases List.mem_cons.mp hch with rfl | hch
        · decide
        · have hch' := isServerChar_ne (hhost ch hch)
          exact ⟨hch'.1, hch'.2.1⟩

/-- An authority has an `@` exactly if it has a user. -/
theorem mem_at_iff {a : Authority} (ha : a.Spelled) : chr '@' ∈ a.text ↔ a.userinfo.isSome = true := by
  have hnot : chr '@' ∉ a.host.text ++ announced ':' a.port := fun hmem =>
    (isServerChar_ne (serverChar_host_port ha _ hmem)).2.2 rfl
  unfold Authority.text Authority.user
  rw [List.mem_append, or_iff_left hnot]
  cases a.userinfo <;> simp

end Http
end SomoNet
