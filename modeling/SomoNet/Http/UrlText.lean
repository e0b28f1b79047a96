import SomoNet.Http.RequestLine
import SomoNet.Http.UrlBounds
import SomoNet.Lib.Numerals

/-!
# The grammar of urls

What a url is made of, and how its parts are written one after the other. The characters that the two
state machines of the url parser get through without dying are exactly such texts: here, that they
are no others.
-/

namespace SomoNet
namespace Http

open UrlField

/-! ## Parts -/

/-- A part that may be left out, behind the character that announces it. -/
def announced (c : Char) : Option Bytes → Bytes
  | none => []
  | some part => chr c :: part

/-- A character of an address of version 6. -/
def isAddressChar (ch : UInt8) : Bool := isHex ch || ch = chr ':' || ch = chr '.'

/-- A zone identifier, which is not empty. -/
def ZoneWf (zone : Option Bytes) : Prop := ∀ z ∈ zone, z ≠ [] ∧ ∀ ch ∈ z, isZoneChar ch = true

/-- A port, which has a digit. -/
def PortWf (port : Option Bytes) : Prop :=
  ∀ digits ∈ port, digits ≠ [] ∧ ∀ ch ∈ digits, isNum ch = true

/-- A name, or an address of version 6 in brackets. -/
inductive HostText
  | name (chars : Bytes)
  | v6 (address : Bytes) (zone : Option Bytes)

namespace HostText

/-- What the field of the host holds. -/
def kept : HostText → Bytes
  | name chars => chars
  | v6 address zone => address ++ announced '%' zone

def opening : HostText → Bytes
  | name _ => []
  | v6 _ _ => [chr '[']

def closing : HostText → Bytes
  | name _ => []
  | v6 _ _ => [chr ']']

def text (h : HostText) : Bytes := h.opening ++ (h.kept ++ h.closing)

def Wf : HostText → Prop
  | name chars => chars ≠ [] ∧ ∀ ch ∈ chars, isHostChar ch = true
  | v6 address zone => address ≠ [] ∧ (∀ ch ∈ address, isAddressChar ch = true) ∧ ZoneWf zone

end HostText

structure Authority where
  userinfo : Option Bytes
  host : HostText
  port : Option Bytes

namespace Authority

/-- The user, with the character that ends it. -/
def user (a : Authority) : Bytes := a.userinfo.elim [] (· ++ [chr '@'])

def text (a : Authority) : Bytes := a.user ++ (a.host.text ++ announced ':' a.port)

/-- The characters are right. -/
structure Spelled (a : Authority) : Prop where
  userinfo : ∀ user ∈ a.userinfo, ∀ ch ∈ user, isUserinfoChar ch = true
  host : a.host.Wf
  port : PortWf a.port

end Authority

/-- What stands before the path. -/
inductive Front
  | none
  | schema (name : Bytes) (a : Authority)
  | connect (a : Authority)

namespace Front

/-- What stands before the authority. -/
def lead : Front → Bytes
  | schema name _ => name ++ bytes "://"
  | _ => []

def authority : Front → Option Authority
  | none => Option.none
  | schema _ a | connect a => some a

def text (f : Front) : Bytes := f.lead ++ f.authority.elim [] Authority.text

/-- The schema. -/
def name : Front → Bytes
  | schema name _ => name
  | _ => []

/-- The paths that may follow: after an authority it may be missing. -/
def Path : Front → Bytes → Prop
  | none, path =>
    ∃ ch cs, path = ch :: cs ∧ (ch = chr '/' ∨ ch = chr '*') ∧ ∀ c ∈ cs, isUrlChar c = true
  | _, path => path = [] ∨ ∃ cs, path = chr '/' :: cs ∧ ∀ c ∈ cs, isUrlChar c = true

/-- Only a `CONNECT` request has an authority without a schema. -/
def Wf (is_connect : Bool) : Front → Prop
  | none => is_connect = false
  | schema name a => is_connect = false ∧ (name ≠ [] ∧ ∀ ch ∈ name, isAlpha ch = true) ∧ a.Spelled
  | connect a => is_connect = true ∧ a.Spelled

end Front

/-- The parts of a url. -/
structure UrlText where
  front : Front
  path : Bytes
  query : Option Bytes
  fragment : Option Bytes

/-- A character of a query. -/
def isQueryChar (ch : UInt8) : Bool := isUrlChar ch ∨ ch = chr '?'

/-- A character of a fragment. -/
def isFragmentChar (ch : UInt8) : Bool := isUrlChar ch ∨ ch = chr '?' ∨ ch = chr '#'

def isHash (ch : UInt8) : Bool := ch = chr '#'

/-- A character that a class leaves out is none of its characters. -/
theorem ne_of_class {p : UInt8 → Bool} {c ch : UInt8} (hc : p c = false) (hch : p ch = true) : ch ≠ c := by
  rintro rfl
  rw [hc] at hch
  cases hch

namespace UrlText

def text (t : UrlText) : Bytes :=
  t.front.text ++ (t.path ++ (announced '?' t.query ++ announced '#' t.fragment))

/-- What a field holds. A fragment is kept without the `#`s that it begins with. -/
def part (t : UrlText) : UrlField → Bytes
  | UF_SCHEMA => t.front.name
  | UF_USERINFO => (t.front.authority.bind Authority.userinfo).getD []
  | UF_HOST => t.front.authority.elim [] fun a => a.host.kept
  | UF_PORT => (t.front.authority.bind Authority.port).getD []
  | UF_PATH => t.path
  | UF_QUERY => t.query.getD []
  | UF_FRAGMENT => (t.fragment.getD []).dropWhile isHash

/-- What stands before a field. -/
def before (t : UrlText) : UrlField → Bytes
  | UF_SCHEMA => []
  | UF_USERINFO => t.front.lead
  | UF_HOST => t.front.lead ++ t.front.authority.elim [] fun a => a.user ++ a.host.opening
  | UF_PORT =>
    t.front.lead ++ t.front.authority.elim [] fun a => a.user ++ (a.host.text ++ [chr ':'])
  | UF_PATH => t.front.text
  | UF_QUERY => t.front.text ++ (t.path ++ [chr '?'])
  | UF_FRAGMENT => t.front.text ++ (t.path ++ (announced '?' t.query ++
      (chr '#' :: (t.fragment.getD []).takeWhile isHash)))

/-- The parts have the right characters. -/
structure Spelled (t : UrlText) (is_connect : Bool) : Prop where
  front : t.front.Wf is_connect
  path : t.front.Path t.path
  query : ∀ q ∈ t.query, ∀ ch ∈ q, isQueryChar ch = true
  fragment : ∀ f ∈ t.fragment, ∀ ch ∈ f, isFragmentChar ch = true
  /-- A fragment does not come right after an authority. -/
  follows : t.fragment.isSome = true → t.path ≠ [] ∨ t.query.isSome = true

/-- A url. The port is a number of 16 bits; `CONNECT` requests have a host and a port and no other
field. -/
structure Wf (t : UrlText) (is_connect : Bool) : Prop where
  spelled : t.Spelled is_connect
  port : Numerals.value 10 (t.part UF_PORT) ≤ 0xffff
  connect : is_connect = true → ∀ uf, t.part uf ≠ [] ↔ uf = UF_HOST ∨ uf = UF_PORT

/-- The fields that hold the parts of the url: the others stay as they were. -/
def located (t : UrlText) (u : Url) : Url where
  field_set := Finset.univ.filter fun uf => t.part uf ≠ []
  port := (Numerals.value 10 (t.part UF_PORT)).toUInt16
  field_data uf :=
    if t.part uf = [] then u.field_data uf
    else ⟨(t.before uf).length.toUInt16, (t.part uf).length.toUInt16⟩

end UrlText

/-! ## The characters of a url -/

/-- A run of the first state machine that has died does not come back. -/
theorem foldl_url_dead (as : Bytes) : as.foldl parse_url_char .s_dead = .s_dead := by
  induction as with
  | nil => rfl
  | cons ch as ih => rw [List.foldl_cons, parse_url_char_dead, ih]

/-- The characters get through the first state machine. -/
def Alive (s : State) (as : Bytes) : Prop := as.foldl parse_url_char s ≠ .s_dead

theorem Alive.cons {s : State} {ch : UInt8} {as : Bytes} (h : Alive s (ch :: as)) :
    parse_url_char s ch ≠ .s_dead ∧ Alive (parse_url_char s ch) as := by
  refine ⟨fun hdead => h ?_, h⟩
  rw [List.foldl_cons, hdead, foldl_url_dead]

/-- The check for blanks makes no difference where a blank is refused anyway. -/
theorem unless_blank {s : State} {f : UInt8 → State}
    (hchar : ∀ ch, parse_url_char s ch =
      if ch = SP ∨ ch = CR ∨ ch = LF ∨ ch = HT ∨ ch = 12 then .s_dead else f ch)
    (hdead : [SP, CR, LF, HT, 12].map f = List.replicate 5 .s_dead) (ch : UInt8) :
    parse_url_char s ch = f ch := by
  rw [hchar]
  split
  next hblank =>
    have hmem : ch ∈ [SP, CR, LF, HT, 12] := by simpa using hblank
    exact (List.eq_of_mem_replicate (hdead ▸ List.mem_map_of_mem hmem)).symm
  next => rfl

theorem fragment_char (ch : UInt8) : parse_url_char .s_req_fragment ch =
    if isFragmentChar ch then .s_req_fragment else .s_dead := by
  have hchar : parse_url_char .s_req_fragment ch =
      if isUrlChar ch ∨ ch = chr '?' ∨ ch = chr '#' then .s_req_fragment else .s_dead :=
    unless_blank (fun _ => rfl) rfl ch
  rw [hchar]
  simp only [isFragmentChar, decide_eq_true_eq]

theorem fragment_start_char (ch : UInt8) : parse_url_char .s_req_fragment_start ch =
    if isHash ch then .s_req_fragment_start
    else if isFragmentChar ch then .s_req_fragment else .s_dead := by
  have hchar : parse_url_char .s_req_fragment_start ch =
      if isUrlChar ch then .s_req_fragment
      else if ch = chr '?' then .s_req_fragment
      else if ch = chr '#' then .s_req_fragment_start else .s_dead := unless_blank (fun _ => rfl) rfl ch
  rw [hchar]
  by_cases hhash : ch = chr '#'
  · subst hhash
    rfl
  · simp only [isHash, isFragmentChar, hhash, or_false, if_false, decide_eq_true_eq]
    split_ifs <;> simp_all

theorem query_char (ch : UInt8) : parse_url_char .s_req_query_string ch =
    if isQueryChar ch then .s_req_query_string
    else if ch = chr '#' then .s_req_fragment_start else .s_dead := by
  have hchar : parse_url_char .s_req_query_string ch =
      if isUrlChar ch then .s_req_query_string
      else if ch = chr '?' then .s_req_query_string
      else if ch = chr '#' then .s_req_fragment_start else .s_dead := unless_blank (fun _ => rfl) rfl ch
  rw [hchar]
  simp only [isQueryChar, decide_eq_true_eq]
  split_ifs <;> simp_all

theorem query_start_char (ch : UInt8) : parse_url_char .s_req_query_string_start ch =
    parse_url_char .s_req_query_string ch := rfl

theorem path_char (ch : UInt8) : parse_url_char .s_req_path ch =
    if isUrlChar ch then .s_req_path
    else if ch = chr '?' then .s_req_query_string_start
    else if ch = chr '#' then .s_req_fragment_start else .s_dead :=
  unless_blank (fun _ => rfl) rfl ch

theorem alive_fragment {as : Bytes} (h : Alive .s_req_fragment as) :
    ∀ ch ∈ as, isFragmentChar ch = true := by
  induction as with
  | nil => simp
  | cons ch as ih =>
    obtain ⟨hne, hrest⟩ := h.cons
    rw [fragment_char] at hne hrest
    split_ifs at hne hrest with hch
    · exact List.forall_mem_cons.mpr ⟨hch, ih hrest⟩
    · exact absurd rfl hne

theorem alive_fragment_start {as : Bytes} (h : Alive .s_req_fragment_start as) :
    ∀ ch ∈ as, isFragmentChar ch = true := by
  induction as with
  | nil => simp
  | cons ch as ih =>
    obtain ⟨hne, hrest⟩ := h.cons
    rw [fragment_start_char] at hne hrest
    split_ifs at hne hrest with hhash hch
    · have hfrag : isFragmentChar ch = true := by
        rw [of_decide_eq_true hhash]
        decide
      exact List.forall_mem_cons.mpr ⟨hfrag, ih hrest⟩
    · exact List.forall_mem_cons.mpr ⟨hch, alive_fragment hrest⟩
    · exact absurd rfl hne

/-- What comes after a path. -/
structure Tail (as : Bytes) (query fragment : Option Bytes) : Prop where
  text : as = announced '?' query ++ announced '#' fragment
  query : ∀ q ∈ query, ∀ ch ∈ q, isQueryChar ch = true
  fragment : ∀ f ∈ fragment, ∀ ch ∈ f, isFragmentChar ch = true

theorem tail_hash {as : Bytes} (h : Alive .s_req_fragment_start as) :
    Tail (chr '#' :: as) none (some as) where
  text := rfl
  query q hq := by cases hq
  fragment f hf := by
    cases hf
    exact alive_fragment_start h

theorem alive_query {as : Bytes} (h : Alive .s_req_query_string as) :
    ∃ q f, Tail (chr '?' :: as) (some q) f := by
  induction as with
  | nil => exact ⟨[], none, rfl, by simp, by simp⟩
  | cons ch as ih =>
    obtain ⟨hne, hrest⟩ := h.cons
    rw [query_char] at hne hrest
    split_ifs at hne hrest with hch hhash
    · obtain ⟨q, f, htext, hq, hf⟩ := ih hrest
      refine ⟨ch :: q, f, ?_, ?_, hf⟩
      · have htail := List.cons_inj_right _ |>.mp htext
        rw [htail]
        rfl
      · intro q' hq'
        cases hq'
        exact List.forall_mem_cons.mpr ⟨hch, hq q rfl⟩
    · subst hhash
      obtain ⟨-, -, hf⟩ := tail_hash hrest
      exact ⟨[], some as, rfl, by simp, hf⟩
    · exact absurd rfl hne

theorem alive_query_start {as : Bytes} (h : Alive .s_req_query_string_start as) :
    ∃ q f, Tail (chr '?' :: as) (some q) f := by
  cases as with
  | nil => exact ⟨[], none, rfl, by simp, by simp⟩
  | cons ch as => exact alive_query h

theorem alive_path {as : Bytes} (h : Alive .s_req_path as) :
    ∃ p rest q f, as = p ++ rest ∧ (∀ ch ∈ p, isUrlChar ch = true) ∧ Tail rest q f := by
  induction as with
  | nil => exact ⟨[], [], none, none, rfl, by simp, rfl, by simp, by simp⟩
  | cons ch as ih =>
    obtain ⟨hne, hrest⟩ := h.cons
    rw [path_char] at hne hrest
    split_ifs at hne hrest with hch hquery hhash
    · obtain ⟨p, rest, q, f, htext, hp, htail⟩ := ih hrest
      exact ⟨ch :: p, rest, q, f, by rw [htext]; rfl, List.forall_mem_cons.mpr ⟨hch, hp⟩, htail⟩
    · subst hquery
      obtain ⟨q, f, htail⟩ := alive_query_start hrest
      exact ⟨[], _, some q, f, rfl, by simp, htail⟩
    · subst hhash
      exact ⟨[], _, none, some as, rfl, by simp, tail_hash hrest⟩
    · exact absurd rfl hne

/-! ## Authorities, unparsed -/

/-- A state of the first machine within an authority. -/
def State.inServer : State → Bool
  | s_req_server_start | s_req_server | s_req_server_with_at => true
  | _ => false

/-- A character within an authority ends it or goes on with it. -/
theorem server_char {s : State} (hs : s.inServer = true) {ch : UInt8}
    (hne : parse_url_char s ch ≠ .s_dead) :
    (ch = chr '/' ∧ parse_url_char s ch = .s_req_path) ∨
      (ch = chr '?' ∧ parse_url_char s ch = .s_req_query_string_start) ∨
      (ch ≠ chr '/' ∧ ch ≠ chr '?') ∧ (parse_url_char s ch).inServer = true ∧
        (parse_url_char s ch).urlField = some UF_HOST := by
  by_cases hslash : ch = chr '/'
  · subst hslash
    refine Or.inl ⟨rfl, ?_⟩
    cases s <;> cases hs <;> decide
  by_cases hquery : ch = chr '?'
  · subst hquery
    refine Or.inr (Or.inl ⟨rfl, ?_⟩)
    cases s <;> cases hs <;> decide
  refine Or.inr (Or.inr ⟨⟨hslash, hquery⟩, ?_⟩)
  revert hne
  cases s <;> cases hs <;>
    simp only [parse_url_char, hslash, hquery, reduceCtorEq, false_and, true_and, if_false] <;>
    split_ifs <;> simp [State.inServer, State.urlField]

/-- The characters of an authority, as the first machine takes them. -/
structure Server (s : State) (auth : Bytes) : Prop where
  alive : Alive s auth
  inside : ∀ ch ∈ auth, ch ≠ chr '/' ∧ ch ≠ chr '?'

/-- What may come after an authority. -/
structure Rest (as path : Bytes) (query fragment : Option Bytes) : Prop where
  begins : path = [] ∨ ∃ cs, path = chr '/' :: cs ∧ ∀ ch ∈ cs, isUrlChar ch = true
  follows : fragment.isSome = true → path ≠ [] ∨ query.isSome = true
  tail : ∃ rest, as = path ++ rest ∧ Tail rest query fragment

theorem alive_server {s : State} (hs : s.inServer = true) {as : Bytes} (h : Alive s as) :
    ∃ auth rest path q f, as = auth ++ rest ∧ Server s auth ∧ Rest rest path q f := by
  induction as generalizing s with
  | nil =>
    refine ⟨[], [], [], none, none, rfl, ⟨h, by simp⟩, Or.inl rfl, by simp, [], rfl, rfl, ?_, ?_⟩ <;>
      simp
  | cons ch as ih =>
    have halive : Alive s [] := by
      intro hdead
      cases hdead
      cases hs
    obtain ⟨hne, hrest⟩ := h.cons
    rcases server_char hs hne with ⟨rfl, hpath⟩ | ⟨rfl, hquery⟩ | ⟨hch, hserver, -⟩
    · rw [hpath] at hrest
      obtain ⟨p, rest, q, f, rfl, hp, htail⟩ := alive_path hrest
      exact ⟨[], _, chr '/' :: p, q, f, rfl, ⟨halive, by simp⟩, Or.inr ⟨p, rfl, hp⟩,
        fun _ => Or.inl (List.cons_ne_nil _ _), rest, rfl, htail⟩
    · rw [hquery] at hrest
      obtain ⟨q, f, htail⟩ := alive_query_start hrest
      exact ⟨[], _, [], some q, f, rfl, ⟨halive, by simp⟩, Or.inl rfl, fun _ => Or.inr rfl,
        _, rfl, htail⟩
    · obtain ⟨auth, rest, path, q, f, rfl, hauth, hrest⟩ := ih hserver hrest
      exact ⟨ch :: auth, rest, path, q, f, rfl,
        ⟨hauth.alive, List.forall_mem_cons.mpr ⟨hch, hauth.inside⟩⟩, hrest⟩

/-! ## Schemas -/

/-- Some character belongs to the field. -/
def Labelled (uf : UrlField) : State → Bytes → Prop
  | _, [] => False
  | s, ch :: as => (parse_url_char s ch).urlField = some uf ∨ Labelled uf (parse_url_char s ch) as

/-- A state of the first machine behind the authority. -/
def State.late : State → Bool
  | s_dead | s_req_path | s_req_query_string_start | s_req_query_string | s_req_fragment_start
  | s_req_fragment => true
  | _ => false

theorem late_char {s : State} (hs : s.late = true) (ch : UInt8) :
    (parse_url_char s ch).late = true ∧ (parse_url_char s ch).urlField ≠ some UF_HOST := by
  cases s <;> cases hs <;> simp only [parse_url_char] <;> split_ifs <;> decide

theorem not_labelled_late {s : State} (hs : s.late = true) (as : Bytes) :
    ¬ Labelled UF_HOST s as := by
  induction as generalizing s with
  | nil => exact id
  | cons ch as ih =>
    obtain ⟨hlate, hfield⟩ := late_char hs ch
    rintro (h | h)
    · exact hfield h
    · exact ih hlate h

/-- An authority with a character that belongs to the host is not empty. -/
theorem labelled_server {s : State} (hs : s.inServer = true) {as : Bytes} (h : Alive s as)
    (hhost : Labelled UF_HOST s as) :
    ∃ auth rest path q f, as = auth ++ rest ∧ auth ≠ [] ∧ Server s auth ∧ Rest rest path q f := by
  cases as with
  | nil => exact hhost.elim
  | cons ch as =>
    obtain ⟨hne, hrest⟩ := h.cons
    have hgone : parse_url_char s ch = .s_req_path ∨ parse_url_char s ch = .s_req_query_string_start →
        False := by
      rintro (hstate | hstate) <;> rcases hhost with hhost | hhost <;> rw [hstate] at hhost
      · cases hhost
      · exact not_labelled_late rfl as hhost
      · cases hhost
      · exact not_labelled_late rfl as hhost
    rcases server_char hs hne with ⟨-, hpath⟩ | ⟨-, hquery⟩ | ⟨hch, hserver, -⟩
    · exact (hgone (Or.inl hpath)).elim
    · exact (hgone (Or.inr hquery)).elim
    · obtain ⟨auth, rest, path, q, f, rfl, hauth, hrest⟩ := alive_server hserver hrest
      exact ⟨ch :: auth, rest, path, q, f, rfl, List.cons_ne_nil _ _,
        ⟨hauth.alive, List.forall_mem_cons.mpr ⟨hch, hauth.inside⟩⟩, hrest⟩

theorem schema_char (ch : UInt8) : parse_url_char .s_req_schema ch =
    if isAlpha ch then .s_req_schema
    else if ch = chr ':' then .s_req_schema_slash else .s_dead :=
  unless_blank (fun _ => rfl) rfl ch

theorem schema_slash_char (ch : UInt8) : parse_url_char .s_req_schema_slash ch =
    if ch = chr '/' then .s_req_schema_slash_slash else .s_dead :=
  unless_blank (fun _ => rfl) rfl ch

theorem schema_slash_slash_char (ch : UInt8) : parse_url_char .s_req_schema_slash_slash ch =
    if ch = chr '/' then .s_req_server_start else .s_dead :=
  unless_blank (fun _ => rfl) rfl ch

/-- A character that belongs to the host comes after the two slashes. -/
theorem labelled_slashes {as : Bytes} (h : Alive .s_req_schema_slash as)
    (hhost : Labelled UF_HOST .s_req_schema_slash as) :
    ∃ cs, as = bytes "//" ++ cs ∧ Alive .s_req_server_start cs ∧
      Labelled UF_HOST .s_req_server_start cs := by
  cases as with
  | nil => exact hhost.elim
  | cons ch as =>
    obtain ⟨hne, hrest⟩ := h.cons
    have hlater := hhost
    unfold Labelled at hlater
    rw [schema_slash_char] at hne hrest hlater
    split_ifs at hne hrest hlater with hch
    · replace hlater := hlater.resolve_left nofun
      cases as with
      | nil => exact hlater.elim
      | cons ch' as =>
        obtain ⟨hne', hrest'⟩ := hrest.cons
        unfold Labelled at hlater
        rw [schema_slash_slash_char] at hne' hrest' hlater
        split_ifs at hne' hrest' hlater with hch'
        · exact ⟨as, by rw [hch, hch']; rfl, hrest', hlater.resolve_left nofun⟩
        · exact absurd rfl hne'
    · exact absurd rfl hne

theorem labelled_schema {as : Bytes} (h : Alive .s_req_schema as)
    (hhost : Labelled UF_HOST .s_req_schema as) :
    ∃ name cs, as = name ++ (bytes "://" ++ cs) ∧ (∀ ch ∈ name, isAlpha ch = true) ∧
      Alive .s_req_server_start cs ∧ Labelled UF_HOST .s_req_server_start cs := by
  induction as with
  | nil => exact hhost.elim
  | cons ch as ih =>
    obtain ⟨hne, hrest⟩ := h.cons
    unfold Labelled at hhost
    rw [schema_char] at hne hrest hhost
    split_ifs at hne hrest hhost with hch hcolon
    · obtain ⟨name, cs, rfl, hname, hcs⟩ := ih hrest (hhost.resolve_left nofun)
      exact ⟨ch :: name, cs, rfl, List.forall_mem_cons.mpr ⟨hch, hname⟩, hcs⟩
    · obtain ⟨cs, rfl, hcs⟩ := labelled_slashes hrest (hhost.resolve_left nofun)
      exact ⟨[], cs, by rw [hcolon]; rfl, by simp, hcs⟩
    · exact absurd rfl hne

/-! ## Urls, with their authority unparsed -/

/-- The beginning of a url: its schema, what stands before its authority, the authority, and its
path. -/
inductive Opening : Bool → Bytes → Bytes → Bytes → Bytes → Prop
  | path {ch : UInt8} {cs : Bytes} (hch : ch = chr '/' ∨ ch = chr '*')
      (hcs : ∀ c ∈ cs, isUrlChar c = true) : Opening false [] [] [] (ch :: cs)
  | schema {name auth path : Bytes} (hne : name ≠ []) (hname : ∀ ch ∈ name, isAlpha ch = true)
      (hauth : auth ≠ [] ∧ Server .s_req_server_start auth)
      (hpath : path = [] ∨ ∃ cs, path = chr '/' :: cs ∧ ∀ ch ∈ cs, isUrlChar ch = true) :
      Opening false name (name ++ bytes "://") auth path
  | connect {auth path : Bytes} (hauth : auth ≠ [] ∧ Server .s_req_server_start auth)
      (hpath : path = [] ∨ ∃ cs, path = chr '/' :: cs ∧ ∀ ch ∈ cs, isUrlChar ch = true) :
      Opening true [] [] auth path

/-- The text of a url, up to its authority. -/
structure Shape (is_connect : Bool) (buf name lead auth path : Bytes) (query fragment : Option Bytes) :
    Prop where
  opening : Opening is_connect name lead auth path
  follows : fragment.isSome = true → path ≠ [] ∨ query.isSome = true
  tail : ∃ rest, buf = lead ++ (auth ++ (path ++ rest)) ∧ Tail rest query fragment

/-- The state in which the first machine begins. -/
def State.first (is_connect : Bool) : State :=
  if is_connect then .s_req_server_start else .s_req_spaces_before_url

theorem first_char (ch : UInt8) : parse_url_char .s_req_spaces_before_url ch =
    if ch = chr '/' ∨ ch = chr '*' then .s_req_path
    else if isAlpha ch then .s_req_schema else .s_dead :=
  unless_blank (fun _ => rfl) rfl ch

/-- **The first machine** gets through the texts of urls. An authority is there after a schema and in
a `CONNECT` request. -/
theorem shape_of_alive {is_connect : Bool} {buf : Bytes} (hne : buf ≠ [])
    (h : Alive (State.first is_connect) buf)
    (hhost : is_connect = true ∨ Labelled UF_SCHEMA (State.first is_connect) buf →
      Labelled UF_HOST (State.first is_connect) buf) :
    ∃ name lead auth path q f, Shape is_connect buf name lead auth path q f := by
  cases is_connect with
  | true =>
    obtain ⟨auth, rest, path, q, f, rfl, hauth, hserver, hbegins, hfollows, rest', rfl, htail⟩ :=
      labelled_server rfl h (hhost (Or.inl rfl))
    exact ⟨[], [], auth, path, q, f, .connect ⟨hauth, hserver⟩ hbegins, hfollows, rest', rfl, htail⟩
  | false =>
    obtain ⟨ch, cs, rfl⟩ := List.exists_cons_of_ne_nil hne
    have hstart : State.first false = .s_req_spaces_before_url := rfl
    rw [hstart] at h hhost
    obtain ⟨hlive, hcs⟩ := h.cons
    simp only [Labelled] at hhost
    rw [first_char] at hlive hcs hhost
    split_ifs at hlive hcs hhost with hpath halpha
    · obtain ⟨p, rest, q, f, rfl, hp, htail⟩ := alive_path hcs
      exact ⟨[], [], [], ch :: p, q, f, .path hpath hp, fun _ => Or.inl (List.cons_ne_nil _ _),
        rest, rfl, htail⟩
    · have hlabelled := (hhost (Or.inr (Or.inl rfl))).resolve_left nofun
      obtain ⟨name, as, rfl, hname, halive, hserver⟩ := labelled_schema hcs hlabelled
      obtain ⟨auth, rest, path, q, f, rfl, hauth, hrun, hbegins, hfollows, rest', rfl, htail⟩ :=
        labelled_server rfl halive hserver
      refine ⟨ch :: name, _, auth, path, q, f, .schema (List.cons_ne_nil _ _)
        (List.forall_mem_cons.mpr ⟨halpha, hname⟩) ⟨hauth, hrun⟩ hbegins, hfollows, rest', ?_, htail⟩
      simp
    · exact absurd rfl hlive

end Http
end SomoNet
