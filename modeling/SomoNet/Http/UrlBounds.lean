import SomoNet.Http.ParserSpec
import SomoNet.Http.Url

/-!
# Urls of any length

The positions and lengths of `struct http_parser_url` are kept modulo 2^16. A url that is longer
than that is cut into fields that are not where it has them, but the parser stays inside the buffer,
its assertions hold and the fields that it sets are inside the buffer (`parse_url_within`).
-/

namespace SomoNet
namespace Http

open Walk UrlField

/-! ## What is written -/

namespace Url

theorem setData_field_data (u : Url) (uf uf' : UrlField) (d : FieldData) :
    (u.setData uf d).field_data uf' = if uf' = uf then d else u.field_data uf' :=
  Function.update_apply ..

@[simp] theorem setData_field_set (u : Url) (uf : UrlField) (d : FieldData) :
    (u.setData uf d).field_set = u.field_set := rfl

theorem put_field_data (u : Url) (uf uf' : UrlField) (i n : ℕ) :
    (u.put uf i n).field_data uf' =
      if uf' = uf then ⟨i.toUInt16, n.toUInt16⟩ else u.field_data uf' :=
  u.setData_field_data uf uf' _

@[simp] theorem put_field_set (u : Url) (uf : UrlField) (i n : ℕ) :
    (u.put uf i n).field_set = insert uf u.field_set := rfl

@[simp] theorem grow_field_set (u : Url) (uf : UrlField) : (u.grow uf).field_set = u.field_set := rfl

@[simp] theorem setOff_field_set (u : Url) (uf : UrlField) (i : ℕ) :
    (u.setOff uf i).field_set = u.field_set := rfl

/-- The field ends before the position `n`. -/
def EndsBy (u : Url) (uf : UrlField) (n : ℕ) : Prop :=
  (u.field_data uf).off.toNat + (u.field_data uf).len.toNat ≤ n

theorem EndsBy.mono {u : Url} {uf : UrlField} {m n : ℕ} (h : u.EndsBy uf m) (hmn : m ≤ n) :
    u.EndsBy uf n := le_trans h hmn

theorem endsBy_setData {u : Url} {uf uf' : UrlField} {d : FieldData} {n : ℕ}
    (hd : d.off.toNat + d.len.toNat ≤ n) (h : uf' ≠ uf → u.EndsBy uf' n) :
    (u.setData uf d).EndsBy uf' n := by
  unfold EndsBy
  rw [setData_field_data]
  split
  next => exact hd
  next hne => exact h hne

theorem toNat_toUInt16_le (n : ℕ) : n.toUInt16.toNat ≤ n := by
  rw [UInt16.toNat_ofNat']
  exact Nat.mod_le _ _

theorem toNat_add_one_le (n : UInt16) : (n + 1).toNat ≤ n.toNat + 1 := by
  rw [UInt16.toNat_add]
  exact Nat.mod_le _ _

theorem endsBy_put {u : Url} {uf uf' : UrlField} {i n m : ℕ} (hm : i + n ≤ m)
    (h : uf' ≠ uf → u.EndsBy uf' m) : (u.put uf i n).EndsBy uf' m := by
  have hi := toNat_toUInt16_le i
  have hn := toNat_toUInt16_le n
  exact endsBy_setData (d := ⟨i.toUInt16, n.toUInt16⟩) (by dsimp only; omega) h

theorem endsBy_grow {u : Url} {uf uf' : UrlField} {n : ℕ} (h : u.EndsBy uf' n) :
    (u.grow uf).EndsBy uf' (n + 1) := by
  by_cases hf : uf' = uf
  · subst hf
    have hone := toNat_add_one_le (u.field_data uf').len
    exact endsBy_setData (by dsimp only; unfold EndsBy at h; omega) fun hne => absurd rfl hne
  · unfold EndsBy grow
    rw [setData_field_data, if_neg hf]
    exact h.mono (Nat.le_succ n)

end Url

/-! ## The first pass -/

/-- The field that a character belongs to; a delimiter belongs to none. -/
def State.urlField : State → Option UrlField
  | s_req_schema => some UF_SCHEMA
  | s_req_server | s_req_server_with_at => some UF_HOST
  | s_req_path => some UF_PATH
  | s_req_query_string => some UF_QUERY
  | s_req_fragment => some UF_FRAGMENT
  | _ => none

namespace UrlScan

/-- The state after one more character. -/
def moved (c : UrlScan) (s : State) : UrlScan :=
  { c with s := s, found_at := c.found_at || s = .s_req_server_with_at }

/-- The field that the character belongs to begins or goes on; a delimiter belongs to none. -/
def took (c : UrlScan) (i : ℕ) : Option UrlField → UrlScan
  | none => c
  | some uf => c.field uf i

/-- **One character**: it is refused, it is a delimiter, or it belongs to a field. -/
theorem next_eq (c : UrlScan) (i : ℕ) (ch : UInt8) :
    c.next i ch =
      if parse_url_char c.s ch = .s_dead then .error (.fail c.u)
      else .ok ((c.moved (parse_url_char c.s ch)).took i (parse_url_char c.s ch).urlField) := by
  obtain ⟨s, u, old, found⟩ := c
  unfold next moved
  dsimp only
  rcases parse_url_char_part s ch with hdead | hurl
  · rw [if_pos hdead, hdead]
  · cases hs : parse_url_char s ch <;> rw [hs] at hurl <;> cases hurl <;>
      simp [State.urlField, took]

/-- What the loop keeps: the fields it has set are behind it, and they are not those that the
host is taken apart into. -/
structure Behind (i : ℕ) (c : UrlScan) : Prop where
  ends : ∀ uf ∈ c.u.field_set, c.u.EndsBy uf i
  coarse : UF_PORT ∉ c.u.field_set ∧ UF_USERINFO ∉ c.u.field_set

theorem Behind.field {i : ℕ} {c : UrlScan} (h : c.Behind i) {uf : UrlField}
    (hport : uf ≠ UF_PORT) (huser : uf ≠ UF_USERINFO) : (c.field uf i).Behind (i + 1) := by
  unfold UrlScan.field
  split
  · exact ⟨fun uf' huf' => Url.endsBy_grow (h.ends uf' huf'), h.coarse⟩
  · refine ⟨fun uf' huf' => Url.endsBy_put (le_refl _) fun hne => ?_, ?_⟩
    · have hold := (Finset.mem_insert.mp huf').resolve_left hne
      exact (h.ends uf' hold).mono (Nat.le_succ i)
    · have hcoarse := h.coarse
      constructor <;> simp [Ne.symm hport, Ne.symm huser, hcoarse]

theorem Behind.next {i : ℕ} {c : UrlScan} (h : c.Behind i) (ch : UInt8) :
    Safe .abort (Behind (i + 1)) (c.next i ch) := by
  have hmoved : ∀ s, (c.moved s).Behind i := fun s => ⟨h.ends, h.coarse⟩
  rw [next_eq]
  split_ifs
  · exact safe_error nofun
  · apply safe_ok
    cases hs : parse_url_char c.s ch <;> simp only [State.urlField, took] <;>
      first
        | exact (hmoved _).field (by decide) (by decide)
        | exact ⟨fun uf huf => (h.ends uf huf).mono (Nat.le_succ i), h.coarse⟩

end UrlScan

/-! ## Hosts -/

/-- The first character of the host is yet to come. -/
def HostState.beforeHost : HostState → Bool
  | s_http_userinfo_start | s_http_userinfo | s_http_host_start | s_http_host_v6_start => true
  | _ => false

theorem beforeHost_of_next {s : HostState} {ch : UInt8}
    (h : (parse_host_char s ch).beforeHost = true) : s.beforeHost = true := by
  revert h
  cases s <;> simp only [parse_host_char] <;> (try split_ifs) <;> decide

/-- A host that begins is the first one. -/
theorem beforeHost_of_host {s : HostState} {ch : UInt8} (hne : s ≠ parse_host_char s ch)
    (h : parse_host_char s ch = .s_http_host ∨ parse_host_char s ch = .s_http_host_v6) :
    s.beforeHost = true := by
  revert hne h
  cases s <;> simp only [parse_host_char, reduceCtorEq, false_and, if_false] <;>
    (try split_ifs) <;> decide

namespace HostScan

/-- What the loop over a host keeps: the fields it sets are behind it, and the others are inside the
buffer of `n` bytes. -/
structure Behind (n i : ℕ) (c : HostScan) : Prop where
  host : UF_HOST ∈ c.u.field_set
  inside : ∀ uf ∈ c.u.field_set, c.u.EndsBy uf n
  ends : ∀ uf ∈ c.u.field_set, uf = UF_HOST ∨ uf = UF_PORT ∨ uf = UF_USERINFO → c.u.EndsBy uf i
  none : c.s.beforeHost = true → (c.u.field_data UF_HOST).len = 0

variable {n i : ℕ} {c : HostScan}

/-- One more character of a field that goes on. -/
theorem Behind.grow (h : c.Behind n i) {uf : UrlField} {s : HostState} (hi : i < n)
    (huf : uf = UF_HOST ∨ uf = UF_PORT ∨ uf = UF_USERINFO)
    (hs : s.beforeHost = true → c.s.beforeHost = true ∧ uf ≠ UF_HOST) :
    Behind n (i + 1) ⟨s, c.u.grow uf⟩ where
  host := h.host
  inside uf' huf' := by
    by_cases hf : uf' = uf
    · subst hf
      exact (Url.endsBy_grow (h.ends uf' huf' huf)).mono hi
    · have hold := h.inside uf' huf'
      unfold Url.EndsBy Url.grow
      rw [Url.setData_field_data, if_neg hf]
      exact hold
  ends uf' huf' hof := Url.endsBy_grow (h.ends uf' huf' hof)
  none hs' := by
    obtain ⟨hbefore, hne⟩ := hs hs'
    unfold Url.grow
    rw [Url.setData_field_data, if_neg (Ne.symm hne)]
    exact h.none hbefore

/-- The first character of the host. -/
theorem Behind.setOff (h : c.Behind n i) (hi : i < n) (hbefore : c.s.beforeHost = true) :
    Behind n i ⟨c.s, c.u.setOff UF_HOST i⟩ := by
  have hlen := h.none hbefore
  have hoff := Url.toNat_toUInt16_le i
  have hd : i.toUInt16.toNat + (c.u.field_data UF_HOST).len.toNat ≤ i := by
    rw [hlen]
    exact hoff
  refine ⟨h.host, fun uf huf => ?_, fun uf huf hof => ?_, fun _ => ?_⟩
  · exact Url.endsBy_setData (hd.trans hi.le) fun _ => h.inside uf huf
  · exact Url.endsBy_setData hd fun _ => h.ends uf huf hof
  · unfold Url.setOff
    rw [Url.setData_field_data, if_pos rfl]
    exact hlen

/-- A port or a user begins. -/
theorem Behind.put (h : c.Behind n i) (hi : i < n) {uf : UrlField} (huf : uf ≠ UF_HOST) :
    Behind n i ⟨c.s, c.u.put uf i 0⟩ := by
  refine ⟨Finset.mem_insert_of_mem h.host, fun uf' huf' => ?_, fun uf' huf' hof => ?_, fun hs => ?_⟩
  · refine Url.endsBy_put (by omega) fun hne => ?_
    exact h.inside uf' ((Finset.mem_insert.mp huf').resolve_left hne)
  · refine Url.endsBy_put (le_refl _) fun hne => ?_
    exact h.ends uf' ((Finset.mem_insert.mp huf').resolve_left hne) hof
  · rw [Url.put_field_data, if_neg (Ne.symm huf)]
    exact h.none hs

/-- A character that is not kept. -/
theorem Behind.skip (h : c.Behind n i) {s : HostState}
    (hs : s.beforeHost = true → c.s.beforeHost = true) : Behind n (i + 1) ⟨s, c.u⟩ :=
  ⟨h.host, h.inside, fun uf huf hof => (h.ends uf huf hof).mono (Nat.le_succ i), fun hs' => h.none (hs hs')⟩

theorem Behind.next (h : c.Behind n i) (hi : i < n) (ch : UInt8) :
    Safe .abort (Behind n (i + 1)) (c.next i ch) := by
  obtain ⟨s, u⟩ := c
  have hbefore := @beforeHost_of_next s ch
  have hhost := @beforeHost_of_host s ch
  unfold next
  dsimp only
  cases hs : parse_host_char s ch <;> rw [hs] at hbefore hhost
  case s_http_host_dead => exact safe_error nofun
  all_goals apply safe_ok
  case s_http_host | s_http_host_v6 =>
    split
    next hne => exact ((h.setOff hi (hhost hne (by simp))).grow hi (Or.inl rfl) fun h => by cases h)
    next => exact h.grow hi (Or.inl rfl) fun h => by cases h
  case s_http_host_v6_zone_start | s_http_host_v6_zone =>
    exact h.grow hi (Or.inl rfl) fun h => by cases h
  case s_http_host_port =>
    split
    next => exact (h.put hi (by decide)).grow hi (by simp) fun h => by cases h
    next => exact h.grow hi (by simp) fun h => by cases h
  case s_http_userinfo =>
    split
    next => exact (h.put hi (by decide)).grow hi (by simp) fun h => ⟨hbefore h, by decide⟩
    next => exact h.grow hi (by simp) fun h => ⟨hbefore h, by decide⟩
  all_goals exact h.skip hbefore

end HostScan

/-! ## The whole parser -/

/-- The fields are inside the first `n` bytes. -/
def Url.Inside (u : Url) (n : ℕ) : Prop := ∀ uf ∈ u.field_set, u.EndsBy uf n

theorem parse_fields_safe (buf : Bytes) (is_connect : Bool) (u : Url) :
    Safe .abort (UrlScan.Behind buf.length) (parse_fields buf is_connect u) := by
  have hstart : UrlScan.Behind 0
      ⟨if is_connect then .s_req_server_start else .s_req_spaces_before_url,
        { u with port := 0, field_set := ∅ }, none, false⟩ :=
    ⟨fun uf huf => absurd huf (Finset.notMem_empty uf), Finset.notMem_empty _, Finset.notMem_empty _⟩
  rw [← Nat.zero_add buf.length]
  exact walk_safe (fun _ _ a _ h => h.next a) hstart (by omega)

theorem parse_host_safe {buf : Bytes} {c : UrlScan} (h : c.Behind buf.length)
    (hhost : UF_HOST ∈ c.u.field_set) :
    Safe .abort (Url.Inside · buf.length) (parse_host buf c.u c.found_at) := by
  have hend := h.ends UF_HOST hhost
  unfold parse_host
  rw [if_neg (not_not.mpr hhost)]
  dsimp only
  have hstart : HostScan.Behind buf.length (c.u.field_data UF_HOST).off.toNat
      ⟨if c.found_at then .s_http_userinfo_start else .s_http_host_start,
        c.u.setData UF_HOST { c.u.field_data UF_HOST with len := 0 }⟩ := by
    have hd : (c.u.field_data UF_HOST).off.toNat + (0 : UInt16).toNat ≤ buf.length :=
      le_trans (Nat.le_add_right _ _) hend
    refine ⟨hhost, fun uf huf => ?_, fun uf huf hof => ?_, fun _ => ?_⟩
    · exact Url.endsBy_setData hd fun _ => h.ends uf huf
    · rcases hof with rfl | rfl | rfl
      · exact Url.endsBy_setData (le_refl _) fun hne => absurd rfl hne
      · exact absurd huf h.coarse.1
      · exact absurd huf h.coarse.2
    · rw [Url.setData_field_data, if_pos rfl]
  refine (walk_safe (fun _ _ a hi h => h.next hi a) hstart hend).bind fun c' hc' => ?_
  split
  · exact safe_ok hc'.inside
  · exact safe_error nofun

theorem parse_port_safe {buf : Bytes} {u : Url} (h : u.Inside buf.length)
    (hport : UF_PORT ∈ u.field_set) : Safe .abort (Url.Inside · buf.length) (parse_port buf u) := by
  have hend : (u.field_data UF_PORT).off.toNat + (u.field_data UF_PORT).len.toNat ≤ buf.length :=
    h UF_PORT hport
  unfold parse_port
  dsimp only
  rw [if_neg (not_not.mpr hend)]
  have hdigit : ∀ (v : UInt64) (i : ℕ) (ch : UInt8), i < buf.length → True →
      Safe .abort (fun _ => True) (port_digit u v i ch) := by
    intro v i ch _ _
    unfold port_digit
    dsimp only
    split
    · exact safe_error nofun
    · exact safe_ok trivial
  exact (walk_safe (I := fun _ _ => True) hdigit trivial hend).bind fun v _ => safe_ok h

/-- **The url parser stays inside the buffer**, however long the url is: no assertion fails, nothing
is read past the end, and the fields that a success leaves are inside the buffer. -/
theorem parse_url_within (buf : Bytes) (is_connect : Bool) (u : Url) :
    parse_url buf is_connect u ≠ .error .abort ∧
      ∀ u', parse_url buf is_connect u = .ok u' → ∀ uf ∈ u'.field_set,
        (u'.field_data uf).off.toNat + (u'.field_data uf).len.toNat ≤ buf.length := by
  show Safe .abort (Url.Inside · buf.length) (parse_url buf is_connect u)
  unfold parse_url
  split
  · exact safe_error nofun
  refine (parse_fields_safe buf is_connect u).bind fun c hc => ?_
  have hhost : Safe .abort (Url.Inside · buf.length) (check_host buf c) := by
    unfold check_host
    split_ifs with hschema hset
    · exact safe_error nofun
    · exact parse_host_safe hc hset
    · exact safe_ok hc.ends
  refine hhost.bind fun u hu => ?_
  unfold check_port
  split_ifs with hconnect hset
  · exact safe_error nofun
  · exact parse_port_safe hu hset
  · exact safe_ok hu

end Http
end SomoNet
