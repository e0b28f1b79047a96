import SomoNet.Http.UrlParse

/-!
# Urls read back

A buffer of less than 2^16 bytes is parsed if and only if it is the text of a url, and then the
fields hold the parts of that url (`parse_url_iff`). Of whatever length, what it accepts is taken for
the url of a request (`parse_url_endsUrl`).
-/

namespace SomoNet
namespace Http

open Walk UrlField

/-! ## Ports -/

theorem port_char : ∀ ch, isNum ch = true →
    (ch.toInt8.toInt64 - 48).toUInt64.toNat = Numerals.digitVal ch ∧ Numerals.digitVal ch < 10 :=
  forall_byte (by decide +kernel)

theorem le_foldl_value (digits : Bytes) (n : ℕ) :
    n ≤ digits.foldl (fun v c => 10 * v + Numerals.digitVal c) n := by
  induction digits generalizing n with
  | nil => exact le_refl n
  | cons ch digits ih =>
    have hrest := ih (10 * n + Numerals.digitVal ch)
    rw [List.foldl_cons]
    omega

/-- The loop over the digits of a port has their value, or gives up when it is too much. -/
theorem along_digits (u : Url) {digits : Bytes} (hdigits : ∀ ch ∈ digits, isNum ch = true)
    {v : UInt64} (hv : v.toNat ≤ 0xffff) (i : ℕ) :
    along (port_digit u) v i digits =
      if digits.foldl (fun v c => 10 * v + Numerals.digitVal c) v.toNat ≤ 0xffff then
        .ok (digits.foldl (fun v c => 10 * v + Numerals.digitVal c) v.toNat).toUInt64
      else .error (.fail u) := by
  induction digits generalizing v i with
  | nil => simp [hv]
  | cons ch digits ih =>
    obtain ⟨hdigit, hlt⟩ := port_char ch (hdigits ch List.mem_cons_self)
    let w := v * 10 + (ch.toInt8.toInt64 - 48).toUInt64
    have hw : w.toNat = 10 * v.toNat + Numerals.digitVal ch := by
      show (v * 10 + (ch.toInt8.toInt64 - 48).toUInt64).toNat = _
      rw [UInt64.toNat_add, UInt64.toNat_mul, hdigit]
      show (v.toNat * 10 % 2 ^ 64 + Numerals.digitVal ch) % 2 ^ 64 = _
      omega
    have hone : port_digit u v i ch = if w.toNat ≤ 0xffff then .ok w else .error (.fail u) := by
      unfold port_digit
      dsimp only
      by_cases hle : w.toNat ≤ 0xffff
      · rw [if_pos hle, if_neg]
        rw [gt_iff_lt, UInt64.lt_iff_toNat_lt]
        exact not_lt.mpr hle
      · rw [if_neg hle, if_pos]
        rw [gt_iff_lt, UInt64.lt_iff_toNat_lt]
        exact not_le.mp hle
    rw [along_cons, hone, List.foldl_cons, ← hw]
    by_cases hle : w.toNat ≤ 0xffff
    · rw [if_pos hle]
      exact ih (fun c hc => hdigits c (List.mem_cons_of_mem _ hc)) hle (i + 1)
    · have hmore := le_foldl_value digits w.toNat
      rw [if_neg hle, if_neg (by omega)]
      rfl

/-! ## The parts of a url in its text -/

theorem Opening.ne_nil {is_connect : Bool} {name lead auth path : Bytes}
    (h : Opening is_connect name lead auth path) : auth ≠ [] ∨ path ≠ [] := by
  cases h with
  | path => exact Or.inr (List.cons_ne_nil _ _)
  | schema _ _ hauth => exact Or.inl hauth.1
  | connect hauth => exact Or.inl hauth.1

namespace UrlText

variable {t : UrlText} {is_connect : Bool}

/-- The authority as it is written. -/
def auth (t : UrlText) : Bytes := t.front.authority.elim [] Authority.text

theorem front_text (t : UrlText) : t.front.text = t.front.lead ++ t.auth := rfl

/-- The text of a url is such a text. -/
theorem Spelled.shape (h : t.Spelled is_connect) :
    Shape is_connect t.text t.front.name t.front.lead t.auth t.path t.query t.fragment := by
  refine ⟨?_, h.follows, _, ?_, rfl, h.query, h.fragment⟩
  · have hfront := h.front
    have hpath := h.path
    unfold auth
    cases hf : t.front with
    | none =>
      rw [hf] at hfront hpath
      obtain ⟨ch, cs, heq, hch, hcs⟩ := hpath
      cases hfront
      rw [heq]
      exact .path hch hcs
    | schema name a =>
      rw [hf] at hfront hpath
      obtain ⟨rfl, hname, ha⟩ := hfront
      exact .schema hname.1 hname.2 (server_authority ha) hpath
    | connect a =>
      rw [hf] at hfront hpath
      obtain ⟨rfl, ha⟩ := hfront
      exact .connect (server_authority ha) hpath
  · unfold UrlText.text
    rw [front_text, List.append_assoc]

theorem Spelled.text_ne_nil (h : t.Spelled is_connect) : t.text ≠ [] := by
  obtain ⟨rest, htext, -⟩ := h.shape.tail
  rw [htext]
  intro hnil
  simp only [List.append_eq_nil_iff] at hnil
  obtain ⟨-, hauth, hpath, -⟩ := hnil
  rcases h.shape.opening.ne_nil with hne | hne
  · exact hne hauth
  · exact hne hpath

/-- An authority is spelled as one. -/
theorem Spelled.authority (h : t.Spelled is_connect) : ∀ a ∈ t.front.authority, a.Spelled := by
  intro a ha
  have hfront := h.front
  cases hf : t.front with
  | none =>
    rw [hf] at ha
    cases ha
  | schema name b =>
    rw [hf] at ha hfront
    cases ha
    exact hfront.2.2
  | connect b =>
    rw [hf] at ha hfront
    cases ha
    exact hfront.2

end UrlText

/-- The parts of an authority are digits where they should be. -/
theorem port_digits {t : UrlText} {is_connect : Bool} (h : t.Spelled is_connect) :
    ∀ ch ∈ t.part UF_PORT, isNum ch = true := by
  intro ch hch
  cases ha : t.front.authority with
  | none =>
    simp [UrlText.part, ha] at hch
  | some a =>
    simp only [UrlText.part, ha, Option.bind_some] at hch
    cases hport : a.port with
    | none => simp [hport] at hch
    | some digits =>
      rw [hport] at hch
      exact ((h.authority a ha).port digits hport).2 ch hch

/-! ## The fields -/

/-- The fields before the port is read. -/
def UrlText.split (t : UrlText) (u : Url) : Url := { t.located u with port := 0 }

theorem UrlText.mem_located {t : UrlText} {u : Url} {uf : UrlField} :
    uf ∈ (t.located u).field_set ↔ t.part uf ≠ [] := by
  simp [UrlText.located]

/-- What the first pass leaves, field by field. -/
theorem UrlScan.behind_field_data (u : Url) (i : ℕ) (path : Bytes) (q f : Option Bytes)
    (uf : UrlField) :
    (UrlScan.behind u i path q f).field_data uf =
      if uf = UF_FRAGMENT ∧ (f.getD []).dropWhile isHash ≠ [] then
        ⟨(i + path.length + (announced '?' q ++ (chr '#' :: (f.getD []).takeWhile isHash)).length).toUInt16,
          ((f.getD []).dropWhile isHash).length.toUInt16⟩
      else if uf = UF_QUERY ∧ q.getD [] ≠ [] then
        ⟨(i + path.length + 1).toUInt16, (q.getD []).length.toUInt16⟩
      else if uf = UF_PATH ∧ path ≠ [] then ⟨i.toUInt16, path.length.toUInt16⟩
      else u.field_data uf := by
  unfold behind
  rw [Url.putPart_field_data, Url.putPart_field_data, Url.putPart_field_data]

theorem UrlScan.mem_behind {u : Url} {i : ℕ} {path : Bytes} {q f : Option Bytes} {uf : UrlField} :
    uf ∈ (UrlScan.behind u i path q f).field_set ↔
      uf = UF_FRAGMENT ∧ (f.getD []).dropWhile isHash ≠ [] ∨ uf = UF_QUERY ∧ q.getD [] ≠ [] ∨
        uf = UF_PATH ∧ path ≠ [] ∨ uf ∈ u.field_set := by
  unfold behind
  rw [Url.mem_putPart, Url.mem_putPart, Url.mem_putPart]

@[simp] theorem Url.putPart_port (u : Url) (uf : UrlField) (i : ℕ) (part : Bytes) :
    (u.putPart uf i part).port = u.port := by
  unfold Url.putPart
  split <;> rfl

theorem UrlScan.behind_port (u : Url) (i : ℕ) (path : Bytes) (q f : Option Bytes) :
    (UrlScan.behind u i path q f).port = u.port := by
  simp [behind]

/-- The parts and positions that do not depend on the authority. -/
theorem UrlText.before_path (t : UrlText) :
    (t.before UF_PATH).length = t.front.lead.length + t.auth.length ∧
      (t.before UF_QUERY).length = t.front.lead.length + t.auth.length + t.path.length + 1 ∧
      (t.before UF_FRAGMENT).length = t.front.lead.length + t.auth.length + t.path.length +
        (announced '?' t.query ++ (chr '#' :: (t.fragment.getD []).takeWhile isHash)).length := by
  refine ⟨?_, ?_, ?_⟩
  · simp [UrlText.before, UrlText.front_text]
  · simp [UrlText.before, UrlText.front_text, Nat.add_assoc]
  · simp [UrlText.before, UrlText.front_text, Nat.add_assoc]

/-- The parts of an authority in a url. -/
structure UrlText.Has (t : UrlText) (a : Authority) : Prop where
  userinfo : t.part UF_USERINFO = a.userinfo.getD [] ∧ t.before UF_USERINFO = t.front.lead
  host : t.part UF_HOST = a.host.kept ∧ t.before UF_HOST = t.front.lead ++ (a.user ++ a.host.opening)
  port : t.part UF_PORT = a.port.getD [] ∧
    t.before UF_PORT = t.front.lead ++ (a.user ++ (a.host.text ++ [chr ':']))

theorem UrlText.has_authority {t : UrlText} {a : Authority} (ha : t.front.authority = some a) :
    t.Has a := by
  constructor <;> simp [UrlText.part, UrlText.before, ha]

theorem HostText.kept_ne_nil {host : HostText} (h : host.Wf) : host.kept ≠ [] := by
  cases host with
  | name chars => exact h.1
  | v6 address zone => simp [HostText.kept, h.1]

/-- The fields after the first pass: that of the host holds the authority. -/
structure Coarse (t : UrlText) (u v : Url) : Prop where
  port : v.port = 0
  set : ∀ uf, uf ≠ UF_HOST → uf ≠ UF_PORT → uf ≠ UF_USERINFO → (uf ∈ v.field_set ↔ t.part uf ≠ [])
  data : ∀ uf, uf ≠ UF_HOST → uf ≠ UF_PORT → uf ≠ UF_USERINFO →
    v.field_data uf = (t.located u).field_data uf
  host_set : UF_HOST ∈ v.field_set ↔ t.auth ≠ []
  host_data : v.field_data UF_HOST =
    if t.auth = [] then u.field_data UF_HOST
    else ⟨t.front.lead.length.toUInt16, t.auth.length.toUInt16⟩
  fine : ∀ uf, uf = UF_PORT ∨ uf = UF_USERINFO →
    uf ∉ v.field_set ∧ v.field_data uf = u.field_data uf

theorem coarse_of_parse_fields {t : UrlText} {is_connect : Bool} (h : t.Spelled is_connect) (u : Url) :
    ∃ c, parse_fields t.text is_connect u = .ok c ∧ c.found_at = decide (chr '@' ∈ t.auth) ∧
      Coarse t u c.u := by
  obtain ⟨c, hc, hat, hu⟩ := parse_fields_shape h.shape u
  obtain ⟨hpath, hquery, hfragment⟩ := t.before_path
  refine ⟨c, hc, hat, ?_⟩
  rw [hu]
  constructor
  · rw [UrlScan.behind_port, Url.putPart_port, Url.putPart_port]
  · intro uf h1 h2 h3
    rw [UrlScan.mem_behind, Url.mem_putPart, Url.mem_putPart]
    cases uf <;> simp_all [UrlText.part]
  · intro uf h1 h2 h3
    rw [UrlScan.behind_field_data, Url.putPart_field_data, Url.putPart_field_data, ← hquery,
      ← hfragment, ← hpath]
    cases uf <;> simp only [ne_eq, not_true_eq_false, reduceCtorEq, false_and, true_and, if_false, ite_not,
      UrlText.located] at h1 h2 h3 ⊢ <;> rfl
  · rw [UrlScan.mem_behind, Url.mem_putPart, Url.mem_putPart]
    simp
  · rw [UrlScan.behind_field_data, Url.putPart_field_data, Url.putPart_field_data]
    by_cases hauth : t.auth = [] <;> simp [hauth]
  · intro uf huf
    rw [UrlScan.mem_behind, Url.mem_putPart, Url.mem_putPart, UrlScan.behind_field_data,
      Url.putPart_field_data, Url.putPart_field_data]
    rcases huf with rfl | rfl <;> simp

/-- A url without an authority keeps the fields of the first pass. -/
theorem Coarse.check_host_none {t : UrlText} {u : Url} {c : UrlScan} (hcoarse : Coarse t u c.u)
    (ha : t.front.authority = none) : check_host t.text c = .ok (t.split u) := by
  unfold check_host
  have hauth : t.auth = [] := by
    unfold UrlText.auth
    rw [ha]
    rfl
  have hschema : t.part UF_SCHEMA = [] := by
    cases hf : t.front with
    | schema name a =>
      rw [hf] at ha
      cases ha
    | none => simp [UrlText.part, hf, Front.name]
    | connect a => simp [UrlText.part, hf, Front.name]
  have hhost : UF_HOST ∉ c.u.field_set := by simp [hcoarse.host_set, hauth]
  have hset := hcoarse.set UF_SCHEMA (by decide) (by decide) (by decide)
  rw [if_neg (by simp [hset, hschema]), if_neg hhost]
  congr 1
  -- the fields of an authority are absent, and the others are where they belong
  have hempty : t.part UF_HOST = [] ∧ t.part UF_PORT = [] ∧ t.part UF_USERINFO = [] := by
    simp [UrlText.part, ha]
  apply Url.ext
  · ext uf
    show _ ↔ uf ∈ (t.located u).field_set
    rw [UrlText.mem_located]
    by_cases hf : uf = UF_HOST ∨ uf = UF_PORT ∨ uf = UF_USERINFO
    · rcases hf with rfl | rfl | rfl
      · simp [hhost, hempty]
      · simp [hcoarse.fine, hempty]
      · simp [hcoarse.fine, hempty]
    · push Not at hf
      exact hcoarse.set uf hf.1 hf.2.1 hf.2.2
  · exact hcoarse.port
  · funext uf
    show _ = (t.located u).field_data uf
    by_cases hf : uf = UF_HOST ∨ uf = UF_PORT ∨ uf = UF_USERINFO
    · rcases hf with rfl | rfl | rfl
      · simp [hcoarse.host_data, hauth, UrlText.located, hempty]
      · simp [hcoarse.fine, UrlText.located, hempty]
      · simp [hcoarse.fine, UrlText.located, hempty]
    · push Not at hf
      exact hcoarse.data uf hf.1 hf.2.1 hf.2.2

/-- An authority is taken apart. -/
theorem Coarse.check_host_some {t : UrlText} {is_connect : Bool} (h : t.Spelled is_connect)
    (hlen : t.text.length < 65536) {u : Url} {c : UrlScan} (hcoarse : Coarse t u c.u)
    (hat : c.found_at = decide (chr '@' ∈ t.auth)) {a : Authority} (ha : t.front.authority = some a) :
    check_host t.text c = .ok (t.split u) := by
  obtain ⟨rest, htext, -⟩ := h.shape.tail
  unfold check_host
  have hauth : t.auth = a.text := by
    unfold UrlText.auth
    rw [ha]
    rfl
  have haspelled := h.authority a ha
  have hne : t.auth ≠ [] := hauth ▸ (server_authority haspelled).1
  have hhost : UF_HOST ∈ c.u.field_set := hcoarse.host_set.mpr hne
  have hfound : c.found_at = a.userinfo.isSome := by
    rw [hat, hauth]
    by_cases huser : a.userinfo.isSome = true
    · simp [huser, (mem_at_iff haspelled).mpr huser]
    · simp [huser, mt (mem_at_iff haspelled).mp huser]
  have hdata : c.u.field_data UF_HOST = ⟨t.front.lead.length.toUInt16, t.auth.length.toUInt16⟩ := by
    rw [hcoarse.host_data, if_neg hne]
  have hparts := t.has_authority ha
  have hkept := HostText.kept_ne_nil haspelled.host
  rw [if_neg (by simp [hhost]), if_pos hhost, hfound,
    parse_host_authority htext hlen hhost hdata haspelled hauth.symm]
  congr 1
  rw [← hparts.userinfo.1, ← hparts.port.1, ← hparts.host.1, ← List.length_append,
    ← List.length_append, ← hparts.host.2, ← hparts.port.2, ← hparts.userinfo.2]
  rw [← hparts.host.1] at hkept
  -- host, port and user are put by `parse_host`, which leaves the other fields alone
  apply Url.ext
  · ext uf
    show _ ↔ uf ∈ (t.located u).field_set
    rw [UrlText.mem_located, Url.mem_putPart, Url.put_field_set, Finset.mem_insert, Url.mem_putPart,
      Url.setData_field_set]
    by_cases hf : uf = UF_HOST ∨ uf = UF_PORT ∨ uf = UF_USERINFO
    · rcases hf with rfl | rfl | rfl
      · simp [hkept]
      · simp [hcoarse.fine]
      · simp [hcoarse.fine]
    · push Not at hf
      simp [hf, hcoarse.set uf hf.1 hf.2.1 hf.2.2]
  · rw [Url.putPart_port]
    show (Url.putPart _ _ _ _).port = _
    rw [Url.putPart_port]
    exact hcoarse.port
  · funext uf
    show _ = (t.located u).field_data uf
    rw [Url.putPart_field_data, Url.put_field_data, Url.putPart_field_data, Url.setData_field_data]
    by_cases hf : uf = UF_HOST ∨ uf = UF_PORT ∨ uf = UF_USERINFO
    · rcases hf with rfl | rfl | rfl
      · simp [UrlText.located, hkept]
      · simp [UrlText.located, hcoarse.fine, ite_not]
      · simp [UrlText.located, hcoarse.fine, ite_not]
    · push Not at hf
      simp [hf, hcoarse.data uf hf.1 hf.2.1 hf.2.2]

/-- **The fields of the text of a url**: up to the port they are its parts. -/
theorem check_host_text {t : UrlText} {is_connect : Bool} (h : t.Spelled is_connect)
    (hlen : t.text.length < 65536) (u : Url) :
    ((parse_fields t.text is_connect u).bind fun c => check_host t.text c) = .ok (t.split u) := by
  obtain ⟨c, hc, hat, hcoarse⟩ := coarse_of_parse_fields h u
  rw [hc]
  cases ha : t.front.authority with
  | none => exact hcoarse.check_host_none ha
  | some a => exact Coarse.check_host_some h hlen hcoarse hat ha

/-! ## Whatever is parsed is the text of a url -/

/-- A character adds its label to the set fields. -/
theorem UrlScan.took_labelled {c : UrlScan} (hold : ∀ uf, c.old_uf = some uf → uf ∈ c.u.field_set)
    (s : State) (i : ℕ) :
    ((c.moved s).took i s.urlField).s = s ∧
      (∀ uf, uf ∈ ((c.moved s).took i s.urlField).u.field_set ↔
        uf ∈ c.u.field_set ∨ s.urlField = some uf) ∧
      ∀ uf, ((c.moved s).took i s.urlField).old_uf = some uf →
        uf ∈ ((c.moved s).took i s.urlField).u.field_set := by
  cases hfield : s.urlField with
  | none => exact ⟨rfl, fun uf => by simp [took, moved], by simpa [took, moved] using hold⟩
  | some uf' =>
    by_cases hsame : c.old_uf = some uf'
    · have hmem := hold uf' hsame
      refine ⟨by simp [took, moved, field, hsame], fun uf => ?_, ?_⟩
      · simp only [took, moved, field, hsame, if_true, Url.grow_field_set, Option.some.injEq]
        exact ⟨Or.inl, fun huf => huf.elim id fun heq => heq ▸ hmem⟩
      · simpa [took, moved, field, hsame] using hmem
    · refine ⟨by simp [took, moved, field, hsame], fun uf => ?_, ?_⟩
      · simp [took, moved, field, hsame, or_comm, eq_comm]
      · simp [took, moved, field, hsame]

/-- What the loop gets through is alive, and the fields it has set have characters. -/
theorem along_labelled {c c' : UrlScan} {i : ℕ} {as : Bytes} (h : along UrlScan.next c i as = .ok c')
    (hlive : c.s ≠ .s_dead) (hold : ∀ uf, c.old_uf = some uf → uf ∈ c.u.field_set) :
    Alive c.s as ∧ ∀ uf, uf ∈ c'.u.field_set ↔ uf ∈ c.u.field_set ∨ Labelled uf c.s as := by
  induction as generalizing c i with
  | nil =>
    cases h
    exact ⟨hlive, fun uf => (or_iff_left id).symm⟩
  | cons ch as ih =>
    rw [along_cons, UrlScan.next_eq] at h
    by_cases hdead : parse_url_char c.s ch = .s_dead
    · rw [if_pos hdead] at h
      cases h
    · rw [if_neg hdead] at h
      obtain ⟨hs, hset, hold'⟩ := UrlScan.took_labelled hold (parse_url_char c.s ch) i
      obtain ⟨halive, hmem⟩ := ih h (by rwa [hs]) hold'
      rw [hs] at halive hmem
      refine ⟨halive, fun uf => ?_⟩
      rw [hmem, hset, or_assoc]
      rfl

/-- The states of a successful run. -/
theorem parse_url_eq_ok {buf : Bytes} {is_connect : Bool} {u u' : Url} :
    parse_url buf is_connect u = .ok u' ↔ buf ≠ [] ∧ ∃ c v,
      parse_fields buf is_connect u = .ok c ∧ check_host buf c = .ok v ∧
        check_port buf is_connect v = .ok u' := by
  unfold parse_url
  by_cases hbuf : buf = []
  · simp [hbuf]
  · rw [if_neg hbuf]
    cases hc : parse_fields buf is_connect u with
    | error e => simp [Except.bind]
    | ok c =>
      cases hv : check_host buf c with
      | error e => simp [Except.bind, hv]
      | ok v => simp [Except.bind, hv, hbuf]

/-- A host that is required is there. -/
theorem mem_host_of_check {buf : Bytes} {is_connect : Bool} {c : UrlScan} {v u' : Url}
    (hhost : check_host buf c = .ok v) (hport : check_port buf is_connect v = .ok u')
    (h : is_connect = true ∨ UF_SCHEMA ∈ c.u.field_set) : UF_HOST ∈ c.u.field_set := by
  by_contra hnot
  unfold check_host at hhost
  rcases h with hconnect | hschema
  · by_cases hschema : UF_SCHEMA ∈ c.u.field_set
    · rw [if_pos ⟨hschema, hnot⟩] at hhost
      cases hhost
    · rw [if_neg (by simp [hschema]), if_neg hnot] at hhost
      cases hhost
      have hother : c.u.field_set ≠ {UF_HOST, UF_PORT} := by
        intro heq
        rw [heq] at hnot
        exact hnot (by decide)
      unfold check_port at hport
      rw [if_pos ⟨hconnect, hother⟩] at hport
      cases hport
  · rw [if_pos ⟨hschema, hnot⟩] at hhost
    cases hhost

/-- An authority that has been taken apart is one. -/
theorem authority_of_check_host {is_connect : Bool} {buf name lead auth path : Bytes}
    {q f : Option Bytes} (h : Shape is_connect buf name lead auth path q f) (hlen : buf.length < 65536)
    (hne : auth ≠ []) {u : Url} {c : UrlScan} (hfields : parse_fields buf is_connect u = .ok c)
    {v : Url} (hhost : check_host buf c = .ok v) : ∃ a : Authority, a.Spelled ∧ a.text = auth := by
  obtain ⟨c', hc', -, hu⟩ := parse_fields_shape h u
  obtain rfl : c' = c := Except.ok.inj (hc'.symm.trans hfields)
  obtain ⟨rest, htext, -⟩ := h.tail
  have hset : UF_HOST ∈ c'.u.field_set := by
    rw [hu, UrlScan.mem_behind, Url.mem_putPart]
    simp [hne]
  have hdata : c'.u.field_data UF_HOST = ⟨lead.length.toUInt16, auth.length.toUInt16⟩ := by
    rw [hu, UrlScan.behind_field_data, Url.putPart_field_data]
    simp [hne]
  unfold check_host at hhost
  rw [if_neg (by simp [hset]), if_pos hset] at hhost
  obtain ⟨a, ha, htext, -⟩ := authority_of_parse_host htext hlen hset hdata hne hhost
  exact ⟨a, ha, htext⟩

theorem labelled_of_parse_fields {buf : Bytes} {is_connect : Bool} {u : Url} {c : UrlScan}
    (h : parse_fields buf is_connect u = .ok c) :
    Alive (State.first is_connect) buf ∧
      ∀ uf, uf ∈ c.u.field_set ↔ Labelled uf (State.first is_connect) buf := by
  unfold parse_fields at h
  rw [walk_all] at h
  obtain ⟨halive, hmem⟩ := along_labelled h (by cases is_connect <;> exact nofun) (by simp)
  refine ⟨halive, fun uf => ?_⟩
  rw [hmem]
  exact or_iff_right (Finset.notMem_empty uf)

theorem spelled_of_parse_url {buf : Bytes} (hlen : buf.length < 65536) {is_connect : Bool}
    {u u' : Url} (h : parse_url buf is_connect u = .ok u') :
    ∃ t : UrlText, t.Spelled is_connect ∧ t.text = buf := by
  obtain ⟨hne, c, v, hfields, hhost, hport⟩ := parse_url_eq_ok.mp h
  obtain ⟨halive, hlabel⟩ := labelled_of_parse_fields hfields
  have hrequired := mem_host_of_check hhost hport
  rw [hlabel, hlabel] at hrequired
  obtain ⟨name, lead, auth, path, q, f, hshape⟩ := shape_of_alive hne halive hrequired
  have hauthority := authority_of_check_host hshape hlen
  obtain ⟨hopening, hfollows, rest, rfl, htail, hq, hf⟩ := hshape
  cases hopening with
  | path hch hcs =>
    refine ⟨⟨.none, _, q, f⟩, ⟨rfl, ⟨_, _, rfl, hch, hcs⟩, hq, hf, hfollows⟩, ?_⟩
    rw [htail]
    rfl
  | schema hname halpha hauth hpath =>
    obtain ⟨a, ha, rfl⟩ := hauthority hauth.1 hfields hhost
    refine ⟨⟨.schema name a, path, q, f⟩, ⟨⟨rfl, ⟨hname, halpha⟩, ha⟩, hpath, hq, hf, hfollows⟩, ?_⟩
    rw [htail]
    exact List.append_assoc ..
  | connect hauth hpath =>
    obtain ⟨a, ha, rfl⟩ := hauthority hauth.1 hfields hhost
    refine ⟨⟨.connect a, path, q, f⟩, ⟨⟨rfl, ha⟩, hpath, hq, hf, hfollows⟩, ?_⟩
    rw [htail]
    rfl

/-! ## The port -/

/-- What follows an authority. -/
def UrlText.behindAuthority (t : UrlText) : Bytes :=
  t.path ++ (announced '?' t.query ++ announced '#' t.fragment)

/-- The parts of an authority stand where they are said to stand. -/
theorem UrlText.before_fine (t : UrlText) {uf : UrlField} (hne : t.part uf ≠ [])
    (huf : uf = UF_HOST ∨ uf = UF_PORT ∨ uf = UF_USERINFO) :
    ∃ rest, t.text = t.before uf ++ (t.part uf ++ rest) := by
  cases ha : t.front.authority with
  | none => rcases huf with rfl | rfl | rfl <;> simp [UrlText.part, ha] at hne
  | some a =>
    -- the authority written out, with what is behind it
    have htext : t.text = t.front.lead ++ (a.user ++ (a.host.opening ++ (a.host.kept ++
        (a.host.closing ++ (announced ':' a.port ++ t.behindAuthority))))) := by
      simp [UrlText.text, Front.text, ha, Authority.text, HostText.text, UrlText.behindAuthority]
    have hparts := t.has_authority ha
    rw [htext]
    rcases huf with rfl | rfl | rfl
    · refine ⟨a.host.closing ++ (announced ':' a.port ++ t.behindAuthority), ?_⟩
      rw [hparts.host.1, hparts.host.2]
      simp
    · rw [hparts.port.1] at hne ⊢
      rw [hparts.port.2]
      cases hport : a.port with
      | none =>
        rw [hport] at hne
        exact absurd rfl hne
      | some digits => exact ⟨t.behindAuthority, by simp [HostText.text, announced]⟩
    · rw [hparts.userinfo.1] at hne ⊢
      rw [hparts.userinfo.2]
      cases huser : a.userinfo with
      | none =>
        rw [huser] at hne
        exact absurd rfl hne
      | some user =>
        refine ⟨[chr '@'] ++ (a.host.opening ++ (a.host.kept ++ (a.host.closing ++
          (announced ':' a.port ++ t.behindAuthority)))), ?_⟩
        simp [Authority.user, huser]

/-- A part stands where it is said to stand. -/
theorem UrlText.before_part (t : UrlText) {uf : UrlField} (hne : t.part uf ≠ []) :
    ∃ rest, t.text = t.before uf ++ (t.part uf ++ rest) := by
  cases uf with
  | UF_HOST => exact t.before_fine hne (by simp)
  | UF_PORT => exact t.before_fine hne (by simp)
  | UF_USERINFO => exact t.before_fine hne (by simp)
  | UF_SCHEMA =>
    cases hf : t.front with
    | none => simp [UrlText.part, hf, Front.name] at hne
    | connect a => simp [UrlText.part, hf, Front.name] at hne
    | schema name a =>
      refine ⟨bytes "://" ++ (a.text ++ t.behindAuthority), ?_⟩
      simp [UrlText.text, UrlText.before, UrlText.part, Front.text, Front.lead, Front.name,
        Front.authority, UrlText.behindAuthority, hf]
  | UF_PATH => exact ⟨_, rfl⟩
  | UF_QUERY =>
    cases hq : t.query with
    | none => simp [UrlText.part, hq] at hne
    | some q =>
      refine ⟨announced '#' t.fragment, ?_⟩
      simp [UrlText.text, UrlText.before, UrlText.part, hq, announced]
  | UF_FRAGMENT =>
    cases hf : t.fragment with
    | none => simp [UrlText.part, hf] at hne
    | some f =>
      refine ⟨[], ?_⟩
      simp [UrlText.text, UrlText.before, UrlText.part, hf, announced, List.takeWhile_append_dropWhile]

/-- The port is read off its field, if it has a value of 16 bits. -/
theorem parse_port_split {t : UrlText} {is_connect : Bool} (h : t.Spelled is_connect)
    (hlen : t.text.length < 65536) (u : Url) (hport : t.part UF_PORT ≠ []) :
    parse_port t.text (t.split u) =
      if Numerals.value 10 (t.part UF_PORT) ≤ 0xffff then .ok (t.located u)
      else .error (.fail (t.split u)) := by
  obtain ⟨rest, htext⟩ := t.before_part hport
  have hsum : t.text.length = (t.before UF_PORT).length + ((t.part UF_PORT).length + rest.length) := by
    rw [htext, List.length_append, List.length_append]
  have hdata : (t.split u).field_data UF_PORT =
      ⟨(t.before UF_PORT).length.toUInt16, (t.part UF_PORT).length.toUInt16⟩ := if_neg hport
  have hoff := toNat_toUInt16_of_lt (n := (t.before UF_PORT).length) (by omega)
  have hcount := toNat_toUInt16_of_lt (n := (t.part UF_PORT).length) (by omega)
  -- the loop reads the bytes of the port, at the offset and of the length in its field
  have hslice : (t.text.drop (t.before UF_PORT).length).take (t.part UF_PORT).length =
      t.part UF_PORT := by
    rw [htext, List.drop_left, List.take_left]
  have hloop := along_digits (t.split u) (port_digits h) (v := 0) (Nat.zero_le _)
    (t.before UF_PORT).length
  unfold parse_port
  rw [hdata]
  dsimp only
  rw [hoff, hcount, if_neg (not_not.mpr (by omega)), walk_eq _ (by omega), hslice, hloop]
  show Except.bind (if Numerals.value 10 (t.part UF_PORT) ≤ 0xffff then
    .ok (Numerals.value 10 (t.part UF_PORT)).toUInt64 else _) _ = _
  by_cases hvalue : Numerals.value 10 (t.part UF_PORT) ≤ 0xffff
  -- the value fits 16 bits, so the cast keeps it
  · have hnarrow : (Numerals.value 10 (t.part UF_PORT)).toUInt64.toUInt16 =
        (Numerals.value 10 (t.part UF_PORT)).toUInt16 := by
      apply UInt16.toNat_inj.mp
      rw [UInt64.toNat_toUInt16, toNat_toUInt16_of_lt (by omega)]
      show Numerals.value 10 (t.part UF_PORT) % 2 ^ 64 % 2 ^ 16 = _
      omega
    rw [if_pos hvalue, if_pos hvalue]
    show Except.ok ({ t.split u with
      port := (Numerals.value 10 (t.part UF_PORT)).toUInt64.toUInt16 } : Url) = _
    rw [hnarrow]
    rfl
  · rw [if_neg hvalue, if_neg hvalue]
    rfl

/-- A `CONNECT` request has a host and a port and nothing else. -/
theorem split_field_set_iff {t : UrlText} {u : Url} :
    (t.split u).field_set = {UF_HOST, UF_PORT} ↔
      ∀ uf, t.part uf ≠ [] ↔ uf = UF_HOST ∨ uf = UF_PORT := by
  rw [Finset.ext_iff]
  refine forall_congr' fun uf => ?_
  show (uf ∈ (t.located u).field_set ↔ _) ↔ _
  rw [UrlText.mem_located]
  simp

theorem check_port_split {t : UrlText} {is_connect : Bool} (h : t.Spelled is_connect)
    (hlen : t.text.length < 65536) (u u' : Url) :
    check_port t.text is_connect (t.split u) = .ok u' ↔ t.Wf is_connect ∧ u' = t.located u := by
  unfold check_port
  by_cases hbad : is_connect = true ∧ (t.split u).field_set ≠ {UF_HOST, UF_PORT}
  · rw [if_pos hbad]
    refine iff_of_false (fun h => by cases h) ?_
    rintro ⟨⟨-, -, hwf⟩, -⟩
    exact hbad.2 (split_field_set_iff.mpr (hwf hbad.1))
  rw [if_neg hbad]
  have hconnect : is_connect = true → ∀ uf, t.part uf ≠ [] ↔ uf = UF_HOST ∨ uf = UF_PORT := by
    intro hconnect
    exact split_field_set_iff.mp (not_not.mp fun hne => hbad ⟨hconnect, hne⟩)
  have hwf : t.Wf is_connect ↔ Numerals.value 10 (t.part UF_PORT) ≤ 0xffff :=
    ⟨fun hw => hw.port, fun hport => ⟨h, hport, hconnect⟩⟩
  have hmem : UF_PORT ∈ (t.split u).field_set ↔ t.part UF_PORT ≠ [] :=
    UrlText.mem_located (u := u)
  by_cases hport : t.part UF_PORT = []
  · have hsplit : t.split u = t.located u := by
      simp [UrlText.split, UrlText.located, hport, Numerals.value]
    rw [if_neg (by simp [hmem, hport]), hwf, hsplit, hport]
    simp [Numerals.value, eq_comm]
  · rw [if_pos (hmem.mpr hport), hwf, parse_port_split h hlen u hport]
    by_cases hvalue : Numerals.value 10 (t.part UF_PORT) ≤ 0xffff
    · rw [if_pos hvalue, Except.ok.injEq]
      exact ⟨fun heq => ⟨hvalue, heq.symm⟩, fun heq => heq.2.symm⟩
    · rw [if_neg hvalue]
      exact iff_of_false (fun h => by cases h) fun hw => hvalue hw.1

/-! ## Urls -/

/-- The text of a url is parsed, and its parts are left in the fields. -/
theorem parse_url_located {t : UrlText} {is_connect : Bool} (ht : t.Wf is_connect)
    (hlen : t.text.length < 65536) (u : Url) :
    parse_url t.text is_connect u = .ok (t.located u) := by
  obtain ⟨c, hc, -⟩ := coarse_of_parse_fields ht.spelled u
  have hsplit := check_host_text ht.spelled hlen u
  rw [hc] at hsplit
  have hport := (check_port_split ht.spelled hlen u _).mpr ⟨ht, rfl⟩
  exact parse_url_eq_ok.mpr ⟨ht.spelled.text_ne_nil, c, t.split u, hc, hsplit, hport⟩

/-- **The url parser accepts the texts of urls and nothing else**, and leaves their parts in their
fields; what is in the other fields stays there. -/
theorem parse_url_iff {buf : Bytes} (hlen : buf.length < 65536) (is_connect : Bool) (u u' : Url) :
    parse_url buf is_connect u = .ok u' ↔
      ∃ t : UrlText, t.Wf is_connect ∧ t.text = buf ∧ u' = t.located u := by
  constructor
  · intro h
    obtain ⟨t, ht, rfl⟩ := spelled_of_parse_url hlen h
    obtain ⟨-, c, v, hfields, hhost, hport⟩ := parse_url_eq_ok.mp h
    have hsplit := check_host_text ht hlen u
    rw [hfields] at hsplit
    obtain rfl : v = t.split u := Except.ok.inj (hhost.symm.trans hsplit)
    obtain ⟨hwf, hu'⟩ := (check_port_split ht hlen u u').mp hport
    exact ⟨t, hwf, rfl, hu'⟩
  · rintro ⟨t, hwf, rfl, rfl⟩
    exact parse_url_located hwf hlen u

/-- What a caller reads in a field. -/
def Url.read (u : Url) (buf : Bytes) (uf : UrlField) : Bytes :=
  if uf ∈ u.field_set then
    (buf.drop (u.field_data uf).off.toNat).take (u.field_data uf).len.toNat
  else []

/-- **Urls are read back**: the parts that a url is written with are what a caller reads in the
fields, a fragment without the `#`s that it begins with. -/
theorem parse_url_reads {t : UrlText} {is_connect : Bool} (ht : t.Wf is_connect)
    (hlen : t.text.length < 65536) (u : Url) :
    ∃ u', parse_url t.text is_connect u = .ok u' ∧ (∀ uf, u'.read t.text uf = t.part uf) ∧
      u'.port.toNat = Numerals.value 10 (t.part UF_PORT) := by
  refine ⟨t.located u, parse_url_located ht hlen u, fun uf => ?_, ?_⟩
  · unfold Url.read
    by_cases hne : t.part uf = []
    · rw [if_neg (by simp [UrlText.mem_located, hne]), hne]
    · obtain ⟨rest, htext⟩ := t.before_part hne
      have hsum : t.text.length = (t.before uf).length + ((t.part uf).length + rest.length) := by
        rw [htext, List.length_append, List.length_append]
      have hdata : (t.located u).field_data uf =
          ⟨(t.before uf).length.toUInt16, (t.part uf).length.toUInt16⟩ := if_neg hne
      rw [if_pos (UrlText.mem_located.mpr hne), hdata]
      dsimp only
      rw [toNat_toUInt16_of_lt (by omega), toNat_toUInt16_of_lt (by omega), htext, List.drop_left,
        List.take_left]
  · have hport := ht.port
    exact toNat_toUInt16_of_lt (by omega)

/-- A url with everything in it. -/
def fullUrl : UrlText where
  front := .schema (bytes "http")
    ⟨some (bytes "joe"), .v6 (bytes "::1") (some (bytes "eth0")), some (bytes "8080")⟩
  path := bytes "/a"
  query := some (bytes "x?y")
  fragment := some (bytes "##z")

theorem fullUrl_wf : fullUrl.Wf false where
  spelled := {
    front := ⟨rfl, ⟨by decide +kernel, by decide +kernel⟩, {
      userinfo := fun user h => by cases h; decide +kernel
      host := ⟨by decide +kernel, by decide +kernel, fun z h => by cases h; decide +kernel⟩
      port := fun digits h => by cases h; decide +kernel }⟩
    path := Or.inr ⟨bytes "a", by decide +kernel, by decide +kernel⟩
    query := fun q h => by cases h; decide +kernel
    fragment := fun f h => by cases h; decide +kernel
    follows := fun _ => Or.inl (by decide +kernel) }
  port := by decide +kernel
  connect := nofun

theorem parse_url_iff_fullUrl :
    parse_url fullUrl.text false Url.init = .ok (fullUrl.located Url.init) ↔
      ∃ t : UrlText, t.Wf false ∧ t.text = fullUrl.text ∧ fullUrl.located Url.init = t.located Url.init :=
  parse_url_iff (by decide) false Url.init (fullUrl.located Url.init)

theorem parse_url_reads_fullUrl :
    ∃ u', parse_url fullUrl.text false Url.init = .ok u' ∧
      (∀ uf, u'.read fullUrl.text uf = fullUrl.part uf) ∧
        u'.port.toNat = Numerals.value 10 (fullUrl.part UF_PORT) :=
  parse_url_reads fullUrl_wf (by decide) Url.init

/-! ## The urls of requests -/

/-- A url may end where it is, once it has come to its host or its path. -/
theorem endsUrl_char {s : State} (hs : s.endsUrl = true) (ch : UInt8) :
    parse_url_char s ch = .s_dead ∨ (parse_url_char s ch).endsUrl = true := by
  cases s <;> cases hs <;> simp only [parse_url_char] <;> split_ifs <;>
    first | exact Or.inl rfl | exact Or.inr rfl

theorem endsUrl_foldl {s : State} (hs : s.endsUrl = true) {as : Bytes} (h : Alive s as) :
    (as.foldl parse_url_char s).endsUrl = true := by
  induction as generalizing s with
  | nil => exact hs
  | cons ch as ih =>
    obtain ⟨hne, hrest⟩ := h.cons
    exact ih ((endsUrl_char hs ch).resolve_left hne) hrest

theorem endsUrl_of_labelled {s : State} {as : Bytes} (h : Alive s as)
    (hlabel : Labelled UF_HOST s as ∨ Labelled UF_PATH s as) :
    (as.foldl parse_url_char s).endsUrl = true := by
  have hfield : ∀ s : State, s.urlField = some UF_HOST ∨ s.urlField = some UF_PATH →
      s.endsUrl = true := by
    intro s hs
    cases s <;> simp [State.urlField, State.endsUrl] at hs ⊢
  induction as generalizing s with
  | nil => exact (hlabel.elim id id).elim
  | cons ch as ih =>
    obtain ⟨-, hrest⟩ := h.cons
    rw [List.foldl_cons]
    rcases hlabel with (hhost | hhost) | (hpath | hpath)
    · exact endsUrl_foldl (hfield _ (Or.inl hhost)) hrest
    · exact ih hrest (Or.inl hhost)
    · exact endsUrl_foldl (hfield _ (Or.inr hpath)) hrest
    · exact ih hrest (Or.inr hpath)

/-- A url without an authority is parsed, however long it is. -/
theorem parse_url_no_authority {t : UrlText} (ht : t.Spelled false) (ha : t.front.authority = none)
    (u : Url) : parse_url t.text false u = .ok (t.split u) := by
  obtain ⟨c, hc, -, hcoarse⟩ := coarse_of_parse_fields ht u
  have hport : UF_PORT ∉ (t.split u).field_set := by
    intro hmem
    exact UrlText.mem_located.mp (show UF_PORT ∈ (t.located u).field_set from hmem)
      (by simp [UrlText.part, ha])
  refine parse_url_eq_ok.mpr ⟨ht.text_ne_nil, c, t.split u, hc, hcoarse.check_host_none ha, ?_⟩
  unfold check_port
  rw [if_neg (by simp), if_neg hport]

/-- What the url parser accepts ends in a state in which a url can end. -/
theorem endsUrl_of_parse_url {is_connect : Bool} {url : Bytes} {u u' : Url}
    (h : parse_url url is_connect u = .ok u') :
    (url.foldl parse_url_char (State.first is_connect)).endsUrl = true := by
  obtain ⟨hne, c, v, hfields, hhost, hport⟩ := parse_url_eq_ok.mp h
  obtain ⟨ch, cs, rfl⟩ := List.exists_cons_of_ne_nil hne
  obtain ⟨halive, hlabel⟩ := labelled_of_parse_fields hfields
  have hrequired := mem_host_of_check hhost hport
  rw [hlabel, hlabel] at hrequired
  apply endsUrl_of_labelled halive
  cases is_connect with
  | true => exact Or.inl (hrequired (Or.inl rfl))
  | false =>
    have hstart : State.first false = .s_req_spaces_before_url := rfl
    rw [hstart] at halive hrequired ⊢
    have hlive := halive.cons.1
    -- the first character belongs to the path or to a schema
    by_cases hpath : ch = chr '/' ∨ ch = chr '*'
    · refine Or.inr (Or.inl ?_)
      rw [first_char, if_pos hpath]
      rfl
    · refine Or.inl (hrequired (Or.inr (Or.inl ?_)))
      rw [first_char, if_neg hpath] at hlive ⊢
      split_ifs at hlive ⊢ with halpha
      · rfl
      · exact absurd rfl hlive

section

variable {σ : Type*} (S : Settings σ) (s : σ)

/-- What the url parser accepts, the request parser reports as the url of a request. -/
theorem scan_url_of_parse_url {p : Parser} (hs : p.state = .s_req_spaces_before_url)
    {url : Bytes} {u u' : Url} (h : parse_url url (p.method = .CONNECT) u = .ok u')
    (hmax : p.nread + (url.length + 1) ≤ max_header_size) :
    (Execution.between p s).scan S (url ++ [SP]) =
      Execution.between { p with
        state := .s_req_http_start, nread := p.nread + (url.length + 1) }
        (S.call s (.url p.method url)) := by
  refine scan_url_end hs ?_ (parse_url_eq_ok.mp h).1 (endsUrl_of_parse_url h) hmax
  unfold State.first
  simp

/-- **The two users of `parse_url_char` agree.** Both begin in the state `State.first`. What the url
parser accepts, with `is_connect` or without, ends in a state in which a url can end, so that the
request parser reports it as the url of a `CONNECT` or of another request; and the url parser
accepts every url of another request that begins with a path. -/
theorem parse_url_endsUrl (url : Bytes) (u : Url) :
    (∀ is_connect u', parse_url url is_connect u = .ok u' →
      (url.foldl parse_url_char (State.first is_connect)).endsUrl = true) ∧
      (∀ (p : Parser) (u' : Url), p.state = .s_req_spaces_before_url →
        parse_url url (p.method = .CONNECT) u = .ok u' →
        p.nread + (url.length + 1) ≤ max_header_size →
        (Execution.between p s).scan S (url ++ [SP]) =
          Execution.between { p with
            state := .s_req_http_start, nread := p.nread + (url.length + 1) }
            (S.call s (.url p.method url))) ∧
      ((urlState url).endsUrl = true → chr '/' ∈ url.head? ∨ chr '*' ∈ url.head? →
        ∃ u', parse_url url false u = .ok u') := by
  refine ⟨?_, ?_, ?_⟩
  · exact fun is_connect u' h => endsUrl_of_parse_url h
  · exact fun p u' hs h hmax => scan_url_of_parse_url S s hs h hmax
  · intro hends hhead
    obtain ⟨ch, cs, rfl⟩ : ∃ ch cs, url = ch :: cs := by
      apply List.exists_cons_of_ne_nil
      rintro rfl
      simp at hhead
    have hch : ch = chr '/' ∨ ch = chr '*' := by simpa using hhead
    -- a url that ends alive has been alive throughout
    have halive : Alive .s_req_spaces_before_url (ch :: cs) := by
      intro hdead
      have hstate : urlState (ch :: cs) = .s_dead := hdead
      rw [hstate] at hends
      cases hends
    have hcs := halive.cons.2
    rw [first_char, if_pos hch] at hcs
    obtain ⟨p, rest, q, f, rfl, hp, htail⟩ := alive_path hcs
    -- what begins with a path has no authority, and its parts are spelled as they stand
    have ht : (⟨.none, ch :: p, q, f⟩ : UrlText).Spelled false :=
      ⟨rfl, ⟨ch, p, rfl, hch, hp⟩, htail.query, htail.fragment,
        fun _ => Or.inl (List.cons_ne_nil _ _)⟩
    have htext : UrlText.text ⟨.none, ch :: p, q, f⟩ = ch :: (p ++ rest) := by
      rw [htail.text]
      rfl
    rw [← htext]
    exact ⟨_, parse_url_no_authority ht rfl u⟩

end

theorem parse_url_endsUrl_path :
    ((bytes "a.b:443").foldl parse_url_char (State.first true)).endsUrl = true ∧
      (Execution.between { Parser.init with
          state := .s_req_spaces_before_url, method := .CONNECT } []).scan transcript
          (bytes "a.b:443" ++ [SP]) =
        Execution.between { Parser.init with
          state := .s_req_http_start, method := .CONNECT, nread := 8 }
          (transcript.call [] (.url .CONNECT (bytes "a.b:443"))) ∧
      ∃ u', parse_url (bytes "/a?b#c") false Url.init = .ok u' :=
  ⟨(parse_url_endsUrl transcript [] (bytes "a.b:443") Url.init).1 true _ rfl,
    (parse_url_endsUrl transcript [] (bytes "a.b:443") Url.init).2.1 _ _ rfl rfl (by decide),
    (parse_url_endsUrl transcript [] (bytes "/a?b#c") Url.init).2.2 (by decide)
      (Or.inl (by decide))⟩

end Http
end SomoNet
