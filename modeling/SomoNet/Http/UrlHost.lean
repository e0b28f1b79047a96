import SomoNet.Http.UrlText

/-!
# Hosts taken apart

The second state machine accepts exactly the texts of authorities (`exists_authority`,
`along_authority`) and leaves the user, the host and the port in their fields.
-/

namespace SomoNet
namespace Http

open Walk UrlField

/-! ## What is accepted -/

/-- The characters get through the second state machine, to a state in which a host may end. -/
def Accepts (s : HostState) (as : Bytes) : Prop :=
  as.foldl parse_host_char s ≠ .s_http_host_dead ∧ (as.foldl parse_host_char s).ends = true

theorem foldl_host_dead (as : Bytes) :
    as.foldl parse_host_char .s_http_host_dead = .s_http_host_dead := by
  induction as with
  | nil => rfl
  | cons ch as ih => exact ih

theorem Accepts.cons {s : HostState} {ch : UInt8} {as : Bytes} (h : Accepts s (ch :: as)) :
    parse_host_char s ch ≠ .s_http_host_dead ∧ Accepts (parse_host_char s ch) as := by
  refine ⟨fun hdead => h.1 ?_, h⟩
  rw [List.foldl_cons, hdead, foldl_host_dead]

theorem not_accepts_nil {s : HostState} (hs : s.ends = false) : ¬ Accepts s [] := by
  rintro ⟨-, hends⟩
  rw [List.foldl_nil, hs] at hends
  cases hends

theorem host_char (ch : UInt8) : parse_host_char .s_http_host ch =
    if isHostChar ch then .s_http_host
    else if ch = chr ':' then .s_http_host_port_start else .s_http_host_dead := by
  simp [parse_host_char]

theorem v6_end_char (ch : UInt8) : parse_host_char .s_http_host_v6_end ch =
    if ch = chr ':' then .s_http_host_port_start else .s_http_host_dead := by
  simp [parse_host_char]

theorem v6_char (ch : UInt8) : parse_host_char .s_http_host_v6 ch =
    if ch = chr ']' then .s_http_host_v6_end
    else if isAddressChar ch then .s_http_host_v6
    else if ch = chr '%' then .s_http_host_v6_zone_start else .s_http_host_dead := by
  simp [parse_host_char, isAddressChar, or_assoc]

theorem v6_start_char (ch : UInt8) : parse_host_char .s_http_host_v6_start ch =
    if isAddressChar ch then .s_http_host_v6 else .s_http_host_dead := by
  simp [parse_host_char, isAddressChar, or_assoc]

theorem zone_char (ch : UInt8) : parse_host_char .s_http_host_v6_zone ch =
    if ch = chr ']' then .s_http_host_v6_end
    else if isZoneChar ch then .s_http_host_v6_zone else .s_http_host_dead := by
  simp [parse_host_char]

theorem zone_start_char (ch : UInt8) : parse_host_char .s_http_host_v6_zone_start ch =
    if isZoneChar ch then .s_http_host_v6_zone else .s_http_host_dead := by
  simp [parse_host_char]

theorem accepts_port {as : Bytes} (h : Accepts .s_http_host_port as) :
    ∀ ch ∈ as, isNum ch = true := by
  induction as with
  | nil => simp
  | cons ch as ih =>
    obtain ⟨hne, hrest⟩ := h.cons
    simp only [parse_host_char] at hne hrest
    split_ifs at hne hrest with hch
    · exact List.forall_mem_cons.mpr ⟨hch, ih hrest⟩
    · exact absurd rfl hne

theorem accepts_port_start {as : Bytes} (h : Accepts .s_http_host_port_start as) :
    PortWf (some as) := by
  intro digits hdigits
  cases hdigits
  cases as with
  | nil => exact absurd h (not_accepts_nil rfl)
  | cons ch as =>
    obtain ⟨hne, hrest⟩ := h.cons
    simp only [parse_host_char] at hne hrest
    split_ifs at hne hrest with hch
    · exact ⟨List.cons_ne_nil _ _, List.forall_mem_cons.mpr ⟨hch, accepts_port hrest⟩⟩
    · exact absurd rfl hne

theorem accepts_v6_end {as : Bytes} (h : Accepts .s_http_host_v6_end as) :
    ∃ port, as = announced ':' port ∧ PortWf port := by
  cases as with
  | nil => exact ⟨none, rfl, by simp [PortWf]⟩
  | cons ch as =>
    obtain ⟨hne, hrest⟩ := h.cons
    rw [v6_end_char] at hne hrest
    split_ifs at hne hrest with hch
    · exact ⟨some as, by rw [hch]; rfl, accepts_port_start hrest⟩
    · exact absurd rfl hne

theorem accepts_host {as : Bytes} (h : Accepts .s_http_host as) :
    ∃ chars port, as = chars ++ announced ':' port ∧ (∀ ch ∈ chars, isHostChar ch = true) ∧
      PortWf port := by
  induction as with
  | nil => exact ⟨[], none, rfl, by simp, by simp [PortWf]⟩
  | cons ch as ih =>
    obtain ⟨hne, hrest⟩ := h.cons
    rw [host_char] at hne hrest
    split_ifs at hne hrest with hch hcolon
    · obtain ⟨chars, port, rfl, hchars, hport⟩ := ih hrest
      exact ⟨ch :: chars, port, rfl, List.forall_mem_cons.mpr ⟨hch, hchars⟩, hport⟩
    · exact ⟨[], some as, by rw [hcolon]; rfl, by simp, accepts_port_start hrest⟩
    · exact absurd rfl hne

theorem accepts_zone {as : Bytes} (h : Accepts .s_http_host_v6_zone as) :
    ∃ z cs, as = z ++ chr ']' :: cs ∧ (∀ ch ∈ z, isZoneChar ch = true) ∧
      Accepts .s_http_host_v6_end cs := by
  induction as with
  | nil => exact absurd h (not_accepts_nil rfl)
  | cons ch as ih =>
    obtain ⟨hne, hrest⟩ := h.cons
    rw [zone_char] at hne hrest
    split_ifs at hne hrest with hclose hch
    · exact ⟨[], as, by rw [hclose]; rfl, by simp, hrest⟩
    · obtain ⟨z, cs, rfl, hz, hcs⟩ := ih hrest
      exact ⟨ch :: z, cs, rfl, List.forall_mem_cons.mpr ⟨hch, hz⟩, hcs⟩
    · exact absurd rfl hne

theorem accepts_zone_start {as : Bytes} (h : Accepts .s_http_host_v6_zone_start as) :
    ∃ z cs, as = z ++ chr ']' :: cs ∧ ZoneWf (some z) ∧ Accepts .s_http_host_v6_end cs := by
  cases as with
  | nil => exact absurd h (not_accepts_nil rfl)
  | cons ch as =>
    obtain ⟨hne, hrest⟩ := h.cons
    rw [zone_start_char] at hne hrest
    split_ifs at hne hrest with hch
    · obtain ⟨z, cs, rfl, hz, hcs⟩ := accepts_zone hrest
      refine ⟨ch :: z, cs, rfl, fun z' hz' => ?_, hcs⟩
      cases hz'
      exact ⟨List.cons_ne_nil _ _, List.forall_mem_cons.mpr ⟨hch, hz⟩⟩
    · exact absurd rfl hne

theorem accepts_v6 {as : Bytes} (h : Accepts .s_http_host_v6 as) :
    ∃ address zone cs, as = address ++ (announced '%' zone ++ chr ']' :: cs) ∧
      (∀ ch ∈ address, isAddressChar ch = true) ∧ ZoneWf zone ∧ Accepts .s_http_host_v6_end cs := by
  induction as with
  | nil => exact absurd h (not_accepts_nil rfl)
  | cons ch as ih =>
    obtain ⟨hne, hrest⟩ := h.cons
    rw [v6_char] at hne hrest
    split_ifs at hne hrest with hclose hch hzone
    · exact ⟨[], none, as, by rw [hclose]; rfl, by simp, by simp [ZoneWf], hrest⟩
    · obtain ⟨address, zone, cs, rfl, haddress, hcs⟩ := ih hrest
      exact ⟨ch :: address, zone, cs, rfl, List.forall_mem_cons.mpr ⟨hch, haddress⟩, hcs⟩
    · obtain ⟨z, cs, rfl, hz, hcs⟩ := accepts_zone_start hrest
      exact ⟨[], some z, cs, by rw [hzone]; rfl, by simp, hz, hcs⟩
    · exact absurd rfl hne

theorem accepts_host_start {as : Bytes} (h : Accepts .s_http_host_start as) :
    ∃ (host : HostText) (port : Option Bytes), as = host.text ++ announced ':' port ∧ host.Wf ∧
      PortWf port := by
  cases as with
  | nil => exact absurd h (not_accepts_nil rfl)
  | cons ch as =>
    obtain ⟨hne, hrest⟩ := h.cons
    simp only [parse_host_char] at hne hrest
    split_ifs at hne hrest with hopen hch
    · cases as with
      | nil => exact absurd hrest (not_accepts_nil rfl)
      | cons ch' as =>
        obtain ⟨hne', hrest'⟩ := hrest.cons
        rw [v6_start_char] at hne' hrest'
        split_ifs at hne' hrest' with hch'
        · obtain ⟨address, zone, cs, rfl, haddress, hzone, hcs⟩ := accepts_v6 hrest'
          obtain ⟨port, rfl, hport⟩ := accepts_v6_end hcs
          refine ⟨.v6 (ch' :: address) zone, port, ?_,
            ⟨List.cons_ne_nil _ _, List.forall_mem_cons.mpr ⟨hch', haddress⟩, hzone⟩, hport⟩
          simp [HostText.text, HostText.opening, HostText.kept, HostText.closing, hopen]
        · exact absurd rfl hne'
    · obtain ⟨chars, port, rfl, hchars, hport⟩ := accepts_host hrest
      refine ⟨.name (ch :: chars), port, ?_,
        ⟨List.cons_ne_nil _ _, List.forall_mem_cons.mpr ⟨hch, hchars⟩⟩, hport⟩
      simp [HostText.text, HostText.opening, HostText.kept, HostText.closing]
    · exact absurd rfl hne

theorem accepts_userinfo {s : HostState} (hs : s = .s_http_userinfo_start ∨ s = .s_http_userinfo)
    {as : Bytes} (h : Accepts s as) :
    ∃ user cs, as = user ++ chr '@' :: cs ∧ (∀ ch ∈ user, isUserinfoChar ch = true) ∧
      Accepts .s_http_host_start cs := by
  induction as generalizing s with
  | nil =>
    refine absurd h (not_accepts_nil ?_)
    rcases hs with rfl | rfl <;> rfl
  | cons ch as ih =>
    obtain ⟨hne, hrest⟩ := h.cons
    have hchar : parse_host_char s ch = if ch = chr '@' then .s_http_host_start
        else if isUserinfoChar ch then .s_http_userinfo else .s_http_host_dead := by
      rcases hs with rfl | rfl <;> rfl
    rw [hchar] at hne hrest
    split_ifs at hne hrest with hat hch
    · exact ⟨[], as, by rw [hat]; rfl, by simp, hrest⟩
    · obtain ⟨user, cs, rfl, huser, hcs⟩ := ih (Or.inr rfl) hrest
      exact ⟨ch :: user, cs, rfl, List.forall_mem_cons.mpr ⟨hch, huser⟩, hcs⟩
    · exact absurd rfl hne

/-- The state in which the second machine begins. -/
def HostState.first (found_at : Bool) : HostState :=
  if found_at then .s_http_userinfo_start else .s_http_host_start

/-- **The second machine** accepts authorities. -/
theorem exists_authority {found_at : Bool} {as : Bytes} (h : Accepts (HostState.first found_at) as) :
    ∃ a : Authority, a.Spelled ∧ a.text = as ∧ a.userinfo.isSome = found_at := by
  cases found_at with
  | true =>
    obtain ⟨user, cs, rfl, huser, hcs⟩ := accepts_userinfo (Or.inl rfl) h
    obtain ⟨host, port, rfl, hhost, hport⟩ := accepts_host_start hcs
    refine ⟨⟨some user, host, port⟩, ⟨?_, hhost, hport⟩, ?_, rfl⟩
    · intro user' huser'
      cases huser'
      exact huser
    · simp [Authority.text, Authority.user]
  | false =>
    obtain ⟨host, port, rfl, hhost, hport⟩ := accepts_host_start h
    exact ⟨⟨none, host, port⟩, ⟨by simp, hhost, hport⟩, by simp [Authority.text, Authority.user], rfl⟩

/-! ## What is left in the fields -/

namespace Url

/-- A part that may be empty is put into its field. -/
def putPart (u : Url) (uf : UrlField) (i : ℕ) (part : Bytes) : Url :=
  if part = [] then u else u.put uf i part.length

theorem grow_put (u : Url) (uf : UrlField) (i n : ℕ) : (u.put uf i n).grow uf = u.put uf i (n + 1) := by
  have hdata : (u.put uf i n).field_data uf = ⟨i.toUInt16, n.toUInt16⟩ := by
    rw [put_field_data, if_pos rfl]
  have hlen : n.toUInt16 + 1 = (n + 1).toUInt16 := (UInt16.ofNat_add n 1).symm
  unfold grow
  rw [hdata]
  dsimp only
  rw [hlen]
  unfold put setData
  simp

/-- A field that is set and empty begins anew. -/
theorem grow_setOff {u : Url} {uf : UrlField} (hset : uf ∈ u.field_set)
    (hlen : (u.field_data uf).len = 0) (i : ℕ) : (u.setOff uf i).grow uf = u.put uf i 1 := by
  have hdata : (u.setOff uf i).field_data uf = ⟨i.toUInt16, 0⟩ := by
    unfold setOff
    rw [setData_field_data, if_pos rfl]
    dsimp only
    rw [hlen]
  unfold grow
  rw [hdata]
  unfold setOff put setData
  simp [Finset.insert_eq_of_mem hset]

theorem putPart_of_ne_nil (u : Url) (uf : UrlField) (i : ℕ) {part : Bytes} (h : part ≠ []) :
    u.putPart uf i part = u.put uf i part.length := if_neg h

theorem putPart_field_data (u : Url) (uf uf' : UrlField) (i : ℕ) (part : Bytes) :
    (u.putPart uf i part).field_data uf' =
      if uf' = uf ∧ part ≠ [] then ⟨i.toUInt16, part.length.toUInt16⟩ else u.field_data uf' := by
  unfold putPart
  by_cases hpart : part = []
  · simp [hpart]
  · simp [hpart, put_field_data]

theorem mem_putPart {u : Url} {uf uf' : UrlField} {i : ℕ} {part : Bytes} :
    uf' ∈ (u.putPart uf i part).field_set ↔ uf' = uf ∧ part ≠ [] ∨ uf' ∈ u.field_set := by
  unfold putPart
  by_cases hpart : part = []
  · simp [hpart]
  · simp [hpart]

end Url

namespace HostScan

variable {u : Url}

/-- The characters of a field that has begun. -/
theorem along_put {s : HostState} {uf : UrlField} {as : Bytes}
    (h : ∀ ch ∈ as, ∀ v k, next ⟨s, v⟩ k ch = .ok ⟨s, v.grow uf⟩) (u : Url) (j n i : ℕ) :
    along next ⟨s, u.put uf j n⟩ i as = .ok ⟨s, u.put uf j (n + as.length)⟩ := by
  apply along_count (g := fun n => (⟨s, u.put uf j n⟩ : HostScan))
  intro ch hch n i
  rw [h ch hch, Url.grow_put]

/-- A user, and the character that ends it. -/
theorem along_user (u : Url) (i : ℕ) {user : Bytes} (huser : ∀ ch ∈ user, isUserinfoChar ch = true) :
    along next ⟨.s_http_userinfo_start, u⟩ i (user ++ [chr '@']) =
      .ok ⟨.s_http_host_start, u.putPart UF_USERINFO i user⟩ := by
  have hchar : ∀ ch, isUserinfoChar ch = true → ch ≠ chr '@' :=
    fun _ => ne_of_class (by decide)
  cases user with
  | nil => rfl
  | cons ch user =>
    have hgo : ∀ c ∈ user, ∀ v k, next ⟨.s_http_userinfo, v⟩ k c =
        .ok ⟨.s_http_userinfo, v.grow UF_USERINFO⟩ := by
      intro c hc v k
      have hc' := huser c (List.mem_cons_of_mem _ hc)
      simp [next, parse_host_char, hchar c hc', hc']
    have hfirst : next ⟨.s_http_userinfo_start, u⟩ i ch =
        .ok ⟨.s_http_userinfo, u.put UF_USERINFO i 1⟩ := by
      have hch := huser ch List.mem_cons_self
      simp [next, parse_host_char, hchar ch hch, hch, Url.grow_put]
    have hlen : 1 + user.length = (ch :: user).length := by
      rw [List.length_cons]
      omega
    rw [along_append, along_cons, hfirst, Url.putPart_of_ne_nil _ _ _ (List.cons_ne_nil _ _), ← hlen]
    show Except.bind (along next ⟨.s_http_userinfo, _⟩ (i + 1) user) _ = _
    rw [along_put hgo]
    rfl

section

variable (hset : UF_HOST ∈ u.field_set) (hlen : (u.field_data UF_HOST).len = 0) (i : ℕ)
include hset hlen

/-- A name. -/
theorem along_name {chars : Bytes} (hne : chars ≠ []) (hchars : ∀ ch ∈ chars, isHostChar ch = true) :
    along next ⟨.s_http_host_start, u⟩ i chars =
      .ok ⟨.s_http_host, u.put UF_HOST i chars.length⟩ := by
  have hchar : ∀ ch, isHostChar ch = true → ch ≠ chr '[' :=
    fun _ => ne_of_class (by decide)
  obtain ⟨ch, cs, rfl⟩ := List.exists_cons_of_ne_nil hne
  have hgo : ∀ c ∈ cs, ∀ v k, next ⟨.s_http_host, v⟩ k c = .ok ⟨.s_http_host, v.grow UF_HOST⟩ := by
    intro c hc v k
    simp [next, host_char, hchars c (List.mem_cons_of_mem _ hc)]
  have hfirst : next ⟨.s_http_host_start, u⟩ i ch = .ok ⟨.s_http_host, u.put UF_HOST i 1⟩ := by
    have hch := hchars ch List.mem_cons_self
    simp [next, parse_host_char, hchar ch hch, hch, Url.grow_setOff hset hlen]
  have hcount : 1 + cs.length = (ch :: cs).length := by
    rw [List.length_cons]
    omega
  rw [along_cons, hfirst, ← hcount]
  exact along_put hgo u i 1 (i + 1)

/-- The characters of an address of version 6. -/
theorem along_address {address : Bytes} (hne : address ≠ [])
    (haddress : ∀ ch ∈ address, isAddressChar ch = true) :
    along next ⟨.s_http_host_v6_start, u⟩ i address =
      .ok ⟨.s_http_host_v6, u.put UF_HOST i address.length⟩ := by
  have hchar : ∀ ch, isAddressChar ch = true → ch ≠ chr ']' :=
    fun _ => ne_of_class (by decide)
  obtain ⟨ch, cs, rfl⟩ := List.exists_cons_of_ne_nil hne
  have hgo : ∀ c ∈ cs, ∀ v k,
      next ⟨.s_http_host_v6, v⟩ k c = .ok ⟨.s_http_host_v6, v.grow UF_HOST⟩ := by
    intro c hc v k
    have hc' := haddress c (List.mem_cons_of_mem _ hc)
    simp [next, v6_char, hchar c hc', hc']
  have hfirst : next ⟨.s_http_host_v6_start, u⟩ i ch =
      .ok ⟨.s_http_host_v6, u.put UF_HOST i 1⟩ := by
    have hch := haddress ch List.mem_cons_self
    simp [next, v6_start_char, hch, Url.grow_setOff hset hlen]
  have hcount : 1 + cs.length = (ch :: cs).length := by
    rw [List.length_cons]
    omega
  rw [along_cons, hfirst, ← hcount]
  exact along_put hgo u i 1 (i + 1)

end

/-- A zone identifier and the end of the address. -/
theorem along_zone (u : Url) (j n i : ℕ) {zone : Option Bytes} (hzone : ZoneWf zone) :
    along next ⟨.s_http_host_v6, u.put UF_HOST j n⟩ i (announced '%' zone ++ [chr ']']) =
      .ok ⟨.s_http_host_v6_end, u.put UF_HOST j (n + (announced '%' zone).length)⟩ := by
  cases zone with
  | none => rfl
  | some z =>
    obtain ⟨hne, hz⟩ := hzone z rfl
    obtain ⟨ch, cs, rfl⟩ := List.exists_cons_of_ne_nil hne
    have hchar : ∀ ch, isZoneChar ch = true → ch ≠ chr ']' :=
      fun _ => ne_of_class (by decide)
    have hgo : ∀ c ∈ cs, ∀ v k,
        next ⟨.s_http_host_v6_zone, v⟩ k c = .ok ⟨.s_http_host_v6_zone, v.grow UF_HOST⟩ := by
      intro c hc v k
      have hc' := hz c (List.mem_cons_of_mem _ hc)
      simp [next, zone_char, hchar c hc', hc']
    have hpercent : next ⟨.s_http_host_v6, u.put UF_HOST j n⟩ i (chr '%') =
        .ok ⟨.s_http_host_v6_zone_start, u.put UF_HOST j (n + 1)⟩ := by
      rw [← Url.grow_put]
      rfl
    have hfirst : next ⟨.s_http_host_v6_zone_start, u.put UF_HOST j (n + 1)⟩ (i + 1) ch =
        .ok ⟨.s_http_host_v6_zone, u.put UF_HOST j (n + 2)⟩ := by
      have hch := hz ch List.mem_cons_self
      simp [next, zone_start_char, hch, Url.grow_put]
    have hcount : n + 2 + cs.length = n + (chr '%' :: ch :: cs).length := by
      simp only [List.length_cons]
      omega
    show along next _ i ((chr '%' :: ch :: cs) ++ [chr ']']) =
      .ok ⟨_, u.put UF_HOST j (n + (chr '%' :: ch :: cs).length)⟩
    -- the percent sign is part of the host, and so is the zone
    rw [along_append, along_cons, hpercent, ← hcount]
    show Except.bind (Except.bind (next _ (i + 1) ch) _) _ = _
    rw [hfirst]
    show Except.bind (along next ⟨.s_http_host_v6_zone, _⟩ (i + 2) cs) _ = _
    rw [along_put hgo]
    rfl

/-- A host. -/
theorem along_hostText {u : Url} (hset : UF_HOST ∈ u.field_set)
    (hlen : (u.field_data UF_HOST).len = 0) (i : ℕ) {host : HostText} (hhost : host.Wf) :
    ∃ s, (s = .s_http_host ∨ s = .s_http_host_v6_end) ∧
      along next ⟨.s_http_host_start, u⟩ i host.text =
        .ok ⟨s, u.put UF_HOST (i + host.opening.length) host.kept.length⟩ := by
  cases host with
  | name chars =>
    have htext : (HostText.name chars).text = chars := List.append_nil chars
    refine ⟨_, Or.inl rfl, ?_⟩
    rw [htext]
    exact along_name hset hlen i hhost.1 hhost.2
  | v6 address zone =>
    obtain ⟨hne, haddress, hzone⟩ := hhost
    have htext : (HostText.v6 address zone).text =
        chr '[' :: (address ++ (announced '%' zone ++ [chr ']'])) := by
      simp [HostText.text, HostText.opening, HostText.kept, HostText.closing]
    refine ⟨_, Or.inr rfl, ?_⟩
    rw [htext, along_cons]
    show along next ⟨.s_http_host_v6_start, u⟩ (i + 1) _ = _
    rw [along_append, along_address hset hlen (i + 1) hne haddress]
    show along next ⟨.s_http_host_v6, _⟩ _ _ = _
    rw [along_zone u (i + 1) _ _ hzone, ← List.length_append]
    rfl

/-- A port, or the end of the host. -/
theorem along_port {s : HostState} (hs : s = .s_http_host ∨ s = .s_http_host_v6_end) (u : Url)
    (i : ℕ) {port : Option Bytes} (hport : PortWf port) :
    ∃ s', s'.ends = true ∧ along next ⟨s, u⟩ i (announced ':' port) =
      .ok ⟨s', u.putPart UF_PORT (i + 1) (port.getD [])⟩ := by
  cases port with
  | none =>
    refine ⟨s, ?_, rfl⟩
    rcases hs with rfl | rfl <;> rfl
  | some digits =>
    obtain ⟨hne, hdigits⟩ := hport digits rfl
    obtain ⟨ch, cs, rfl⟩ := List.exists_cons_of_ne_nil hne
    have hgo : ∀ c ∈ cs, ∀ v k,
        next ⟨.s_http_host_port, v⟩ k c = .ok ⟨.s_http_host_port, v.grow UF_PORT⟩ := by
      intro c hc v k
      simp [next, parse_host_char, hdigits c (List.mem_cons_of_mem _ hc)]
    have hcolon : next ⟨s, u⟩ i (chr ':') = .ok ⟨.s_http_host_port_start, u⟩ := by
      rcases hs with rfl | rfl <;> rfl
    have hfirst : next ⟨.s_http_host_port_start, u⟩ (i + 1) ch =
        .ok ⟨.s_http_host_port, u.put UF_PORT (i + 1) 1⟩ := by
      have hch := hdigits ch List.mem_cons_self
      simp [next, parse_host_char, hch, Url.grow_put]
    have hcount : 1 + cs.length = (ch :: cs).length := by
      rw [List.length_cons]
      omega
    refine ⟨.s_http_host_port, rfl, ?_⟩
    show along next _ i (chr ':' :: ch :: cs) = .ok ⟨_, u.putPart UF_PORT (i + 1) (ch :: cs)⟩
    rw [along_cons, hcolon, Url.putPart_of_ne_nil _ _ _ (List.cons_ne_nil _ _), ← hcount]
    show Except.bind (next _ (i + 1) ch) _ = _
    rw [hfirst]
    exact along_put hgo u (i + 1) 1 (i + 2)

/-- **An authority** leaves its user, its host and its port in their fields. -/
theorem along_authority {u : Url} (hset : UF_HOST ∈ u.field_set)
    (hlen : (u.field_data UF_HOST).len = 0) (i : ℕ) {a : Authority} (ha : a.Spelled) :
    ∃ s, s.ends = true ∧
      along next ⟨HostState.first a.userinfo.isSome, u⟩ i a.text =
        .ok ⟨s, ((u.putPart UF_USERINFO i (a.userinfo.getD [])).put UF_HOST
          (i + (a.user ++ a.host.opening).length) a.host.kept.length).putPart UF_PORT
            (i + (a.user ++ (a.host.text ++ [chr ':'])).length) (a.port.getD [])⟩ := by
  have huser : along next ⟨HostState.first a.userinfo.isSome, u⟩ i a.user =
      .ok ⟨.s_http_host_start, u.putPart UF_USERINFO i (a.userinfo.getD [])⟩ := by
    have hchars := ha.userinfo
    unfold Authority.user
    cases huserinfo : a.userinfo with
    | none => rfl
    | some user => exact along_user u i (hchars user huserinfo)
  have hset' : UF_HOST ∈ (u.putPart UF_USERINFO i (a.userinfo.getD [])).field_set :=
    Url.mem_putPart.mpr (Or.inr hset)
  have hlen' : ((u.putPart UF_USERINFO i (a.userinfo.getD [])).field_data UF_HOST).len = 0 := by
    rw [Url.putPart_field_data, if_neg (by simp)]
    exact hlen
  obtain ⟨s, hs, hhost⟩ := along_hostText hset' hlen' (i + a.user.length) ha.host
  obtain ⟨s', hs', hport⟩ := along_port hs ((u.putPart UF_USERINFO i (a.userinfo.getD [])).put UF_HOST
    (i + a.user.length + a.host.opening.length) a.host.kept.length)
    (i + a.user.length + a.host.text.length) ha.port
  refine ⟨s', hs', ?_⟩
  unfold Authority.text
  rw [along_append, huser]
  show along next ⟨.s_http_host_start, _⟩ (i + a.user.length) _ = _
  rw [along_append, hhost]
  show along next ⟨s, _⟩ (i + a.user.length + a.host.text.length) _ = _
  rw [hport]
  simp only [List.length_append, List.length_singleton, Nat.add_assoc]

/-- The characters that a loop over a host gets through. -/
theorem along_state {c c' : HostScan} {i : ℕ} {as : Bytes} (h : along next c i as = .ok c') :
    c'.s = as.foldl parse_host_char c.s ∧ (as ≠ [] → c'.s ≠ .s_http_host_dead) := by
  induction as generalizing c i with
  | nil =>
    cases h
    exact ⟨rfl, fun hne => absurd rfl hne⟩
  | cons ch as ih =>
    rw [along_cons] at h
    cases hnext : c.next i ch with
    | error e =>
      rw [hnext] at h
      cases h
    | ok d =>
      rw [hnext] at h
      have hd : d.s = parse_host_char c.s ch ∧ d.s ≠ .s_http_host_dead := by
        unfold next at hnext
        cases hs : parse_host_char c.s ch <;> rw [hs] at hnext <;> cases hnext <;> exact ⟨rfl, nofun⟩
      obtain ⟨hstate, hlive⟩ := ih h
      rw [hd.1] at hstate
      refine ⟨hstate, fun _ => ?_⟩
      by_cases has : as = []
      · subst has
        cases h
        exact hd.2
      · exact hlive has

end HostScan

/-! ## The loop over the authority of a url -/

theorem toNat_toUInt16_of_lt {n : ℕ} (h : n < 65536) : n.toUInt16.toNat = n :=
  UInt16.toNat_ofNat_of_lt' h

section

variable {buf pre auth post : Bytes} {u : Url} (hbuf : buf = pre ++ (auth ++ post))
  (hlen : buf.length < 65536) (hset : UF_HOST ∈ u.field_set)
  (hdata : u.field_data UF_HOST = ⟨pre.length.toUInt16, auth.length.toUInt16⟩)
include hbuf hlen hset hdata

/-- The loop goes over the authority, when the buffer is short enough for its position. -/
theorem parse_host_eq (found_at : Bool) :
    parse_host buf u found_at =
      (along HostScan.next ⟨HostState.first found_at,
        u.setData UF_HOST ⟨pre.length.toUInt16, 0⟩⟩ pre.length auth).bind fun c =>
          if c.s.ends then .ok c.u else .error (.fail c.u) := by
  have hsum : buf.length = pre.length + (auth.length + post.length) := by
    rw [hbuf, List.length_append, List.length_append]
  have hoff : pre.length.toUInt16.toNat = pre.length := toNat_toUInt16_of_lt (by omega)
  have hauth : auth.length.toUInt16.toNat = auth.length := toNat_toUInt16_of_lt (by omega)
  have hslice : (buf.drop pre.length).take auth.length = auth := by
    rw [hbuf, List.drop_left, List.take_left]
  unfold parse_host
  rw [if_neg (not_not.mpr hset), hdata]
  dsimp only
  rw [hoff, hauth, walk_eq _ (by omega), hslice]
  rfl

/-- An authority that is found is taken apart. -/
theorem parse_host_authority {a : Authority} (ha : a.Spelled) (htext : a.text = auth) :
    parse_host buf u a.userinfo.isSome =
      .ok ((((u.setData UF_HOST ⟨pre.length.toUInt16, 0⟩).putPart UF_USERINFO pre.length
        (a.userinfo.getD [])).put UF_HOST (pre.length + (a.user ++ a.host.opening).length)
          a.host.kept.length).putPart UF_PORT
            (pre.length + (a.user ++ (a.host.text ++ [chr ':'])).length) (a.port.getD [])) := by
  have hzero : ((u.setData UF_HOST ⟨pre.length.toUInt16, 0⟩).field_data UF_HOST).len = 0 := by
    rw [Url.setData_field_data, if_pos rfl]
  obtain ⟨s, hs, halong⟩ := HostScan.along_authority (u := u.setData UF_HOST ⟨pre.length.toUInt16, 0⟩)
    hset hzero pre.length ha
  rw [parse_host_eq hbuf hlen hset hdata, ← htext, halong]
  exact if_pos hs

/-- What is taken apart is an authority. -/
theorem authority_of_parse_host (hne : auth ≠ []) {found_at : Bool} {u' : Url}
    (h : parse_host buf u found_at = .ok u') :
    ∃ a : Authority, a.Spelled ∧ a.text = auth ∧ a.userinfo.isSome = found_at := by
  rw [parse_host_eq hbuf hlen hset hdata] at h
  cases hloop : along HostScan.next ⟨HostState.first found_at,
      u.setData UF_HOST ⟨pre.length.toUInt16, 0⟩⟩ pre.length auth with
  | error e =>
    rw [hloop] at h
    cases h
  | ok c =>
    rw [hloop] at h
    have hends : c.s.ends = true := by
      by_contra hends
      have hfail : (Except.error (.fail c.u) : Except UrlStop Url) = .ok u' := by
        rw [← h]
        exact (if_neg hends).symm
      cases hfail
    obtain ⟨hstate, hlive⟩ := HostScan.along_state hloop
    apply exists_authority
    constructor
    · rw [← hstate]
      exact hlive hne
    · rw [← hstate]
      exact hends

end

end Http
end SomoNet
