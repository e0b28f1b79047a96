import SomoNet.LinkIds

/-!
# Open connections and the maps

`TcpServer` never takes a link out of `m_mapLinks`, and `HttpServer` takes a session out of
`m_mapLink` in `on_close` only, which is called for a read error and for nothing else. So the maps
agree with the connections until the first one ends. The requests of a segment are those that the
parser reports when the callbacks without a `return` give 0 (`HttpPeerLink.settings`).
-/

namespace SomoNet

open Run

/-- The ids that there are. -/
def ID_COUNT : ℕ := 4294967296

namespace Tables

/-- The id is that of an accepted link whose connection is open. -/
def OpenId (t : Tables) (i : UInt32) : Prop := ∃ l, t.isOpen l = some true ∧ t.linkid l = some i

/-- The keys of both maps are the ids of the open connections. -/
structure Tracks (t : Tables) : Prop where
  links : ∀ i, t.links i ≠ none ↔ t.OpenId i
  sessions : ∀ i, t.owner i ≠ none ↔ t.OpenId i

/-- The connection of an accepted link ends: with a read error, a failed write, the response to
a request, or the link itself. -/
def Ends (t : Tables) : ServerEvent → Prop
  | .destroy l => t.isOpen l ≠ none
  | .read _ _ _ answers => answers ≠ []
  | .readError _ _ => True
  | .writeDone _ _ status => status < 0
  | _ => False

/-- The ids in use, by the links and in the maps, are those of the links created so far. -/
structure Few (t : Tables) : Prop where
  few : t.created < ID_COUNT
  counter : t.nLastId.toNat = (t.created + 1) % ID_COUNT
  ids : ∀ l i, t.linkid l = some i → i.toNat ≤ t.created
  links : ∀ i, t.links i ≠ none → i.toNat ≤ t.created
  owner : ∀ i, t.owner i ≠ none → i.toNat ≤ t.created

/-! ## The counter -/

/-- Before the wrap every id is new. -/
theorem Few.freshId {t : Tables} (ht : t.Few) {e : ServerEvent} (hfew : (t.next e).created < ID_COUNT) :
    t.FreshId e := by
  -- the counter has not wrapped, so the next id is above all that are in use
  have hcount : t.created + 1 < ID_COUNT → t.nLastId.toNat = t.created + 1 := by
    intro h
    rw [ht.counter]
    exact Nat.mod_eq_of_lt h
  have hunused : t.created + 1 < ID_COUNT → t.Unused := by
    intro h
    have hlast := hcount h
    refine ⟨fun hzero => ?_, fun l hl => ?_⟩
    · rw [hzero] at hlast
      cases hlast
    · have hle := ht.ids l _ hl
      omega
  cases e with
  | create => exact hunused hfew
  | accept =>
    refine ⟨hunused hfew, ?_⟩
    by_contra hstale
    have hlast := hcount hfew
    have hle := ht.owner _ hstale
    omega
  | _ => trivial

theorem Few.shut {t : Tables} (ht : t.Few) (l : LinkPtr) : (t.shut l).Few :=
  ⟨ht.few, ht.counter, ht.ids, ht.links, ht.owner⟩

theorem Few.forget {t : Tables} (ht : t.Few) (linkid : UInt32) : (t.forget linkid).Few := by
  have howner : ∀ i, (t.forget linkid).owner i ≠ none → t.owner i ≠ none := by
    intro i h
    obtain ⟨p, hp⟩ := Option.ne_none_iff_exists'.mp h
    rw [owner_forget hp]
    exact Option.some_ne_none _
  unfold Tables.forget at howner ⊢
  by_cases hzero : linkid = 0
  · rw [if_pos hzero]
    exact ht
  · rw [if_neg hzero] at howner ⊢
    exact ⟨ht.few, ht.counter, ht.ids, ht.links, fun i h => ht.owner i (howner i h)⟩

theorem Few.destroy {t : Tables} (ht : t.Few) (l : LinkPtr) : (t.destroy l).Few := by
  refine ⟨ht.few, ht.counter, fun l' i h => ?_, ht.links, ht.owner⟩
  exact ht.ids l' i (linkid_destroy_eq_some.mp h).2

theorem Few.create {t : Tables} (ht : t.Few) (hfew : t.created + 1 < ID_COUNT) : t.create.Few := by
  have hlast : t.nLastId.toNat = t.created + 1 := by
    rw [ht.counter]
    exact Nat.mod_eq_of_lt hfew
  refine ⟨hfew, ?_, fun l i h => ?_, fun i h => ?_, fun i h => ?_⟩
  · show (t.nLastId + 1).toNat = _
    rw [UInt32.toNat_add, hlast]
    rfl
  · have hupdate : (Function.update t.linkid t.nextLink (some t.nLastId)) l = some i := h
    show i.toNat ≤ t.created + 1
    rw [Function.update_apply] at hupdate
    split at hupdate
    · cases hupdate
      exact hlast.le
    · exact (ht.ids l i hupdate).trans (Nat.le_succ _)
  · exact (ht.links i h).trans (Nat.le_succ _)
  · exact (ht.owner i h).trans (Nat.le_succ _)

theorem Few.accept {t : Tables} (ht : t.Few) (hfew : t.created + 1 < ID_COUNT) : t.accept.Few := by
  have hcreate := ht.create hfew
  have hlast : t.nLastId.toNat ≤ t.created + 1 := by
    rw [ht.counter]
    exact Nat.mod_le _ _
  refine ⟨hcreate.few, hcreate.counter, hcreate.ids, fun i h => ?_, fun i h => ?_⟩
  · have hupdate : (Function.update t.links t.nLastId (some t.nextLink)) i ≠ none := h
    rw [Function.update_apply] at hupdate
    split at hupdate
    next hi =>
      subst hi
      exact hlast
    next => exact hcreate.links i hupdate
  · have hupdate : (if t.owner t.nLastId = none then
        Function.update t.owner t.nLastId (some t.nextLink) else t.owner) i ≠ none := h
    split at hupdate
    · rw [Function.update_apply] at hupdate
      split at hupdate
      next hi =>
        subst hi
        exact hlast
      next => exact hcreate.owner i hupdate
    · exact hcreate.owner i hupdate

theorem Few.next {t : Tables} (ht : t.Few) {e : ServerEvent} (hfew : (t.next e).created < ID_COUNT) :
    (t.next e).Few := by
  apply next_cases e ht
  · rintro rfl
    exact ht.accept hfew
  · rintro rfl
    exact ht.create hfew
  · exact ht.destroy
  · exact ht.shut
  · exact fun l linkid _ => (ht.forget linkid).shut l

/-! ## The end of a connection -/

section

variable {t : Tables} (hs : t.Sane) (hr : t.Routed) (ht : t.Tracks)
include hs hr

/-- Where the maps agree with the connections, every accepted link is open. -/
theorem Tracks.isOpen (ht : t.Tracks) {l : LinkPtr} (hl : t.isOpen l ≠ none) :
    t.isOpen l = some true := by
  obtain ⟨i, hi⟩ := Option.ne_none_iff_exists'.mp (hs.accepted l hl)
  have hlink : t.links i ≠ none := by
    rw [hr.get_link l i hl hi]
    exact Option.some_ne_none _
  obtain ⟨l', hopen, hi'⟩ := (ht.links i).mp hlink
  rwa [hr.distinct l l' i hi hi']

/-- `m_mapLinks` keeps a link that is not open any more. -/
theorem not_tracks_of_closed {t' : Tables} {l : LinkPtr} (hl : t.isOpen l ≠ none)
    (hlinks : t'.links = t.links) (hid : ∀ l' i, t'.linkid l' = some i → t.linkid l' = some i)
    (hclosed : t'.isOpen l ≠ some true) : ¬ t'.Tracks := by
  intro htracks
  obtain ⟨i, hi⟩ := Option.ne_none_iff_exists'.mp (hs.accepted l hl)
  have hlink : t'.links i ≠ none := by
    rw [hlinks, hr.get_link l i hl hi]
    exact Option.some_ne_none _
  obtain ⟨l', hopen, hi'⟩ := (htracks.links i).mp hlink
  have heq := hr.distinct l l' i hi (hid l' i hi')
  rw [← heq] at hopen
  exact hclosed hopen

theorem not_tracks_shut {l : LinkPtr} (hl : t.isOpen l ≠ none) : ¬ (t.shut l).Tracks :=
  not_tracks_of_closed hs hr hl rfl (fun _ _ h => h) fun h => (isOpen_shut_eq_true.mp h).1 rfl

theorem not_tracks_forget_shut {l : LinkPtr} (hl : t.isOpen l ≠ none) (linkid : UInt32) :
    ¬ ((t.forget linkid).shut l).Tracks := by
  obtain ⟨hid, -, hlinks, -⟩ := t.forget_fields linkid
  refine not_tracks_of_closed hs hr hl hlinks (fun l' i h => ?_) fun h =>
    (isOpen_shut_eq_true.mp h).1 rfl
  rw [← hid]
  exact h

theorem tracks_destroy_iff (ht : t.Tracks) (l : LinkPtr) :
    (t.destroy l).Tracks ↔ t.isOpen l = none := by
  have hid : ∀ l' i, (t.destroy l).linkid l' = some i → t.linkid l' = some i :=
    fun l' i h => (linkid_destroy_eq_some.mp h).2
  have hopen : (t.destroy l).isOpen l ≠ some true := fun h => (isOpen_destroy_eq_some.mp h).1 rfl
  constructor
  · -- the id of a deleted link stays in `m_mapLinks`
    intro htracks
    by_contra hl
    have hlinks : (t.destroy l).links = t.links := rfl
    exact not_tracks_of_closed hs hr hl hlinks hid hopen htracks
  · intro hl
    have hsame : ∀ i, (t.destroy l).OpenId i ↔ t.OpenId i := by
      intro i
      constructor
      · intro ⟨l', h, hi⟩
        exact ⟨l', (isOpen_destroy_eq_some.mp h).2, hid l' i hi⟩
      · intro ⟨l', h, hi⟩
        have hne : l' ≠ l := by
          rintro rfl
          rw [hl] at h
          cases h
        exact ⟨l', isOpen_destroy_eq_some.mpr ⟨hne, h⟩, linkid_destroy_eq_some.mpr ⟨hne, hi⟩⟩
    exact ⟨fun i => (ht.links i).trans (hsame i).symm, fun i => (ht.sessions i).trans (hsame i).symm⟩

end

/-! ## New links -/

/-- A link that is not accepted has nothing to do with the maps. -/
theorem Tracks.create {t : Tables} (hs : t.Sane) (ht : t.Tracks) : t.create.Tracks := by
  have hsame : ∀ i, t.create.OpenId i ↔ t.OpenId i := by
    intro i
    have hid : ∀ l, t.isOpen l = some true → t.create.linkid l = t.linkid l := by
      intro l h
      have hsome : t.isOpen l ≠ none := by
        rw [h]
        exact Option.some_ne_none _
      exact Function.update_of_ne (hs.old l (hs.accepted l hsome)).ne _ _
    constructor
    · rintro ⟨l, h, hi⟩
      exact ⟨l, h, (hid l h).symm.trans hi⟩
    · rintro ⟨l, h, hi⟩
      exact ⟨l, h, (hid l h).trans hi⟩
  exact ⟨fun i => (ht.links i).trans (hsame i).symm, fun i => (ht.sessions i).trans (hsame i).symm⟩

/-- An accepted link comes into both maps. -/
theorem Tracks.accept {t : Tables} (hs : t.Sane) (ht : t.Tracks) (hfree : t.owner t.nLastId = none) :
    t.accept.Tracks := by
  have hopen : ∀ i, t.accept.OpenId i ↔ i = t.nLastId ∨ t.OpenId i := by
    intro i
    have hold : ∀ l, t.isOpen l = some true → l ≠ t.nextLink := by
      intro l h
      have hsome : t.isOpen l ≠ none := by
        rw [h]
        exact Option.some_ne_none _
      exact (hs.old l (hs.accepted l hsome)).ne
    constructor
    · rintro ⟨l, h, hi⟩
      have h' : (Function.update t.isOpen t.nextLink (some true)) l = some true := h
      have hi' : (Function.update t.linkid t.nextLink (some t.nLastId)) l = some i := hi
      rw [Function.update_apply] at h' hi'
      split at h'
      next hl =>
        rw [if_pos hl] at hi'
        exact Or.inl (Option.some.inj hi').symm
      next hl =>
        rw [if_neg hl] at hi'
        exact Or.inr ⟨l, h', hi'⟩
    · rintro (rfl | ⟨l, h, hi⟩)
      · exact ⟨t.nextLink, Function.update_self _ _ _, Function.update_self _ _ _⟩
      · refine ⟨l, ?_, ?_⟩
        · exact (Function.update_of_ne (hold l h) _ _).trans h
        · exact (Function.update_of_ne (hold l h) _ _).trans hi
  -- both maps gain the key of the new link
  have hkeys : ∀ (m : UInt32 → Option LinkPtr) i,
      (Function.update m t.nLastId (some t.nextLink)) i ≠ none ↔ i = t.nLastId ∨ m i ≠ none := by
    intro m i
    rw [Function.update_apply]
    split
    next hi => exact ⟨fun _ => Or.inl hi, fun _ => Option.some_ne_none _⟩
    next hi => exact ⟨Or.inr, fun h => h.resolve_left hi⟩
  have howner : t.accept.owner = Function.update t.owner t.nLastId (some t.nextLink) := if_pos hfree
  constructor
  · intro i
    rw [hopen, ← ht.links]
    exact hkeys t.links i
  · intro i
    rw [hopen, ← ht.sessions, howner]
    exact hkeys t.owner i

/-- **One step** keeps the maps in agreement with the connections if and only if none ends. -/
theorem tracks_next {t : Tables} (hs : t.Sane) (hr : t.Routed) (ht : t.Tracks) {e : ServerEvent}
    (henabled : t.Enabled e) (hfresh : t.FreshId e) : (t.next e).Tracks ↔ ¬ t.Ends e := by
  cases e with
  | setHandler handler => exact ⟨fun _ => not_false, fun _ => ht⟩
  | accept => exact ⟨fun _ => not_false, fun _ => ht.accept hs hfresh.2⟩
  | create => exact ⟨fun _ => not_false, fun _ => ht.create hs⟩
  | destroy l =>
    show (t.destroy l).Tracks ↔ ¬ t.isOpen l ≠ none
    rw [tracks_destroy_iff hs hr ht, not_ne_iff]
  | read l g seg answers =>
    obtain ⟨hl, -, hroute⟩ := henabled
    show Tracks (if answers = [] then t else ((t.route l).map t.shut).getD t) ↔ ¬ answers ≠ []
    split
    next hnil => exact ⟨fun _ => not_not.mpr hnil, fun _ => ht⟩
    next hne =>
      obtain ⟨p, hp⟩ := Option.ne_none_iff_exists'.mp (hroute hne)
      obtain ⟨i, hi, howner⟩ := Option.bind_eq_some_iff.mp hp
      -- the response closes the link that the request came from
      rw [hp, hr.own l i p hl hi howner]
      exact ⟨fun h => absurd h (not_tracks_shut hs hr hl), fun h => absurd hne h⟩
  | readError l g =>
    obtain ⟨hl, hid⟩ := henabled
    obtain ⟨linkid, hlinkid⟩ := Option.ne_none_iff_exists'.mp hid
    show Tracks (((t.linkid l).map fun linkid => (t.forget linkid).shut l).getD t) ↔ ¬ True
    rw [hlinkid]
    exact ⟨fun h => absurd h (not_tracks_forget_shut hs hr hl linkid), fun h => absurd trivial h⟩
  | writeDone l q status =>
    show Tracks (if status < 0 then t.shut l else t) ↔ ¬ status < 0
    split
    next hneg => exact ⟨fun h => absurd h (not_tracks_shut hs hr henabled), fun h => absurd hneg h⟩
    next hneg => exact ⟨fun _ => hneg, fun _ => ht⟩

end Tables

namespace ServerSys

/-- A step of a process that has created fewer than 2^32 links. -/
def stepFew (s : ServerSys) (e : ServerEvent) : Option ServerSys :=
  (s.step e).filter fun s' => s'.created < ID_COUNT

theorem stepFew_some {s s' : ServerSys} {e : ServerEvent} (h : s.stepFew e = some s') :
    s.tables.Enabled e ∧ s'.tables = s.tables.next e ∧ (s.tables.next e).created < ID_COUNT := by
  obtain ⟨hstep, hfew⟩ := Option.filter_eq_some_iff.mp h
  obtain ⟨henabled, htables⟩ := step_tables hstep
  refine ⟨henabled, htables, ?_⟩
  rw [← htables]
  exact of_decide_eq_true hfew

/-- What holds of the tables before the counter wraps. -/
structure Inv (s : ServerSys) : Prop where
  sane : s.tables.Sane
  routed : s.tables.Routed
  few : s.tables.Few

theorem inv_new : new.Inv where
  sane := sane_new
  routed := routed_new
  few := by
    refine ⟨by decide, by decide, fun l i h => ?_, fun i h => ?_, fun i h => ?_⟩
    · cases h
    · exact absurd rfl h
    · exact absurd rfl h

theorem inv_stepFew : Invariant stepFew Inv := by
  intro s e s' hs h
  obtain ⟨-, htables, hfew⟩ := stepFew_some h
  constructor
  · rw [htables]
    exact hs.sane.next e
  · rw [htables]
    exact (Tables.routed_next hs.sane hs.routed e).mpr (hs.few.freshId hfew)
  · rw [htables]
    exact hs.few.next hfew

theorem tracks_new : new.tables.Tracks := by
  have hnone : ∀ i, ¬ new.tables.OpenId i := by
    rintro i ⟨l, h, -⟩
    cases h
  constructor
  · intro i
    exact ⟨fun h => absurd rfl h, fun h => absurd h (hnone i)⟩
  · intro i
    exact ⟨fun h => absurd rfl h, fun h => absurd h (hnone i)⟩

/-- **Sessions and connections.** In a run of the servers with fewer than 2^32 links, the keys of
both maps are in every state the ids of the open connections, if and only if no connection
ever ends. -/
theorem tracks_iff (es : List ServerEvent) :
    Always stepFew (fun s => s.tables.Tracks) new es ↔
      EachStep stepFew (fun s e => ¬ s.tables.Ends e) new es := by
  apply always_iff_eachStep inv_stepFew
  · intro s e s' hs ht h
    obtain ⟨henabled, htables, hfew⟩ := stepFew_some h
    rw [htables]
    exact Tables.tracks_next hs.sane hs.routed ht henabled (hs.few.freshId hfew)
  · exact inv_new
  · exact tracks_new

/-- A connection is accepted and its request answered. -/
def answeredRun : List ServerEvent :=
  [.setHandler true, .accept, .read 0 0 (bytes "GET / HTTP/1.1\r\n\r\n") [([], 0)]]

/-- Its link is closed and still in both maps. -/
theorem not_tracks_answeredRun :
    ¬ Always stepFew (fun s => s.tables.Tracks) new answeredRun := by
  intro h
  have hend : (exec stepFew new answeredRun).map
      (fun s => (s.tables.links 1, s.tables.isOpen 0, s.tables.linkid 0)) =
        some (some 0, some false, some 1) := by decide +kernel
  obtain ⟨s, hexec, hs⟩ := Option.map_eq_some_iff.mp hend
  obtain ⟨hlinks, hopen, hid⟩ : s.tables.links 1 = some 0 ∧ s.tables.isOpen 0 = some false ∧
      s.tables.linkid 0 = some 1 := by simpa using hs
  have htracks := h.last hexec
  have hinv := inv_stepFew.exec inv_new hexec
  have hsome : s.tables.links 1 ≠ none := by
    rw [hlinks]
    exact Option.some_ne_none _
  -- the only link with the id 1 is the one that was closed
  obtain ⟨l, hl, hlid⟩ := (htracks.links 1).mp hsome
  rw [hinv.routed.distinct l 0 1 hlid hid, hopen] at hl
  cases hl

end ServerSys
end SomoNet
