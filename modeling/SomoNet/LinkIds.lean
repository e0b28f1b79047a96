import SomoNet.Lib.Run
import SomoNet.ServerTables

/-!
# Link ids

Every link takes the next value of one 32-bit counter for its id. Two links that are alive have
different ids as long as the counter has not come round to an id that is still in use, and both
maps of the servers lead to the right link as long as it has not come round to one that is still
in a map.
-/

namespace SomoNet

open Run

namespace Tables

/-- What is referred to exists. -/
structure Sane (t : Tables) : Prop where
  old : ∀ l, t.linkid l ≠ none → l < t.nextLink
  accepted : ∀ l, t.isOpen l ≠ none → t.linkid l ≠ none
  owner_old : ∀ i p, t.owner i = some p → p < t.nextLink

/-- Links that are alive have different ids, none of them 0, and under the id of an accepted link
`get_link` has this link and the sessions have, if any, the session of this link; they do have
it while the connection is open. -/
structure Routed (t : Tables) : Prop where
  distinct : ∀ l l' i, t.linkid l = some i → t.linkid l' = some i → l = l'
  nonzero : ∀ l, t.linkid l ≠ some 0
  get_link : ∀ l i, t.isOpen l ≠ none → t.linkid l = some i → t.links i = some l
  session : ∀ l i, t.isOpen l = some true → t.linkid l = some i → t.owner i = some l
  own : ∀ l i p, t.isOpen l ≠ none → t.linkid l = some i → t.owner i = some p → p = l

/-- The next id is not 0 and no link that is alive has it. -/
def Unused (t : Tables) : Prop := t.nLastId ≠ 0 ∧ ∀ l, t.linkid l ≠ some t.nLastId

/-- A link that is created finds an unused id, and one that is accepted finds no session under
it either. -/
def FreshId (t : Tables) : ServerEvent → Prop
  | .create => t.Unused
  | .accept => t.Unused ∧ t.owner t.nLastId = none
  | _ => True

/-! ## What exists -/

theorem isOpen_shut_ne_none {t : Tables} {l l' : LinkPtr} :
    (t.shut l).isOpen l' ≠ none ↔ t.isOpen l' ≠ none := by
  show (if l' = l then (t.isOpen l).map _ else t.isOpen l') ≠ none ↔ _
  split
  next hl => rw [hl, ne_eq, ne_eq, Option.map_eq_none_iff]
  next => exact Iff.rfl

theorem isOpen_shut_eq_true {t : Tables} {l l' : LinkPtr} :
    (t.shut l).isOpen l' = some true ↔ l' ≠ l ∧ t.isOpen l' = some true := by
  show (if l' = l then (t.isOpen l).map _ else t.isOpen l') = some true ↔ _
  split
  next hl =>
    rw [Option.map_eq_some_iff]
    exact ⟨fun ⟨_, _, h⟩ => (by cases h), fun h => absurd hl h.1⟩
  next hl => exact ⟨fun h => ⟨hl, h⟩, fun h => h.2⟩

theorem owner_forget {t : Tables} {linkid i : UInt32} {p : LinkPtr}
    (h : (t.forget linkid).owner i = some p) : t.owner i = some p := by
  unfold forget at h
  split at h
  · exact h
  · have hupdate : (Function.update t.owner linkid none) i = some p := h
    rw [Function.update_apply] at hupdate
    split at hupdate
    · cases hupdate
    · exact hupdate

/-- The session of another id stays. -/
theorem owner_forget_of_ne (t : Tables) {linkid i : UInt32} (h : i ≠ linkid) :
    (t.forget linkid).owner i = t.owner i := by
  unfold forget
  split
  · rfl
  · exact Function.update_of_ne h _ _

theorem forget_fields (t : Tables) (linkid : UInt32) :
    (t.forget linkid).linkid = t.linkid ∧ (t.forget linkid).isOpen = t.isOpen ∧
      (t.forget linkid).links = t.links ∧ (t.forget linkid).nextLink = t.nextLink := by
  unfold forget
  split
  · exact ⟨rfl, rfl, rfl, rfl⟩
  · exact ⟨rfl, rfl, rfl, rfl⟩

theorem Sane.shut {t : Tables} (ht : t.Sane) (l : LinkPtr) : (t.shut l).Sane where
  old := ht.old
  accepted l' h := ht.accepted l' (isOpen_shut_ne_none.mp h)
  owner_old := ht.owner_old

theorem Sane.forget {t : Tables} (ht : t.Sane) (linkid : UInt32) : (t.forget linkid).Sane := by
  obtain ⟨hid, hopen, -, hnext⟩ := t.forget_fields linkid
  constructor
  · rw [hid, hnext]
    exact ht.old
  · rw [hid, hopen]
    exact ht.accepted
  · intro i p h
    rw [hnext]
    exact ht.owner_old i p (owner_forget h)

theorem Sane.create {t : Tables} (ht : t.Sane) : t.create.Sane where
  old l h := by
    have hupdate : (Function.update t.linkid t.nextLink (some t.nLastId)) l ≠ none := h
    rw [Function.update_apply] at hupdate
    split at hupdate
    next hl =>
      subst hl
      exact Nat.lt_succ_self _
    next => exact (ht.old l hupdate).trans (Nat.lt_succ_self _)
  accepted l h := by
    show (Function.update t.linkid t.nextLink (some t.nLastId)) l ≠ none
    rw [Function.update_apply]
    split
    · exact Option.some_ne_none _
    · exact ht.accepted l h
  owner_old i p h := (ht.owner_old i p h).trans (Nat.lt_succ_self _)

theorem Sane.accept {t : Tables} (ht : t.Sane) : t.accept.Sane where
  old := ht.create.old
  accepted l h := by
    have hupdate : (Function.update t.isOpen t.nextLink (some true)) l ≠ none := h
    show (Function.update t.linkid t.nextLink (some t.nLastId)) l ≠ none
    rw [Function.update_apply] at hupdate ⊢
    split
    · exact Option.some_ne_none _
    next hl =>
      rw [if_neg hl] at hupdate
      exact ht.accepted l hupdate
  owner_old i p h := by
    have howner : (if t.owner t.nLastId = none then
        Function.update t.owner t.nLastId (some t.nextLink) else t.owner) i = some p := h
    split at howner
    · rw [Function.update_apply] at howner
      split at howner
      · cases howner
        exact Nat.lt_succ_self _
      · exact (ht.owner_old i p howner).trans (Nat.lt_succ_self _)
    · exact (ht.owner_old i p howner).trans (Nat.lt_succ_self _)

theorem Sane.destroy {t : Tables} (ht : t.Sane) (l : LinkPtr) : (t.destroy l).Sane where
  old l' h := by
    obtain ⟨i, hi⟩ := Option.ne_none_iff_exists'.mp h
    have hsome : t.linkid l' ≠ none := by
      rw [(linkid_destroy_eq_some.mp hi).2]
      exact Option.some_ne_none _
    exact ht.old l' hsome
  accepted l' h := by
    obtain ⟨b, hb⟩ := Option.ne_none_iff_exists'.mp h
    obtain ⟨hne, hopen⟩ := isOpen_destroy_eq_some.mp hb
    have hsome : t.isOpen l' ≠ none := by
      rw [hopen]
      exact Option.some_ne_none _
    obtain ⟨i, hi⟩ := Option.ne_none_iff_exists'.mp (ht.accepted l' hsome)
    rw [linkid_destroy_eq_some.mpr ⟨hne, hi⟩]
    exact Option.some_ne_none _
  owner_old := ht.owner_old

theorem Sane.next {t : Tables} (ht : t.Sane) (e : ServerEvent) : (t.next e).Sane := by
  apply next_cases e ht
  · exact fun _ => ht.accept
  · exact fun _ => ht.create
  · exact ht.destroy
  · exact ht.shut
  · exact fun l linkid _ => (ht.forget linkid).shut l

/-! ## Where the maps lead -/

theorem Routed.shut {t : Tables} (ht : t.Routed) (l : LinkPtr) : (t.shut l).Routed where
  distinct := ht.distinct
  nonzero := ht.nonzero
  get_link l' i h := ht.get_link l' i (isOpen_shut_ne_none.mp h)
  session l' i h := ht.session l' i (isOpen_shut_eq_true.mp h).2
  own l' i p h := ht.own l' i p (isOpen_shut_ne_none.mp h)

/-- The session of a link goes with its connection. -/
theorem Routed.forget_shut {t : Tables} (ht : t.Routed) {l : LinkPtr} {linkid : UInt32}
    (hl : t.linkid l = some linkid) : ((t.forget linkid).shut l).Routed := by
  obtain ⟨hid, hopen, hlinks, -⟩ := t.forget_fields linkid
  have haccepted : ∀ l', ((t.forget linkid).shut l).isOpen l' ≠ none → t.isOpen l' ≠ none := by
    intro l' h
    rw [← hopen]
    exact isOpen_shut_ne_none.mp h
  constructor
  · show ∀ l l' i, (t.forget linkid).linkid l = some i → (t.forget linkid).linkid l' = some i → l = l'
    rw [hid]
    exact ht.distinct
  · show ∀ l, (t.forget linkid).linkid l ≠ some 0
    rw [hid]
    exact ht.nonzero
  · intro l' i h hi
    show (t.forget linkid).links i = some l'
    have hi' : t.linkid l' = some i := by rw [← hid]; exact hi
    rw [hlinks]
    exact ht.get_link l' i (haccepted l' h) hi'
  · intro l' i h hi
    have hi' : t.linkid l' = some i := by rw [← hid]; exact hi
    obtain ⟨hne, hopen'⟩ := isOpen_shut_eq_true.mp h
    rw [hopen] at hopen'
    -- another link has another id
    have hother : i ≠ linkid := by
      intro heq
      rw [heq] at hi'
      exact hne (ht.distinct l' l linkid hi' hl)
    show (t.forget linkid).owner i = some l'
    rw [t.owner_forget_of_ne hother]
    exact ht.session l' i hopen' hi'
  · intro l' i p h hi howner
    have hi' : t.linkid l' = some i := by rw [← hid]; exact hi
    exact ht.own l' i p (haccepted l' h) hi' (owner_forget howner)

theorem Routed.destroy {t : Tables} (ht : t.Routed) (l : LinkPtr) : (t.destroy l).Routed := by
  have hid : ∀ l' i, (t.destroy l).linkid l' = some i → t.linkid l' = some i :=
    fun l' i h => (linkid_destroy_eq_some.mp h).2
  have hopen : ∀ l' b, (t.destroy l).isOpen l' = some b → t.isOpen l' = some b :=
    fun l' b h => (isOpen_destroy_eq_some.mp h).2
  have haccepted : ∀ l', (t.destroy l).isOpen l' ≠ none → t.isOpen l' ≠ none := by
    intro l' h
    obtain ⟨b, hb⟩ := Option.ne_none_iff_exists'.mp h
    rw [hopen l' b hb]
    exact Option.some_ne_none _
  constructor
  · intro l₁ l₂ i h₁ h₂
    exact ht.distinct l₁ l₂ i (hid l₁ i h₁) (hid l₂ i h₂)
  · intro l' h
    exact ht.nonzero l' (hid l' 0 h)
  · intro l' i h hi
    exact ht.get_link l' i (haccepted l' h) (hid l' i hi)
  · intro l' i h hi
    exact ht.session l' i (hopen l' true h) (hid l' i hi)
  · intro l' i p h hi howner
    exact ht.own l' i p (haccepted l' h) (hid l' i hi) howner

/-- Where the ids are right after a creation, the new one was unused. -/
theorem Unused.of_create {t t' : Tables} (hs : t.Sane) (hid : t'.linkid = t.create.linkid)
    (hr : t'.Routed) : t.Unused := by
  have hnew : t'.linkid t.nextLink = some t.nLastId := by
    rw [hid]
    exact Function.update_self _ _ _
  refine ⟨fun hzero => hr.nonzero t.nextLink (by rw [hnew, hzero]), fun l hl => ?_⟩
  have hsome : t.linkid l ≠ none := by
    rw [hl]
    exact Option.some_ne_none _
  have hlt := hs.old l hsome
  have hl' : t'.linkid l = some t.nLastId := by
    rw [hid, ← hl]
    exact Function.update_of_ne hlt.ne _ _
  exact hlt.ne (hr.distinct l t.nextLink _ hl' hnew)

/-- A new link's id is its own exactly if it was unused. -/
theorem routed_create_iff {t : Tables} (hs : t.Sane) (ht : t.Routed) : t.create.Routed ↔ t.Unused := by
  have hid : ∀ l, t.create.linkid l = if l = t.nextLink then some t.nLastId else t.linkid l :=
    fun l => Function.update_apply _ _ _ _
  have hold : ∀ l, t.linkid l ≠ none → t.create.linkid l = t.linkid l := by
    intro l h
    rw [hid, if_neg (hs.old l h).ne]
  constructor
  · exact Unused.of_create hs rfl
  · intro ⟨hzero, hunused⟩
    -- a link in the new tables is the new one or an old one with another id
    have hback : ∀ l i, t.create.linkid l = some i →
        l = t.nextLink ∧ i = t.nLastId ∨ i ≠ t.nLastId ∧ t.linkid l = some i := by
      intro l i h
      rw [hid] at h
      split at h
      next hl => exact Or.inl ⟨hl, (Option.some.inj h).symm⟩
      next =>
        refine Or.inr ⟨fun heq => hunused l ?_, h⟩
        rw [← heq]
        exact h
    -- an accepted link is not the new one
    have haccepted : ∀ l i, t.isOpen l ≠ none → t.create.linkid l = some i → t.linkid l = some i := by
      intro l i h hi
      rw [← hold l (hs.accepted l h)]
      exact hi
    constructor
    · intro l l' i h h'
      rcases hback l i h with ⟨rfl, rfl⟩ | ⟨hne, hl⟩
      · rcases hback l' _ h' with ⟨rfl, -⟩ | ⟨hne', -⟩
        · rfl
        · exact absurd rfl hne'
      · rcases hback l' i h' with ⟨-, rfl⟩ | ⟨-, hl'⟩
        · exact absurd rfl hne
        · exact ht.distinct l l' i hl hl'
    · intro l h
      rcases hback l 0 h with ⟨-, heq⟩ | ⟨-, hl⟩
      · exact hzero heq.symm
      · exact ht.nonzero l hl
    · intro l i h hi
      exact ht.get_link l i h (haccepted l i h hi)
    · intro l i h hi
      have hsome : t.isOpen l ≠ none := by
        show t.create.isOpen l ≠ none
        rw [h]
        exact Option.some_ne_none _
      exact ht.session l i h (haccepted l i hsome hi)
    · intro l i p h hi howner
      exact ht.own l i p h (haccepted l i h hi) howner

/-- An accepted link has its id and its session to itself exactly if both were unused. -/
theorem routed_accept_iff {t : Tables} (hs : t.Sane) (ht : t.Routed) :
    t.accept.Routed ↔ t.Unused ∧ t.owner t.nLastId = none := by
  have hcreate := routed_create_iff hs ht
  have hopen : ∀ l, t.accept.isOpen l = if l = t.nextLink then some true else t.isOpen l :=
    fun l => Function.update_apply _ _ _ _
  have hnew : t.accept.linkid t.nextLink = some t.nLastId := Function.update_self _ _ _
  constructor
  · intro hr
    have hid : t.accept.linkid = t.create.linkid := rfl
    refine ⟨Unused.of_create hs hid hr, ?_⟩
    by_contra hstale
    obtain ⟨p, hp⟩ := Option.ne_none_iff_exists'.mp hstale
    -- `on_connected` keeps the session that it finds
    have howner : t.accept.owner = t.owner := if_neg hstale
    have hself := hr.session t.nextLink t.nLastId (by rw [hopen, if_pos rfl]) hnew
    rw [howner, hp] at hself
    exact (hs.owner_old _ p hp).ne (Option.some.inj hself)
  · intro ⟨hunused, hfree⟩
    have hr : t.create.Routed := hcreate.mpr hunused
    have howner : t.accept.owner = Function.update t.owner t.nLastId (some t.nextLink) :=
      if_pos hfree
    have hlinks : t.accept.links = Function.update t.links t.nLastId (some t.nextLink) := rfl
    -- a link that was there has another id
    have hother : ∀ l i, l ≠ t.nextLink → t.create.linkid l = some i → i ≠ t.nLastId := by
      intro l i hl hi heq
      rw [heq] at hi
      exact hl (hr.distinct l t.nextLink _ hi hnew)
    constructor
    · exact hr.distinct
    · exact hr.nonzero
    · intro l i h hi
      rw [hlinks, Function.update_apply]
      by_cases hl : l = t.nextLink
      · subst hl
        rw [if_pos (Option.some.inj (hi.symm.trans hnew))]
      · rw [hopen, if_neg hl] at h
        rw [if_neg (hother l i hl hi)]
        exact hr.get_link l i h hi
    · intro l i h hi
      rw [howner, Function.update_apply]
      by_cases hl : l = t.nextLink
      · subst hl
        rw [if_pos (Option.some.inj (hi.symm.trans hnew))]
      · rw [hopen, if_neg hl] at h
        rw [if_neg (hother l i hl hi)]
        exact hr.session l i h hi
    · intro l i p h hi hp
      rw [howner, Function.update_apply] at hp
      by_cases hl : l = t.nextLink
      · subst hl
        rw [if_pos (Option.some.inj (hi.symm.trans hnew))] at hp
        exact (Option.some.inj hp).symm
      · rw [hopen, if_neg hl] at h
        rw [if_neg (hother l i hl hi)] at hp
        exact hr.own l i p h hi hp

theorem Routed.next {t : Tables} (hs : t.Sane) (ht : t.Routed) {e : ServerEvent}
    (hfresh : t.FreshId e) : (t.next e).Routed := by
  apply next_cases e ht
  · rintro rfl
    exact (routed_accept_iff hs ht).mpr hfresh
  · rintro rfl
    exact (routed_create_iff hs ht).mpr hfresh
  · exact ht.destroy
  · exact ht.shut
  · exact fun l linkid hl => ht.forget_shut hl

/-- **One step.** -/
theorem routed_next {t : Tables} (hs : t.Sane) (ht : t.Routed) (e : ServerEvent) :
    (t.next e).Routed ↔ t.FreshId e := by
  refine ⟨fun h => ?_, ht.next hs⟩
  cases e with
  | accept => exact (routed_accept_iff hs ht).mp h
  | create => exact (routed_create_iff hs ht).mp h
  | _ => trivial

end Tables

namespace ServerSys

theorem sane_new : new.tables.Sane := by
  constructor
  · intro l h
    exact absurd rfl h
  · intro l h
    exact absurd rfl h
  · intro i p h
    cases h

theorem routed_new : new.tables.Routed := by
  constructor
  · intro l l' i h
    cases h
  · intro l h
    cases h
  · intro l i h
    exact absurd rfl h
  · intro l i h
    cases h
  · intro l i p h
    exact absurd rfl h

theorem sane_step : Invariant step fun s => s.tables.Sane := by
  intro s e s' hs h
  rw [(step_tables h).2]
  exact hs.next e

/-- **Ids.** In every state of a run of the servers the ids of the links are different and the
maps lead to the right links, if and only if every link that is created in it, of whatever
kind, finds an id that is not in use. -/
theorem routed_iff (es : List ServerEvent) :
    Always step (fun s => s.tables.Routed) new es ↔
      EachStep step (fun s e => s.tables.FreshId e) new es := by
  apply always_iff_eachStep sane_step
  · intro s e s' hs hr h
    rw [(step_tables h).2]
    exact Tables.routed_next hs hr e
  · exact sane_new
  · exact routed_new

/-! ## Past the wrap -/

/-- `n` links are created and destroyed again, one after the other; the first is at `p`. -/
def churn (p : LinkPtr) : ℕ → List ServerEvent
  | 0 => []
  | n + 1 => .create :: .destroy p :: churn (p + 1) n

theorem churn_exec {s : ServerSys} (n : ℕ) (hid : ∀ l, s.nextLink ≤ l → s.linkid l = none)
    (htcp : ∀ l, s.nextLink ≤ l → s.tcp l = none) :
    ∃ s', exec step s (churn s.nextLink n) = some s' ∧ s'.linkid = s.linkid ∧
      s'.nLastId = s.nLastId + UInt32.ofNat n ∧ s'.nextLink = s.nextLink + n := by
  induction n generalizing s with
  | zero => exact ⟨s, rfl, rfl, by simp, rfl⟩
  | succ n ih =>
    have hsome : (s.create.linkid s.nextLink).isSome = true := by
      show ((Function.update s.linkid s.nextLink (some s.nLastId)) s.nextLink).isSome = true
      rw [Function.update_self]
      rfl
    -- the pair leaves nothing behind but the counter
    let t := s.create.destroy s.nextLink
    have hstep : s.create.step (.destroy s.nextLink) = some t := if_pos hsome
    have hsame : t.linkid = s.linkid := by
      show Function.update (Function.update s.linkid s.nextLink _) s.nextLink none = _
      rw [Function.update_idem, ← hid s.nextLink le_rfl, Function.update_eq_self]
    have htcp' : t.tcp = s.tcp := by
      show Function.update s.tcp s.nextLink none = _
      rw [← htcp s.nextLink le_rfl, Function.update_eq_self]
    obtain ⟨s', hexec, hid', hlast, hnext⟩ := ih (s := t)
      (fun l hl => by rw [hsame]; exact hid l ((Nat.le_succ _).trans hl))
      (fun l hl => by rw [htcp']; exact htcp l ((Nat.le_succ _).trans hl))
    refine ⟨s', ?_, hid'.trans hsame, ?_, ?_⟩
    · show exec step s (.create :: .destroy s.nextLink :: churn (s.nextLink + 1) n) = some s'
      rw [exec_cons]
      show exec step s.create _ = some s'
      rw [exec_cons, hstep]
      exact hexec
    · rw [hlast]
      show s.nLastId + 1 + UInt32.ofNat n = _
      rw [UInt32.ofNat_add, UInt32.add_assoc, UInt32.add_comm 1]
      rfl
    · rw [hnext]
      show s.nextLink + 1 + n = s.nextLink + (n + 1)
      rw [Nat.add_assoc, Nat.add_comm 1]

/-- A link stays alive while `n` others come and go. -/
def wrapRun (n : ℕ) : List ServerEvent := .create :: churn 1 n ++ [.create]

/-- When the counter has come back to 1, the last link has the id of the first. -/
theorem not_routed_of_wrap {n : ℕ} (hn : 2 + UInt32.ofNat n = 1) :
    ¬ Always step (fun s => s.tables.Routed) new (wrapRun n) := by
  intro h
  have hnone : ∀ l, new.create.nextLink ≤ l → new.create.linkid l = none := by
    intro l hl
    exact Function.update_of_ne (Nat.pos_iff_ne_zero.mp hl) _ _
  obtain ⟨s, hexec, hid, hlast, hnext⟩ := churn_exec n hnone fun _ _ => rfl
  have hend : exec step new (wrapRun n) = some s.create := by
    show exec step new.create (churn 1 n ++ [.create]) = _
    rw [exec_append]
    show (exec step new.create (churn new.create.nextLink n)).bind _ = _
    rw [hexec]
    rfl
  have hr := h.last hend
  have hne : (0 : LinkPtr) ≠ s.nextLink := by
    rw [hnext]
    exact (Nat.add_pos_left Nat.one_pos n).ne
  -- the first link and the last one are both alive
  have hfirst : s.create.tables.linkid 0 = some 1 := by
    show (Function.update s.linkid s.nextLink (some s.nLastId)) 0 = some 1
    rw [Function.update_of_ne hne, hid]
    rfl
  have hsecond : s.create.tables.linkid s.nextLink = some 1 := by
    show (Function.update s.linkid s.nextLink (some s.nLastId)) s.nextLink = some 1
    rw [Function.update_self, hlast]
    exact congrArg some hn
  exact hne (hr.distinct 0 s.nextLink 1 hfirst hsecond)

/-- After 2^32 creations two links that are alive have the id 1. -/
theorem not_routed_wrapRun :
    ¬ Always step (fun s => s.tables.Routed) new (wrapRun 4294967295) :=
  not_routed_of_wrap (by decide)

end ServerSys
end SomoNet
