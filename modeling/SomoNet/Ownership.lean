import SomoNet.World

/-!
# Who holds a packet

Every send takes an item from the pool, which all links share, and gives it to a request;
the request's callback gives it back. This file follows the items through any
interleaving of any number of links.

Seen from the pool, a step of any link is one of four moves (`Loop.Move`): it leaves items
alone, queues a request with a new item, sends at once and frees the item, or completes a
request and frees its item. The one exception is a send whose request libuv refuses
(`Loop.Leaks`): the item it took is neither queued nor freed.
-/

namespace SomoNet

open Run

namespace Loop

/-! ## Holding an item -/

/-- The pending request `q` holds the item. -/
def Holds (l : Loop) (q : ReqId) (mem : MemPtr) : Prop :=
  ∃ req, l.reqs q = some req ∧ req.mem = some mem

/-- The two loops have the same pool and the same pending sends. -/
def Agrees (l l' : Loop) : Prop :=
  l'.pool = l.pool ∧ ∀ q req mem, req.mem = some mem → (l'.reqs q = some req ↔ l.reqs q = some req)

theorem Agrees.refl (l : Loop) : Agrees l l := ⟨rfl, fun _ _ _ _ => Iff.rfl⟩

theorem Agrees.trans {l l' l'' : Loop} (h : Agrees l l') (h' : Agrees l' l'') : Agrees l l'' :=
  ⟨h'.1.trans h.1, fun q req mem hm => (h'.2 q req mem hm).trans (h.2 q req mem hm)⟩

theorem agrees_of_eq {l l' : Loop} (hpool : l'.pool = l.pool) (hreqs : l'.reqs = l.reqs) :
    Agrees l l' :=
  ⟨hpool, fun _ _ _ _ => by rw [hreqs]⟩

/-- Accepting a connect request concerns no item. -/
theorem Fresh.agrees_submit_connect {l : Loop} (hl : l.Fresh) (link : LinkPtr) (h : HandleId) :
    Agrees l (l.submit (.connect link h)) := by
  refine ⟨rfl, ?_⟩
  intro q req mem hmem
  rw [hl.submit_eq_some]
  constructor
  · rintro (⟨-, rfl⟩ | hreq)
    · cases hmem
    · exact hreq
  · exact Or.inr

/-- Completing a connect request concerns no item. -/
theorem agrees_finish_connect {l : Loop} {q : ReqId} {link : LinkPtr} {h : HandleId}
    (hq : l.reqs q = some (.connect link h)) : Agrees l (l.finish q) := by
  refine ⟨rfl, ?_⟩
  intro q' req mem hmem
  rw [finish_eq_some]
  constructor
  · exact And.right
  · intro hreq
    refine ⟨?_, hreq⟩
    rintro rfl
    rw [hq] at hreq
    cases hreq
    cases hmem

/-- What a step does to items; `c` is the request it completes, if any. -/
inductive Move (l : Loop) (c : Option ReqId) (l' : Loop) : Prop
  | quiet (h : Agrees l l')
  | queued {data : List UInt8} {pool : MemPool} {mem : MemPtr} {req : Req}
    (hget : l.pool.get (toInt32 data.length) = (pool, some mem)) (hmem : req.mem = some mem)
    (hlen : req.len = toUInt32 data.length) (hpayload : req.payload = data)
    (h : Agrees ((l.withItem pool mem data).submit req) l')
  | sent {data : List UInt8} {pool : MemPool} {mem : MemPtr}
    (hget : l.pool.get (toInt32 data.length) = (pool, some mem))
    (h : Agrees { l with pool := (l.withItem pool mem data).pool.free mem } l')
  | done {q : ReqId} {mem : MemPtr} (hc : c = some q) (hq : l.Holds q mem)
    (h : Agrees { l.finish q with pool := l.pool.free mem } l')

/-- A send took an item and nothing holds it. -/
def Leaks (l l' : Loop) : Prop :=
  ∃ data pool mem, l.pool.get (toInt32 (List.length data)) = (pool, some mem) ∧
    Agrees (l.withItem pool mem data) l'

/-! ## What the moves keep -/

/-- Every pending send holds an item that is out of the pool, no two the same, and an item
that a payload within the pool's limit was copied into still holds it. -/
structure Sound (l : Loop) : Prop where
  pool : l.pool.Valid
  attached : ∀ q mem, l.Holds q mem → l.pool.Outstanding mem
  exclusive : ∀ q q' mem, l.Holds q mem → l.Holds q' mem → q = q'
  intact : ∀ q req mem, l.reqs q = some req → req.mem = some mem →
    1 ≤ req.payload.length → req.payload.length ≤ 524288 →
    l.bufCells mem req.len = cells req.payload

/-- Every item that is out of the pool is held by exactly one pending request. -/
def NoLeak (l : Loop) : Prop := ∀ mem, l.pool.Outstanding mem → ∃! q, l.Holds q mem

/-- A pending send that the step does not complete stays pending, its item untouched. -/
def KeepsPending (l : Loop) (c : Option ReqId) (l' : Loop) : Prop :=
  ∀ q req mem, l.reqs q = some req → req.mem = some mem → c ≠ some q →
    l'.reqs q = some req ∧ l'.pool.heap mem = l.pool.heap mem

theorem sound_new : new.Sound where
  pool := MemPool.valid_new
  attached := by rintro q mem ⟨req, hreq, -⟩; cases hreq
  exclusive := by rintro q q' mem ⟨req, hreq, -⟩; cases hreq
  intact := by rintro q req mem hreq; cases hreq

theorem Agrees.holds {l l' : Loop} (h : Agrees l l') (q : ReqId) (mem : MemPtr) :
    l'.Holds q mem ↔ l.Holds q mem := by
  constructor
  · rintro ⟨req, hreq, hmem⟩
    exact ⟨req, (h.2 q req mem hmem).mp hreq, hmem⟩
  · rintro ⟨req, hreq, hmem⟩
    exact ⟨req, (h.2 q req mem hmem).mpr hreq, hmem⟩

theorem Sound.of_agrees {l l' : Loop} (hl : l.Sound) (h : Agrees l l') : l'.Sound := by
  obtain ⟨hpool, hsends⟩ := h
  constructor
  · rw [hpool]
    exact hl.pool
  · intro q mem hq
    rw [hpool]
    exact hl.attached q mem ((Agrees.holds ⟨hpool, hsends⟩ q mem).mp hq)
  · intro q q' mem hq hq'
    exact hl.exclusive q q' mem ((Agrees.holds ⟨hpool, hsends⟩ q mem).mp hq)
      ((Agrees.holds ⟨hpool, hsends⟩ q' mem).mp hq')
  · intro q req mem hreq hmem
    unfold bufCells
    rw [hpool]
    exact hl.intact q req mem ((hsends q req mem hmem).mp hreq) hmem

theorem NoLeak.of_agrees {l l' : Loop} (hl : l.NoLeak) (h : Agrees l l') : l'.NoLeak := by
  intro mem hmem
  rw [h.1] at hmem
  obtain ⟨q, hq, huniq⟩ := hl mem hmem
  refine ⟨q, (h.holds q mem).mpr hq, ?_⟩
  intro q' hq'
  exact huniq q' ((h.holds q' mem).mp hq')

theorem KeepsPending.of_agrees {l l₁ l' : Loop} {c : Option ReqId} (hl : KeepsPending l c l₁)
    (h : Agrees l₁ l') : KeepsPending l c l' := by
  intro q req mem hreq hmem hc
  obtain ⟨hreq', hheap⟩ := hl q req mem hreq hmem hc
  exact ⟨(h.2 q req mem hmem).mpr hreq', by rw [h.1, hheap]⟩

/-- What lies in the other items is untouched where only `mem` is. -/
theorem bufCells_of_sameExcept {l l' : Loop} {mem m : MemPtr} (hm : m ≠ mem)
    (h : MemPool.SameExcept mem l.pool l'.pool) (n : ℕ) : l'.bufCells m n = l.bufCells m n := by
  unfold bufCells
  rw [(h m hm).1]

section

variable {l : Loop} (hl : l.Sound)
include hl

/-- **Taking an item.** The item was held by nobody, nothing else changes, and it holds the
payload if that is within the limit. -/
theorem Sound.taken {data : List UInt8} {pool : MemPool} {mem : MemPtr}
    (hget : l.pool.get (toInt32 data.length) = (pool, some mem)) :
    (l.withItem pool mem data).pool.Valid ∧ ¬ l.pool.Outstanding mem ∧
      (l.withItem pool mem data).pool.Outstanding mem ∧
      MemPool.SameExcept mem l.pool (l.withItem pool mem data).pool ∧
      (1 ≤ data.length → data.length ≤ 524288 →
        (l.withItem pool mem data).bufCells mem (toUInt32 data.length) = cells data) := by
  obtain ⟨hv, hr | ⟨m, hm, hmax, hnot, hout, hsame⟩⟩ := MemPool.get_spec hl.pool hget
  · cases hr.1
  · cases hm
    obtain ⟨hv', hout', hsame'⟩ := MemPool.assign_spec hv hout data (toInt32 data.length)
    refine ⟨hv', hnot, hout', hsame.trans hsame', ?_⟩
    intro hlo hhi
    obtain ⟨it, hit⟩ := hout.exists_item
    have hint : toInt32 (data.length : ℤ) = data.length := toInt32_of_mem (by omega) (by omega)
    have huint : toUInt32 (data.length : ℤ) = data.length := toUInt32_of_lt (by omega)
    have hheap : (l.withItem pool mem data).pool.heap mem =
        some (it.assign data (toInt32 data.length)) := by
      simp [withItem, MemPool.assign, MemPool.setItem, hit]
    unfold bufCells
    rw [hheap, hint, huint]
    exact MemItem.read_assign (hv.sized mem it hit) hlo (by omega)

theorem Sound.ne_of_holds {mem m : MemPtr} (h : ¬ l.pool.Outstanding mem) {q : ReqId}
    (hq : l.Holds q m) : m ≠ mem := by
  intro he
  rw [he] at hq
  exact h (hl.attached q mem hq)

/-- An item is taken and no request gets it. -/
theorem Sound.withItem {data : List UInt8} {pool : MemPool} {mem : MemPtr}
    (hget : l.pool.get (toInt32 data.length) = (pool, some mem)) :
    (l.withItem pool mem data).Sound := by
  obtain ⟨hv, hnot, -, hsame, -⟩ := hl.taken hget
  refine ⟨hv, ?_, hl.exclusive, ?_⟩
  · intro q m hq
    exact (hsame m (hl.ne_of_holds hnot hq)).2.mpr (hl.attached q m hq)
  · intro q req m hreq hmem hlo hhi
    have hm : m ≠ mem := hl.ne_of_holds hnot ⟨req, hreq, hmem⟩
    rw [bufCells_of_sameExcept hm hsame]
    exact hl.intact q req m hreq hmem hlo hhi

/-- Giving back an item that no request holds. -/
theorem Sound.free {mem : MemPtr} (hout : l.pool.Outstanding mem) (hfree : ∀ q, ¬ l.Holds q mem) :
    Sound { l with pool := l.pool.free mem } := by
  obtain ⟨hv, -, hsame⟩ := MemPool.free_spec hl.pool hout
  have hne : ∀ q m, l.Holds q m → m ≠ mem := by
    intro q m hq he
    rw [he] at hq
    exact hfree q hq
  refine ⟨hv, ?_, hl.exclusive, ?_⟩
  · intro q m hq
    exact (hsame m (hne q m hq)).2.mpr (hl.attached q m hq)
  · intro q req m hreq hmem hlo hhi
    have hm := hne q m ⟨req, hreq, hmem⟩
    rw [bufCells_of_sameExcept (l := l) hm hsame]
    exact hl.intact q req m hreq hmem hlo hhi

theorem Sound.finish (q : ReqId) : (l.finish q).Sound where
  pool := hl.pool
  attached := by
    rintro q' mem ⟨req, hreq, hmem⟩
    exact hl.attached q' mem ⟨req, (finish_eq_some.mp hreq).2, hmem⟩
  exclusive := by
    rintro q₁ q₂ mem ⟨req₁, hreq₁, hmem₁⟩ ⟨req₂, hreq₂, hmem₂⟩
    exact hl.exclusive q₁ q₂ mem ⟨req₁, (finish_eq_some.mp hreq₁).2, hmem₁⟩
      ⟨req₂, (finish_eq_some.mp hreq₂).2, hmem₂⟩
  intact q' req mem hreq := hl.intact q' req mem (finish_eq_some.mp hreq).2

omit hl in
theorem Fresh.holds_submit (hf : l.Fresh) {req : Req} {mem : MemPtr} (hreq : req.mem = some mem)
    (q : ReqId) (m : MemPtr) :
    (l.submit req).Holds q m ↔ q = l.nextReq ∧ m = mem ∨ l.Holds q m := by
  unfold Holds
  simp only [hf.submit_eq_some]
  constructor
  · rintro ⟨r, ⟨hq, rfl⟩ | hr, hm⟩
    · rw [hreq] at hm
      cases hm
      exact Or.inl ⟨hq, rfl⟩
    · exact Or.inr ⟨r, hr, hm⟩
  · rintro (⟨hq, rfl⟩ | ⟨r, hr, hm⟩)
    · exact ⟨req, Or.inl ⟨hq, rfl⟩, hreq⟩
    · exact ⟨r, Or.inr hr, hm⟩

/-- Queueing a request with an item that no other request holds. -/
theorem Sound.submit (hf : l.Fresh) {req : Req} {mem : MemPtr} (hreq : req.mem = some mem)
    (hout : l.pool.Outstanding mem) (hfree : ∀ q, ¬ l.Holds q mem)
    (hbytes : 1 ≤ req.payload.length → req.payload.length ≤ 524288 →
      l.bufCells mem req.len = cells req.payload) : (l.submit req).Sound := by
  refine ⟨hl.pool, ?_, ?_, ?_⟩
  · intro q m hq
    rcases (hf.holds_submit hreq q m).mp hq with ⟨-, rfl⟩ | hq
    · exact hout
    · exact hl.attached q m hq
  · intro q₁ q₂ m h₁ h₂
    -- the new request and an old one do not hold the same item
    rcases (hf.holds_submit hreq q₁ m).mp h₁ with ⟨he₁, hm₁⟩ | h₁ <;>
      rcases (hf.holds_submit hreq q₂ m).mp h₂ with ⟨he₂, hm₂⟩ | h₂
    · rw [he₁, he₂]
    · rw [hm₁] at h₂
      exact absurd h₂ (hfree q₂)
    · rw [hm₂] at h₁
      exact absurd h₁ (hfree q₁)
    · exact hl.exclusive q₁ q₂ m h₁ h₂
  · intro q r m hr hm hlo hhi
    rcases (hf.submit_eq_some req).mp hr with ⟨-, rfl⟩ | hr
    · rw [hreq] at hm
      cases hm
      exact hbytes hlo hhi
    · exact hl.intact q r m hr hm hlo hhi

omit hl in
/-- A move that changes no item but `mem`, and no request that holds another. -/
theorem keepsPending_of_sameExcept {mem : MemPtr} {c : Option ReqId} {l₁ : Loop} {p : MemPool}
    (hpool : l₁.pool = p) (hsame : MemPool.SameExcept mem l.pool p)
    (hreqs : ∀ q req m, l.reqs q = some req → req.mem = some m → c ≠ some q →
      l₁.reqs q = some req ∧ m ≠ mem) : KeepsPending l c l₁ := by
  intro q req m hreq hm hc
  obtain ⟨hreq', hne⟩ := hreqs q req m hreq hm hc
  rw [hpool]
  exact ⟨hreq', (hsame m hne).1⟩

/-- A send is queued with a new item. -/
theorem Sound.move_queued (hf : l.Fresh) {data : List UInt8} {pool : MemPool} {mem : MemPtr}
    {req : Req} (hget : l.pool.get (toInt32 data.length) = (pool, some mem))
    (hmem : req.mem = some mem) (hlen : req.len = toUInt32 data.length)
    (hpayload : req.payload = data) (c : Option ReqId) :
    ((l.withItem pool mem data).submit req).Sound ∧
      KeepsPending l c ((l.withItem pool mem data).submit req) ∧
      (l.NoLeak → ((l.withItem pool mem data).submit req).NoLeak) := by
  obtain ⟨hv, hnot, hout, hsame, hbytes⟩ := hl.taken hget
  have hf' : (l.withItem pool mem data).Fresh := ⟨hf.tcp, hf.reqs⟩
  refine ⟨?_, ?_, fun hn m hm => ?_⟩
  · apply (hl.withItem hget).submit hf' hmem hout
    · intro q hq
      exact hnot (hl.attached q mem hq)
    · rw [hpayload, hlen]
      exact hbytes
  · refine keepsPending_of_sameExcept (Loop.pool_submit _ _) hsame ?_
    intro q r m hr hm _
    exact ⟨(hf'.submit_eq_some req).mpr (Or.inr hr), hl.ne_of_holds hnot ⟨r, hr, hm⟩⟩
  · by_cases he : m = mem
    · -- the new item belongs to the new request and to no other
      refine ⟨l.nextReq, (hf'.holds_submit hmem _ _).mpr (Or.inl ⟨rfl, he⟩), ?_⟩
      intro q hq
      rcases (hf'.holds_submit hmem q m).mp hq with ⟨hq, -⟩ | hq
      · exact hq
      · exact absurd he (hl.ne_of_holds hnot hq)
    · -- an old one to the request that had it
      obtain ⟨q, hq, huniq⟩ := hn m ((hsame m he).2.mp hm)
      refine ⟨q, (hf'.holds_submit hmem q m).mpr (Or.inr hq), ?_⟩
      intro q' hq'
      rcases (hf'.holds_submit hmem q' m).mp hq' with ⟨-, hm'⟩ | hq'
      · exact absurd hm' he
      · exact huniq q' hq'

/-- A send is done at once: its item is taken and given back. -/
theorem Sound.move_sent {data : List UInt8} {pool : MemPool} {mem : MemPtr} {l₁ : Loop}
    (hget : l.pool.get (toInt32 data.length) = (pool, some mem))
    (hl₁ : l₁ = { l.withItem pool mem data with
      pool := (l.withItem pool mem data).pool.free mem }) (c : Option ReqId) :
    l₁.Sound ∧ KeepsPending l c l₁ ∧ (l.NoLeak → l₁.NoLeak) := by
  obtain ⟨hv, hnot, hout, hsame, -⟩ := hl.taken hget
  obtain ⟨-, hgone, hsame'⟩ := MemPool.free_spec hv hout
  subst hl₁
  refine ⟨?_, ?_, fun hn m hm => ?_⟩
  · exact (hl.withItem hget).free hout fun q hq => hnot (hl.attached q mem hq)
  · apply keepsPending_of_sameExcept rfl (hsame.trans hsame')
    intro q r m hr hm _
    exact ⟨hr, hl.ne_of_holds hnot ⟨r, hr, hm⟩⟩
  · have hne : m ≠ mem := by
      intro he
      rw [he] at hm
      exact hgone hm
    exact hn m (((hsame.trans hsame') m hne).2.mp hm)

/-- A request completes, and its item is given back. -/
theorem Sound.move_done {q : ReqId} {mem : MemPtr} {l₁ : Loop} (hq : l.Holds q mem)
    (hl₁ : l₁ = { l.finish q with pool := l.pool.free mem }) :
    l₁.Sound ∧ KeepsPending l (some q) l₁ ∧ (l.NoLeak → l₁.NoLeak) := by
  obtain ⟨req, hreq, hmem⟩ := hq
  have hout : l.pool.Outstanding mem := hl.attached q mem ⟨req, hreq, hmem⟩
  obtain ⟨-, hgone, hsame⟩ := MemPool.free_spec hl.pool hout
  -- no other request holds the item
  have hother : ∀ q' m, l.Holds q' m → q' ≠ q → m ≠ mem := by
    intro q' m hq' hne he
    rw [he] at hq'
    exact hne (hl.exclusive q' q mem hq' ⟨req, hreq, hmem⟩)
  have hfree : ∀ q', ¬ (l.finish q).Holds q' mem := by
    rintro q' ⟨r, hr, hm⟩
    obtain ⟨hne, hr⟩ := finish_eq_some.mp hr
    exact hother q' mem ⟨r, hr, hm⟩ hne rfl
  subst hl₁
  refine ⟨(hl.finish q).free hout hfree, ?_, fun hn m hm => ?_⟩
  · apply keepsPending_of_sameExcept rfl hsame
    intro q' r m hr hm hcq
    have hne : q' ≠ q := by
      rintro rfl
      exact hcq rfl
    exact ⟨finish_eq_some.mpr ⟨hne, hr⟩, hother q' m ⟨r, hr, hm⟩ hne⟩
  · have hne : m ≠ mem := by
      intro he
      rw [he] at hm
      exact hgone hm
    obtain ⟨q', ⟨r, hr, hrm⟩, huniq⟩ := hn m ((hsame m hne).2.mp hm)
    -- the request that completes held `mem`, so it is not the one that holds `m`
    have hqq : q' ≠ q := by
      rintro rfl
      rw [hreq] at hr
      cases hr
      rw [hmem] at hrm
      cases hrm
      exact hne rfl
    refine ⟨q', ⟨r, finish_eq_some.mpr ⟨hqq, hr⟩, hrm⟩, ?_⟩
    rintro q'' ⟨r', hr', hrm'⟩
    exact huniq q'' ⟨r', (finish_eq_some.mp hr').2, hrm'⟩

/-- **The moves of a step.** They keep the pool sound, leave every send that they do not
complete pending with its item untouched, and leak nothing. -/
theorem Sound.move (hf : l.Fresh) {c : Option ReqId} {l' : Loop} (h : Move l c l') :
    l'.Sound ∧ KeepsPending l c l' ∧ (l.NoLeak → l'.NoLeak) := by
  cases h with
  | quiet h =>
    refine ⟨hl.of_agrees h, ?_, fun hn => hn.of_agrees h⟩
    intro q req mem hreq hmem _
    exact ⟨(h.2 q req mem hmem).mpr hreq, by rw [h.1]⟩
  | queued hget hmem hlen hpayload h =>
    obtain ⟨hsound, hkeeps, hleak⟩ := hl.move_queued hf hget hmem hlen hpayload c
    exact ⟨hsound.of_agrees h, hkeeps.of_agrees h, fun hn => (hleak hn).of_agrees h⟩
  | sent hget h =>
    obtain ⟨hsound, hkeeps, hleak⟩ := hl.move_sent hget rfl c
    exact ⟨hsound.of_agrees h, hkeeps.of_agrees h, fun hn => (hleak hn).of_agrees h⟩
  | done hc hq h =>
    obtain ⟨hsound, hkeeps, hleak⟩ := hl.move_done hq rfl
    rw [hc]
    exact ⟨hsound.of_agrees h, hkeeps.of_agrees h, fun hn => (hleak hn).of_agrees h⟩

/-- **A refused request.** It does no harm to the other sends, but its item is lost. -/
theorem Sound.leaks {l' : Loop} (h : Leaks l l') (c : Option ReqId) :
    l'.Sound ∧ KeepsPending l c l' ∧ ¬ l'.NoLeak := by
  obtain ⟨data, pool, mem, hget, h⟩ := h
  obtain ⟨hv, hnot, hout, hsame, -⟩ := hl.taken hget
  refine ⟨(hl.withItem hget).of_agrees h, KeepsPending.of_agrees ?_ h, ?_⟩
  · apply keepsPending_of_sameExcept rfl hsame
    intro q r m hr hm _
    exact ⟨hr, hl.ne_of_holds hnot ⟨r, hr, hm⟩⟩
  · intro hn
    rw [← h.1] at hout
    obtain ⟨q, hq, -⟩ := hn mem hout
    have hq' : l.Holds q mem := (h.holds q mem).mp hq
    exact hnot (hl.attached q mem hq')

end

end Loop
end SomoNet
