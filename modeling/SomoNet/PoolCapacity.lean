import SomoNet.PoolRuns

/-!
# What `get` hands out

`get` takes any item of the list of a class for any size of the class, and `free` puts an item in
the list of the first class that its capacity does not exceed. Items are made with a limit for their
capacity, but `assign` reallocates to whatever it is given: an item that has grown to a capacity
between two limits goes to a list that hands out more than it has.
-/

namespace SomoNet

open Run

namespace MemPool

/-- Every `get` from here is right: an empty item, in no list, with room for what was asked for; and
nothing for more than the maximum. -/
def GetsClean (p : MemPool) : Prop :=
  ∀ size p' r, p.get size = (p', r) →
    (size ≤ MEM_ITEM_SIZE_MAX → ∃ m it, r = some m ∧ ¬ p'.Listed m ∧ p'.heap m = some it ∧
      size ≤ it.nCapacity ∧ it.nLen = 0) ∧
    (MEM_ITEM_SIZE_MAX < size → r = none ∧ p'.arrPool = p.arrPool)

/-- What is in a list has room for every size that the list is asked for. -/
def Roomy (p : MemPool) : Prop :=
  ∀ c, ∀ m ∈ p.arrPool c, ∃ it, p.heap m = some it ∧ c.limit ≤ it.nCapacity ∧ it.nLen = 0

/-- `free` of the item, if it keeps it, keeps it in a list that it has room for. -/
def FreesRoomy (p : MemPool) (it : MemItem) : Prop :=
  ∀ c, classOf it.nCapacity = some c → (p.arrPool c).length ≤ MEM_ITEM_COUNT_MAX →
    c.pushedTo.limit ≤ it.nCapacity

theorem classOf_limit (c : MemClass) : classOf c.limit = some c := covers_iff.mp c.covers_limit

/-- **One `get`** from lists of items with room. -/
theorem Roomy.getsClean {p : MemPool} (hp : p.Roomy) (hv : p.Valid) : p.GetsClean := by
  intro size p' r h
  obtain ⟨-, hspec⟩ := get_spec hv h
  constructor
  · intro hmax
    obtain ⟨m, rfl, -, -, hout, -⟩ :=
      hspec.resolve_left fun h' => absurd h'.2.1 (not_lt.mpr hmax)
    rcases get_cases h with ⟨hr, -⟩ | ⟨capacity, hr, rfl, hsize, -⟩ | ⟨c, m', rest, hr, hc, hl, rfl⟩
    · cases hr
    · -- a new item
      cases hr
      exact ⟨_, MemItem.new capacity, rfl, hout.2, Function.update_self _ _ _, hsize, rfl⟩
    · -- the last item of the class's list
      cases hr
      obtain ⟨it, hit, hroom, hempty⟩ := hp c m (hl ▸ List.mem_cons_self)
      have hsize := le_limit_of_classOf hc
      refine ⟨m, it, rfl, hout.2, hit, ?_, hempty⟩
      omega
  · intro hmax
    rcases hspec with ⟨rfl, -, rfl⟩ | ⟨m, -, hle, -⟩
    · exact ⟨rfl, rfl⟩
    · exact absurd hle (not_le.mpr hmax)

/-- A change of items that are in no list. -/
theorem Roomy.of_heap {p p' : MemPool} (hp : p.Roomy) (hlists : p'.arrPool = p.arrPool)
    (hheap : ∀ m, p.Listed m → p'.heap m = p.heap m) : p'.Roomy := by
  intro c m h
  rw [hlists] at h
  rw [hheap m ⟨c, h⟩]
  exact hp c m h

section free

variable {p : MemPool} {m : MemPtr} (hm : ¬ p.Listed m) {it : MemItem} (hit : p.heap m = some it)
include hm hit

/-- **`free`** keeps the lists if it has room for the item's list in the item. -/
theorem Roomy.free (hp : p.Roomy) (hroomy : p.FreesRoomy it) : (p.free m).Roomy := by
  have hset : ∀ o, (p.setItem m o).Roomy := fun o =>
    hp.of_heap rfl fun m' h => Function.update_of_ne (ne_of_listed hm h) _ _
  rcases free_cases hit with ⟨heq, -⟩ | ⟨c, hc, hshort, heq⟩
  · rw [heq]
    refine (hset (some it.clear)).of_heap rfl fun m' h => ?_
    exact Function.update_of_ne (ne_of_listed hm h) _ _
  · rw [heq]
    intro c' m' h
    rcases mem_push.mp h with ⟨rfl, rfl⟩ | h
    · exact ⟨it.clear, Function.update_self _ _ _, hroomy c hc hshort, rfl⟩
    · exact hset _ c' m' h

omit hm in
/-- An item that `free` keeps is the next that its list hands out. -/
theorem GetsClean.freesRoomy (hclean : (p.free m).GetsClean) : p.FreesRoomy it := by
  intro c hc hshort
  rcases free_cases hit with ⟨-, hlong⟩ | ⟨c', hc', -, heq⟩
  · exact absurd (hlong c hc) (not_lt.mpr hshort)
  · have hcc : c' = c := Option.some_injective _ (hc'.symm.trans hc)
    subst hcc
    have hlist : (p.free m).arrPool c'.pushedTo = m :: (p.setItem m (some it.clear)).arrPool c'.pushedTo := by
      rw [heq]
      exact Function.update_self _ _ _
    have hheap : (p.free m).heap m = some it.clear := by
      rw [heq]
      exact Function.update_self _ _ _
    -- ask for as much as the list has to give
    have hget : (p.free m).get c'.pushedTo.limit =
        ({ p.free m with
            arrPool := Function.update (p.free m).arrPool c'.pushedTo
              ((p.setItem m (some it.clear)).arrPool c'.pushedTo) }, some m) := by
      unfold get
      rw [classOf_limit]
      dsimp only
      rw [hlist]
    obtain ⟨m', it', hm', -, hit', hsize, -⟩ :=
      (hclean _ _ _ hget).1 c'.pushedTo.limit_le_max
    cases hm'
    have hcap : it'.nCapacity = it.nCapacity := by
      rw [hheap] at hit'
      cases hit'
      rfl
    omega

end free

end MemPool

namespace PoolRun

/-- The step gives no item back that is kept in a list without room for it. -/
def FreesRoomy (s : PoolRun) (e : PoolEvent) : Prop :=
  ∀ m it, e = .free m → s.pool.heap m = some it → s.pool.FreesRoomy it

theorem roomy_get {s : PoolRun} (hs : s.Sound) (hp : s.pool.Roomy) (size : ℤ) :
    (s.get size).pool.Roomy :=
  get_keeps hs hp size hp.of_heap fun hl c m h => hp c m (MemPool.mem_of_mem_update hl h)

/-- **One step** from lists of items with room leaves such lists, if it meets the condition. -/
theorem roomy_step {s s' : PoolRun} {e : PoolEvent} (hs : s.Sound) (hp : s.pool.Roomy)
    (h : s.step e = some s') (hfrees : s.FreesRoomy e) : s'.pool.Roomy := by
  cases e with
  | get size =>
    cases h
    exact roomy_get hs hp size
  | free m =>
    obtain ⟨hm, rfl⟩ := step_free h
    have hout := hs.outstanding hm
    obtain ⟨it, hit⟩ := hout.exists_item
    exact hp.free hout.2 hit (hfrees m it rfl hit)
  | assign m data =>
    obtain ⟨hm, rfl⟩ := step_assign h
    have hnot := (hs.outstanding hm).2
    exact hp.of_heap rfl fun m' h => Function.update_of_ne (MemPool.ne_of_listed hnot h) _ _
  | reset =>
    cases h
    exact fun _ _ h => absurd h List.not_mem_nil

/-- If every `get` after a step is right, the step met the condition. -/
theorem freesRoomy_of_getsClean {s s' : PoolRun} {e : PoolEvent} (h : s.step e = some s')
    (hclean : s'.pool.GetsClean) : s.FreesRoomy e := by
  rintro m it rfl hit
  obtain ⟨-, rfl⟩ := step_free h
  exact hclean.freesRoomy hit

/-- **Clean items.** In every state of a run every `get` is right, if and only if `free` is never
given an item that it keeps in a list whose limit the item's capacity does not reach. -/
theorem gets_clean_iff (es : List PoolEvent) :
    Always step (fun s => s.pool.GetsClean) new es ↔ EachStep step FreesRoomy new es := by
  have hroomy_new : new.Sound ∧ new.pool.Roomy :=
    ⟨sound_new, fun _ _ h => absurd h List.not_mem_nil⟩
  have hclean : ∀ s : PoolRun, s.Sound ∧ s.pool.Roomy → s.pool.GetsClean :=
    fun s hs => hs.2.getsClean hs.1.valid
  -- what is in the lists decides about every later `get`
  have hexact : Always step (fun s => s.Sound ∧ s.pool.Roomy) new es ↔
      EachStep step FreesRoomy new es := by
    refine always_iff_eachStep sound_step ?_ sound_new hroomy_new es
    intro s e s' hs hp h
    exact ⟨fun hp' => freesRoomy_of_getsClean h (hclean s' hp'),
      fun hfrees => ⟨sound_step s e s' hs h, roomy_step hs hp.2 h hfrees⟩⟩
  rw [← hexact]
  constructor
  · intro h
    refine h.strengthen sound_step ?_ sound_new hroomy_new
    intro s e s' hs hp hstep hclean'
    exact ⟨sound_step s e s' hs hstep,
      roomy_step hs hp.2 hstep (freesRoomy_of_getsClean hstep hclean')⟩
  · exact fun h => h.mono hclean

/-- An item of 4 KiB is assigned 5000 bytes and given back. It is in the 16K list then, and the next
request for 16 KiB gets it. -/
theorem not_clean_grown {data : List UInt8} (hdata : data.length = 5000) :
    ¬ Always step (fun s => s.pool.GetsClean) new [.get 100, .assign 0 data, .free 0] := by
  intro h
  let s₁ : PoolRun := new.get 100
  let s₂ : PoolRun := { s₁ with pool := s₁.pool.assign 0 data data.length }
  have hheld : s₁.IsHeld 0 := by decide
  have h₁ : new.step (.get 100) = some s₁ := rfl
  have h₂ : s₁.step (.assign 0 data) = some s₂ := by
    unfold step
    exact if_pos hheld
  have h₃ : s₂.step (.free 0) = some (s₂.free 0) := by
    unfold step
    exact if_pos hheld
  have hclean : (s₂.free 0).pool.GetsClean := (((h.2 s₁ h₁).2 s₂ h₂).2 _ h₃).head
  -- the item has grown to the length of the data
  have hit : s₂.pool.heap 0 = some ((MemItem.new 4096).assign data data.length) := rfl
  have hcap : ((MemItem.new 4096).assign data data.length).nCapacity = 5000 := by
    unfold MemItem.assign
    rw [hdata]
    rfl
  have hroomy := freesRoomy_of_getsClean h₃ hclean 0 _ rfl hit
  unfold MemPool.FreesRoomy at hroomy
  rw [hcap] at hroomy
  have hlimit := hroomy .k16 (by decide) (Nat.zero_le MEM_ITEM_COUNT_MAX)
  revert hlimit
  decide

theorem not_gets_clean_5000 :
    ¬ Always step (fun s => s.pool.GetsClean) new
      [.get 100, .assign 0 (List.replicate 5000 0), .free 0] :=
  not_clean_grown List.length_replicate

end PoolRun
end SomoNet
