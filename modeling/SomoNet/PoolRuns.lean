import SomoNet.Lib.Run
import SomoNet.MemPool

/-!
# Runs of the pool

`get` and `free` have one branch for each size class, copied from one another. What they keep over
a run is the four free lists: how long they get, what is in them, and that an item goes back to
the list its class is served from. The run keeps accounts of its own: which items the callers hold,
which ones `get` has created, and how many of a class were ever held at once.

The branch of the 128K class is the odd one. It tests the length of `m_arr128kPool` and pushes to
`m_arr64kPool`, and both main results say what follows from that.
-/

namespace SomoNet

open Run

instance : Fintype MemClass := ⟨{.k4, .k16, .k64, .k128}, fun c => by cases c <;> decide⟩

namespace MemPool

/-! ## One call -/

theorem nextPtr_free (p : MemPool) (m : MemPtr) : (p.free m).nextPtr = p.nextPtr := by
  cases hit : p.heap m with
  | none =>
    unfold free
    simp only [hit]
  | some it =>
    rcases free_cases hit with ⟨heq, -⟩ | ⟨c, -, -, heq⟩ <;> rw [heq] <;> rfl

/-- `free` takes nothing out of a list. -/
theorem mem_free_of_mem {p : MemPool} {m m' : MemPtr} {c : MemClass} (h : m' ∈ p.arrPool c) :
    m' ∈ (p.free m).arrPool c := by
  cases hit : p.heap m with
  | none =>
    unfold free
    simpa only [hit] using h
  | some it =>
    rcases free_cases hit with ⟨heq, -⟩ | ⟨c', -, -, heq⟩
    · rw [heq]
      exact h
    · rw [heq]
      exact mem_push.mpr (Or.inr h)

/-- An item that `free` did not delete was cleared and pushed. -/
theorem heap_free_self {p : MemPool} {m : MemPtr} {it it' : MemItem} (hit : p.heap m = some it)
    (hit' : (p.free m).heap m = some it') :
    it' = it.clear ∧ ∃ c, classOf it.nCapacity = some c ∧ m ∈ (p.free m).arrPool c.pushedTo := by
  rcases free_cases hit with ⟨heq, -⟩ | ⟨c, hc, -, heq⟩
  · rw [heq] at hit'
    simp [setItem] at hit'
  · have hitem : ((p.setItem m (some it.clear)).push c.pushedTo m).heap m = some it.clear :=
      Function.update_self _ _ _
    rw [heq] at hit' ⊢
    exact ⟨Option.some_injective _ (hit'.symm.trans hitem), c, hc, mem_push.mpr (Or.inl ⟨rfl, rfl⟩)⟩

/-- `free` does not delete an item while the list of its class is short. -/
theorem isSome_heap_free {p : MemPool} {m : MemPtr} {it : MemItem} (hit : p.heap m = some it)
    {c : MemClass} (hc : classOf it.nCapacity = some c)
    (hshort : (p.arrPool c).length ≤ MEM_ITEM_COUNT_MAX) : ((p.free m).heap m).isSome := by
  rcases free_cases hit with ⟨-, hlong⟩ | ⟨c', -, -, heq⟩
  · exact absurd (hlong c hc) hshort.not_gt
  · rw [heq]
    simp [push, setItem]

/-- `reset` deletes the listed items and keeps the others. -/
theorem heap_reset (p : MemPool) (m : MemPtr) [Decidable (p.Listed m)] :
    p.reset.heap m = if p.Listed m then none else p.heap m := by
  have hlisted : p.Listed m ↔
      m ∈ p.arrPool .k4 ∨ m ∈ p.arrPool .k16 ∨ m ∈ p.arrPool .k64 ∨ m ∈ p.arrPool .k128 := by
    constructor
    · rintro ⟨c, h⟩
      cases c <;> simp [h]
    · rintro (h | h | h | h) <;> exact ⟨_, h⟩
  simp only [reset, hlisted]

theorem not_listed_reset (p : MemPool) (m : MemPtr) : ¬ p.reset.Listed m := by
  rintro ⟨c, h⟩
  cases h

open Classical in
theorem heap_of_heap_reset {p : MemPool} {m : MemPtr} {it : MemItem}
    (h : p.reset.heap m = some it) : p.heap m = some it := by
  rw [heap_reset] at h
  split_ifs at h
  exact h

theorem Valid.reset {p : MemPool} (hp : p.Valid) : p.reset.Valid where
  listed_live m h := absurd h (p.not_listed_reset m)
  nodup c := List.nodup_nil
  disjoint c c' m h := by cases h
  fresh m hm := by
    classical
    rw [heap_reset, hp.fresh m hm, ite_self]
  sized m it h := hp.sized m it (heap_of_heap_reset h)

open Classical in
theorem Outstanding.reset {p : MemPool} {m : MemPtr} (hm : p.Outstanding m) :
    p.reset.Outstanding m := by
  refine ⟨?_, p.not_listed_reset m⟩
  rw [heap_reset, if_neg hm.2]
  exact hm.1

end MemPool

/-! ## Runs -/

/-- The pool, and the accounts of the run so far. A request belongs to the class of the size it
asks for, and to none above the four. -/
structure PoolRun where
  pool : MemPool
  /-- The items handed out for requests of a class and not given back. -/
  held : Option MemClass → List MemPtr
  /-- The items that `get` created for requests of a class. -/
  made : Option MemClass → List MemPtr
  /-- The most items of a class that were held at once. -/
  peak : Option MemClass → ℕ

inductive PoolEvent
  | get (size : ℤ)
  /-- `free` of an item that is held. -/
  | free (m : MemPtr)
  /-- `assign` on an item that is held. -/
  | assign (m : MemPtr) (data : List UInt8)
  | reset

namespace PoolRun

def new : PoolRun := ⟨MemPool.new, fun _ => [], fun _ => [], fun _ => 0⟩

/-- Some caller holds the item. -/
def IsHeld (s : PoolRun) (m : MemPtr) : Prop := ∃ c, m ∈ s.held c

instance (s : PoolRun) (m : MemPtr) : Decidable (s.IsHeld m) :=
  inferInstanceAs (Decidable (∃ c, m ∈ s.held c))

/-- The accounts of a `get` that returned `m`. -/
def handOut (s : PoolRun) (pool : MemPool) (c : Option MemClass) (m : MemPtr) : PoolRun where
  pool := pool
  held := Function.update s.held c (m :: s.held c)
  made := if (s.pool.heap m).isSome then s.made else Function.update s.made c (m :: s.made c)
  peak c' := max (s.peak c') (Function.update s.held c (m :: s.held c) c').length

def get (s : PoolRun) (size : ℤ) : PoolRun :=
  match s.pool.get size with
  | (p, some m) => s.handOut p (classOf size) m
  | (p, none) => { s with pool := p }

def free (s : PoolRun) (m : MemPtr) : PoolRun :=
  { s with pool := s.pool.free m, held := fun c => (s.held c).erase m }

def step (s : PoolRun) : PoolEvent → Option PoolRun
  | .get size => some (s.get size)
  | .free m => if s.IsHeld m then some (s.free m) else none
  | .assign m data =>
    if s.IsHeld m then some { s with pool := s.pool.assign m data data.length } else none
  | .reset => some { s with pool := s.pool.reset }

/-- The callers and the pool do not share items, and nothing is ever pushed to the list of the
128K class. -/
structure Sound (s : PoolRun) : Prop where
  valid : s.pool.Valid
  held : ∀ c, ∀ m ∈ s.held c, s.pool.Outstanding m
  nodup : ∀ c, (s.held c).Nodup
  spare : s.pool.arrPool .k128 = []

/-- A held item is none that a free list can hand out. -/
theorem Sound.outstanding {s : PoolRun} (hs : s.Sound) {m : MemPtr} (hm : s.IsHeld m) :
    s.pool.Outstanding m := by
  obtain ⟨c, hmem⟩ := hm
  exact hs.held c m hmem

/-- Only held items are given back, -/
theorem step_free {s s' : PoolRun} {m : MemPtr} (h : s.step (.free m) = some s') :
    s.IsHeld m ∧ s' = s.free m := by
  obtain ⟨hm, hs'⟩ := Option.ite_none_right_eq_some.mp h
  exact ⟨hm, (Option.some.inj hs').symm⟩

/-- and only held items are assigned to. -/
theorem step_assign {s s' : PoolRun} {m : MemPtr} {data : List UInt8}
    (h : s.step (.assign m data) = some s') :
    s.IsHeld m ∧ s' = { s with pool := s.pool.assign m data data.length } := by
  obtain ⟨hm, hs'⟩ := Option.ite_none_right_eq_some.mp h
  exact ⟨hm, (Option.some.inj hs').symm⟩

theorem sound_new : new.Sound :=
  ⟨MemPool.valid_new, fun _ _ h => absurd h List.not_mem_nil, fun _ => List.nodup_nil, rfl⟩

/-- What a `get` leaves: the pool as it was, or a new item held, or a listed one. -/
theorem get_cases (s : PoolRun) (size : ℤ) :
    (s.get size = s ∧ MEM_ITEM_SIZE_MAX < size) ∨
      (∃ capacity : ℕ, s.get size =
          s.handOut (s.pool.newItem capacity) (classOf size) s.pool.nextPtr ∧
        capacity ≤ 1024 * 1024 ∧
        ∀ c, classOf size = some c → s.pool.arrPool c = [] ∧ capacity = c.limit) ∨
      ∃ c m rest, classOf size = some c ∧ s.pool.arrPool c = m :: rest ∧
        s.get size =
          s.handOut { s.pool with arrPool := Function.update s.pool.arrPool c rest } (some c) m := by
  unfold PoolRun.get
  cases hget : s.pool.get size with
  | mk p r =>
    rcases MemPool.get_cases hget with ⟨rfl, rfl, hmax⟩ | ⟨capacity, rfl, rfl, -, hcap, hclass⟩ |
      ⟨c, m, rest, rfl, hc, hl, rfl⟩
    · exact Or.inl ⟨rfl, hmax⟩
    · exact Or.inr (Or.inl ⟨capacity, rfl, hcap, hclass⟩)
    · exact Or.inr (Or.inr ⟨c, m, rest, hc, hl, by rw [hc]⟩)

/-- A `get` keeps what survives a new item and the loss of a listed one. -/
theorem get_keeps {s : PoolRun} (hs : s.Sound) {P : MemPool → Prop} (hp : P s.pool) (size : ℤ)
    (hheap : ∀ {p : MemPool}, p.arrPool = s.pool.arrPool →
      (∀ m, s.pool.Listed m → p.heap m = s.pool.heap m) → P p)
    (hpop : ∀ {c : MemClass} {m : MemPtr} {rest : List MemPtr}, s.pool.arrPool c = m :: rest →
      P { s.pool with arrPool := Function.update s.pool.arrPool c rest }) : P (s.get size).pool := by
  rcases s.get_cases size with ⟨heq, -⟩ | ⟨capacity, heq, -⟩ | ⟨c, m, rest, -, hl, heq⟩
  · rw [heq]
    exact hp
  · rw [heq]
    show P (s.pool.newItem capacity)
    refine hheap rfl fun m h => Function.update_of_ne ?_ _ _
    rintro rfl
    exact hs.valid.not_listed_nextPtr h
  · rw [heq]
    exact hpop hl

section get

variable {s : PoolRun} (hs : s.Sound)
include hs

theorem Sound.handOut {p : MemPool} (hp : p.Valid) {m : MemPtr} (hm : ¬ s.pool.Outstanding m)
    (hm' : p.Outstanding m) (hsame : MemPool.SameExcept m s.pool p) (hspare : p.arrPool .k128 = [])
    (c : Option MemClass) : (s.handOut p c m).Sound := by
  have hnew : ∀ c', m ∉ s.held c' := fun c' h => hm (hs.held c' m h)
  refine ⟨hp, fun c' m' h => ?_, fun c' => ?_, hspare⟩
  · -- the item handed out is held now; whatever else is held was held before
    by_cases hmm : m' = m
    · exact hmm ▸ hm'
    · refine (hsame m' hmm).2.mpr (hs.held c' m' ?_)
      change m' ∈ Function.update s.held c (m :: s.held c) c' at h
      by_cases hcc : c' = c
      · subst hcc
        rw [Function.update_self] at h
        exact (List.mem_cons.mp h).resolve_left hmm
      · rwa [Function.update_of_ne hcc] at h
  · show (Function.update s.held c (m :: s.held c) c').Nodup
    by_cases hcc : c' = c
    · subst hcc
      rw [Function.update_self]
      exact List.nodup_cons.mpr ⟨hnew c', hs.nodup c'⟩
    · rw [Function.update_of_ne hcc]
      exact hs.nodup c'

theorem Sound.get (size : ℤ) : (s.get size).Sound := by
  unfold PoolRun.get
  cases hget : s.pool.get size with
  | mk p r =>
    have hspare : p.arrPool .k128 = [] := by
      rcases MemPool.get_cases hget with ⟨-, rfl, -⟩ | ⟨capacity, -, rfl, -⟩ |
        ⟨c, m, rest, -, -, hl, rfl⟩
      · exact hs.spare
      · exact hs.spare
      · have hne : MemClass.k128 ≠ c := by
          rintro rfl
          rw [hs.spare] at hl
          cases hl
        exact (Function.update_of_ne hne _ _).trans hs.spare
    obtain ⟨hvalid, ⟨rfl, -, rfl⟩ | ⟨m, rfl, -, hm, hm', hsame⟩⟩ := MemPool.get_spec hs.valid hget
    · exact hs
    · exact hs.handOut hvalid hm hm' hsame hspare _

end get

theorem Sound.free {s : PoolRun} (hs : s.Sound) {m : MemPtr} (hm : s.IsHeld m) :
    (s.free m).Sound := by
  have hout := hs.outstanding hm
  obtain ⟨hvalid, -, hsame⟩ := MemPool.free_spec hs.valid hout
  obtain ⟨it, hit⟩ := hout.exists_item
  refine ⟨hvalid, fun c m' h => ?_, fun c => (hs.nodup c).erase m, ?_⟩
  · obtain ⟨hmm, hmem⟩ := (hs.nodup c).mem_erase_iff.mp h
    exact (hsame m' hmm).2.mpr (hs.held c m' hmem)
  · show (s.pool.free m).arrPool .k128 = []
    rcases MemPool.free_cases hit with ⟨heq, -⟩ | ⟨c, -, -, heq⟩
    · rw [heq]
      exact hs.spare
    · have hne : MemClass.k128 ≠ c.pushedTo := by cases c <;> decide
      rw [heq]
      exact (Function.update_of_ne hne _ _).trans hs.spare

theorem sound_step : Invariant step Sound := by
  intro s e s' hs h
  cases e with
  | get size =>
    cases h
    exact hs.get size
  | free m =>
    obtain ⟨hm, rfl⟩ := step_free h
    exact hs.free hm
  | assign m data =>
    obtain ⟨hm, rfl⟩ := step_assign h
    obtain ⟨hvalid, hkept, hsame⟩ :=
      MemPool.assign_spec hs.valid (hs.outstanding hm) data data.length
    refine ⟨hvalid, fun c m' h => ?_, hs.nodup, hs.spare⟩
    by_cases hmm : m' = m
    · exact hmm ▸ hkept
    · exact (hsame m' hmm).2.mpr (hs.held c m' h)
  | reset =>
    cases h
    exact ⟨hs.valid.reset, fun c m h => (hs.held c m h).reset, hs.nodup, rfl⟩

/-! ## What the lists hold -/

end PoolRun

/-- The capacities of a class: above the limit of the class before it and at most its own. -/
def MemClass.Covers : MemClass → ℕ → Prop
  | .k4, n => n ≤ MemClass.k4.limit
  | .k16, n => MemClass.k4.limit < n ∧ n ≤ MemClass.k16.limit
  | .k64, n => MemClass.k16.limit < n ∧ n ≤ MemClass.k64.limit
  | .k128, n => MemClass.k64.limit < n ∧ n ≤ MemClass.k128.limit

/-- The comparison cascade finds the class that covers the capacity. -/
theorem covers_iff {c : MemClass} {n : ℕ} : c.Covers n ↔ classOf n = some c := by
  have hlimits : MemClass.k4.limit = 4096 ∧ MemClass.k16.limit = 16384 ∧
      MemClass.k64.limit = 65536 ∧ MemClass.k128.limit = 131072 := by decide
  unfold classOf
  cases c <;> simp only [MemClass.Covers, hlimits] <;> split_ifs <;> simp <;> omega

/-- `free` gives an item back to its class, except for the last. -/
theorem MemClass.pushedTo_eq (c : MemClass) (hc : c ≠ .k128) : c.pushedTo = c := by
  cases c with
  | k128 => exact absurd rfl hc
  | _ => rfl

theorem MemClass.covers_limit (c : MemClass) : c.Covers c.limit := by
  cases c <;> simp [MemClass.Covers, MemClass.limit]

namespace MemPool

theorem ne_of_listed {p : MemPool} {m m' : MemPtr} (hm : ¬ p.Listed m) (h : p.Listed m') :
    m' ≠ m := by
  rintro rfl
  exact hm h

/-- The free lists are what the classes are for. -/
structure Represents (p : MemPool) : Prop where
  short : ∀ c, (p.arrPool c).length ≤ MEM_ITEM_COUNT_MAX + 1
  listed : ∀ c, ∀ m ∈ p.arrPool c,
    ∃ it, p.heap m = some it ∧ c.Covers it.nCapacity ∧ it.nLen = 0

theorem represents_new : new.Represents :=
  ⟨fun _ => Nat.zero_le _, fun _ _ h => absurd h List.not_mem_nil⟩

section

variable {p : MemPool} (hp : p.Represents)
include hp

/-- A change of items that are in no list. -/
theorem Represents.of_heap {p' : MemPool} (hlists : p'.arrPool = p.arrPool)
    (hheap : ∀ m, p.Listed m → p'.heap m = p.heap m) : p'.Represents := by
  refine ⟨fun c => hlists ▸ hp.short c, fun c m h => ?_⟩
  rw [hlists] at h
  rw [hheap m ⟨c, h⟩]
  exact hp.listed c m h

theorem Represents.pop {c : MemClass} {m : MemPtr} {rest : List MemPtr}
    (hl : p.arrPool c = m :: rest) :
    Represents { p with arrPool := Function.update p.arrPool c rest } := by
  refine ⟨fun c' => ?_, fun c' m' h => hp.listed c' m' (mem_of_mem_update hl h)⟩
  have hshort := hp.short c'
  show (Function.update p.arrPool c rest c').length ≤ _
  by_cases hcc : c' = c
  · subst hcc
    rw [hl, List.length_cons] at hshort
    rw [Function.update_self]
    omega
  · rwa [Function.update_of_ne hcc]

theorem Represents.push {c : MemClass} {m : MemPtr} {it : MemItem} (hit : p.heap m = some it)
    (hcover : c.Covers it.nCapacity) (hlen : it.nLen = 0)
    (hshort : (p.arrPool c).length ≤ MEM_ITEM_COUNT_MAX) : (p.push c m).Represents := by
  refine ⟨fun c' => ?_, fun c' m' h => ?_⟩
  · show (Function.update p.arrPool c (m :: p.arrPool c) c').length ≤ _
    by_cases hcc : c' = c
    · subst hcc
      rw [Function.update_self, List.length_cons]
      omega
    · rw [Function.update_of_ne hcc]
      exact hp.short c'
  · rcases mem_push.mp h with ⟨rfl, rfl⟩ | h
    · exact ⟨it, hit, hcover, hlen⟩
    · exact hp.listed c' m' h

/-- `free` keeps the lists if and only if the capacity is not in the range of the 128K class: an
item of that class goes to the list of another. -/
theorem represents_free {m : MemPtr} (hm : ¬ p.Listed m) {it : MemItem} (hit : p.heap m = some it)
    (hspare : p.arrPool .k128 = []) :
    (p.free m).Represents ↔ ¬ MemClass.k128.Covers it.nCapacity := by
  have hset : ∀ o, (p.setItem m o).Represents := fun o =>
    hp.of_heap rfl fun m' h => Function.update_of_ne (ne_of_listed hm h) _ _
  have hcleared : (p.setItem m (some it.clear)).heap m = some it.clear := Function.update_self _ _ _
  constructor
  · intro h hcover
    have hclass := covers_iff.mp hcover
    rcases free_cases hit with ⟨-, hlong⟩ | ⟨c, hc, -, heq⟩
    · have hlen := hlong _ hclass
      rw [hspare] at hlen
      exact absurd hlen (by decide)
    · -- the item is at the front of the 64K list, with the capacity of the 128K class
      have hck : c = .k128 := Option.some_injective _ (hc.symm.trans hclass)
      subst hck
      rw [heq] at h
      obtain ⟨it', hit', hcover', -⟩ := h.listed .k64 m (mem_push.mpr (Or.inl ⟨rfl, rfl⟩))
      have hit_eq : it' = it.clear := Option.some_injective _ (hit'.symm.trans hcleared)
      subst hit_eq
      exact absurd ((covers_iff.mp hcover').symm.trans hclass) (by decide)
  · intro hcover
    rcases free_cases hit with ⟨heq, -⟩ | ⟨c, hc, hshort, heq⟩
    · rw [heq]
      refine (hset (some it.clear)).of_heap rfl fun m' h => ?_
      exact Function.update_of_ne (ne_of_listed hm h) _ _
    · have hne : c ≠ .k128 := by
        rintro rfl
        exact hcover (covers_iff.mpr hc)
      rw [heq, c.pushedTo_eq hne]
      exact (hset _).push hcleared (covers_iff.mpr hc) rfl hshort

end
end MemPool

namespace PoolRun

/-- No item whose capacity is in the range of the 128K class is given back. -/
def FreesNo128 (s : PoolRun) (e : PoolEvent) : Prop :=
  ∀ m it, e = .free m → s.pool.heap m = some it → ¬ MemClass.k128.Covers it.nCapacity

theorem represents_get {s : PoolRun} (hs : s.Sound) (hp : s.pool.Represents) (size : ℤ) :
    (s.get size).pool.Represents :=
  get_keeps hs hp size hp.of_heap hp.pop

/-- The free lists keep their lengths, capacities and empty items in every state of a run if and
only if no item of the 128K class is given back. -/
theorem represents_iff (es : List PoolEvent) :
    Always step (fun s => s.pool.Represents) new es ↔ EachStep step FreesNo128 new es := by
  refine always_iff_eachStep sound_step ?_ sound_new MemPool.represents_new es
  intro s e s' hs hp h
  cases e with
  | get size =>
    cases h
    exact iff_of_true (represents_get hs hp size) (fun m it h => by cases h)
  | free m =>
    obtain ⟨hm, rfl⟩ := step_free h
    have hout := hs.outstanding hm
    obtain ⟨it, hit⟩ := hout.exists_item
    have hfree := MemPool.represents_free hp hout.2 hit hs.spare
    refine hfree.trans ⟨fun hcover m' it' he hit' => ?_, fun hcond => hcond m it rfl hit⟩
    cases he
    have hit_eq : it' = it := Option.some_injective _ (hit'.symm.trans hit)
    exact hit_eq ▸ hcover
  | assign m data =>
    obtain ⟨hm, rfl⟩ := step_assign h
    have hnot := (hs.outstanding hm).2
    refine iff_of_true ?_ (fun m it h => by cases h)
    exact hp.of_heap rfl fun m' h => Function.update_of_ne (MemPool.ne_of_listed hnot h) _ _
  | reset =>
    cases h
    refine iff_of_true ⟨fun _ => Nat.zero_le _, fun _ _ h => ?_⟩ (fun m it h => by cases h)
    exact absurd h List.not_mem_nil

/-- A 128K item is asked for and given back. It is in the 64K list then. -/
theorem not_represents_128Run :
    ¬ Always step (fun s => s.pool.Represents) new [.get 131072, .free 0] := by
  intro h
  have hlast := h.last (show exec step new [.get 131072, .free 0] = some _ from rfl)
  obtain ⟨it, hit, hcover, -⟩ := hlast.listed .k64 0 (by decide)
  cases hit
  exact absurd (covers_iff.mp hcover) (by decide)

/-! ## What a class costs -/

/-- The items created for requests of the class and not deleted. -/
def live (s : PoolRun) (c : MemClass) : List MemPtr :=
  (s.made (some c)).filter fun m => (s.pool.heap m).isSome

/-- No class has more items than were ever asked for at once. -/
def Bounded (s : PoolRun) : Prop := ∀ c, (s.live c).length ≤ s.peak (some c)

instance : DecidablePred Bounded := fun s =>
  inferInstanceAs (Decidable (∀ c, (s.live c).length ≤ s.peak (some c)))

end PoolRun

/-- Requests for sizes of the four classes, and `free`. -/
inductive Traffic
  | get (size : {size : ℤ // 1 ≤ size ∧ size ≤ 131072})
  | free (m : MemPtr)

def Traffic.event : Traffic → PoolEvent
  | .get size => .get size
  | .free m => .free m

namespace PoolRun

def trafficStep (s : PoolRun) (t : Traffic) : Option PoolRun := step s t.event

/-- What the accounts say of the lists. The first three classes are served from their own items.
The items made for the 128K class stay alive, and those held for it were all made for it. -/
structure Stocked (s : PoolRun) : Prop where
  fresh : ∀ c, ∀ m ∈ s.made c, m < s.pool.nextPtr
  nodup : ∀ c, (s.made c).Nodup
  capacity : ∀ c, ∀ m ∈ s.made (some c), ∀ it, s.pool.heap m = some it → it.nCapacity = c.limit
  kept : ∀ c, c ≠ .k128 → ∀ m ∈ s.live c, m ∈ s.pool.arrPool c ∨ m ∈ s.held (some c)
  bounded : ∀ c, c ≠ .k128 → (s.live c).length ≤ s.peak (some c)
  alive : ∀ m ∈ s.made (some .k128), (s.pool.heap m).isSome
  own : ∀ m ∈ s.held (some .k128), m ∈ s.made (some .k128)
  spent : s.peak (some .k128) ≤ (s.made (some .k128)).length

theorem mem_live {s : PoolRun} {c : MemClass} {m : MemPtr} :
    m ∈ s.live c ↔ m ∈ s.made (some c) ∧ (s.pool.heap m).isSome := by
  simp [live]

theorem stocked_new : new.Stocked where
  fresh _ _ h := absurd h List.not_mem_nil
  nodup _ := List.nodup_nil
  capacity _ _ h := absurd h List.not_mem_nil
  kept _ _ _ h := absurd h List.not_mem_nil
  bounded _ _ := Nat.zero_le _
  alive _ h := absurd h List.not_mem_nil
  own _ h := absurd h List.not_mem_nil
  spent := Nat.zero_le _

/-- Every item made for the 128K class is alive, so the class has as many as were ever made. -/
theorem Stocked.live_128 {s : PoolRun} (hs : s.Stocked) : s.live .k128 = s.made (some .k128) :=
  List.filter_eq_self.mpr hs.alive

theorem mem_held_handOut {s : PoolRun} {p : MemPool} {c c' : Option MemClass} {m m' : MemPtr} :
    m' ∈ (s.handOut p c m).held c' ↔ m' = m ∧ c' = c ∨ m' ∈ s.held c' := by
  show m' ∈ Function.update s.held c (m :: s.held c) c' ↔ _
  by_cases hcc : c' = c
  · subst hcc
    simp
  · simp [hcc]

theorem peak_le_handOut (s : PoolRun) (p : MemPool) (c : Option MemClass) (m : MemPtr)
    (c' : Option MemClass) : s.peak c' ≤ (s.handOut p c m).peak c' := le_max_left _ _

theorem length_held_le_handOut (s : PoolRun) (p : MemPool) (c : Option MemClass) (m : MemPtr)
    (c' : Option MemClass) :
    ((s.handOut p c m).held c').length ≤ (s.handOut p c m).peak c' := le_max_right _ _

/-- A list without repetitions is no longer than one that has all its elements. -/
theorem length_le_of_subset {l l' : List MemPtr} (hl : l.Nodup) (h : ∀ m ∈ l, m ∈ l') :
    l.length ≤ l'.length := (hl.subperm h).length_le

/-- No more items are held for the 128K class than were made for it. -/
theorem Stocked.length_held {s : PoolRun} (hs : s.Sound) (hk : s.Stocked) :
    (s.held (some .k128)).length ≤ (s.made (some .k128)).length :=
  length_le_of_subset (hs.nodup _) hk.own

section

variable {s : PoolRun} (hs : s.Sound) (hk : s.Stocked)
include hs hk

/-! ### A new item -/

section create

variable {c : MemClass} (hempty : s.pool.arrPool c = [])

/-- `get` for the class `c` when its list is empty. -/
abbrev create (s : PoolRun) (c : MemClass) : PoolRun :=
  s.handOut (s.pool.newItem c.limit) (some c) s.pool.nextPtr

omit hk in
theorem made_create (c' : Option MemClass) :
    (s.create c).made c' = if c' = some c then s.pool.nextPtr :: s.made (some c) else s.made c' := by
  have hnone : ¬ (s.pool.heap s.pool.nextPtr).isSome := by
    rw [hs.valid.fresh _ le_rfl]
    exact Bool.false_ne_true
  show (if _ then _ else _ : Option MemClass → List MemPtr) c' = _
  rw [if_neg hnone, Function.update_apply]

omit hs hk in
theorem heap_create_new :
    (s.create c).pool.heap s.pool.nextPtr = some (MemItem.new c.limit) :=
  Function.update_self _ _ _

omit hs in
/-- The new item is at none of the addresses in the accounts. -/
theorem heap_create {c' : Option MemClass} {m : MemPtr} (hm : m ∈ s.made c') :
    (s.create c).pool.heap m = s.pool.heap m :=
  Function.update_of_ne (hk.fresh c' m hm).ne _ _

theorem live_create (c' : MemClass) :
    (s.create c).live c' = if c' = c then s.pool.nextPtr :: s.live c else s.live c' := by
  have hold : ∀ c'' : MemClass, (s.made (some c'')).filter
      (fun m => ((s.create c).pool.heap m).isSome) = s.live c'' := by
    intro c''
    refine List.filter_congr fun m hm => ?_
    rw [heap_create hk hm]
  have hnew : ((s.create c).pool.heap s.pool.nextPtr).isSome = true := by
    rw [heap_create_new]
    rfl
  unfold live
  rw [made_create hs]
  by_cases hcc : c' = c
  · subst hcc
    rw [if_pos rfl, if_pos rfl, List.filter_cons, if_pos hnew]
    exact congrArg _ (hold c')
  · rw [if_neg fun h => hcc (Option.some_injective _ h), if_neg hcc]
    exact hold c'

include hempty

/-- All the items of a class whose list is empty are held, the new one among them. -/
theorem held_of_live_create (hc : c ≠ .k128) {m : MemPtr} (hm : m ∈ (s.create c).live c) :
    m ∈ (s.create c).held (some c) := by
  rw [live_create hs hk, if_pos rfl] at hm
  rcases List.mem_cons.mp hm with rfl | hold
  · exact mem_held_handOut.mpr (Or.inl ⟨rfl, rfl⟩)
  · have hkept := hk.kept c hc m hold
    rw [hempty] at hkept
    exact mem_held_handOut.mpr (Or.inr (hkept.resolve_left List.not_mem_nil))

omit hempty in
theorem nodup_made_create (c' : Option MemClass) : ((s.create c).made c').Nodup := by
  rw [made_create hs]
  split_ifs with hcc
  · exact List.nodup_cons.mpr ⟨fun h => (hk.fresh _ _ h).ne rfl, hk.nodup _⟩
  · exact hk.nodup c'

theorem Stocked.create (hsound : (s.create c).Sound) : (s.create c).Stocked := by
  -- the new item is made for its class, and held
  have hmade : ∀ c' m, m ∈ (s.create c).made c' →
      m = s.pool.nextPtr ∧ c' = some c ∨ m ∈ s.made c' := by
    intro c' m h
    rw [made_create hs] at h
    split_ifs at h with hcc
    · exact (List.mem_cons.mp h).imp (fun he => ⟨he, hcc⟩) (fun hold => hcc ▸ hold)
    · exact Or.inr h
  have hown : ∀ m ∈ (s.create c).held (some .k128), m ∈ (s.create c).made (some .k128) := by
    intro m h
    rw [made_create hs]
    rcases mem_held_handOut.mp h with ⟨rfl, hcc⟩ | h
    · rw [if_pos hcc]
      exact List.mem_cons_self
    · split_ifs with hcc
      · exact List.mem_cons_of_mem _ (hcc ▸ hk.own m h)
      · exact hk.own m h
  have hnodup := nodup_made_create (c := c) hs hk
  refine ⟨fun c' m h => ?_, hnodup, fun c' m h it hit => ?_, fun c' hc' m h => ?_,
    fun c' hc' => ?_, fun m h => ?_, hown, ?_⟩
  · rcases hmade c' m h with ⟨rfl, -⟩ | h
    · exact Nat.lt_succ_self _
    · exact (hk.fresh c' m h).trans (Nat.lt_succ_self _)
  · rcases hmade _ m h with ⟨rfl, hcc⟩ | h
    · rw [heap_create_new] at hit
      cases hit
      cases hcc
      rfl
    · rw [heap_create hk h] at hit
      exact hk.capacity c' m h it hit
  · by_cases hcc : c' = c
    · subst hcc
      exact Or.inr (held_of_live_create hs hk hempty hc' h)
    · rw [live_create hs hk, if_neg hcc] at h
      exact (hk.kept c' hc' m h).imp_right fun hold => mem_held_handOut.mpr (Or.inr hold)
  · by_cases hcc : c' = c
    · subst hcc
      have hheld := length_le_of_subset ((hnodup (some c')).filter _)
        fun m => held_of_live_create hs hk hempty hc' (m := m)
      exact hheld.trans (length_held_le_handOut _ _ _ _ _)
    · rw [live_create hs hk, if_neg hcc]
      exact (hk.bounded c' hc').trans (peak_le_handOut _ _ _ _ _)
  · rcases hmade _ m h with ⟨rfl, -⟩ | h
    · rw [heap_create_new]
      rfl
    · rw [heap_create hk h]
      exact hk.alive m h
  · -- the peak is an old one, which the items made so far exceed, or what is held now
    refine max_le (hk.spent.trans ?_) (length_le_of_subset (hsound.nodup _) hown)
    rw [made_create hs]
    split_ifs with hcc
    · rw [hcc, List.length_cons]
      exact Nat.le_succ _
    · exact le_rfl

end create

/-! ### An item of the list -/

theorem Stocked.take {c : MemClass} {m₀ : MemPtr} {rest : List MemPtr}
    (hl : s.pool.arrPool c = m₀ :: rest) :
    (s.handOut { s.pool with arrPool := Function.update s.pool.arrPool c rest } (some c) m₀).Stocked
      ∧ c ≠ .k128 := by
  -- the list of 128K items is always empty
  have hc : c ≠ .k128 := by
    rintro rfl
    rw [hs.spare] at hl
    cases hl
  have hlive : (s.pool.heap m₀).isSome := hs.valid.listed_live m₀ ⟨c, hl ▸ List.mem_cons_self⟩
  set s' := s.handOut { s.pool with arrPool := Function.update s.pool.arrPool c rest } (some c) m₀
    with hs'
  have hmade : s'.made = s.made := if_pos hlive
  have hlives : ∀ c', s'.live c' = s.live c' := by
    intro c'
    unfold live
    rw [hmade]
    rfl
  have hheld : s'.held (some .k128) = s.held (some .k128) :=
    Function.update_of_ne (fun h => hc (Option.some_injective _ h).symm) _ _
  refine ⟨⟨fun c' m h => hk.fresh c' m (hmade ▸ h), fun c' => hmade ▸ hk.nodup c',
    fun c' m h it hit => hk.capacity c' m (hmade ▸ h) it hit, fun c' hc' m h => ?_,
    fun c' hc' => ?_, fun m h => hk.alive m (hmade ▸ h), fun m h => ?_, ?_⟩, hc⟩
  · rw [hlives] at h
    rcases hk.kept c' hc' m h with hlisted | hold
    · by_cases hcc : c' = c
      · -- the item taken is held now, the rest of the list stays
        subst hcc
        rw [hl] at hlisted
        rcases List.mem_cons.mp hlisted with rfl | hrest
        · exact Or.inr (mem_held_handOut.mpr (Or.inl ⟨rfl, rfl⟩))
        · refine Or.inl ?_
          show m ∈ Function.update s.pool.arrPool c' rest c'
          rwa [Function.update_self]
      · refine Or.inl ?_
        show m ∈ Function.update s.pool.arrPool c rest c'
        rwa [Function.update_of_ne hcc]
    · exact Or.inr (mem_held_handOut.mpr (Or.inr hold))
  · rw [hlives]
    exact (hk.bounded c' hc').trans (peak_le_handOut _ _ _ _ _)
  · rw [hmade]
    exact hk.own m (hheld ▸ h)
  · have hlen : (s'.held (some .k128)).length ≤ (s.made (some .k128)).length := by
      rw [hheld]
      exact hk.length_held hs
    rw [hmade]
    exact max_le hk.spent hlen

/-! ### An item given back -/

theorem Stocked.free {m₀ : MemPtr} (hm₀ : s.pool.Outstanding m₀) :
    (s.free m₀).Stocked ∧ ∀ c, ((s.free m₀).live c).length ≤ (s.live c).length := by
  obtain ⟨it, hit⟩ := hm₀.exists_item
  obtain ⟨-, -, hsame⟩ := MemPool.free_spec hs.valid hm₀
  have hsome : ∀ m, ((s.free m₀).pool.heap m).isSome → (s.pool.heap m).isSome := by
    intro m h
    by_cases hmm : m = m₀
    · rw [hmm, hit]
      rfl
    · rwa [← (hsame m hmm).1]
  -- no item but the freed one can have gone, and no new one is alive
  have hlive : ∀ c m, m ∈ (s.free m₀).live c → m ∈ s.live c := by
    intro c m h
    exact mem_live.mpr ⟨(mem_live.mp h).1, hsome m (mem_live.mp h).2⟩
  have hlength : ∀ c, ((s.free m₀).live c).length ≤ (s.live c).length := fun c =>
    (List.monotone_filter_right _ hsome).length_le
  refine ⟨⟨fun c m h => ?_, hk.nodup, fun c m h it' hit' => ?_, fun c hc m h => ?_, fun c hc => ?_,
    fun m h => ?_, fun m h => hk.own m (List.mem_of_mem_erase h), hk.spent⟩, hlength⟩
  · show m < (s.pool.free m₀).nextPtr
    rw [MemPool.nextPtr_free]
    exact hk.fresh c m h
  · by_cases hmm : m = m₀
    · subst hmm
      obtain ⟨rfl, -⟩ := MemPool.heap_free_self hit hit'
      exact hk.capacity c m h it hit
    · exact hk.capacity c m h it' ((hsame m hmm).1.symm.trans hit')
  · obtain ⟨hmade, halive⟩ := mem_live.mp h
    by_cases hmm : m = m₀
    · -- the item is of its class's capacity, so it went to the list of its class
      subst hmm
      obtain ⟨it', hit'⟩ := Option.isSome_iff_exists.mp halive
      obtain ⟨-, c', hc', hmem⟩ := MemPool.heap_free_self hit hit'
      rw [hk.capacity c m hmade it hit, covers_iff.mp c.covers_limit] at hc'
      cases hc'
      exact Or.inl (c.pushedTo_eq hc ▸ hmem)
    · rcases hk.kept c hc m (hlive c m h) with hlisted | hheld
      · exact Or.inl (MemPool.mem_free_of_mem hlisted)
      · exact Or.inr ((List.mem_erase_of_ne hmm).mpr hheld)
  · exact (hlength c).trans (hk.bounded c hc)
  · by_cases hmm : m = m₀
    · -- the list that is tested is the empty one, so the item was not deleted
      subst hmm
      have hcap : it.nCapacity = MemClass.k128.limit := hk.capacity .k128 m h it hit
      have hclass : classOf it.nCapacity = some .k128 := by
        rw [hcap]
        rfl
      exact MemPool.isSome_heap_free hit hclass (by rw [hs.spare]; exact Nat.zero_le _)
    · show ((s.pool.free m₀).heap m).isSome
      rw [(hsame m hmm).1]
      exact hk.alive m h

end

/-! ### Runs -/

theorem classOf_traffic (size : {size : ℤ // 1 ≤ size ∧ size ≤ 131072}) :
    ∃ c, classOf size = some c ∧ (c = .k128 ↔ (MemClass.k64.limit : ℤ) < size) := by
  obtain ⟨size, -, hmax⟩ := size
  have hlimits : (MemClass.k4.limit : ℤ) = 4096 ∧ (MemClass.k16.limit : ℤ) = 16384 ∧
      (MemClass.k64.limit : ℤ) = 65536 ∧ (MemClass.k128.limit : ℤ) = 131072 := by decide
  unfold classOf
  simp only [hlimits]
  split_ifs
  · exact ⟨.k4, rfl, by simp; omega⟩
  · exact ⟨.k16, rfl, by simp; omega⟩
  · exact ⟨.k64, rfl, by simp; omega⟩
  · exact ⟨.k128, rfl, by simp; omega⟩

/-- The invariant of a run of traffic. -/
def Served (s : PoolRun) : Prop := s.Sound ∧ s.Stocked

theorem Served.get {s : PoolRun} (hs : s.Served) (size : {size : ℤ // 1 ≤ size ∧ size ≤ 131072}) :
    (∃ c, classOf size = some c ∧ s.pool.arrPool c = [] ∧ s.get size = s.create c ∧
        (s.create c).Stocked) ∨
      classOf size ≠ some .k128 ∧ (s.get size).Stocked ∧ (s.get size).made = s.made ∧
        ∀ c, s.peak c ≤ (s.get size).peak c := by
  obtain ⟨hsound, hk⟩ := hs
  obtain ⟨c, hc, -⟩ := classOf_traffic size
  rcases s.get_cases size with ⟨-, hmax⟩ | ⟨capacity, heq, -, hclass⟩ | ⟨c', m, rest, hc', hl, heq⟩
  · have hle := size.2.2
    exact absurd hmax (by unfold MEM_ITEM_SIZE_MAX; omega)
  · obtain ⟨hempty, rfl⟩ := hclass c hc
    rw [hc] at heq
    have hsound' : (s.create c).Sound := by
      have h := hsound.get size
      rwa [heq] at h
    exact Or.inl ⟨c, hc, hempty, heq, Stocked.create hsound hk hempty hsound'⟩
  · obtain ⟨hstocked, hne⟩ := Stocked.take hsound hk hl
    have hlive : (s.pool.heap m).isSome :=
      hsound.valid.listed_live m ⟨c', hl ▸ List.mem_cons_self⟩
    refine Or.inr ⟨fun h => hne (Option.some_injective _ (hc'.symm.trans h)), heq ▸ hstocked, ?_⟩
    rw [heq]
    exact ⟨if_pos hlive, peak_le_handOut _ _ _ _⟩

theorem served_trafficStep : Invariant trafficStep Served := by
  intro s t s' hs h
  refine ⟨sound_step s t.event s' hs.1 h, ?_⟩
  cases t with
  | get size =>
    cases h
    rcases hs.get size with ⟨c, -, -, heq, hstocked⟩ | ⟨-, hstocked, -⟩
    · show (s.get size).Stocked
      rw [heq]
      exact hstocked
    · exact hstocked
  | free m =>
    obtain ⟨⟨c, hmem⟩, rfl⟩ := step_free h
    exact (Stocked.free hs.1 hs.2 (hs.1.held c m hmem)).1

/-- A size of the 128K class is asked for only while every item ever made for such a request is
still held for it. -/
def NoneReturned128 (s : PoolRun) (t : Traffic) : Prop :=
  ∀ size, t = .get size → (MemClass.k64.limit : ℤ) < size →
    ∀ m ∈ s.made (some .k128), m ∈ s.held (some .k128)

theorem Stocked.bounded_iff_128 {s : PoolRun} (hk : s.Stocked) :
    s.Bounded ↔ (s.made (some .k128)).length ≤ s.peak (some .k128) := by
  constructor
  · intro h
    exact hk.live_128 ▸ h .k128
  · intro h c
    by_cases hc : c = .k128
    · rw [hc, hk.live_128]
      exact h
    · exact hk.bounded c hc

/-- A new item of the 128K class is within the bound if and only if it is one more than were ever
held at once, with all the earlier ones. -/
theorem bounded_create_iff {s : PoolRun} (hs : s.Served) (hP : s.Bounded)
    (hk' : (s.create .k128).Stocked) :
    (s.create .k128).Bounded ↔ ∀ m ∈ s.made (some .k128), m ∈ s.held (some .k128) := by
  obtain ⟨hsound, hk⟩ := hs
  have hmade : (s.create .k128).made (some .k128) =
      s.pool.nextPtr :: s.made (some .k128) := by
    rw [made_create hsound, if_pos rfl]
  have hpeak : (s.create .k128).peak (some .k128) =
      max (s.peak (some .k128)) ((s.held (some .k128)).length + 1) := by
    show max _ (Function.update s.held (some .k128) _ (some .k128)).length = _
    rw [Function.update_self, List.length_cons]
  have hle := hk.bounded_iff_128.mp hP
  have hspent := hk.spent
  have hheld := hk.length_held hsound
  rw [hk'.bounded_iff_128, hmade, hpeak, List.length_cons]
  constructor
  · intro h m hm
    -- the items held are among those made and no fewer, so they are all of them
    have hlen : (s.made (some .k128)).length ≤ (s.held (some .k128)).length := by omega
    have hsub := (hsound.nodup (some .k128)).subperm hk.own
    exact (hsub.perm_of_length_le hlen).mem_iff.mpr hm
  · intro h
    have hlen := length_le_of_subset (hk.nodup (some .k128)) h
    omega

/-- No class has more items than were ever asked for at once, in any state of a run, if and only
if nothing of the 128K class is asked for after such an item was given back. -/
theorem bounded_iff (es : List Traffic) :
    Always trafficStep Bounded new es ↔ EachStep trafficStep NoneReturned128 new es := by
  refine always_iff_eachStep served_trafficStep ?_ ⟨sound_new, stocked_new⟩
    (fun _ => Nat.zero_le _) es
  intro s t s' hs hP h
  have hs' := served_trafficStep s t s' hs h
  cases t with
  | get size =>
    cases h
    obtain ⟨c₀, hc₀, h128⟩ := classOf_traffic size
    rcases hs.get size with ⟨c, hc, -, heq, hstocked⟩ | ⟨hne, -, hmade, hpeak⟩
    · rw [show s.get size = s.create c from heq]
      have hcc : c₀ = c := Option.some_injective _ (hc₀.symm.trans hc)
      subst hcc
      -- only a new 128K item can break the bound: those are never reused
      by_cases hk128 : c₀ = .k128
      · subst hk128
        rw [bounded_create_iff hs hP hstocked]
        refine ⟨fun hall size' he _ => hall, fun hcond => hcond size rfl (h128.mp rfl)⟩
      · refine iff_of_true ?_ fun size' he hbig => ?_
        · refine hstocked.bounded_iff_128.mpr ?_
          rw [made_create hs.1, if_neg fun h => hk128 (Option.some_injective _ h).symm]
          exact (hs.2.bounded_iff_128.mp hP).trans (peak_le_handOut _ _ _ _ _)
        · cases he
          exact absurd (h128.mpr hbig) hk128
    · refine iff_of_true ?_ fun size' he hbig => ?_
      · refine hs'.2.bounded_iff_128.mpr ?_
        show ((s.get size).made _).length ≤ (s.get size).peak _
        rw [hmade]
        exact (hs.2.bounded_iff_128.mp hP).trans (hpeak _)
      · cases he
        exact absurd (hc₀.trans (congrArg some (h128.mpr hbig))) hne
  | free m =>
    obtain ⟨⟨c, hmem⟩, rfl⟩ := step_free h
    -- a free makes nothing
    have hlength := (Stocked.free hs.1 hs.2 (hs.1.held c m hmem)).2
    refine iff_of_true (fun c => (hlength c).trans (hP c)) fun size he => ?_
    cases he

/-- A 128K item is asked for, given back, and asked for again. -/
theorem not_bounded_128Run :
    ¬ Always trafficStep Bounded new
      [.get ⟨131072, by decide⟩, .free 0, .get ⟨131072, by decide⟩] := by
  decide +kernel

end PoolRun
end SomoNet
