import SomoNet.Lib.Block
import SomoNet.Lib.CInt
import Mathlib.Logic.Function.Basic

/-!
# `MemItem` and `MemPool`

The packet buffers every link sends from. A `MemItem` is a block with a length and a
capacity; `MemPool` is the process-wide singleton that hands items out and keeps
returned ones in four free lists, one for each size class. Items are heap objects, so
the lists hold pointers and the pool carries the heap they point into.

What the file establishes about the operations is ownership: an item is *outstanding*
from the `get` that returned it to the `free` that takes it back, `get` never returns
an outstanding item, and neither operation touches another outstanding item.
-/

namespace SomoNet

/-- A `MemItem*`. -/
abbrev MemPtr := ℕ

/-! ## `MemItem` -/

structure MemItem where
  /-- `m_pData` -/
  data : Block
  nLen : ℕ
  nCapacity : ℕ

/-- The `n` cells that `memcpy(dst, data, n)` reads from the caller's buffer. -/
def srcCells (data : List UInt8) (n : ℕ) : List Cell := (List.range n).map fun i => data[i]?

namespace MemItem

/-- `MemItem::MemItem(int capacity)` -/
def new (capacity : ℕ) : MemItem := ⟨Block.alloc capacity, 0, capacity⟩

/-- `MemItem::assign`. A length that is not positive, or above 1 MiB, is refused; one
above the capacity reallocates. -/
def assign (it : MemItem) (data : List UInt8) (len : ℤ) : MemItem :=
  if len ≤ 0 then it
  else if len > 1024 * 1024 then it
  else
    let n := len.toNat
    let it' := if len > it.nCapacity then { it with data := Block.alloc n, nCapacity := n } else it
    { it' with nLen := n, data := it'.data.write 0 (srcCells data n) }

/-- `MemItem::clear` -/
def clear (it : MemItem) : MemItem := { it with nLen := 0 }

/-- The item's block has the capacity the item claims, at most 1 MiB. -/
def Sized (it : MemItem) : Prop := it.data.size = it.nCapacity ∧ it.nCapacity ≤ 1024 * 1024

theorem sized_new {capacity : ℕ} (h : capacity ≤ 1024 * 1024) : (new capacity).Sized := ⟨rfl, h⟩

theorem Sized.clear {it : MemItem} (h : it.Sized) : it.clear.Sized := h

theorem Sized.assign {it : MemItem} (h : it.Sized) (data : List UInt8) (len : ℤ) :
    (it.assign data len).Sized := by
  obtain ⟨hsize, hcap⟩ := h
  unfold MemItem.assign
  split_ifs with hpos hmax hgrow
  · exact ⟨hsize, hcap⟩
  · exact ⟨hsize, hcap⟩
  · refine ⟨rfl, ?_⟩
    show len.toNat ≤ 1024 * 1024
    omega
  · exact ⟨hsize, hcap⟩

end MemItem

theorem length_srcCells (data : List UInt8) (n : ℕ) : (srcCells data n).length = n := by
  simp [srcCells]

/-- Copying a whole buffer copies its bytes. -/
theorem srcCells_length (data : List UInt8) : srcCells data data.length = cells data := by
  refine List.ext_getElem (by simp [srcCells]) fun i hi hi' => ?_
  have hlt : i < data.length := by simpa [srcCells] using hi
  simp [srcCells, hlt]

/-- After an accepted `assign` the item holds exactly the bytes given. -/
theorem MemItem.read_assign {it : MemItem} (h : it.Sized) {data : List UInt8}
    (hpos : 0 < data.length) (hmax : data.length ≤ 1024 * 1024) :
    (it.assign data data.length).data.read 0 data.length = cells data := by
  have hn : ((data.length : ℤ)).toNat = data.length := Int.toNat_natCast _
  have hread : ∀ b : Block, data.length ≤ b.size →
      (b.write 0 (srcCells data data.length)).read 0 data.length = cells data := by
    intro b hb
    have hwrite := Block.read_write b 0 (srcCells data data.length)
      (by rw [length_srcCells]; omega)
    rw [length_srcCells] at hwrite
    rw [hwrite, srcCells_length]
  unfold MemItem.assign
  rw [if_neg (by omega), if_neg (by omega)]
  simp only [hn]
  split_ifs with hcap
  · exact hread _ le_rfl
  · refine hread _ ?_
    rw [h.1]
    omega

/-! ## `MemPool` -/

/-- The four size classes, named after the vectors `m_arr4kPool` ... `m_arr128kPool`. -/
inductive MemClass
  | k4 | k16 | k64 | k128
  deriving DecidableEq, Repr

/-- `MEM_ITEM_SIZE_4K` ... `MEM_ITEM_SIZE_128K` -/
def MemClass.limit : MemClass → ℕ
  | .k4 => 1024 * 4
  | .k16 => 1024 * 16
  | .k64 => 1024 * 64
  | .k128 => 1024 * 128

def MEM_ITEM_SIZE_MAX : ℤ := 1024 * 512

def MEM_ITEM_COUNT_MAX : ℕ := 1000

/-- The comparison cascade that `get` makes on the size asked for and `free` on the
capacity: the first class whose limit is not exceeded. -/
def classOf (size : ℤ) : Option MemClass :=
  if size ≤ MemClass.k4.limit then some .k4
  else if size ≤ MemClass.k16.limit then some .k16
  else if size ≤ MemClass.k64.limit then some .k64
  else if size ≤ MemClass.k128.limit then some .k128
  else none

theorem le_limit_of_classOf {size : ℤ} {c : MemClass} (h : classOf size = some c) :
    size ≤ c.limit := by
  unfold classOf at h
  split_ifs at h <;> cases h <;> assumption

theorem MemClass.limit_le_max (c : MemClass) : (c.limit : ℤ) ≤ MEM_ITEM_SIZE_MAX := by
  cases c <;> decide

/-- The vector that `MemPool::free` pushes an item of each class to. An item of the
128K class is pushed to `m_arr64kPool`. -/
def MemClass.pushedTo : MemClass → MemClass
  | .k4 => .k4
  | .k16 => .k16
  | .k64 => .k64
  | .k128 => .k64

structure MemPool where
  /-- `m_arr4kPool` ... `m_arr128kPool`; the head of a list is the vector's `back()`. -/
  arrPool : MemClass → List MemPtr
  /-- The `MemItem` objects that have been created and not deleted. -/
  heap : MemPtr → Option MemItem
  /-- Where the next `new MemItem` goes. -/
  nextPtr : MemPtr

namespace MemPool

/-- `MemPool::MemPool` -/
def new : MemPool := ⟨fun _ => [], fun _ => none, 0⟩

/-- `new MemItem(capacity)` -/
def newItem (p : MemPool) (capacity : ℕ) : MemPool :=
  { p with
    heap := Function.update p.heap p.nextPtr (some (MemItem.new capacity))
    nextPtr := p.nextPtr + 1 }

/-- A store to the object at `m`; `none` when the object is destroyed. -/
def setItem (p : MemPool) (m : MemPtr) (it : Option MemItem) : MemPool :=
  { p with heap := Function.update p.heap m it }

/-- `push_back(pFrame)` on the vector of class `c`. -/
def push (p : MemPool) (c : MemClass) (m : MemPtr) : MemPool :=
  { p with arrPool := Function.update p.arrPool c (m :: p.arrPool c) }

/-- `MemPool::get`: `NULL` for a size above `MEM_ITEM_SIZE_MAX`. -/
def get (p : MemPool) (size : ℤ) : MemPool × Option MemPtr :=
  match classOf size with
  | some c =>
    match p.arrPool c with
    | m :: rest => ({ p with arrPool := Function.update p.arrPool c rest }, some m)
    | [] => (p.newItem c.limit, some p.nextPtr)
  | none =>
    if size ≤ MEM_ITEM_SIZE_MAX then (p.newItem size.toNat, some p.nextPtr)
    else (p, none)

/-- `MemPool::free`. The class is that of the item's capacity; its vector is the one
whose size is checked, but the item goes to `pushedTo`. -/
def free (p : MemPool) (m : MemPtr) : MemPool :=
  match p.heap m with
  | none => p
  | some it =>
    let p := p.setItem m (some it.clear)
    match classOf it.nCapacity with
    | some c =>
      if (p.arrPool c).length > MEM_ITEM_COUNT_MAX then p.setItem m none
      else p.push c.pushedTo m
    | none => p.setItem m none

/-- `MemPool::reset` -/
def reset (p : MemPool) : MemPool where
  arrPool _ := []
  heap m :=
    if m ∈ p.arrPool .k4 ∨ m ∈ p.arrPool .k16 ∨ m ∈ p.arrPool .k64 ∨ m ∈ p.arrPool .k128 then none
    else p.heap m
  nextPtr := p.nextPtr

/-- `mem->assign(data, len)` on an item of the heap. -/
def assign (p : MemPool) (m : MemPtr) (data : List UInt8) (len : ℤ) : MemPool :=
  p.setItem m ((p.heap m).map fun it => it.assign data len)

/-! ## Ownership -/

/-- The item is in one of the free lists. -/
def Listed (p : MemPool) (m : MemPtr) : Prop := ∃ c, m ∈ p.arrPool c

/-- `get` has handed the item out and `free` has not taken it back: it exists and is in
no free list. -/
def Outstanding (p : MemPool) (m : MemPtr) : Prop := (p.heap m).isSome ∧ ¬ p.Listed m

/-- The representation invariant: listed items exist, no item is listed twice, and
nothing exists yet at the addresses still to be used. -/
structure Valid (p : MemPool) : Prop where
  listed_live : ∀ m, p.Listed m → (p.heap m).isSome
  nodup : ∀ c, (p.arrPool c).Nodup
  disjoint : ∀ c c' m, m ∈ p.arrPool c → m ∈ p.arrPool c' → c = c'
  fresh : ∀ m, p.nextPtr ≤ m → p.heap m = none
  sized : ∀ m it, p.heap m = some it → it.Sized

theorem valid_new : new.Valid where
  listed_live m h := by simp [Listed, new] at h
  nodup c := List.nodup_nil
  disjoint c c' m h := by simp [new] at h
  fresh m _ := rfl
  sized m it h := by simp [new] at h

theorem Valid.not_listed_nextPtr {p : MemPool} (hp : p.Valid) : ¬ p.Listed p.nextPtr := by
  intro h
  have := hp.listed_live _ h
  rw [hp.fresh _ le_rfl] at this
  cases this

theorem Valid.not_outstanding_nextPtr {p : MemPool} (hp : p.Valid) :
    ¬ p.Outstanding p.nextPtr := by
  intro h
  have := h.1
  rw [hp.fresh _ le_rfl] at this
  cases this

theorem Outstanding.exists_item {p : MemPool} {m : MemPtr} (h : p.Outstanding m) :
    ∃ it, p.heap m = some it := Option.isSome_iff_exists.mp h.1

/-- What an operation that moves only the item `m` leaves alone: every other item keeps
its contents and stays outstanding, or not, as it was. -/
def SameExcept (m : MemPtr) (p p' : MemPool) : Prop :=
  ∀ m', m' ≠ m → p'.heap m' = p.heap m' ∧ (p'.Outstanding m' ↔ p.Outstanding m')

theorem SameExcept.trans {m : MemPtr} {p p' p'' : MemPool} (h : SameExcept m p p')
    (h' : SameExcept m p' p'') : SameExcept m p p'' := fun m' hm =>
  ⟨(h' m' hm).1.trans (h m' hm).1, (h' m' hm).2.trans (h m' hm).2⟩

/-! ### `new` -/

section newItem

variable {p : MemPool} (hp : p.Valid) (capacity : ℕ)
include hp

theorem Valid.newItem (hcap : capacity ≤ 1024 * 1024) : (p.newItem capacity).Valid where
  listed_live m h := by
    have hlive := hp.listed_live m h
    unfold MemPool.newItem
    by_cases hm : m = p.nextPtr
    · simp [hm]
    · simpa [hm] using hlive
  nodup := hp.nodup
  disjoint := hp.disjoint
  fresh m hm := by
    have hlt : p.nextPtr < m := hm
    have hne : m ≠ p.nextPtr := hlt.ne'
    simpa [MemPool.newItem, hne] using hp.fresh m hlt.le
  sized m it h := by
    by_cases hm : m = p.nextPtr
    · simp only [MemPool.newItem, hm, Function.update_self, Option.some.injEq] at h
      exact h ▸ MemItem.sized_new hcap
    · exact hp.sized m it (by simpa [MemPool.newItem, hm] using h)

theorem outstanding_newItem : (p.newItem capacity).Outstanding p.nextPtr := by
  refine ⟨by simp [MemPool.newItem], hp.not_listed_nextPtr⟩

omit hp in
theorem sameExcept_newItem : SameExcept p.nextPtr p (p.newItem capacity) := by
  intro m' hm
  have hheap : (p.newItem capacity).heap m' = p.heap m' := by simp [MemPool.newItem, hm]
  exact ⟨hheap, by unfold Outstanding; rw [hheap]; rfl⟩

end newItem

/-! ### `get` -/

/-- `get` returns an item exactly for a size within the limit. -/
theorem get_isSome (p : MemPool) (size : ℤ) :
    (p.get size).2.isSome = true ↔ size ≤ MEM_ITEM_SIZE_MAX := by
  unfold get
  cases hc : classOf size with
  | none =>
    dsimp only
    split_ifs with hmax
    · simp [hmax]
    · simp [hmax]
  | some c =>
    have hmax : size ≤ MEM_ITEM_SIZE_MAX := (le_limit_of_classOf hc).trans c.limit_le_max
    cases hl : p.arrPool c <;> simp [hl, hmax]

/-- The item that `get` hands out: created for the call, or the last one of its class's list. -/
theorem get_cases {p p' : MemPool} {size : ℤ} {r : Option MemPtr} (h : p.get size = (p', r)) :
    (r = none ∧ p' = p ∧ MEM_ITEM_SIZE_MAX < size) ∨
      (∃ capacity : ℕ, r = some p.nextPtr ∧ p' = p.newItem capacity ∧ size ≤ capacity ∧
        capacity ≤ 1024 * 1024 ∧ ∀ c, classOf size = some c → p.arrPool c = [] ∧ capacity = c.limit) ∨
      ∃ c m rest, r = some m ∧ classOf size = some c ∧ p.arrPool c = m :: rest ∧
        p' = { p with arrPool := Function.update p.arrPool c rest } := by
  unfold get at h
  cases hc : classOf size with
  | none =>
    simp only [hc] at h
    -- no class: an item of its own, up to the largest size
    split_ifs at h with hmax
    · cases h
      have hcap : size.toNat ≤ 1024 * 1024 := by
        unfold MEM_ITEM_SIZE_MAX at hmax
        omega
      exact Or.inr (Or.inl ⟨size.toNat, rfl, rfl, Int.self_le_toNat size, hcap, by simp⟩)
    · cases h
      exact Or.inl ⟨rfl, rfl, not_le.mp hmax⟩
  | some c =>
    simp only [hc] at h
    -- from the list of the class, or new if that is empty
    cases hl : p.arrPool c with
    | nil =>
      simp only [hl] at h
      cases h
      have hcap : c.limit ≤ 1024 * 1024 := by cases c <;> decide
      refine Or.inr (Or.inl ⟨c.limit, rfl, rfl, le_limit_of_classOf hc, hcap, fun c' hc' => ?_⟩)
      cases hc'
      exact ⟨hl, rfl⟩
    | cons m rest =>
      simp only [hl] at h
      cases h
      exact Or.inr (Or.inr ⟨c, m, rest, rfl, rfl, hl, rfl⟩)

/-- An item in the list that `get` leaves was in the list that it found. -/
theorem mem_of_mem_update {p : MemPool} {c c' : MemClass} {m m' : MemPtr} {rest : List MemPtr}
    (hl : p.arrPool c = m :: rest) (h : m' ∈ Function.update p.arrPool c rest c') :
    m' ∈ p.arrPool c' := by
  by_cases hcc : c' = c
  · subst hcc
    rw [Function.update_self] at h
    rw [hl]
    exact List.mem_cons_of_mem _ h
  · rwa [Function.update_of_ne hcc] at h

section pop

variable {p : MemPool} (hp : p.Valid) {c : MemClass} {m : MemPtr} {rest : List MemPtr}
  (hl : p.arrPool c = m :: rest)
include hp hl

/-- The item taken is in no list any more: not in its own, which had it once, nor in another. -/
theorem Valid.not_mem_pop (c' : MemClass) : m ∉ Function.update p.arrPool c rest c' := by
  have hnd : (m :: rest).Nodup := hl ▸ hp.nodup c
  have hmem : m ∈ p.arrPool c := hl ▸ List.mem_cons_self
  intro h
  have hcc : c = c' := hp.disjoint c c' m hmem (mem_of_mem_update hl h)
  subst hcc
  rw [Function.update_self] at h
  exact (List.nodup_cons.mp hnd).1 h

theorem Valid.pop : Valid { p with arrPool := Function.update p.arrPool c rest } where
  listed_live := by
    rintro m' ⟨c', h⟩
    exact hp.listed_live m' ⟨c', mem_of_mem_update hl h⟩
  nodup c' := by
    show (Function.update p.arrPool c rest c').Nodup
    by_cases hcc : c' = c
    · subst hcc
      have hnd : (m :: rest).Nodup := hl ▸ hp.nodup c'
      simpa using (List.nodup_cons.mp hnd).2
    · simpa [Function.update_of_ne hcc] using hp.nodup c'
  disjoint c₁ c₂ m' h₁ h₂ :=
    hp.disjoint c₁ c₂ m' (mem_of_mem_update hl h₁) (mem_of_mem_update hl h₂)
  fresh := hp.fresh
  sized := hp.sized

theorem outstanding_pop : Outstanding { p with arrPool := Function.update p.arrPool c rest } m :=
  ⟨hp.listed_live m ⟨c, hl ▸ List.mem_cons_self⟩, fun ⟨c', h⟩ => hp.not_mem_pop hl c' h⟩

omit hp in
theorem sameExcept_pop : SameExcept m p { p with arrPool := Function.update p.arrPool c rest } := by
  intro m' hne
  refine ⟨rfl, and_congr_right fun _ => not_congr ⟨fun ⟨c', h⟩ => ⟨c', mem_of_mem_update hl h⟩, ?_⟩⟩
  rintro ⟨c', h⟩
  refine ⟨c', ?_⟩
  by_cases hcc : c' = c
  · subst hcc
    have hmem : m' ∈ m :: rest := hl ▸ h
    simpa using (List.mem_cons.mp hmem).resolve_left hne
  · simpa [Function.update_of_ne hcc] using h

end pop

/-- What `get` does to the pool, by its result: no item for too large a size; otherwise
an item that nobody held, taken from a free list or newly created. -/
theorem get_spec {p p' : MemPool} (hp : p.Valid) {size : ℤ} {r : Option MemPtr}
    (h : p.get size = (p', r)) :
    p'.Valid ∧
      ((r = none ∧ MEM_ITEM_SIZE_MAX < size ∧ p' = p) ∨
        ∃ m, r = some m ∧ size ≤ MEM_ITEM_SIZE_MAX ∧ ¬ p.Outstanding m ∧ p'.Outstanding m ∧
          SameExcept m p p') := by
  have hmax := p.get_isSome size
  rw [h] at hmax
  rcases get_cases h with
    ⟨rfl, rfl, hbig⟩ | ⟨capacity, rfl, rfl, -, hcap, -⟩ | ⟨c, m, rest, rfl, -, hl, rfl⟩
  · exact ⟨hp, Or.inl ⟨rfl, hbig, rfl⟩⟩
  · exact ⟨hp.newItem capacity hcap, Or.inr ⟨_, rfl, hmax.mp rfl, hp.not_outstanding_nextPtr,
      outstanding_newItem hp capacity, sameExcept_newItem capacity⟩⟩
  · have hlisted : p.Listed m := ⟨c, hl ▸ List.mem_cons_self⟩
    exact ⟨hp.pop hl, Or.inr ⟨m, rfl, hmax.mp rfl, fun hout => hout.2 hlisted,
      outstanding_pop hp hl, sameExcept_pop hl⟩⟩

/-! ### `free` -/

section free

variable {p : MemPool} (hp : p.Valid) {m : MemPtr} (hm : p.Outstanding m)
include hp hm

/-- Destroying an outstanding item. -/
theorem Valid.destroy : (p.setItem m none).Valid where
  listed_live m' h := by
    have hne : m' ≠ m := fun he => hm.2 (he ▸ h)
    simpa [setItem, hne] using hp.listed_live m' h
  nodup := hp.nodup
  disjoint := hp.disjoint
  fresh m' h := by
    by_cases hne : m' = m
    · simp [setItem, hne]
    · simpa [setItem, hne] using hp.fresh m' h
  sized m' it h := by
    by_cases hne : m' = m
    · simp [setItem, hne] at h
    · exact hp.sized m' it (by simpa [setItem, hne] using h)

omit hp hm in
theorem not_outstanding_destroy : ¬ (p.setItem m none).Outstanding m := by
  intro h
  have := h.1
  simp [setItem] at this

/-- Writing the contents of an outstanding item. -/
theorem Valid.setItem {it : MemItem} (hit : it.Sized) : (p.setItem m (some it)).Valid where
  listed_live m' h := by
    by_cases hne : m' = m
    · simp [MemPool.setItem, hne]
    · simpa [MemPool.setItem, hne] using hp.listed_live m' h
  nodup := hp.nodup
  disjoint := hp.disjoint
  fresh m' h := by
    have hne : m' ≠ m := by
      rintro rfl
      have := hm.1
      rw [hp.fresh _ h] at this
      cases this
    simpa [MemPool.setItem, hne] using hp.fresh m' h
  sized m' it' h := by
    by_cases hne : m' = m
    · simp only [MemPool.setItem, hne, Function.update_self, Option.some.injEq] at h
      exact h ▸ hit
    · exact hp.sized m' it' (by simpa [MemPool.setItem, hne] using h)

omit hp hm in
theorem sameExcept_setItem (it : Option MemItem) : SameExcept m p (p.setItem m it) := by
  intro m' hne
  have hheap : (p.setItem m it).heap m' = p.heap m' := by simp [MemPool.setItem, hne]
  exact ⟨hheap, by unfold Outstanding; rw [hheap]; rfl⟩

omit hp in
theorem Outstanding.setItem (it : MemItem) : (p.setItem m (some it)).Outstanding m :=
  ⟨by simp [MemPool.setItem], hm.2⟩

omit hp hm in
theorem mem_push {c c' : MemClass} {m' : MemPtr} :
    m' ∈ (p.push c m).arrPool c' ↔ m' = m ∧ c' = c ∨ m' ∈ p.arrPool c' := by
  unfold push
  by_cases hcc : c' = c
  · subst hcc
    simp
  · simp [hcc]

/-- Pushing an outstanding item on one of the free lists. -/
theorem Valid.push (c : MemClass) : (p.push c m).Valid where
  listed_live := by
    rintro m' ⟨c', h⟩
    rcases mem_push.mp h with ⟨rfl, -⟩ | h
    · exact hm.1
    · exact hp.listed_live m' ⟨c', h⟩
  nodup c' := by
    unfold MemPool.push
    by_cases hcc : c' = c
    · subst hcc
      simpa using ⟨fun h => hm.2 ⟨_, h⟩, hp.nodup _⟩
    · simpa [Function.update_of_ne hcc] using hp.nodup c'
  disjoint c₁ c₂ m' h₁ h₂ := by
    -- only the pushed item can be in two lists, and it was in none before
    rcases mem_push.mp h₁ with ⟨he₁, hc₁⟩ | h₁ <;> rcases mem_push.mp h₂ with ⟨he₂, hc₂⟩ | h₂
    · rw [hc₁, hc₂]
    · exact absurd ⟨c₂, he₁ ▸ h₂⟩ hm.2
    · exact absurd ⟨c₁, he₂ ▸ h₁⟩ hm.2
    · exact hp.disjoint c₁ c₂ m' h₁ h₂
  fresh := hp.fresh
  sized := hp.sized

omit hp hm in
theorem not_outstanding_push (c : MemClass) : ¬ (p.push c m).Outstanding m :=
  fun h => h.2 ⟨c, mem_push.mpr (Or.inl ⟨rfl, rfl⟩)⟩

omit hp hm in
theorem sameExcept_push (c : MemClass) : SameExcept m p (p.push c m) := by
  intro m' hne
  refine ⟨rfl, and_congr_right fun _ => not_congr (exists_congr fun c' => ?_)⟩
  rw [mem_push, or_iff_right (fun h => hne h.1)]

omit hp hm in
/-- `free` of an existing item: it is deleted, or cleared and pushed. -/
theorem free_cases {it : MemItem} (hit : p.heap m = some it) :
    (p.free m = (p.setItem m (some it.clear)).setItem m none ∧
        ∀ c, classOf it.nCapacity = some c → MEM_ITEM_COUNT_MAX < (p.arrPool c).length) ∨
      ∃ c, classOf it.nCapacity = some c ∧ (p.arrPool c).length ≤ MEM_ITEM_COUNT_MAX ∧
        p.free m = (p.setItem m (some it.clear)).push c.pushedTo m := by
  unfold free
  simp only [hit]
  cases hc : classOf it.nCapacity with
  | none => exact Or.inl ⟨rfl, by simp⟩
  | some c =>
    dsimp only
    split_ifs with hlen
    · refine Or.inl ⟨rfl, fun c' hc' => ?_⟩
      cases hc'
      exact hlen
    · exact Or.inr ⟨c, rfl, not_lt.mp hlen, rfl⟩

/-- `free` takes an outstanding item back and touches no other. -/
theorem free_spec :
    (p.free m).Valid ∧ ¬ (p.free m).Outstanding m ∧ SameExcept m p (p.free m) := by
  obtain ⟨it, hit⟩ := hm.exists_item
  have hp' := hp.setItem hm (hp.sized m it hit).clear
  have hm' := hm.setItem it.clear
  have hsame := sameExcept_setItem (p := p) (m := m) (some it.clear)
  rcases free_cases hit with ⟨heq, -⟩ | ⟨c, -, -, heq⟩
  · rw [heq]
    exact ⟨hp'.destroy hm', not_outstanding_destroy, hsame.trans (sameExcept_setItem none)⟩
  · rw [heq]
    exact ⟨hp'.push hm' _, not_outstanding_push _, hsame.trans (sameExcept_push _)⟩

end free

/-! ### `assign` -/

theorem assign_spec {p : MemPool} (hp : p.Valid) {m : MemPtr} (hm : p.Outstanding m)
    (data : List UInt8) (len : ℤ) :
    (p.assign m data len).Valid ∧ (p.assign m data len).Outstanding m ∧
      SameExcept m p (p.assign m data len) := by
  obtain ⟨it, hit⟩ := hm.exists_item
  unfold assign
  rw [hit, Option.map_some]
  exact ⟨hp.setItem hm ((hp.sized m it hit).assign data len), hm.setItem _, sameExcept_setItem _⟩

end MemPool
end SomoNet
