import Mathlib.Tactic

/-!
# Blocks of memory

A block is what `malloc` or `new char[n]` returns: `size` cells, each holding a byte or
nothing yet. Reading a cell that was never written, or one outside the block, gives
`none`, so that a result which must not depend on such a cell says so by being `some`.
-/

namespace SomoNet

/-- A cell of memory: a byte, or `none` while it is indeterminate. -/
abbrev Cell := Option UInt8

/-- Bytes as cells. -/
abbrev cells (bytes : List UInt8) : List Cell := bytes.map some

/-- A block of `size` cells. -/
structure Block where
  size : ℕ
  cell : ℕ → Cell

namespace Block

/-- A freshly allocated block: no cell has been written. -/
def alloc (size : ℕ) : Block := ⟨size, fun _ => none⟩

/-- The cell at offset `i`; there is nothing to read outside the block. -/
def get (b : Block) (i : ℕ) : Cell := if i < b.size then b.cell i else none

/-- The `n` cells from offset `off`. -/
def read (b : Block) (off n : ℕ) : List Cell := (List.range n).map fun i => b.get (off + i)

/-- `memcpy(b + off, src, n)`, where `src` lists the `n` cells copied. -/
def write (b : Block) (off : ℕ) (src : List Cell) : Block where
  size := b.size
  cell i := if off ≤ i ∧ i < off + src.length then src.getD (i - off) none else b.cell i

@[simp] theorem size_alloc (n : ℕ) : (alloc n).size = n := rfl

@[simp] theorem length_read (b : Block) (off n : ℕ) : (b.read off n).length = n := by
  simp [read]

@[simp] theorem read_zero (b : Block) (off : ℕ) : b.read off 0 = [] := rfl

theorem getElem_read (b : Block) (off n i : ℕ) (h : i < (b.read off n).length) :
    (b.read off n)[i] = b.get (off + i) := by
  simp [read]

theorem get_of_le {b : Block} {i : ℕ} (h : b.size ≤ i) : b.get i = none := by
  unfold get
  rw [if_neg (by omega)]

/-- A written cell holds what was written. -/
theorem get_write_of_mem {b : Block} {off i : ℕ} {src : List Cell}
    (hlo : off ≤ i) (hhi : i < off + src.length) (hsize : i < b.size) :
    (b.write off src).get i = src.getD (i - off) none := by
  unfold get write
  simp only [if_pos hsize]
  rw [if_pos ⟨hlo, hhi⟩]

/-- A cell outside the written range is as it was. -/
theorem get_write_of_not_mem {b : Block} {off i : ℕ} {src : List Cell}
    (h : i < off ∨ off + src.length ≤ i) : (b.write off src).get i = b.get i := by
  unfold get write
  simp only
  rw [if_neg (by omega : ¬(off ≤ i ∧ i < off + src.length))]

/-- Two reads agree when their cells do. -/
theorem read_congr {b b' : Block} {off off' n : ℕ}
    (h : ∀ i, i < n → b.get (off + i) = b'.get (off' + i)) :
    b.read off n = b'.read off' n := by
  unfold read
  refine List.map_congr_left fun i hi => h i ?_
  simpa using hi

/-- A read of `m + n` cells is a read of `m` and a read of `n` after them. -/
theorem read_add (b : Block) (off m n : ℕ) :
    b.read off (m + n) = b.read off m ++ b.read (off + m) n := by
  unfold read
  rw [List.range_add, List.map_append, List.map_map]
  congr 1
  refine List.map_congr_left fun i _ => ?_
  simp [Nat.add_assoc]

theorem drop_read (b : Block) (off m n : ℕ) :
    (b.read off n).drop m = b.read (off + m) (n - m) := by
  by_cases h : m ≤ n
  · obtain ⟨k, rfl⟩ := Nat.exists_eq_add_of_le h
    rw [read_add, List.drop_left' (length_read b off m), Nat.add_sub_cancel_left]
  · rw [List.drop_eq_nil_of_le (by rw [length_read]; omega), show n - m = 0 by omega, read_zero]

/-- Reading back a range that was just written, inside the block. -/
theorem read_write (b : Block) (off : ℕ) (src : List Cell) (h : off + src.length ≤ b.size) :
    (b.write off src).read off src.length = src := by
  refine List.ext_getElem (by simp) fun i hi hi' => ?_
  rw [getElem_read, get_write_of_mem (by omega) (by omega) (by omega),
    Nat.add_sub_cancel_left, List.getD_eq_getElem?_getD, List.getElem?_eq_getElem hi',
    Option.getD_some]

/-- A read that does not meet the written range is as before. -/
theorem read_write_of_disjoint {b : Block} {off off' n : ℕ} {src : List Cell}
    (h : off' + n ≤ off ∨ off + src.length ≤ off') :
    (b.write off src).read off' n = b.read off' n :=
  read_congr fun i hi => get_write_of_not_mem (by omega)

/-- Writing after a range extends what is read there. -/
theorem read_write_append (b : Block) (off n : ℕ) (src : List Cell)
    (h : off + n + src.length ≤ b.size) :
    (b.write (off + n) src).read off (n + src.length) = b.read off n ++ src := by
  rw [read_add, read_write_of_disjoint (Or.inl le_rfl), read_write _ _ _ h]

/-- A read that runs past the end of the block meets a cell that holds nothing. -/
theorem none_mem_read {b : Block} {off n : ℕ} (h : b.size < off + n) (hn : 0 < n) :
    none ∈ b.read off n := by
  -- the last cell read is outside
  apply List.mem_map.mpr
  refine ⟨n - 1, List.mem_range.mpr (by omega), ?_⟩
  exact get_of_le (by omega)

end Block

/-- A call of `memcpy(dst + dstOff, src + srcOff, n)`. The offsets and the length are signed, as the
caller computes them. -/
structure Memcpy where
  dst : Block
  dstOff : ℤ
  src : Block
  srcOff : ℤ
  n : ℤ

namespace Memcpy

/-- The destination after the call. -/
def result (m : Memcpy) : Block :=
  m.dst.write m.dstOff.toNat (m.src.read m.srcOff.toNat m.n.toNat)

/-- The call reads and writes inside its blocks. -/
structure InBounds (m : Memcpy) : Prop where
  n_nonneg : 0 ≤ m.n
  dst_nonneg : 0 ≤ m.dstOff
  dst_inside : m.dstOff + m.n ≤ m.dst.size
  src_nonneg : 0 ≤ m.srcOff
  src_inside : m.srcOff + m.n ≤ m.src.size

/-- The two ranges of a call within one block do not overlap. -/
def Apart (m : Memcpy) : Prop := m.dstOff + m.n ≤ m.srcOff ∨ m.srcOff + m.n ≤ m.dstOff

end Memcpy
end SomoNet
