import SomoNet.Lib.Block
import SomoNet.Lib.CInt

/-!
# The receive buffer of `TcpLink`

`TcpLink` keeps the bytes its handler has not consumed in `m_pBuffer`, in the live
window `[m_nPos, m_nPos + m_nLen)`. `addData` appends a segment, growing the buffer when
the window reaches its end (or dropping everything once it has grown to its maximum);
`removeData` consumes from the front and moves the rest down when that is cheap.

The abstract object behind this is a first-in first-out queue of cells. `window` is the
abstraction function: under `Valid`, `addData` appends to it and `removeData` drops
from it.
-/

namespace SomoNet

def TCP_LINK_BUFFER_DEFAULT : ℤ := 1024 * 256

def TCP_LINK_BUFFER_MAX : ℤ := 1024 * 1024

/-- Size of the static buffer libuv reads into, the most bytes one `on_read` carries. -/
def STATIC_BUF_SIZE : ℕ := 64 * 1024

structure RecvBuffer where
  pBuffer : Block
  nPos : ℤ
  nLen : ℤ
  nCapacity : ℤ

namespace RecvBuffer

/-- The buffer set up by both constructors of `TcpLink`. -/
def new : RecvBuffer where
  pBuffer := Block.alloc TCP_LINK_BUFFER_DEFAULT.toNat
  nPos := 0
  nLen := 0
  nCapacity := TCP_LINK_BUFFER_DEFAULT

/-- The last two statements of `addData`: copy behind the window, lengthen it. -/
def append (b : RecvBuffer) (data : List Cell) (len : ℤ) : RecvBuffer :=
  { b with
    pBuffer := b.pBuffer.write (toInt32 (b.nPos + b.nLen)).toNat data
    nLen := toInt32 (b.nLen + len) }

/-- The reallocation of `addData`: the window is copied to the start of a new buffer. -/
def grow (b : RecvBuffer) (len : ℤ) : RecvBuffer :=
  let nCapacity := toInt32 (toInt32 (b.nPos + b.nLen) + len)
  { pBuffer := (Block.alloc nCapacity.toNat).write 0 (b.pBuffer.read b.nPos.toNat b.nLen.toNat)
    nPos := 0
    nLen := b.nLen
    nCapacity }

/-- `addData` finds no room behind the window. -/
def Full (b : RecvBuffer) (len : ℤ) : Prop :=
  toInt32 (toInt32 (b.nPos + b.nLen) + len) ≥ b.nCapacity

/-- The branch of `addData` that drops everything. -/
def Discards (b : RecvBuffer) (len : ℤ) : Prop :=
  b.Full len ∧ b.nCapacity ≥ TCP_LINK_BUFFER_MAX

instance (b : RecvBuffer) (len : ℤ) : Decidable (b.Full len) :=
  inferInstanceAs (Decidable (_ ≥ _))

instance (b : RecvBuffer) (len : ℤ) : Decidable (b.Discards len) :=
  inferInstanceAs (Decidable (_ ∧ _))

/-- `TcpLink::addData` -/
def addData (b : RecvBuffer) (data : List Cell) : RecvBuffer :=
  let len : ℤ := data.length
  if b.Full len then
    if b.nCapacity ≥ TCP_LINK_BUFFER_MAX then { b with nLen := 0, nPos := 0 }
    else (b.grow len).append data len
  else b.append data len

/-- `TcpLink::removeData` -/
def removeData (b : RecvBuffer) (len : ℤ) : RecvBuffer :=
  let nPos := toInt32 (b.nPos + len)
  let nLen := toInt32 (b.nLen - len)
  if nLen < 0 then { b with nLen := 0, nPos := 0 }
  else if nLen = 0 then { b with nLen := 0, nPos := 0 }
  else if nPos ≥ nLen then
    -- time to shrink
    { b with
      pBuffer := b.pBuffer.write 0 (b.pBuffer.read nPos.toNat nLen.toNat)
      nLen := nLen
      nPos := 0 }
  else { b with nLen := nLen, nPos := nPos }

/-- The cells that `on_data(link->m_pBuffer, link->m_nLen, link)` lets the handler read. -/
def offered (b : RecvBuffer) : List Cell := b.pBuffer.read 0 b.nLen.toNat

/-- The live window, as a queue of cells. -/
def window (b : RecvBuffer) : List Cell := b.pBuffer.read b.nPos.toNat b.nLen.toNat

/-- The window lies inside the buffer, and the buffer is what `nCapacity` says. -/
structure Valid (b : RecvBuffer) : Prop where
  pos_nonneg : 0 ≤ b.nPos
  len_nonneg : 0 ≤ b.nLen
  inside : b.nPos + b.nLen ≤ b.nCapacity
  bounded : b.nCapacity < TCP_LINK_BUFFER_MAX + STATIC_BUF_SIZE
  size_eq : (b.pBuffer.size : ℤ) = b.nCapacity

theorem valid_new : new.Valid where
  pos_nonneg := le_rfl
  len_nonneg := le_rfl
  inside := by decide
  bounded := by decide
  size_eq := by decide

/-- The handler is given the window itself exactly when the window starts the buffer. -/
theorem offered_eq_window {b : RecvBuffer} (h : b.nPos = 0) : b.offered = b.window := by
  unfold offered window
  rw [h]
  rfl

theorem length_window (b : RecvBuffer) : b.window.length = b.nLen.toNat :=
  Block.length_read _ _ _

section

variable {b : RecvBuffer} (hb : b.Valid)
include hb

/-- In a valid buffer the sum that `addData` compares with the capacity does not wrap. -/
theorem Valid.toInt32_sum {len : ℤ} (hlo : 0 ≤ len) (hhi : len ≤ STATIC_BUF_SIZE) :
    toInt32 (b.nPos + b.nLen) = b.nPos + b.nLen ∧
      toInt32 (toInt32 (b.nPos + b.nLen) + len) = b.nPos + b.nLen + len ∧
      toInt32 (b.nLen + len) = b.nLen + len := by
  obtain ⟨hpos, hlen, hin, hbd, -⟩ := hb
  unfold TCP_LINK_BUFFER_MAX STATIC_BUF_SIZE at *
  have hsum : toInt32 (b.nPos + b.nLen) = b.nPos + b.nLen :=
    toInt32_of_mem (by omega) (by omega)
  refine ⟨hsum, ?_, toInt32_of_mem (by omega) (by omega)⟩
  rw [hsum]
  exact toInt32_of_mem (by omega) (by omega)

theorem Valid.full_iff {len : ℤ} (hlo : 0 ≤ len) (hhi : len ≤ STATIC_BUF_SIZE) :
    b.Full len ↔ b.nCapacity ≤ b.nPos + b.nLen + len := by
  unfold Full
  rw [(hb.toInt32_sum hlo hhi).2.1]

/-- Appending inside the capacity. -/
theorem Valid.append {data : List Cell} (hhi : data.length ≤ STATIC_BUF_SIZE)
    (hroom : b.nPos + b.nLen + data.length ≤ b.nCapacity) :
    (b.append data data.length).Valid ∧
      (b.append data data.length).window = b.window ++ data ∧
      (b.append data data.length).nPos = b.nPos := by
  have hdata : ((data.length : ℕ) : ℤ) ≤ STATIC_BUF_SIZE := by exact_mod_cast hhi
  obtain ⟨hsum, -, hlen'⟩ := hb.toInt32_sum (Int.natCast_nonneg _) hdata
  obtain ⟨hpos, hlen, hin, hbd, hsz⟩ := hb
  -- no sum of positions leaves the range of `int`
  have hoff : (b.nPos + b.nLen).toNat = b.nPos.toNat + b.nLen.toNat := by omega
  have hlen'' : (b.nLen + (data.length : ℤ)).toNat = b.nLen.toNat + data.length := by omega
  have happ : b.append data data.length
      = ⟨b.pBuffer.write (b.nPos.toNat + b.nLen.toNat) data, b.nPos, b.nLen + data.length,
          b.nCapacity⟩ := by
    unfold RecvBuffer.append
    rw [hsum, hlen', hoff]
  rw [happ]
  refine ⟨⟨hpos, ?_, ?_, hbd, hsz⟩, ?_, rfl⟩
  · show 0 ≤ b.nLen + (data.length : ℤ)
    omega
  · show b.nPos + (b.nLen + (data.length : ℤ)) ≤ b.nCapacity
    omega
  · show Block.read (b.pBuffer.write _ data) b.nPos.toNat (b.nLen + (data.length : ℤ)).toNat = _
    rw [hlen'']
    apply Block.read_write_append
    omega

/-- Growing keeps the window and makes room for the segment. -/
theorem Valid.grow {len : ℤ} (hlo : 0 ≤ len) (hhi : len ≤ STATIC_BUF_SIZE)
    (hcap : b.nCapacity < TCP_LINK_BUFFER_MAX) :
    (b.grow len).Valid ∧ (b.grow len).window = b.window ∧ (b.grow len).nPos = 0 ∧
      (b.grow len).nLen = b.nLen ∧ b.nLen + len ≤ (b.grow len).nCapacity := by
  have hnew := (hb.toInt32_sum hlo hhi).2.1
  have hread := length_window b
  obtain ⟨hpos, hlen, hin, hbd, hsz⟩ := hb
  -- the window is copied to the start of the new buffer
  have hgrow : b.grow len = ⟨(Block.alloc (b.nPos + b.nLen + len).toNat).write 0 b.window, 0,
      b.nLen, b.nPos + b.nLen + len⟩ := by
    unfold RecvBuffer.grow
    simp only [hnew]
    rfl
  rw [hgrow]
  refine ⟨⟨le_rfl, hlen, ?_, ?_, ?_⟩, ?_, rfl, rfl, ?_⟩
  · show 0 + b.nLen ≤ b.nPos + b.nLen + len
    omega
  · show b.nPos + b.nLen + len < _
    omega
  · show (((b.nPos + b.nLen + len).toNat : ℕ) : ℤ) = b.nPos + b.nLen + len
    omega
  · show Block.read (Block.write _ 0 b.window) 0 b.nLen.toNat = b.window
    rw [← hread]
    apply Block.read_write
    rw [hread, Block.size_alloc]
    omega
  · show b.nLen + len ≤ b.nPos + b.nLen + len
    omega

/-- **`addData` appends to the queue**, unless it takes its discard branch. The window
starts the buffer afterwards if it did before or if the buffer was reallocated. -/
theorem Valid.addData {data : List Cell} (hhi : data.length ≤ STATIC_BUF_SIZE)
    (hd : ¬ b.Discards data.length) :
    (b.addData data).Valid ∧ (b.addData data).window = b.window ++ data ∧
      (b.addData data).nPos = if b.Full data.length then 0 else b.nPos := by
  have hdata : ((data.length : ℕ) : ℤ) ≤ STATIC_BUF_SIZE := by exact_mod_cast hhi
  have hfull := hb.full_iff (Int.natCast_nonneg data.length) hdata
  unfold RecvBuffer.addData
  dsimp only
  split_ifs with hf hcap
  · -- the discard branch is excluded
    exact absurd ⟨hf, hcap⟩ hd
  · obtain ⟨hv, hw, hp, hl, hroom⟩ :=
      hb.grow (Int.natCast_nonneg data.length) hdata (not_le.mp hcap)
    obtain ⟨hv', hw', hp'⟩ := hv.append hhi (by rw [hp, hl]; omega)
    exact ⟨hv', by rw [hw', hw], hp'.trans hp⟩
  · exact hb.append hhi (by rw [hfull] at hf; omega)

/-- Dropping everything leaves a valid empty buffer. -/
theorem Valid.reset : Valid { b with nLen := 0, nPos := 0 } := by
  obtain ⟨hpos, hlen, hin, hbd, hsz⟩ := hb
  refine ⟨le_rfl, le_rfl, ?_, hbd, hsz⟩
  show (0 : ℤ) + 0 ≤ b.nCapacity
  omega

/-- **`removeData` drops from the front of the queue** what the handler consumed. -/
theorem Valid.removeData {c : ℤ} (hlo : 0 ≤ c) (hhi : c ≤ b.nLen) :
    (b.removeData c).Valid ∧ (b.removeData c).window = b.window.drop c.toNat := by
  have hreset := hb.reset
  obtain ⟨hpos, hlen, hin, hbd, hsz⟩ := hb
  have hbd' := hbd
  unfold TCP_LINK_BUFFER_MAX STATIC_BUF_SIZE at hbd'
  have hpos' : toInt32 (b.nPos + c) = b.nPos + c := toInt32_of_mem (by omega) (by omega)
  have hlen' : toInt32 (b.nLen - c) = b.nLen - c := toInt32_of_mem (by omega) (by omega)
  -- what the handler has left
  have hrest : b.pBuffer.read (b.nPos + c).toNat (b.nLen - c).toNat = b.window.drop c.toNat := by
    unfold window
    rw [Block.drop_read]
    congr 1 <;> omega
  unfold RecvBuffer.removeData
  simp only [hpos', hlen']
  split_ifs with hneg hzero hshrink
  · omega
  · -- everything is consumed
    refine ⟨hreset, ?_⟩
    rw [← hrest, show (b.nLen - c).toNat = 0 by omega]
    rfl
  · refine ⟨⟨le_rfl, ?_, ?_, hbd, hsz⟩, ?_⟩
    · show 0 ≤ b.nLen - c
      omega
    · show 0 + (b.nLen - c) ≤ b.nCapacity
      omega
    · -- compaction copies the rest over the consumed part
      show Block.read (Block.write _ 0 _) 0 (b.nLen - c).toNat = _
      rw [hrest]
      have hl : (b.window.drop c.toNat).length = (b.nLen - c).toNat := by
        rw [← hrest, Block.length_read]
      rw [← hl]
      apply Block.read_write
      rw [hl]
      omega
  · refine ⟨⟨?_, ?_, ?_, hbd, hsz⟩, hrest⟩
    · show 0 ≤ b.nPos + c
      omega
    · show 0 ≤ b.nLen - c
      omega
    · show b.nPos + c + (b.nLen - c) ≤ b.nCapacity
      omega

end

/-! ## What the buffer is filled with -/

/-- The cells from the start of the buffer to the end of the window. The handler is given a
part of these. -/
def filled (b : RecvBuffer) : List Cell := b.pBuffer.read 0 (b.nPos + b.nLen).toNat

theorem filled_eq_nil {b : RecvBuffer} (hpos : b.nPos = 0) (hlen : b.nLen = 0) : b.filled = [] := by
  unfold filled
  rw [hpos, hlen]
  rfl

section

variable {b : RecvBuffer} (hb : b.Valid)
include hb

/-- The window ends where the filled part ends. -/
theorem Valid.window_suffix : b.window <:+ b.filled := by
  have hsum : (b.nPos + b.nLen).toNat = b.nPos.toNat + b.nLen.toNat :=
    Int.toNat_add hb.pos_nonneg hb.len_nonneg
  refine ⟨b.pBuffer.read 0 b.nPos.toNat, ?_⟩
  unfold window filled
  rw [hsum, Block.read_add, Nat.zero_add]

/-- What the handler is given starts where the filled part starts. -/
theorem Valid.offered_prefix : b.offered <+: b.filled := by
  have hsum : (b.nPos + b.nLen).toNat = b.nLen.toNat + b.nPos.toNat := by
    rw [Int.toNat_add hb.pos_nonneg hb.len_nonneg, Nat.add_comm]
  refine ⟨b.pBuffer.read b.nLen.toNat b.nPos.toNat, ?_⟩
  unfold offered filled
  rw [hsum, Block.read_add, Nat.zero_add]

/-- Inside the capacity a segment goes behind the filled part. -/
theorem Valid.filled_append {data : List Cell} (hhi : data.length ≤ STATIC_BUF_SIZE)
    (hroom : b.nPos + b.nLen + data.length ≤ b.nCapacity) :
    (b.append data data.length).filled = b.filled ++ data := by
  have hdata : ((data.length : ℕ) : ℤ) ≤ STATIC_BUF_SIZE := by exact_mod_cast hhi
  obtain ⟨hsum, -, hlen'⟩ := hb.toInt32_sum (Int.natCast_nonneg _) hdata
  obtain ⟨hpos, hlen, -, -, hsz⟩ := hb
  have hoff : (b.nPos + (b.nLen + (data.length : ℤ))).toNat = (b.nPos + b.nLen).toNat + data.length := by
    omega
  have hwrite := Block.read_write_append b.pBuffer 0 (b.nPos + b.nLen).toNat data (by omega)
  rw [Nat.zero_add] at hwrite
  unfold filled RecvBuffer.append
  dsimp only
  rw [hsum, hlen', hoff, hwrite]

end

/-- The buffer is filled with the last of these cells and with nothing else. -/
structure Holds (b : RecvBuffer) (data : List Cell) : Prop where
  valid : b.Valid
  /-- An empty window starts the buffer. -/
  start : b.nLen = 0 → b.nPos = 0
  suffix : b.filled <:+ data

theorem holds_new : new.Holds [] := ⟨valid_new, fun _ => rfl, List.nil_suffix⟩

section

variable {b : RecvBuffer} {data : List Cell} (hb : b.Holds data)
include hb

/-- An empty buffer can be taken to hold anything. -/
theorem Holds.of_empty (hlen : b.nLen = 0) (data' : List Cell) : b.Holds data' where
  valid := hb.valid
  start := hb.start
  suffix := by
    rw [filled_eq_nil (hb.start hlen) hlen]
    exact List.nil_suffix

theorem Holds.reset (data' : List Cell) : Holds { b with nLen := 0, nPos := 0 } data' where
  valid := hb.valid.reset
  start _ := rfl
  suffix := by
    rw [filled_eq_nil rfl rfl]
    exact List.nil_suffix

/-- The handler is given cells that the buffer holds. -/
theorem Holds.offered_infix : b.offered <:+: data :=
  hb.valid.offered_prefix.isInfix.trans hb.suffix.isInfix

/-- **`addData`** fills the buffer with what it held and the segment. -/
theorem Holds.addData {seg : List Cell} (hhi : seg.length ≤ STATIC_BUF_SIZE)
    (hd : ¬ b.Discards seg.length) : (b.addData seg).Holds (data ++ seg) := by
  have hseg : ((seg.length : ℕ) : ℤ) ≤ STATIC_BUF_SIZE := by exact_mod_cast hhi
  obtain ⟨hv, hw, hp⟩ := hb.valid.addData hhi hd
  by_cases hf : b.Full seg.length
  · rw [if_pos hf] at hp
    refine ⟨hv, fun _ => hp, ?_⟩
    -- the window starts the new buffer
    have hfilled : (b.addData seg).filled = (b.addData seg).window := by
      unfold filled window
      rw [hp, zero_add]
      rfl
    obtain ⟨front, hfront⟩ := hb.valid.window_suffix.trans hb.suffix
    refine ⟨front, ?_⟩
    rw [hfilled, hw, ← List.append_assoc, hfront]
  · have hroom : b.nPos + b.nLen + seg.length ≤ b.nCapacity := by
      rw [hb.valid.full_iff (Int.natCast_nonneg _) hseg] at hf
      omega
    have happ : b.addData seg = b.append seg seg.length := by
      unfold RecvBuffer.addData
      exact if_neg hf
    have hlen' := (hb.valid.toInt32_sum (Int.natCast_nonneg _) hseg).2.2
    refine ⟨hv, ?_, ?_⟩
    · intro hzero
      rw [happ] at hzero ⊢
      have hlen : b.nLen + (seg.length : ℤ) = 0 := by rw [← hlen']; exact hzero
      have := hb.valid.len_nonneg
      exact hb.start (by omega)
    · obtain ⟨front, hfront⟩ := hb.suffix
      refine ⟨front, ?_⟩
      rw [happ, hb.valid.filled_append hhi hroom, ← List.append_assoc, hfront]

/-- The branch of `addData` that drops everything. -/
theorem Holds.addData_discards {seg : List Cell} (hd : b.Discards seg.length)
    (data' : List Cell) : (b.addData seg).Holds data' := by
  have hreset : b.addData seg = { b with nLen := 0, nPos := 0 } := by
    unfold RecvBuffer.addData
    dsimp only
    rw [if_pos hd.1, if_pos hd.2]
  rw [hreset]
  exact hb.reset data'

/-- **`removeData`** brings nothing into the buffer, whatever the handler returns. -/
theorem Holds.removeData {c : ℤ} (hlo : 0 ≤ c) (hhi : c < 2147483648) :
    (b.removeData c).Holds data := by
  obtain ⟨hpos, hlen, hin, hbd, hsz⟩ := hb.valid
  have hbd' := hbd
  unfold TCP_LINK_BUFFER_MAX STATIC_BUF_SIZE at hbd'
  have hlen' : toInt32 (b.nLen - c) = b.nLen - c := toInt32_of_mem (by omega) (by omega)
  by_cases hc : c ≤ b.nLen
  · obtain ⟨hv, hw⟩ := hb.valid.removeData hlo hc
    have hpos' : toInt32 (b.nPos + c) = b.nPos + c := toInt32_of_mem (by omega) (by omega)
    -- what is left is the end of what was there
    have hsuffix : (b.removeData c).window <:+ data := by
      rw [hw]
      exact (List.drop_suffix _ _).trans (hb.valid.window_suffix.trans hb.suffix)
    unfold RecvBuffer.removeData at hv hsuffix ⊢
    simp only [hpos', hlen'] at hv hsuffix ⊢
    split_ifs at hv hsuffix ⊢ with hneg hzero hshrink
    · exact hb.reset data
    · exact hb.reset data
    · -- the window has been moved to the start
      refine ⟨hv, fun _ => rfl, ?_⟩
      unfold filled
      unfold window at hsuffix
      rw [zero_add]
      exact hsuffix
    · -- the filled part is as it was
      refine ⟨hv, fun h => absurd h hzero, ?_⟩
      have hsame : b.nPos + c + (b.nLen - c) = b.nPos + b.nLen := by ring
      unfold filled
      rw [hsame]
      exact hb.suffix
  · -- more than there is: everything goes
    have hneg : b.nLen - c < 0 := by omega
    have hreset : b.removeData c = { b with nLen := 0, nPos := 0 } := by
      unfold RecvBuffer.removeData
      simp only [hlen']
      rw [if_pos hneg]
    rw [hreset]
    exact hb.reset data

end

/-! ## A buffer that is emptied every time -/

/-- Nothing is held, and the buffer has never grown. -/
structure Drained (b : RecvBuffer) : Prop where
  valid : b.Valid
  nPos : b.nPos = 0
  nLen : b.nLen = 0
  nCapacity : b.nCapacity = TCP_LINK_BUFFER_DEFAULT

theorem drained_new : new.Drained := ⟨valid_new, rfl, rfl, rfl⟩

/-- A segment that arrives in an empty buffer is offered as it is, and the buffer is empty again
when it has been consumed. -/
theorem Drained.addData {b : RecvBuffer} (hb : b.Drained) {seg : List Cell}
    (hlen : seg.length ≤ STATIC_BUF_SIZE) :
    (b.addData seg).offered = seg ∧ ((b.addData seg).removeData seg.length).Drained := by
  obtain ⟨hv, hpos, hzero, hcap⟩ := hb
  have hseg : ((seg.length : ℕ) : ℤ) ≤ STATIC_BUF_SIZE := by exact_mod_cast hlen
  -- a segment is shorter than the buffer is at first, so that it is never replaced
  have hroom : b.nPos + b.nLen + seg.length < b.nCapacity := by
    rw [hpos, hzero, hcap]
    unfold TCP_LINK_BUFFER_DEFAULT
    unfold STATIC_BUF_SIZE at hseg
    omega
  have hfull : ¬ b.Full seg.length := by
    rw [hv.full_iff (Int.natCast_nonneg _) hseg]
    omega
  have hadd : b.addData seg = b.append seg seg.length := if_neg hfull
  obtain ⟨hv', hwindow, hpos'⟩ := hv.append hlen hroom.le
  have hlen' : (b.append seg seg.length).nLen = seg.length := by
    have := (hv.toInt32_sum (Int.natCast_nonneg _) hseg).2.2
    show toInt32 (b.nLen + seg.length) = seg.length
    rw [this, hzero, zero_add]
  have hempty : b.window = [] := by
    unfold window
    rw [hzero]
    rfl
  rw [hadd]
  constructor
  · rw [offered_eq_window (hpos'.trans hpos), hwindow, hempty, List.nil_append]
  · have hreset : (b.append seg seg.length).removeData seg.length =
        { b.append seg seg.length with nLen := 0, nPos := 0 } := by
      unfold RecvBuffer.removeData
      rw [hlen']
      simp [toInt32, toUInt32]
    rw [hreset]
    exact ⟨hv'.reset, rfl, rfl, hcap⟩

end RecvBuffer
end SomoNet
