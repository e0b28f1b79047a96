import SomoNet.StreamGaps

/-!
# The bounds of the receive buffer

The buffer alone, under any sequence of segments and handler results, with the `memcpy` calls that
`addData` and `removeData` make. What the handler returns is not trusted: it may be negative, zero or
more than the handler was offered.

The second half is about room. `addData` compares the end of the window with the capacity, and the
bytes consumed before the window count.
-/

namespace SomoNet

open Run
open TcpSys (step_case step_keepsStream onRead_link dataReturn_link)

namespace RecvBuffer

/-! ## The calls of `memcpy` -/

/-- The copy of the window into the new buffer. -/
def growCopy (b : RecvBuffer) (len : ℤ) : Memcpy where
  dst := Block.alloc (toInt32 (toInt32 (b.nPos + b.nLen) + len)).toNat
  dstOff := 0
  src := b.pBuffer
  srcOff := b.nPos
  n := b.nLen

/-- The copy of the segment behind the window. -/
def appendCopy (b : RecvBuffer) (data : Block) (len : ℤ) : Memcpy where
  dst := b.pBuffer
  dstOff := b.nPos + b.nLen
  src := data
  srcOff := 0
  n := len

/-- The copy of what is left to the start of the buffer. -/
def shrinkCopy (b : RecvBuffer) (len : ℤ) : Memcpy where
  dst := b.pBuffer
  dstOff := 0
  src := b.pBuffer
  srcOff := toInt32 (b.nPos + len)
  n := toInt32 (b.nLen - len)

/-- The copies that `addData(data, len)` makes. -/
def addDataCopies (b : RecvBuffer) (data : Block) (len : ℤ) : List Memcpy :=
  if b.Full len then
    if b.nCapacity ≥ TCP_LINK_BUFFER_MAX then []
    else [b.growCopy len, (b.grow len).appendCopy data len]
  else [b.appendCopy data len]

/-- The copies that `removeData(len)` makes. -/
def removeDataCopies (b : RecvBuffer) (len : ℤ) : List Memcpy :=
  let nPos := toInt32 (b.nPos + len)
  let nLen := toInt32 (b.nLen - len)
  if nLen < 0 then []
  else if nLen = 0 then []
  else if nPos ≥ nLen then [b.shrinkCopy len]
  else []

/-- What the last of some copies leaves in its destination. -/
def lastResult (copies : List Memcpy) (b : Block) : Block :=
  (copies.getLast?.map Memcpy.result).getD b

theorem removeData_pBuffer (b : RecvBuffer) (len : ℤ) :
    (b.removeData len).pBuffer = lastResult (b.removeDataCopies len) b.pBuffer := by
  unfold removeData removeDataCopies
  dsimp only
  split_ifs
  · rfl
  · rfl
  · rfl
  · rfl

/-- The copies that lead to the buffer after `addData`. -/
theorem Valid.addData_pBuffer {b : RecvBuffer} (hb : b.Valid) (data : Block) {len : ℕ}
    (hhi : len ≤ STATIC_BUF_SIZE) :
    (b.addData (data.read 0 len)).pBuffer = lastResult (b.addDataCopies data len) b.pBuffer := by
  have hlen : ((len : ℕ) : ℤ) ≤ STATIC_BUF_SIZE := by exact_mod_cast hhi
  have hsum := (hb.toInt32_sum (Int.natCast_nonneg len) hlen).1
  unfold RecvBuffer.addData addDataCopies
  dsimp only
  rw [Block.length_read]
  split_ifs with hf hcap
  · rfl
  · -- the new buffer holds the window from its start
    obtain ⟨hv, -, hpos, -⟩ := hb.grow (Int.natCast_nonneg len) hlen (not_le.mp hcap)
    have hsum' := (hv.toInt32_sum (Int.natCast_nonneg len) hlen).1
    simp [RecvBuffer.append, appendCopy, lastResult, Memcpy.result, hsum']
  · simp [RecvBuffer.append, appendCopy, lastResult, Memcpy.result, hsum]

/-! ## Every sequence of segments and results -/

/-- What happens to the buffer of a link: `addData(buf->base, nread)`, or a result of `on_data`. -/
inductive Event
  | segment (base : StaticBuf) (nread : ℕ)
  | handled (handled_len : ℤ)

/-- What `on_read` does with the result of `on_data`. -/
def handled (b : RecvBuffer) (handled_len : ℤ) : RecvBuffer :=
  if handled_len > 0 then b.removeData handled_len else b

/-- One event, `none` if there is no such segment or no such `int`. -/
def step (b : RecvBuffer) : Event → Option RecvBuffer
  | .segment base nread =>
    if 1 ≤ nread ∧ nread ≤ STATIC_BUF_SIZE then some (b.addData (base.1.read 0 nread)) else none
  | .handled handled_len =>
    if -2147483648 ≤ handled_len ∧ handled_len < 2147483648 then some (b.handled handled_len)
    else none

/-- The copies between two blocks that the event makes. -/
def copies (b : RecvBuffer) : Event → List Memcpy
  | .segment base nread => b.addDataCopies base.1 nread
  | .handled _ => []

/-- The copies within the buffer that the event makes. -/
def moves (b : RecvBuffer) : Event → List Memcpy
  | .segment _ _ => []
  | .handled handled_len => if handled_len > 0 then b.removeDataCopies handled_len else []

/-- The event reads and writes inside its blocks, and moves nothing onto itself. -/
def Inside (b : RecvBuffer) (e : Event) (_ : RecvBuffer) : Prop :=
  (∀ m ∈ b.copies e, m.InBounds) ∧ ∀ m ∈ b.moves e, m.InBounds ∧ m.Apart

/-- The buffer after the event is what the last of its copies leaves. -/
def Copied (b : RecvBuffer) (e : Event) (b' : RecvBuffer) : Prop :=
  b'.pBuffer = lastResult (b.copies e ++ b.moves e) b.pBuffer

section

variable {b : RecvBuffer} (hb : b.Valid)
include hb

/-- A discard keeps the buffer within its bounds as well. -/
theorem Valid.segment {data : List Cell} (hhi : data.length ≤ STATIC_BUF_SIZE) :
    (b.addData data).Valid := by
  by_cases hd : b.Discards data.length
  · have hreset : b.addData data = { b with nLen := 0, nPos := 0 } :=
      (if_pos hd.1).trans (if_pos hd.2)
    rw [hreset]
    exact hb.reset
  · exact (hb.addData hhi hd).1

/-- What the handler returns is not trusted: more than there is empties the buffer. -/
theorem Valid.handled {c : ℤ} (hhi : c < 2147483648) : (b.handled c).Valid := by
  unfold RecvBuffer.handled
  split_ifs with hpos
  · by_cases hc : c ≤ b.nLen
    · exact (hb.removeData hpos.le hc).1
    · have hlen : toInt32 (b.nLen - c) = b.nLen - c := by
        have := hb.len_nonneg
        apply toInt32_of_mem
        · omega
        · omega
      have hreset : b.removeData c = { b with nLen := 0, nPos := 0 } := by
        unfold RecvBuffer.removeData
        dsimp only
        rw [hlen, if_pos (by omega)]
      rw [hreset]
      exact hb.reset
  · exact hb

theorem Valid.growCopy_inBounds {len : ℤ} (hlo : 0 ≤ len) (hhi : len ≤ STATIC_BUF_SIZE) :
    (b.growCopy len).InBounds := by
  have hnew := (hb.toInt32_sum hlo hhi).2.1
  obtain ⟨hpos, hlen, hin, -, hsz⟩ := hb
  constructor
  · exact hlen
  · exact le_rfl
  · show 0 + b.nLen ≤ ((toInt32 (toInt32 (b.nPos + b.nLen) + len)).toNat : ℤ)
    rw [hnew]
    omega
  · exact hpos
  · show b.nPos + b.nLen ≤ (b.pBuffer.size : ℤ)
    omega

theorem Valid.appendCopy_inBounds {data : Block} {len : ℤ} (hlo : 0 ≤ len)
    (hroom : b.nPos + b.nLen + len ≤ b.nCapacity) (hdata : len ≤ data.size) :
    (b.appendCopy data len).InBounds := by
  obtain ⟨hpos, hlen, -, -, hsz⟩ := hb
  constructor
  · exact hlo
  · show 0 ≤ b.nPos + b.nLen
    omega
  · show b.nPos + b.nLen + len ≤ (b.pBuffer.size : ℤ)
    omega
  · exact le_rfl
  · show 0 + len ≤ (data.size : ℤ)
    omega

/-- **`addData`** copies inside the old buffer, the new one and the segment's. -/
theorem Valid.addDataCopies_inBounds {data : Block} {len : ℤ} (hlo : 0 ≤ len)
    (hhi : len ≤ STATIC_BUF_SIZE) (hdata : len ≤ data.size) :
    ∀ m ∈ b.addDataCopies data len, m.InBounds := by
  have hfull := hb.full_iff hlo hhi
  intro m hm
  unfold addDataCopies at hm
  split_ifs at hm with hf hcap
  · exact absurd hm List.not_mem_nil
  · obtain ⟨hv, -, hp, hl, hroom⟩ := hb.grow hlo hhi (not_le.mp hcap)
    rcases List.mem_pair.mp hm with rfl | rfl
    · exact hb.growCopy_inBounds hlo hhi
    · -- the new buffer has room for the window and the segment
      apply hv.appendCopy_inBounds hlo ?_ hdata
      rw [hp, hl]
      omega
  · rw [List.mem_singleton.mp hm]
    rw [hfull] at hf
    apply hb.appendCopy_inBounds hlo ?_ hdata
    omega

/-- **`removeData`** moves the rest down only over bytes that have been consumed. -/
theorem Valid.removeDataCopies_inBounds {c : ℤ} (hlo : 0 < c) (hhi : c < 2147483648) :
    ∀ m ∈ b.removeDataCopies c, m.InBounds ∧ m.Apart := by
  obtain ⟨hpos, hlen, hin, hbd, hsz⟩ := hb
  unfold TCP_LINK_BUFFER_MAX STATIC_BUF_SIZE at hbd
  have hlen' : toInt32 (b.nLen - c) = b.nLen - c := toInt32_of_mem (by omega) (by omega)
  intro m hm
  unfold removeDataCopies at hm
  dsimp only at hm
  split_ifs at hm with hneg hzero hshrink
  · exact absurd hm List.not_mem_nil
  · exact absurd hm List.not_mem_nil
  · rw [hlen'] at hneg hshrink
    have hpos' : toInt32 (b.nPos + c) = b.nPos + c := toInt32_of_mem (by omega) (by omega)
    rw [hpos'] at hshrink
    have hm' : m = ⟨b.pBuffer, 0, b.pBuffer, b.nPos + c, b.nLen - c⟩ := by
      rw [List.mem_singleton.mp hm, shrinkCopy, hlen', hpos']
    rw [hm']
    constructor
    · constructor
      · show 0 ≤ b.nLen - c
        omega
      · exact le_rfl
      · show 0 + (b.nLen - c) ≤ (b.pBuffer.size : ℤ)
        omega
      · show 0 ≤ b.nPos + c
        omega
      · show b.nPos + c + (b.nLen - c) ≤ (b.pBuffer.size : ℤ)
        omega
    · show 0 + (b.nLen - c) ≤ b.nPos + c ∨ _
      omega
  · exact absurd hm List.not_mem_nil

end

theorem valid_step : Invariant step Valid := by
  intro b e b' hb h
  cases e with
  | segment base nread =>
    obtain ⟨hlen, hb'⟩ := Option.ite_none_right_eq_some.mp h
    cases hb'
    apply hb.segment
    rw [Block.length_read]
    exact hlen.2
  | handled c =>
    obtain ⟨hint, hb'⟩ := Option.ite_none_right_eq_some.mp h
    cases hb'
    exact hb.handled hint.2

theorem inside_step {b b' : RecvBuffer} {e : Event} (hb : b.Valid) (h : b.step e = some b') :
    b.Inside e b' := by
  cases e with
  | segment base nread =>
    obtain ⟨hlen, -⟩ := Option.ite_none_right_eq_some.mp h
    have hhi : ((nread : ℕ) : ℤ) ≤ STATIC_BUF_SIZE := by exact_mod_cast hlen.2
    have hsize : ((nread : ℕ) : ℤ) ≤ base.1.size := by rw [base.2]; exact hhi
    exact ⟨hb.addDataCopies_inBounds (Int.natCast_nonneg nread) hhi hsize, by simp [moves]⟩
  | handled c =>
    obtain ⟨hint, -⟩ := Option.ite_none_right_eq_some.mp h
    refine ⟨by simp [copies], ?_⟩
    unfold moves
    dsimp only
    split_ifs with hpos
    · exact hb.removeDataCopies_inBounds hpos hint.2
    · simp

theorem copied_step {b b' : RecvBuffer} {e : Event} (hb : b.Valid) (h : b.step e = some b') :
    b.Copied e b' := by
  unfold Copied
  cases e with
  | segment base nread =>
    obtain ⟨hlen, hb'⟩ := Option.ite_none_right_eq_some.mp h
    cases hb'
    rw [moves, List.append_nil]
    -- the segment is read from the static buffer
    exact hb.addData_pBuffer base.1 hlen.2
  | handled c =>
    obtain ⟨hint, hb'⟩ := Option.ite_none_right_eq_some.mp h
    cases hb'
    rw [copies, List.nil_append, moves, RecvBuffer.handled]
    split_ifs with hpos
    · exact b.removeData_pBuffer c
    · rfl

/-- **Bounds.** Whatever arrives and whatever the handler returns, the window stays inside the
buffer, the buffer below its bound, and every `memcpy` inside its blocks; what is moved within the
buffer is not moved onto itself. The copies are those that the buffer is the result of. -/
theorem receive_bounds (es : List Event) :
    Always step Valid new es ∧ EachMove step Inside new es ∧ EachMove step Copied new es :=
  ⟨.of_invariant valid_step (fun _ h => h) valid_new es,
    .of_invariant valid_step (fun _ _ _ hb h => inside_step hb h) valid_new es,
    .of_invariant valid_step (fun _ _ _ hb h => copied_step hb h) valid_new es⟩

end RecvBuffer

/-! ## The buffer of a link -/

namespace TcpSys

/-- A step of a link whose handler returns an `int`. -/
def intStep (s : TcpSys) (e : TcpEvent) : Option TcpSys := if e.IntResult then s.step e else none

theorem intStep_of_step {s s' : TcpSys} {e : TcpEvent} (hint : e.IntResult)
    (h : s.step e = some s') : s.intStep e = some s' := (if_pos hint).trans h

/-- **A link's buffer is a buffer of the sequences above**: a step of the link is one of them, or
does not touch the buffer. -/
theorem buf_step {s s' : TcpSys} {e : TcpEvent} (h : s.intStep e = some s') :
    s'.link.buf = s.link.buf ∨ ∃ e', s.link.buf.step e' = some s'.link.buf := by
  obtain ⟨hint, hs'⟩ := Option.ite_none_right_eq_some.mp h
  by_cases hread : ∃ g seg, e = .read g seg
  · obtain ⟨g, seg, rfl⟩ := hread
    cases step_case hs' with
    | read hidle hreads hne hlen =>
      have hget := StaticBuf.read_receive (onAlloc s.loop) hlen
      have hpos := List.length_pos_of_ne_nil hne
      refine Or.inr ⟨.segment ((onAlloc s.loop).receive seg) seg.length, ?_⟩
      rw [onRead_link s hlen]
      show ite _ _ _ = _
      rw [if_pos ⟨hpos, hlen⟩, hget]
  by_cases hret : ∃ c, e = .dataReturn c
  · obtain ⟨c, rfl⟩ := hret
    cases step_case hs' with
    | dataReturn _ hframe =>
      refine Or.inr ⟨.handled c, ?_⟩
      rw [dataReturn_link]
      exact if_pos hint
  · obtain ⟨hbuf, -⟩ := step_keepsStream hs' (fun g seg he => hread ⟨g, seg, he⟩)
      fun c he => hret ⟨c, he⟩
    exact Or.inl hbuf

theorem buf_valid : Invariant intStep fun s => s.link.buf.Valid := by
  intro s e s' hs h
  rcases buf_step h with hsame | ⟨e', he'⟩
  · rw [hsame]
    exact hs
  · exact RecvBuffer.valid_step _ e' _ hs he'

/-! ## Room for a segment -/

/-- With less than the maximum unconsumed, the segment goes behind what the window held. -/
def Keeps (s : TcpSys) : TcpEvent → TcpSys → Prop
  | .read _ seg, s' => s.link.buf.nLen + seg.length < TCP_LINK_BUFFER_MAX →
    s'.link.buf.window = s.link.buf.window ++ cells seg
  | _, _ => True

/-- The buffer can still grow, or there is room behind the window. -/
def HasRoom (s : TcpSys) : TcpEvent → Prop
  | .read _ seg => s.link.buf.nLen + seg.length < TCP_LINK_BUFFER_MAX →
    s.link.buf.nCapacity < TCP_LINK_BUFFER_MAX ∨
      s.link.buf.nPos + s.link.buf.nLen + seg.length < s.link.buf.nCapacity
  | _ => True

/-- **One segment** is kept exactly when it has room. -/
theorem keeps_step {s s' : TcpSys} {e : TcpEvent} (hs : s.link.buf.Valid)
    (h : s.intStep e = some s') : s.Keeps e s' ↔ s.HasRoom e := by
  obtain ⟨-, hs'⟩ := Option.ite_none_right_eq_some.mp h
  cases e with
  | read g seg =>
    cases step_case hs' with
    | read hidle hreads hne hlen =>
      have hcells : (cells seg).length = seg.length := List.length_map _
      have hhi : ((seg.length : ℕ) : ℤ) ≤ STATIC_BUF_SIZE := by exact_mod_cast hlen
      have hfull := hs.full_iff (Int.natCast_nonneg seg.length) hhi
      apply imp_congr_right
      intro _
      rw [onRead_link s hlen]
      dsimp only
      constructor
      · -- a discard would have emptied the window
        intro hwindow
        by_contra hroom
        obtain ⟨hmax, hend⟩ := not_or.mp hroom
        have hreset : s.link.buf.addData (cells seg) = { s.link.buf with nLen := 0, nPos := 0 } := by
          unfold RecvBuffer.addData
          rw [hcells]
          exact (if_pos (hfull.mpr (not_lt.mp hend))).trans (if_pos (not_lt.mp hmax))
        rw [hreset] at hwindow
        have hnil : s.link.buf.window ++ cells seg = [] := hwindow.symm
        have hseg := (List.append_eq_nil_iff.mp hnil).2
        exact hne (List.map_eq_nil_iff.mp hseg)
      · intro hroom
        -- with room, or with a capacity that may grow, nothing is discarded
        have hd : ¬ s.link.buf.Discards (cells seg).length := by
          rw [hcells]
          intro hd
          have hfull' := hfull.mp hd.1
          have hmax := hd.2
          omega
        exact (hs.addData (hcells.trans_le hlen) hd).2.1
  | _ => exact Iff.rfl

/-- **No needless discard.** In a run of a client or an accepted link every segment that leaves less
than the maximum unconsumed is kept, if and only if each of them meets `HasRoom`: the bytes consumed
in front of the window count until the rest is moved down. -/
theorem keeps_iff_hasRoom {self : LinkPtr} {loop : Loop} {s : TcpSys}
    (hs : s = client self loop ∨ s = accepted self loop) (es : List TcpEvent) :
    EachMove intStep Keeps s es ↔ EachStep intStep HasRoom s es := by
  have hstart : s.link.buf.Valid := by
    rcases hs with rfl | rfl
    · exact RecvBuffer.valid_new
    · exact RecvBuffer.valid_new
  exact eachMove_iff_eachStep (R := Keeps) buf_valid (fun s e s' hv h => keeps_step hv h) hstart es

instance (s : TcpSys) : ∀ e, Decidable (s.HasRoom e)
  | .read _ seg => inferInstanceAs (Decidable (s.link.buf.nLen + seg.length < _ → _ ∨ _))
  | .setHandler _ | .connect _ _ _ | .send _ _ | .close | .connectDone _ _ _ | .connectedReturn _
  | .readAgain _ | .readError _ | .dataReturn _ | .closeReturn | .writeDone _ _ | .tick _ =>
    isTrue trivial

theorem keeps_wholeRun : EachMove intStep Keeps (client 0 Loop.new) wholeRun :=
  (keeps_iff_hasRoom (Or.inl rfl) wholeRun).mpr (by decide +kernel)

end TcpSys

/-! ## Consumed bytes in the way -/

/-- A part of the window is consumed that is too small for the rest to be moved down. -/
theorem RecvBuffer.Valid.removeData_part {b : RecvBuffer} (hb : b.Valid) {c : ℤ} (hlo : 0 ≤ c)
    (hhi : b.nPos + c < b.nLen - c) :
    b.removeData c = { b with nLen := b.nLen - c, nPos := b.nPos + c } := by
  obtain ⟨hpos, hlen, hin, hbd, -⟩ := hb
  unfold TCP_LINK_BUFFER_MAX STATIC_BUF_SIZE at hbd
  have hpos' : toInt32 (b.nPos + c) = b.nPos + c := toInt32_of_mem (by omega) (by omega)
  have hlen' : toInt32 (b.nLen - c) = b.nLen - c := toInt32_of_mem (by omega) (by omega)
  unfold RecvBuffer.removeData
  dsimp only
  rw [hpos', hlen', if_neg (by omega), if_neg (by omega), if_neg (by omega)]

namespace Gapped

/-- The run of a link without the account of its gaps. -/
theorem exec_sys {t t' : Gapped} {es : List TcpEvent} (h : exec step t es = some t') :
    exec TcpSys.intStep t.sys es = some t'.sys := by
  induction es generalizing t with
  | nil =>
    cases h
    rfl
  | cons e es ih =>
    obtain ⟨u, hu, htail⟩ := exec_cons_some.mp h
    obtain ⟨hint, s', hs', rfl⟩ := step_some hu
    have hrest := ih htail
    rw [after_sys] at hrest
    exact exec_cons_some.mpr ⟨s', TcpSys.intStep_of_step hint hs', hrest⟩

end Gapped

namespace TcpSys

/-- A handler that is set after fifteen segments takes two bytes of the million it is offered. Then
one byte arrives. -/
def prefixRun (seg : List UInt8) : List TcpEvent :=
  List.replicate 15 (.read 0 seg) ++ [.setHandler true, .read 0 seg, .dataReturn 2, .read 0 [7]]

/-- The byte is discarded with everything before it, with one byte of room below the maximum. -/
theorem discard_prefixRun {seg : List UInt8} (hseg : seg.length = 65536) :
    ¬ EachMove intStep Keeps (accepted 0 Loop.new) (prefixRun seg) := by
  intro hmoves
  obtain ⟨t, hexec, ht⟩ :=
    Gapped.unread_exec hseg Gapped.unread_accepted (by decide : 15 ≤ 16)
  have hlen : seg.length ≤ STATIC_BUF_SIZE := hseg.le
  have hne : seg ≠ [] := List.ne_nil_of_length_pos (by omega)
  let s₁ : TcpSys := { t.sys with link := { t.sys.link with pHandler := true } }
  let s₂ : TcpSys := s₁.onRead seg
  let s₃ : TcpSys := s₂.dataReturn 2
  -- the buffer after the sixteenth segment, with the handler or without it
  obtain ⟨u, hu, hfull⟩ := ht.next hseg (by decide)
  obtain ⟨-, s', hs', rfl⟩ := Gapped.step_some hu
  have hbuf₂ : s₂.link.buf = (t.after s' (.read 0 seg)).sys.link.buf := by
    cases step_case hs' with
    | read hidle hreads _ _ => rw [Gapped.after_sys, onRead_link t.sys hlen, onRead_link s₁ hlen]
  have hv₂ : s₂.link.buf.Valid := hbuf₂ ▸ hfull.valid
  have hnPos : s₂.link.buf.nPos = 0 := hbuf₂ ▸ hfull.nPos
  have hnLen : s₂.link.buf.nLen = 1048576 := hbuf₂ ▸ hfull.nLen
  have hnCapacity : s₂.link.buf.nCapacity = 1048576 := hbuf₂ ▸ hfull.nCapacity
  have hframe : s₂.link.frame = .inData := by rw [onRead_link s₁ hlen]; rfl
  -- two bytes are consumed, and the rest stays where it is
  have hbuf₃ : s₃.link.buf = { s₂.link.buf with nLen := 1048574, nPos := 2 } := by
    rw [dataReturn_link]
    show s₂.link.buf.removeData 2 = _
    rw [hv₂.removeData_part (by omega) (by omega), hnPos, hnLen]
    rfl
  have hreads₁ : s₁.Reads 0 := ht.reads
  have hreads₂ : s₂.Reads 0 := Gapped.reads_onRead hreads₁ hlen
  have hreads₃ : s₃.Reads 0 := by
    unfold Reads Loop.isReading at hreads₂ ⊢
    rw [dataReturn_loop, dataReturn_link]
    exact hreads₂
  have hidle₃ : s₃.link.frame = .idle := by rw [dataReturn_link]
  have hstep₁ : t.sys.intStep (.setHandler true) = some s₁ := rfl
  have hstep₂ : s₁.intStep (.read 0 seg) = some s₂ :=
    intStep_of_step trivial (if_pos ⟨ht.idle, ht.reads, hne, hlen⟩)
  have hstep₃ : s₂.intStep (.dataReturn 2) = some s₃ := by
    apply intStep_of_step
    · decide
    · unfold TcpSys.step
      exact if_pos hframe
  have hstep₄ : s₃.intStep (.read 0 [7]) = some (s₃.onRead [7]) :=
    intStep_of_step trivial (if_pos ⟨hidle₃, hreads₃, by decide, by decide⟩)
  have hv₃ : s₃.link.buf.Valid := buf_valid s₂ _ s₃ hv₂ hstep₃
  have hlast := ((((hmoves.of_append (Gapped.exec_sys hexec)) s₁ hstep₁).2 s₂ hstep₂).2 s₃ hstep₃).2
  have hroom := (keeps_step hv₃ hstep₄).mp (hlast _ hstep₄).1
  unfold HasRoom at hroom
  rw [hbuf₃] at hroom
  dsimp only at hroom
  rw [hnCapacity] at hroom
  revert hroom
  decide

theorem not_keeps_prefixRun :
    ¬ EachMove intStep Keeps (accepted 0 Loop.new) (prefixRun (List.replicate 65536 0)) :=
  discard_prefixRun List.length_replicate

end TcpSys
end SomoNet
