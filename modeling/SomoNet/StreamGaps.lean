import SomoNet.RecvIsolation

/-!
# Discarded bytes

When the buffer has grown to its maximum and a segment finds no room in it, `addData` drops
everything it holds and the segment as well. `on_read` does not hear of it: the connection stays
open, and what arrives next is offered as if nothing were missing.
-/

namespace SomoNet

open Run
open TcpSys (step_case step_keepsStream onRead_link dataReturn_link)

/-! ## The capacity of the buffer -/

namespace RecvBuffer

/-- The buffer grows to what a segment needs. -/
theorem Valid.addData_nCapacity {b : RecvBuffer} (hb : b.Valid) {seg : List Cell}
    (hhi : seg.length ≤ STATIC_BUF_SIZE) (hd : ¬ b.Discards seg.length) :
    (b.addData seg).nCapacity =
      if b.Full seg.length then b.nPos + b.nLen + seg.length else b.nCapacity := by
  have hseg : ((seg.length : ℕ) : ℤ) ≤ STATIC_BUF_SIZE := by exact_mod_cast hhi
  have hsum := (hb.toInt32_sum (Int.natCast_nonneg _) hseg).2.1
  unfold RecvBuffer.addData
  dsimp only
  split_ifs with hf hcap
  · exact absurd ⟨hf, hcap⟩ hd
  · exact hsum
  · rfl

/-- The window grows by the segment. -/
theorem Valid.addData_nLen {b : RecvBuffer} (hb : b.Valid) {seg : List Cell}
    (hhi : seg.length ≤ STATIC_BUF_SIZE) (hd : ¬ b.Discards seg.length) :
    (b.addData seg).nLen = b.nLen + seg.length := by
  obtain ⟨hv, hw, -⟩ := hb.addData hhi hd
  have hlen := congrArg List.length hw
  rw [List.length_append, length_window, length_window] at hlen
  have hnonneg := hv.len_nonneg
  have hnonneg' := hb.len_nonneg
  omega

end RecvBuffer

/-! ## The gaps of a link -/

/-- A link with the connections that `addData` has discarded bytes of, and with what was
received after the last time. -/
structure Gapped where
  sys : TcpSys
  gaps : List HandleId
  since : List UInt8

namespace Gapped

def client (self : LinkPtr) (loop : Loop) : Gapped := ⟨.client self loop, [], []⟩

def accepted (self : LinkPtr) (loop : Loop) : Gapped := ⟨.accepted self loop, [], []⟩

/-- What the event makes of the history. -/
def after (t : Gapped) (s' : TcpSys) : TcpEvent → Gapped
  | .read h seg =>
    if t.sys.link.buf.Discards seg.length then ⟨s', h :: t.gaps, []⟩
    else ⟨s', t.gaps, t.since ++ seg⟩
  | _ => ⟨s', t.gaps, t.since⟩

def step (t : Gapped) (e : TcpEvent) : Option Gapped :=
  if e.IntResult then (t.sys.step e).map fun s' => t.after s' e else none

/-- A segment of a connection with a gap brings the handler no bytes from behind the gap. -/
def NoHole (t : Gapped) : TcpEvent → Gapped → Prop
  | .read h seg, t' => h ∈ t.gaps → ∀ data,
    t'.sys.link.trace = t.sys.link.trace ++ [.received seg, .onData data] →
    ¬(data ≠ [] ∧ data <:+: cells t'.since)
  | _, _ => True

/-- No segment of a connection with a gap reaches a handler, unless it is discarded as well. -/
def Stops (t : Gapped) : TcpEvent → Prop
  | .read h seg => h ∈ t.gaps → t.sys.link.pHandler = true → t.sys.link.buf.Discards seg.length
  | _ => True

/-- The buffer is filled with what was received since it was emptied. -/
def Inv (t : Gapped) : Prop := t.sys.link.buf.Holds (cells t.since)

theorem step_some {t t' : Gapped} {e : TcpEvent} (h : t.step e = some t') :
    e.IntResult ∧ ∃ s', t.sys.step e = some s' ∧ t' = t.after s' e := by
  obtain ⟨hint, hmap⟩ := Option.ite_none_right_eq_some.mp h
  obtain ⟨s', hs', rfl⟩ := Option.map_eq_some_iff.mp hmap
  exact ⟨hint, s', hs', rfl⟩

theorem step_of_sys {t : Gapped} {s' : TcpSys} {e : TcpEvent} (hint : e.IntResult)
    (h : t.sys.step e = some s') : t.step e = some (t.after s' e) := by
  unfold step
  rw [if_pos hint, h]
  rfl

@[simp] theorem after_sys (t : Gapped) (s' : TcpSys) (e : TcpEvent) : (t.after s' e).sys = s' := by
  unfold after
  split
  · split
    · rfl
    · rfl
  · rfl

theorem inv_client (self : LinkPtr) (loop : Loop) : (client self loop).Inv := RecvBuffer.holds_new

theorem inv_accepted (self : LinkPtr) (loop : Loop) : (accepted self loop).Inv :=
  RecvBuffer.holds_new

/-- **One read**: what it leaves in the buffer, with or without a discard. -/
theorem holds_read {t : Gapped} (ht : t.Inv) {h : HandleId} {seg : List UInt8}
    (hlen : seg.length ≤ STATIC_BUF_SIZE) (s' : TcpSys) :
    (t.sys.link.buf.addData (cells seg)).Holds (cells (t.after s' (.read h seg)).since) := by
  have hcells : (cells seg).length = seg.length := List.length_map _
  unfold after
  dsimp only
  by_cases hd : t.sys.link.buf.Discards seg.length
  · rw [if_pos hd]
    rw [← hcells] at hd
    exact ht.addData_discards hd _
  · rw [if_neg hd]
    rw [← hcells] at hd
    have hadd := ht.addData (hcells.trans_le hlen) hd
    rwa [← List.map_append] at hadd

theorem inv_step : Invariant step Inv := by
  intro t e t' ht h
  obtain ⟨hint, s', hs', rfl⟩ := step_some h
  unfold Inv at ht ⊢
  by_cases hread : ∃ g seg, e = .read g seg
  · obtain ⟨g, seg, rfl⟩ := hread
    cases step_case hs' with
    | read hidle hreads hne hlen =>
      have hholds := holds_read (h := g) ht hlen (t.sys.onRead seg)
      rw [after_sys, onRead_link t.sys hlen]
      exact hholds
  have hsame : t.after s' e = ⟨s', t.gaps, t.since⟩ := by
    cases e with
    | read g seg => exact absurd ⟨g, seg, rfl⟩ hread
    | _ => rfl
  rw [hsame]
  -- the handler consumes from the front
  by_cases hret : ∃ c, e = .dataReturn c
  · obtain ⟨c, rfl⟩ := hret
    cases step_case hs' with
    | dataReturn _ hframe =>
      rw [dataReturn_link]
      dsimp only
      split
      next hpos => exact ht.removeData hpos.le hint.2
      next => exact ht
  · obtain ⟨hbuf, -⟩ := step_keepsStream hs' (fun g seg he => hread ⟨g, seg, he⟩)
      fun c he => hret ⟨c, he⟩
    rw [hbuf]
    exact ht

/-- **One step**: a segment of a connection with a gap is kept from the handler only by the
conditions of `Stops`. -/
theorem noHole_step {t t' : Gapped} {e : TcpEvent} (ht : t.Inv) (h : t.step e = some t') :
    t.NoHole e t' ↔ t.Stops e := by
  obtain ⟨-, s', hs', rfl⟩ := step_some h
  cases e with
  | read g seg =>
    cases step_case hs' with
    | read hidle hreads hne hlen =>
      have hcells : (cells seg).length = seg.length := List.length_map _
      have hholds := holds_read (h := g) ht hlen (t.sys.onRead seg)
      have htrace : (t.after (t.sys.onRead seg) (.read g seg)).sys.link.trace =
          t.sys.link.trace ++ .received seg ::
            (if t.sys.link.pHandler then [.onData (t.sys.link.buf.addData (cells seg)).offered]
            else []) := by
        rw [after_sys, onRead_link t.sys hlen]
      constructor
      · -- bytes of the segment would be offered
        intro hno hg hh
        by_contra hd
        rw [if_pos hh] at htrace
        refine hno hg _ htrace ⟨?_, hholds.offered_infix⟩
        -- the segment itself is in the window
        rw [← hcells] at hd
        have hnLen := ht.valid.addData_nLen (hcells.trans_le hlen) hd
        have hpos := List.length_pos_of_ne_nil hne
        have hnonneg := ht.valid.len_nonneg
        rw [hcells] at hnLen
        apply List.ne_nil_of_length_pos
        unfold RecvBuffer.offered
        rw [Block.length_read, hnLen]
        omega
      · rintro hstops hg data hcall ⟨hne', hinfix⟩
        rw [htrace] at hcall
        by_cases hh : t.sys.link.pHandler = true
        · -- the segment was discarded: nothing has been received since
          have hsince : (t.after (t.sys.onRead seg) (.read g seg)).since = [] := by
            unfold after
            dsimp only
            rw [if_pos (hstops hg hh)]
          rw [hsince] at hinfix
          exact hne' (List.infix_nil.mp hinfix)
        · rw [if_neg hh] at hcall
          simp at hcall
  | _ => exact ⟨fun _ => trivial, fun _ => trivial⟩

/-- **Gaps.** After `addData` has discarded bytes of a connection the handler is given nothing
that arrived on it later, in a run of a client or an accepted link, if and only if every
segment meets `Stops`. -/
theorem no_hole_iff {self : LinkPtr} {loop : Loop} {t : Gapped}
    (ht : t = client self loop ∨ t = accepted self loop) (es : List TcpEvent) :
    EachMove step NoHole t es ↔ EachStep step Stops t es := by
  have hstart : t.Inv := by
    rcases ht with rfl | rfl
    · exact inv_client self loop
    · exact inv_accepted self loop
  exact eachMove_iff_eachStep (R := NoHole) inv_step (fun t e t' hinv h => noHole_step hinv h)
    hstart es

instance (t : Gapped) : ∀ e, Decidable (t.Stops e)
  | .read h seg => inferInstanceAs (Decidable (h ∈ t.gaps → _ → t.sys.link.buf.Discards seg.length))
  | .setHandler _ | .connect _ _ _ | .send _ _ | .close | .connectDone _ _ _ | .connectedReturn _
  | .readAgain _ | .readError _ | .dataReturn _ | .closeReturn | .writeDone _ _ | .tick _ =>
    isTrue trivial

/-! ## A gap -/

/-- Sixteen segments arrive on an accepted link before its handler is set, and one byte more. The
handler is set, and another byte arrives. -/
def gapRun (seg : List UInt8) : List TcpEvent :=
  List.replicate 16 (.read 0 seg) ++ [.read 0 [7], .setHandler true, .read 0 [1]]

/-- An accepted link without a handler after `n` segments of 64 KiB. -/
structure Unread (t : Gapped) (n : ℕ) : Prop where
  valid : t.sys.link.buf.Valid
  nPos : t.sys.link.buf.nPos = 0
  nLen : t.sys.link.buf.nLen = 65536 * (n : ℤ)
  nCapacity : t.sys.link.buf.nCapacity = max 262144 (65536 * (n : ℤ))
  pHandler : t.sys.link.pHandler = false
  idle : t.sys.link.frame = .idle
  reads : t.sys.Reads 0

theorem unread_accepted : Unread (accepted 0 Loop.new) 0 where
  valid := RecvBuffer.valid_new
  nPos := rfl
  nLen := rfl
  nCapacity := rfl
  pHandler := rfl
  idle := rfl
  reads := by decide

theorem reads_onRead {s : TcpSys} {h : HandleId} (hs : s.Reads h) {seg : List UInt8}
    (hlen : seg.length ≤ STATIC_BUF_SIZE) : (s.onRead seg).Reads h := by
  unfold TcpSys.Reads Loop.isReading at hs ⊢
  rw [TcpSys.onRead_loop, onRead_link s hlen]
  exact hs

/-- The buffer is as large as it was at first, or just large enough. -/
theorem nCapacity_next (n : ℤ) :
    (if max 262144 (65536 * n) ≤ 65536 * n + 65536 then 65536 * n + 65536
      else max 262144 (65536 * n)) = max 262144 (65536 * (n + 1)) := by
  split <;> omega

section

variable {seg : List UInt8} (hseg : seg.length = 65536)
include hseg

/-- **One more segment**, up to the sixteenth: it is kept. -/
theorem Unread.next {t : Gapped} {n : ℕ} (ht : Unread t n) (hn : n < 16) :
    ∃ t', t.step (.read 0 seg) = some t' ∧ Unread t' (n + 1) := by
  have hlen : seg.length ≤ STATIC_BUF_SIZE := hseg.le
  have hlen' : (cells seg).length ≤ STATIC_BUF_SIZE := by rw [List.length_map]; exact hlen
  have hcells : ((cells seg).length : ℤ) = 65536 := by rw [List.length_map, hseg]; rfl
  have hne : seg ≠ [] := List.ne_nil_of_length_pos (by omega)
  -- the buffer is full exactly at its capacity, and below the maximum
  have hfull : t.sys.link.buf.Full 65536 ↔ _ := ht.valid.full_iff (by decide) (by decide)
  rw [ht.nPos, ht.nLen, ht.nCapacity, zero_add] at hfull
  have hd : ¬ t.sys.link.buf.Discards (cells seg).length := by
    intro hd
    have hcap := hd.2
    rw [ht.nCapacity, TCP_LINK_BUFFER_MAX] at hcap
    omega
  obtain ⟨hv, -, hpos⟩ := ht.valid.addData hlen' hd
  have hnLen := ht.valid.addData_nLen hlen' hd
  have hcap := ht.valid.addData_nCapacity hlen' hd
  have hlink := onRead_link t.sys hlen
  rw [hcells] at hd hpos hnLen hcap
  have hsys : t.sys.step (.read 0 seg) = some (t.sys.onRead seg) :=
    if_pos ⟨ht.idle, ht.reads, hne, hlen⟩
  refine ⟨t.after (t.sys.onRead seg) (.read 0 seg), step_of_sys trivial hsys, ?_⟩
  · have hafter := t.after_sys (t.sys.onRead seg) (.read 0 seg)
    have hhandler := ht.pHandler
    constructor
    · rw [hafter, hlink]
      exact hv
    · rw [hafter, hlink]
      show (t.sys.link.buf.addData (cells seg)).nPos = 0
      rw [hpos, ht.nPos, ite_self]
    · rw [hafter, hlink]
      show (t.sys.link.buf.addData (cells seg)).nLen = _
      rw [hnLen, ht.nLen]
      push_cast
      ring
    · rw [hafter, hlink]
      show (t.sys.link.buf.addData (cells seg)).nCapacity = _
      rw [hcap, ht.nPos, ht.nLen, ht.nCapacity, if_congr hfull rfl rfl, zero_add, Nat.cast_succ]
      exact nCapacity_next n
    · rw [hafter, hlink]
      exact hhandler
    · rw [hafter, hlink, hhandler]
      exact ht.idle
    · rw [hafter]
      exact reads_onRead ht.reads hlen

theorem unread_exec {t : Gapped} (ht : Unread t 0) {n : ℕ} (hn : n ≤ 16) :
    ∃ t', exec step t (List.replicate n (.read 0 seg)) = some t' ∧ Unread t' n := by
  induction n with
  | zero => exact ⟨t, rfl, ht⟩
  | succ n ih =>
    obtain ⟨u, hu, hunread⟩ := ih (by omega)
    obtain ⟨t', ht', hnext⟩ := hunread.next hseg (by omega)
    refine ⟨t', ?_, hnext⟩
    rw [List.replicate_succ', exec_append, hu, Option.bind_some, exec_cons, ht']
    rfl

end

/-- **Full**: after sixteen segments another byte makes `addData` drop everything. -/
theorem Unread.discards {t : Gapped} (ht : Unread t 16) :
    t.step (.read 0 [7]) = some ⟨t.sys.onRead [7], 0 :: t.gaps, []⟩ ∧
      (t.sys.onRead [7]).link.buf = { t.sys.link.buf with nLen := 0, nPos := 0 } := by
  have hfull : t.sys.link.buf.Full 1 := by
    rw [ht.valid.full_iff (by decide) (by decide), ht.nPos, ht.nLen, ht.nCapacity]
    decide
  have hmax : t.sys.link.buf.nCapacity ≥ TCP_LINK_BUFFER_MAX := by
    rw [ht.nCapacity]
    decide
  have hsys : t.sys.step (.read 0 [7]) = some (t.sys.onRead [7]) :=
    if_pos ⟨ht.idle, ht.reads, by decide, by decide⟩
  constructor
  · have hint : (TcpEvent.read 0 [7]).IntResult := trivial
    rw [step_of_sys hint hsys]
    exact congrArg some (if_pos ⟨hfull, hmax⟩)
  · rw [onRead_link t.sys (by decide)]
    show t.sys.link.buf.addData (cells [7]) = _
    unfold RecvBuffer.addData
    exact (if_pos hfull).trans (if_pos hmax)

/-- The link goes on without a handler. -/
theorem Unread.idle_onRead {t : Gapped} (ht : Unread t 16) :
    (t.sys.onRead [7]).link.frame = .idle ∧ (t.sys.onRead [7]).Reads 0 := by
  constructor
  · rw [onRead_link t.sys (by decide), ht.pHandler]
    exact ht.idle
  · exact reads_onRead ht.reads (by decide)

/-! ### A gap before the handler is set -/

/-- The same segments, one that is kept behind the gap, a handler, and the end of the connection. -/
def stoppedRun (seg : List UInt8) : List TcpEvent :=
  List.replicate 16 (.read 0 seg) ++ [.read 0 [7], .read 0 [1], .setHandler true, .close]

/-- Without a handler segments reach none. -/
theorem eachStep_stops {t : Gapped} (hhandler : t.sys.link.pHandler = false)
    {segs : List (List UInt8)} {es : List TcpEvent} (hes : ∀ t', EachStep step Stops t' es) :
    EachStep step Stops t (segs.map (.read 0) ++ es) := by
  induction segs generalizing t with
  | nil => exact hes t
  | cons seg segs ih =>
    intro t' ht'
    constructor
    · intro _ hset
      rw [hhandler] at hset
      cases hset
    · apply ih
      -- a segment does not set a handler
      obtain ⟨-, s', hs', rfl⟩ := step_some ht'
      cases step_case hs' with
      | read hidle hreads hne hlen =>
        rw [after_sys, onRead_link t.sys hlen]
        exact hhandler

/-- What has been discarded stays discarded. -/
theorem mem_gaps_after {t : Gapped} {h : HandleId} (hmem : h ∈ t.gaps) (s' : TcpSys)
    (e : TcpEvent) : h ∈ (t.after s' e).gaps := by
  unfold after
  split
  · split
    · exact List.mem_cons_of_mem _ hmem
    · exact hmem
  · exact hmem

theorem exec_setHandler_close (t : Gapped) :
    ∃ t', exec step t [.setHandler true, .close] = some t' ∧ t'.gaps = t.gaps := ⟨_, rfl, rfl⟩

/-- The run has a gap. -/
theorem exec_stoppedRun {seg : List UInt8} (hseg : seg.length = 65536) :
    ∃ t, exec step (accepted 0 Loop.new) (stoppedRun seg) = some t ∧ 0 ∈ t.gaps := by
  obtain ⟨t, hexec, ht⟩ := unread_exec hseg unread_accepted (le_refl 16)
  obtain ⟨hdiscard, -⟩ := ht.discards
  obtain ⟨hidle, hreads⟩ := ht.idle_onRead
  -- the next byte is kept or discarded as well: the gap stays
  let t₁ : Gapped := ⟨t.sys.onRead [7], 0 :: t.gaps, []⟩
  have hsys : t₁.sys.step (.read 0 [1]) = some (t₁.sys.onRead [1]) :=
    if_pos ⟨hidle, hreads, by decide, by decide⟩
  have hint : (TcpEvent.read 0 [1]).IntResult := trivial
  have ht₂ := step_of_sys (t := t₁) hint hsys
  have hgap := mem_gaps_after (t := t₁) List.mem_cons_self (t₁.sys.onRead [1]) (.read 0 [1])
  obtain ⟨t', hend, hgaps⟩ := exec_setHandler_close (t₁.after (t₁.sys.onRead [1]) (.read 0 [1]))
  refine ⟨t', ?_, hgaps ▸ hgap⟩
  unfold stoppedRun
  rw [exec_append, hexec, Option.bind_some, exec_cons, hdiscard, Option.bind_some, exec_cons, ht₂]
  exact hend

theorem no_hole_stoppedRun :
    EachMove step NoHole (accepted 0 Loop.new) (stoppedRun (List.replicate 65536 0)) ∧
      ∃ t, exec step (accepted 0 Loop.new) (stoppedRun (List.replicate 65536 0)) = some t ∧
        0 ∈ t.gaps := by
  refine ⟨(no_hole_iff (Or.inr rfl) _).mpr ?_, exec_stoppedRun List.length_replicate⟩
  have hsegs : stoppedRun (List.replicate 65536 0) =
      (List.replicate 16 (List.replicate 65536 (0 : UInt8)) ++ [[7], [1]]).map (.read 0) ++
        [.setHandler true, .close] := by
    unfold stoppedRun
    rw [List.map_append, List.map_replicate, List.append_assoc]
    rfl
  rw [hsegs]
  exact eachStep_stops rfl fun _ _ _ => ⟨trivial, fun _ _ => ⟨trivial, trivial⟩⟩

/-- The last byte is delivered although the one before it was discarded. -/
theorem hole_gapRun {seg : List UInt8} (hseg : seg.length = 65536) :
    ¬ EachMove step NoHole (accepted 0 Loop.new) (gapRun seg) := by
  intro hmoves
  obtain ⟨t, hexec, ht⟩ := unread_exec hseg unread_accepted (le_refl 16)
  obtain ⟨hdiscard, hbuf⟩ := ht.discards
  have hinv : t.Inv := inv_step.exec (inv_accepted 0 Loop.new) hexec
  -- the connection has a gap, the handler is set, and the buffer is empty
  let t₁ : Gapped := ⟨t.sys.onRead [7], 0 :: t.gaps, []⟩
  let t₂ : Gapped :=
    ⟨{ t₁.sys with link := { t₁.sys.link with pHandler := true } }, 0 :: t.gaps, []⟩
  have hset : t₁.step (.setHandler true) = some t₂ := rfl
  have hinv₁ : t₁.Inv := inv_step t _ _ hinv hdiscard
  have hinv₂ : t₂.Inv := inv_step t₁ _ _ hinv₁ hset
  obtain ⟨hidle, hreads⟩ := ht.idle_onRead
  have hsys : t₂.sys.step (.read 0 [1]) = some (t₂.sys.onRead [1]) :=
    if_pos ⟨hidle, hreads, by decide, by decide⟩
  have hint : (TcpEvent.read 0 [1]).IntResult := trivial
  have ht₃ := step_of_sys (t := t₂) hint hsys
  have hno : t₂.NoHole (.read 0 [1]) (t₂.after (t₂.sys.onRead [1]) (.read 0 [1])) :=
    ((((hmoves.of_append hexec) t₁ hdiscard).2 t₂ hset).2 _ ht₃).1
  have hd := (noHole_step hinv₂ ht₃).mp hno List.mem_cons_self rfl
  have hcap : t₂.sys.link.buf.nPos = 0 ∧ t₂.sys.link.buf.nLen = 0 ∧
      t₂.sys.link.buf.nCapacity = 1048576 := by
    show (t.sys.onRead [7]).link.buf.nPos = 0 ∧ (t.sys.onRead [7]).link.buf.nLen = 0 ∧
      (t.sys.onRead [7]).link.buf.nCapacity = 1048576
    rw [hbuf]
    exact ⟨rfl, rfl, ht.nCapacity.trans (by decide)⟩
  have hroom := (hinv₂.valid.full_iff (by decide) (by decide)).mp hd.1
  rw [hcap.1, hcap.2.1, hcap.2.2] at hroom
  revert hroom
  decide

theorem not_no_hole_gapRun :
    ¬ EachMove step NoHole (accepted 0 Loop.new) (gapRun (List.replicate 65536 0)) :=
  hole_gapRun List.length_replicate

end Gapped
end SomoNet
