import SomoNet.TcpLinkSpec

/-!
# What the handler is given

The bytes of a connection reach the handler through `m_pBuffer`: `addData` puts them
behind the live window, `on_data` is called with `m_pBuffer` and the window's length,
`removeData` takes what the handler consumed. Read as a stream, each call should offer
exactly the bytes received so far less those consumed (`StreamOk`).

The window itself always is that stream. The handler, however, is given the start of
the buffer rather than the start of the window, so it sees the stream exactly as long as
the two coincide: whenever a segment arrives, the window starts the buffer or the
segment makes `addData` reallocate (`WindowAtStart`).
-/

namespace SomoNet

open Run

/-! ## The stream of a trace -/

/-- The bytes received. -/
def received : List Obs → List UInt8
  | [] => []
  | .received seg :: t => seg ++ received t
  | _ :: t => received t

/-- The number of bytes the handler reported as consumed. -/
def consumed : List Obs → ℕ
  | [] => 0
  | .handled c :: t => c.toNat + consumed t
  | _ :: t => consumed t

/-- Every `on_data` offers the bytes received so far less the prefix consumed so far,
where `recv` were received and `used` of them consumed before. -/
def StreamOk (recv : List UInt8) (used : ℕ) : List Obs → Prop
  | [] => True
  | .received seg :: t => StreamOk (recv ++ seg) used t
  | .handled c :: t => StreamOk recv (used + c.toNat) t
  | .onData data :: t => data = cells (recv.drop used) ∧ StreamOk recv used t
  | _ :: t => StreamOk recv used t

instance decidableStreamOk : ∀ recv used t, Decidable (StreamOk recv used t)
  | _, _, [] => isTrue trivial
  | recv, used, .received seg :: t => decidableStreamOk (recv ++ seg) used t
  | recv, used, .handled c :: t => decidableStreamOk recv (used + c.toNat) t
  | recv, used, .onData data :: t =>
    have := decidableStreamOk recv used t
    inferInstanceAs (Decidable (data = cells (recv.drop used) ∧ StreamOk recv used t))
  | recv, used, .tcpConnect _ _ :: t => decidableStreamOk recv used t
  | recv, used, .write _ _ :: t => decidableStreamOk recv used t
  | recv, used, .uvClose _ :: t => decidableStreamOk recv used t
  | recv, used, .readStart _ _ :: t => decidableStreamOk recv used t
  | recv, used, .timerStart :: t => decidableStreamOk recv used t
  | recv, used, .timerStop :: t => decidableStreamOk recv used t
  | recv, used, .onConnected :: t => decidableStreamOk recv used t
  | recv, used, .onClose :: t => decidableStreamOk recv used t

/-- The observations the stream is made of. -/
def Obs.isStream : Obs → Bool
  | .received _ => true
  | .onData _ => true
  | .handled _ => true
  | _ => false

/-- What the handler is given. -/
def Obs.given : Obs → Option (List Cell)
  | .onData data => some data
  | _ => none

theorem received_append (t t' : List Obs) : received (t ++ t') = received t ++ received t' := by
  induction t with
  | nil => rfl
  | cons o t ih => cases o <;> simp [received, ih]

theorem consumed_append (t t' : List Obs) : consumed (t ++ t') = consumed t + consumed t' := by
  induction t with
  | nil => simp [consumed]
  | cons o t ih => cases o <;> simp [consumed, ih, Nat.add_assoc]

theorem streamOk_append (t t' : List Obs) (recv : List UInt8) (used : ℕ) :
    StreamOk recv used (t ++ t') ↔
      StreamOk recv used t ∧ StreamOk (recv ++ received t) (used + consumed t) t' := by
  induction t generalizing recv used with
  | nil => simp [StreamOk, received, consumed]
  | cons o t ih =>
    cases o <;> simp [StreamOk, received, consumed, ih, Nat.add_assoc, and_assoc]

/-- Observations about the connection do not concern the stream. -/
theorem stream_of_not_isStream {os : List Obs} (h : ∀ o ∈ os, o.isStream = false) :
    received os = [] ∧ consumed os = 0 ∧ ∀ recv used, StreamOk recv used os := by
  induction os with
  | nil => exact ⟨rfl, rfl, fun _ _ => trivial⟩
  | cons o os ih =>
    obtain ⟨hr, hc, hs⟩ := ih fun o' ho' => h o' (List.mem_cons_of_mem _ ho')
    have ho := h o List.mem_cons_self
    cases o <;> simp [Obs.isStream, received, consumed, StreamOk, hr, hc, hs] at ho ⊢

/-! ## Steps that leave the stream alone -/

/-- The receive buffer is untouched and nothing about the stream was observed. -/
def KeepsStream (l l' : TcpLink) : Prop :=
  l'.buf = l.buf ∧ ∃ os, l'.trace = l.trace ++ os ∧ ∀ o ∈ os, o.isStream = false

theorem KeepsStream.refl (l : TcpLink) : KeepsStream l l :=
  ⟨rfl, [], by simp, by simp⟩

theorem KeepsStream.trans {l l' l'' : TcpLink} (h : KeepsStream l l') (h' : KeepsStream l' l'') :
    KeepsStream l l'' := by
  obtain ⟨hb, os, ht, hos⟩ := h
  obtain ⟨hb', os', ht', hos'⟩ := h'
  refine ⟨hb'.trans hb, os ++ os', by rw [ht', ht, List.append_assoc], fun o ho => ?_⟩
  exact (List.mem_append.mp ho).elim (hos o) (hos' o)

namespace TcpSys

theorem keepsStream_connect (s : TcpSys) (ip : String) (port : UInt16) (r : ℤ) :
    KeepsStream s.link (s.connect ip port r).1.link := by
  rw [connect_link]
  refine ⟨rfl, .tcpConnect s.loop.nextHandle r :: (if r = 0 then [.timerStart] else []), ?_, ?_⟩
  · simp
  · split <;> simp [Obs.isStream]

theorem keepsStream_send (s : TcpSys) (data : List UInt8) (r : ℤ) :
    KeepsStream s.link (s.send data r).1.link := by
  have h := s.send_outcome data r
  generalize s.send data r = res at h ⊢
  rcases h with _ | _ | _ | _
  · exact .refl _
  · exact .refl _
  · exact .refl _
  · exact ⟨rfl, [.write _ _], rfl, by simp [Obs.isStream]⟩

theorem keepsStream_shut (s : TcpSys) : KeepsStream s.link s.shut.link := by
  rw [shut_link]
  refine ⟨rfl, s.link.pTcp.toList.map .uvClose ++ [.timerStop], by simp, ?_⟩
  cases s.link.pTcp <;> simp [Obs.isStream]

theorem keepsStream_connectedTail (s : TcpSys) (r : ℤ) :
    KeepsStream s.link (s.connectedTail r).link := by
  rw [connectedTail_link]
  exact ⟨rfl, [.timerStop, .readStart s.link.pTcp r], by simp, by simp [Obs.isStream]⟩

theorem keepsStream_onConnect (s : TcpSys) (q : ReqId) (status r : ℤ) :
    KeepsStream s.link (s.onConnect q status r).link := by
  unfold onConnect
  dsimp only
  split_ifs
  · exact ⟨rfl, [], by simp, by simp⟩
  · exact ⟨rfl, [.onConnected], rfl, by simp [Obs.isStream]⟩
  · exact KeepsStream.trans ⟨rfl, [], by simp, by simp⟩ (keepsStream_connectedTail _ r)

theorem keepsStream_onReadError (s : TcpSys) (h : HandleId) :
    KeepsStream s.link (s.onReadError h).link := by
  unfold onReadError closeError
  dsimp only
  split_ifs
  · exact ⟨rfl, [.timerStart], rfl, by simp [Obs.isStream]⟩
  · exact ⟨rfl, [.onClose], rfl, by simp [Obs.isStream]⟩
  · exact keepsStream_shut _

theorem keepsStream_onWrite (s : TcpSys) (q : ReqId) (mem : MemPtr) (status : ℤ) :
    KeepsStream s.link (s.onWrite q mem status).link := by
  unfold onWrite
  dsimp only
  split_ifs
  · exact (keepsStream_shut { s with loop := { s.loop.finish q with pool := s.loop.pool.free mem } }).trans
      ⟨rfl, [.timerStart], rfl, by simp [Obs.isStream]⟩
  · exact keepsStream_shut { s with loop := { s.loop.finish q with pool := s.loop.pool.free mem } }
  · exact .refl _

theorem keepsStream_onTimer (s : TcpSys) (r : ℤ) : KeepsStream s.link (s.onTimer r).link := by
  unfold onTimer
  split_ifs
  · exact keepsStream_connect s _ _ r
  · exact .refl _

/-- Only a read and the handler's answer to it move the stream. -/
theorem step_keepsStream {s s' : TcpSys} {e : TcpEvent} (h : s.step e = some s')
    (hread : ∀ g seg, e ≠ .read g seg) (hret : ∀ c, e ≠ .dataReturn c) :
    KeepsStream s.link s'.link := by
  cases step_case h with
  | setHandler handler => exact ⟨rfl, [], by simp, by simp⟩
  | connect ip port r =>
    exact keepsStream_connect { s with link := { s.link with asked := true } } ip port r
  | send data r => exact keepsStream_send s data r
  | close => exact keepsStream_shut { s with link := { s.link with asked := false } }
  | connectDone r hreq => exact keepsStream_onConnect s _ _ r
  | connectedReturn r =>
    exact KeepsStream.trans ⟨rfl, [], by simp, by simp⟩ (keepsStream_connectedTail _ r)
  | read => exact absurd rfl (hread _ _)
  | readAgain => exact .refl _
  | readError => exact keepsStream_onReadError s _
  | dataReturn c => exact absurd rfl (hret c)
  | closeReturn => exact KeepsStream.trans ⟨rfl, [], by simp, by simp⟩ (keepsStream_shut _)
  | writeDone hreq => exact keepsStream_onWrite s _ _ _
  | tick r => exact keepsStream_onTimer s r

end TcpSys

/-! ## The window is the stream -/

/-- What holds of a link between any two steps, while `addData` discards nothing and the
handler consumes no more than it is offered. -/
structure StreamInv (l : TcpLink) : Prop where
  valid : l.buf.Valid
  window : l.buf.window = cells ((received l.trace).drop (consumed l.trace))
  consumed_le : consumed l.trace ≤ (received l.trace).length

theorem StreamInv.of_keepsStream {l l' : TcpLink} (h : StreamInv l) (hk : KeepsStream l l') :
    StreamInv l' := by
  obtain ⟨hb, os, ht, hos⟩ := hk
  obtain ⟨hr, hc, -⟩ := stream_of_not_isStream hos
  refine ⟨hb ▸ h.valid, ?_, ?_⟩
  · rw [hb, ht, received_append, consumed_append, hr, hc, List.append_nil, Nat.add_zero]
    exact h.window
  · rw [ht, received_append, consumed_append, hr, hc, List.append_nil, Nat.add_zero]
    exact h.consumed_le

namespace TcpSys

theorem streamInv_client (self : LinkPtr) (loop : Loop) : StreamInv (client self loop).link where
  valid := RecvBuffer.valid_new
  window := rfl
  consumed_le := le_rfl

theorem streamInv_accepted (self : LinkPtr) (loop : Loop) :
    StreamInv (accepted self loop).link where
  valid := RecvBuffer.valid_new
  window := rfl
  consumed_le := le_rfl

/-- `addData` does not take its discarding branch, and the handler's result is between 0
and the length it was offered, which `m_nLen` still is when it returns. -/
def InScope (s : TcpSys) : TcpEvent → Prop
  | .read _ seg => ¬ s.link.buf.Discards seg.length
  | .dataReturn handled_len => 0 ≤ handled_len ∧ handled_len ≤ s.link.buf.nLen
  | _ => True

/-- A segment arrives for the handler while the window starts the buffer, or makes
`addData` move it there. -/
def WindowAtStart (s : TcpSys) : TcpEvent → Prop
  | .read _ seg => s.link.pHandler = true → s.link.buf.nPos = 0 ∨ s.link.buf.Full seg.length
  | _ => True

instance (s : TcpSys) : ∀ e, Decidable (s.InScope e)
  | .read _ seg => inferInstanceAs (Decidable (¬ s.link.buf.Discards seg.length))
  | .dataReturn c => inferInstanceAs (Decidable (0 ≤ c ∧ c ≤ s.link.buf.nLen))
  | .setHandler _ | .connect _ _ _ | .send _ _ | .close | .connectDone _ _ _ | .connectedReturn _
  | .readAgain _ | .readError _ | .closeReturn | .writeDone _ _ | .tick _ => isTrue trivial

instance (s : TcpSys) : ∀ e, Decidable (s.WindowAtStart e)
  | .read _ seg => inferInstanceAs (Decidable (_ → _ ∨ s.link.buf.Full seg.length))
  | .dataReturn _ => isTrue trivial
  | .setHandler _ | .connect _ _ _ | .send _ _ | .close | .connectDone _ _ _ | .connectedReturn _
  | .readAgain _ | .readError _ | .closeReturn | .writeDone _ _ | .tick _ => isTrue trivial

/-- A segment goes to the end of the stream. -/
theorem streamInv_onRead {s : TcpSys} (h : StreamInv s.link) {seg : List UInt8}
    (hlen : seg.length ≤ STATIC_BUF_SIZE) (hd : ¬ s.link.buf.Discards seg.length) :
    StreamInv (s.onRead seg).link ∧
      (s.link.buf.addData (cells seg)).window =
        cells ((received s.link.trace ++ seg).drop (consumed s.link.trace)) := by
  have hcells : (cells seg).length = seg.length := List.length_map _
  have hlen' : (cells seg).length ≤ STATIC_BUF_SIZE := by rw [hcells]; exact hlen
  rw [← hcells] at hd
  obtain ⟨hv, hw, -⟩ := h.valid.addData hlen' hd
  have hwin : (s.link.buf.addData (cells seg)).window =
      cells ((received s.link.trace ++ seg).drop (consumed s.link.trace)) := by
    rw [hw, h.window, List.drop_append_of_le_length h.consumed_le]
    exact (List.map_append).symm
  have hrecv : received (s.onRead seg).link.trace = received s.link.trace ++ seg ∧
      consumed (s.onRead seg).link.trace = consumed s.link.trace := by
    rw [onRead_link s hlen]
    simp only [received_append, consumed_append]
    split <;> simp [received, consumed]
  refine ⟨⟨?_, ?_, ?_⟩, hwin⟩
  · rw [onRead_link s hlen]
    exact hv
  · rw [hrecv.1, hrecv.2, ← hwin, onRead_link s hlen]
  · rw [hrecv.1, hrecv.2, List.length_append]
    exact h.consumed_le.trans (Nat.le_add_right _ _)

/-- What the handler reports as consumed leaves the front of the stream. -/
theorem streamInv_dataReturn {s : TcpSys} (h : StreamInv s.link) {c : ℤ} (hlo : 0 ≤ c)
    (hhi : c ≤ s.link.buf.nLen) : StreamInv (s.dataReturn c).link := by
  have hcons : consumed (s.dataReturn c).link.trace = consumed s.link.trace + c.toNat ∧
      received (s.dataReturn c).link.trace = received s.link.trace := by
    rw [dataReturn_link]
    simp only [received_append, consumed_append]
    simp [received, consumed]
  have hlen : s.link.buf.nLen.toNat = (received s.link.trace).length - consumed s.link.trace := by
    rw [← RecvBuffer.length_window, h.window, cells, List.length_map, List.length_drop]
  have hle := h.consumed_le
  have hroom : consumed s.link.trace + c.toNat ≤ (received s.link.trace).length := by omega
  have hbuf : (s.dataReturn c).link.buf =
      if c > 0 then s.link.buf.removeData c else s.link.buf := by
    rw [dataReturn_link]
  by_cases hc : c > 0
  · obtain ⟨hv, hw⟩ := h.valid.removeData hlo hhi
    rw [if_pos hc] at hbuf
    refine ⟨hbuf ▸ hv, ?_, by rw [hcons.1, hcons.2]; exact hroom⟩
    rw [hbuf, hw, h.window, hcons.1, hcons.2, cells, cells, ← List.map_drop, List.drop_drop]
  · rw [if_neg hc] at hbuf
    have hzero : c.toNat = 0 := by omega
    refine ⟨hbuf ▸ h.valid, ?_, by rw [hcons.1, hcons.2]; exact hroom⟩
    rw [hbuf, h.window, hcons.1, hcons.2, hzero, Nat.add_zero]

/-- **One step.** Inside the scope the window goes on being the stream; where the window
starts the buffer as well, the handler is offered the stream. -/
theorem step_stream {s s' : TcpSys} {e : TcpEvent} (hinv : StreamInv s.link)
    (hok : StreamOk [] 0 s.link.trace) (hscope : s.InScope e) (hstart : s.WindowAtStart e)
    (h : s.step e = some s') : StreamInv s'.link ∧ StreamOk [] 0 s'.link.trace := by
  by_cases hread : ∃ g seg, e = .read g seg
  · obtain ⟨g, seg, rfl⟩ := hread
    cases step_case h with
    | read hidle hreads hne hlen =>
      obtain ⟨hinv', hwin⟩ := streamInv_onRead hinv hlen hscope
      refine ⟨hinv', ?_⟩
      rw [onRead_link s hlen]
      show StreamOk [] 0 (s.link.trace ++ _)
      rw [streamOk_append]
      refine ⟨hok, ?_⟩
      by_cases hh : s.link.pHandler = true
      · -- the callback: what it is offered is the window, and the window is the stream
        have hcells : (cells seg).length = seg.length := List.length_map _
        have hlen' : (cells seg).length ≤ STATIC_BUF_SIZE := by rw [hcells]; exact hlen
        have hd : ¬ s.link.buf.Discards (cells seg).length := by rw [hcells]; exact hscope
        obtain ⟨-, -, hpos⟩ := hinv.valid.addData hlen' hd
        have hzero : (s.link.buf.addData (cells seg)).nPos = 0 := by
          rw [hpos, hcells]
          split_ifs with hfull
          · rfl
          · exact (hstart hh).resolve_right hfull
        rw [if_pos hh]
        refine ⟨?_, trivial⟩
        rw [RecvBuffer.offered_eq_window hzero, hwin, List.nil_append, Nat.zero_add]
      · rw [if_neg hh]
        trivial
  by_cases hret : ∃ c, e = .dataReturn c
  · obtain ⟨c, rfl⟩ := hret
    cases step_case h with
    | dataReturn _ hframe =>
      refine ⟨streamInv_dataReturn hinv hscope.1 hscope.2, ?_⟩
      rw [dataReturn_link]
      show StreamOk [] 0 (s.link.trace ++ _)
      rw [streamOk_append]
      exact ⟨hok, trivial⟩
  -- every other step leaves the stream alone
  have hkeep := step_keepsStream h (fun g seg he => hread ⟨g, seg, he⟩)
    (fun c he => hret ⟨c, he⟩)
  refine ⟨hinv.of_keepsStream hkeep, ?_⟩
  obtain ⟨-, os, ht, hos⟩ := hkeep
  rw [ht, streamOk_append]
  exact ⟨hok, (stream_of_not_isStream hos).2.2 _ _⟩

/-- **Receive stream.** In every run of a link inside the scope in which segments arrive
only while the window starts the buffer (or move it there), every `on_data` is given the
bytes received so far less the prefix consumed so far. -/
theorem onData_stream {self : LinkPtr} {loop : Loop} {s₀ : TcpSys}
    (hs₀ : s₀ = client self loop ∨ s₀ = accepted self loop) (es : List TcpEvent)
    (hscope : EachStep step InScope s₀ es) (hstart : EachStep step WindowAtStart s₀ es) :
    Always step (fun s => StreamOk [] 0 s.link.trace) s₀ es := by
  have hinit : StreamInv s₀.link ∧ StreamOk [] 0 s₀.link.trace := by
    rcases hs₀ with rfl | rfl
    · exact ⟨streamInv_client self loop, trivial⟩
    · exact ⟨streamInv_accepted self loop, trivial⟩
  have hrun := EachStep.always (I := fun _ => True)
    (P := fun s => StreamInv s.link ∧ StreamOk [] 0 s.link.trace)
    (fun _ _ _ _ _ => trivial)
    (fun s e s' _ hP hc h => step_stream hP.1 hP.2 hc.1 hc.2 h) trivial hinit
    (hscope.and hstart)
  exact hrun.mono fun s h => h.2

/-- A connection that receives two segments, both consumed whole. -/
def wholeRun : List TcpEvent :=
  [.setHandler true, .connect "10.0.0.1" 80 0, .connectDone 0 0 0, .connectedReturn 0,
    .read 0 [1, 2, 3], .dataReturn 3, .read 0 [4], .dataReturn 1]

/-- The handler leaves bytes behind, never more than it consumes, so that `removeData` moves them to
the start of the buffer; once it consumes nothing. -/
def compactedRun : List TcpEvent :=
  [.setHandler true, .connect "10.0.0.1" 80 0, .connectDone 0 0 0, .connectedReturn 0,
    .read 0 [1, 2, 3], .dataReturn 2, .read 0 [4], .dataReturn 1, .read 0 [5, 6], .dataReturn 0,
    .read 0 [7], .dataReturn 3]

/-- What the handler is given each time, some of it again, and the byte that is left. -/
theorem onData_stream_compactedRun :
    Always step (fun s => StreamOk [] 0 s.link.trace) (client 0 Loop.new) compactedRun ∧
      ∃ s, exec step (client 0 Loop.new) compactedRun = some s ∧
        s.link.trace.filterMap Obs.given =
          [cells [1, 2, 3], cells [3, 4], cells [4, 5, 6], cells [4, 5, 6, 7]] ∧
        s.link.buf.nLen = 1 :=
  ⟨onData_stream (Or.inl rfl) compactedRun (by decide +kernel) (by decide +kernel),
    _, rfl, by decide +kernel, by decide +kernel⟩

/-- The handler consumes one byte of the first three. -/
def partialRun : List TcpEvent :=
  [.setHandler true, .connect "10.0.0.1" 80 0, .connectDone 0 0 0, .connectedReturn 0,
    .read 0 [1, 2, 3], .dataReturn 1, .read 0 [4]]

/-- The next call offers the consumed byte again and not the one that just arrived. -/
theorem not_onData_stream_partialRun :
    EachStep step InScope (client 0 Loop.new) partialRun ∧
      ¬ Always step (fun s => StreamOk [] 0 s.link.trace) (client 0 Loop.new) partialRun := by
  constructor
  · decide +kernel
  · decide +kernel

end TcpSys
end SomoNet
