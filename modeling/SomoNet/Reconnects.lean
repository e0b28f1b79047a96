import SomoNet.RecvIsolation

/-!
# The stream after a reconnect

The receive buffer belongs to the link and not to the connection: neither the loss of a
connection nor a new one empties it. What a handler has left of the old connection's bytes is
offered again in front of the first bytes of the new one.
-/

namespace SomoNet

open Run
open TcpSys (step_case step_keepsStream onRead_link dataReturn_link)

/-- A link with the connection that was established last and what was received on it. -/
structure Streamed where
  sys : TcpSys
  conn : Option HandleId
  stream : List UInt8

namespace Streamed

def client (self : LinkPtr) (loop : Loop) : Streamed := ⟨.client self loop, none, []⟩

/-- What the event makes of the history. -/
def after (t : Streamed) (s' : TcpSys) : TcpEvent → Streamed
  | .connectDone q status _ =>
    match t.sys.loop.reqs q with
    | some (.connect _ h) => if status < 0 then ⟨s', t.conn, t.stream⟩ else ⟨s', some h, []⟩
    | _ => ⟨s', t.conn, t.stream⟩
  | .read h seg => ⟨s', t.conn, if t.conn = some h then t.stream ++ seg else t.stream⟩
  | _ => ⟨s', t.conn, t.stream⟩

def step (t : Streamed) (e : TcpEvent) : Option Streamed :=
  if e.IntResult then (t.sys.step e).map fun s' => t.after s' e else none

/-- Once a connection has been established, `on_data` is given bytes of the last one that was. -/
def OnlyOwn (t : Streamed) : TcpEvent → Streamed → Prop
  | .read _ seg, t' => t'.conn ≠ none → ∀ data,
    t'.sys.link.trace = t.sys.link.trace ++ [.received seg, .onData data] →
    data <:+: cells t'.stream
  | _, _ => True

/-- A connection that is established finds nothing unconsumed in the buffer, and segments
arrive on the connection established last. -/
def StartsEmpty (t : Streamed) : TcpEvent → Prop
  | .connectDone _ status _ => 0 ≤ status → t.sys.link.buf.nLen = 0
  | .read h _ => t.conn = some h
  | _ => True

/-- The buffer is filled with what was received on the connection. -/
def Inv (t : Streamed) : Prop := t.sys.link.buf.Holds (cells t.stream)

theorem step_some {t t' : Streamed} {e : TcpEvent} (h : t.step e = some t') :
    e.IntResult ∧ ∃ s', t.sys.step e = some s' ∧ t' = t.after s' e := by
  obtain ⟨hint, hmap⟩ := Option.ite_none_right_eq_some.mp h
  obtain ⟨s', hs', rfl⟩ := Option.map_eq_some_iff.mp hmap
  exact ⟨hint, s', hs', rfl⟩

@[simp] theorem after_sys (t : Streamed) (s' : TcpSys) (e : TcpEvent) : (t.after s' e).sys = s' := by
  unfold after
  split
  · split
    · split <;> rfl
    · rfl
  · rfl
  · rfl

/-- **One read** on the connection leaves its stream in the buffer. -/
theorem holds_read {t : Streamed} (ht : t.Inv) {h : HandleId} (hconn : t.conn = some h)
    {seg : List UInt8} (hlen : seg.length ≤ STATIC_BUF_SIZE) (s' : TcpSys) :
    (t.sys.link.buf.addData (cells seg)).Holds (cells (t.after s' (.read h seg)).stream) := by
  have hcells : (cells seg).length = seg.length := List.length_map _
  have hstream : (t.after s' (.read h seg)).stream = t.stream ++ seg := if_pos hconn
  rw [hstream]
  by_cases hd : t.sys.link.buf.Discards (cells seg).length
  · exact ht.addData_discards hd _
  · have hadd := ht.addData (hcells.trans_le hlen) hd
    rwa [← List.map_append] at hadd

theorem inv_step {t t' : Streamed} {e : TcpEvent} (ht : t.Inv) (hc : t.StartsEmpty e)
    (h : t.step e = some t') : t'.Inv := by
  obtain ⟨hint, s', hs', rfl⟩ := step_some h
  unfold Inv at ht ⊢
  rw [after_sys]
  -- a read fills the buffer, a return of the handler empties it
  by_cases hread : ∃ g seg, e = .read g seg
  · obtain ⟨g, seg, rfl⟩ := hread
    cases step_case hs' with
    | read hidle hreads hne hlen =>
      have hholds := holds_read ht hc hlen (t.sys.onRead seg)
      rw [onRead_link t.sys hlen]
      exact hholds
  by_cases hret : ∃ c, e = .dataReturn c
  · obtain ⟨c, rfl⟩ := hret
    cases step_case hs' with
    | dataReturn _ hframe =>
      rw [dataReturn_link]
      show RecvBuffer.Holds (if c > 0 then _ else _) (cells t.stream)
      split
      next hpos => exact ht.removeData hpos.le hint.2
      next => exact ht
  obtain ⟨hbuf, -⟩ := step_keepsStream hs' (fun g seg he => hread ⟨g, seg, he⟩)
    fun c he => hret ⟨c, he⟩
  -- the other events leave the buffer, and only a new connection the stream behind
  rw [hbuf]
  cases e with
  | connectDone q status r =>
    unfold after
    dsimp only
    split
    · split
      next => exact ht
      next hstatus => exact ht.of_empty (hc (not_lt.mp hstatus)) _
    · exact ht
  | read g seg => exact absurd ⟨g, seg, rfl⟩ hread
  | _ => exact ht

theorem onlyOwn_step {t t' : Streamed} {e : TcpEvent} (ht : t.Inv) (hc : t.StartsEmpty e)
    (h : t.step e = some t') : t.OnlyOwn e t' := by
  obtain ⟨-, s', hs', rfl⟩ := step_some h
  cases e with
  | read g seg =>
    cases step_case hs' with
    | read hidle hreads hne hlen =>
      intro _ data hcall
      have hholds := holds_read ht hc hlen (t.sys.onRead seg)
      rw [after_sys, onRead_link t.sys hlen] at hcall
      by_cases hh : t.sys.link.pHandler = true
      · have hdata : (t.sys.link.buf.addData (cells seg)).offered = data := by
          simpa [hh] using hcall
        rw [← hdata]
        exact hholds.offered_infix
      · simp [hh] at hcall
  | _ => trivial

/-- **Reconnects.** In a run of a client link in which every connection finds the buffer without
unconsumed bytes, and segments arrive on the connection established last, every `on_data` is
given bytes of that connection. -/
theorem fresh_stream (self : LinkPtr) (loop : Loop) {es : List TcpEvent}
    (hc : EachStep step StartsEmpty (client self loop) es) :
    EachMove step OnlyOwn (client self loop) es := by
  have hstart : (client self loop).Inv := RecvBuffer.holds_new
  exact hc.eachMove (fun _ _ _ hs hc h => ⟨inv_step hs hc h, onlyOwn_step hs hc h⟩) hstart

instance (t : Streamed) : ∀ e, Decidable (t.StartsEmpty e)
  | .connectDone _ _ _ => inferInstanceAs (Decidable (_ → _))
  | .read _ _ => inferInstanceAs (Decidable (_ = _))
  | .setHandler _ | .connect _ _ _ | .send _ _ | .close | .connectedReturn _ | .readAgain _
  | .readError _ | .dataReturn _ | .closeReturn | .writeDone _ _ | .tick _ => isTrue trivial

/-- A client link that loses its connection and makes a new one. -/
def reconnectRun (handled_len : ℤ) : List TcpEvent :=
  [.setHandler true, .connect "10.0.0.1" 80 0, .connectDone 0 0 0, .connectedReturn 0,
    .read 0 [1, 2], .dataReturn handled_len, .readError 0, .tick 0, .connectDone 1 0 0,
    .connectedReturn 0]

/-- The handler consumes everything. -/
theorem fresh_stream_reconnectRun :
    EachMove step OnlyOwn (client 0 Loop.new) (reconnectRun 2 ++ [.read 1 [3]]) :=
  fresh_stream 0 Loop.new (by decide +kernel)

/-- The handler leaves the second byte for the rest of a message. The first byte of the new
connection is offered behind it. -/
theorem not_fresh_stream_reconnectRun :
    ¬ EachMove step OnlyOwn (client 0 Loop.new) (reconnectRun 1 ++ [.read 1 [3]]) := by
  intro h
  have hlast := (h.of_append rfl _ rfl).1
  have hinfix := hlast (by decide) [some 2, some 3] (by decide +kernel)
  revert hinfix
  decide

end Streamed
end SomoNet
