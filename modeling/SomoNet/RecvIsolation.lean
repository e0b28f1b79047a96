import SomoNet.InFlight
import SomoNet.RecvStream

/-!
# Whose bytes the handler is given

All links receive into one static buffer, and the handler is always given the start of the
link's own buffer, consumed bytes included. Both are harmless: what `onRead` takes from the
static buffer is the segment that has just arrived in it, and what a link's buffer is filled
with, consumed or not, are bytes of that link (`RecvBuffer.Holds`).

What the handler of a link is offered is therefore a function of what the link itself has
received and of what its handler has answered (`Receiver`), in any run of any process.
-/

namespace SomoNet

open Run

/-! ## The offers of a trace -/

/-- What each `on_data` was given. -/
def offers : List Obs → List (List Cell)
  | [] => []
  | .onData data :: t => data :: offers t
  | _ :: t => offers t

/-- Every `on_data` is given bytes that stand next to each other in what was received until
then, where `recv` was received before the trace. -/
def OffersOwn (recv : List UInt8) : List Obs → Prop
  | [] => True
  | .received seg :: t => OffersOwn (recv ++ seg) t
  | .onData data :: t => data <:+: cells recv ∧ OffersOwn recv t
  | _ :: t => OffersOwn recv t

theorem offers_append (t t' : List Obs) : offers (t ++ t') = offers t ++ offers t' := by
  induction t with
  | nil => rfl
  | cons o t ih => cases o <;> simp [offers, ih]

theorem offersOwn_append (t t' : List Obs) (recv : List UInt8) :
    OffersOwn recv (t ++ t') ↔ OffersOwn recv t ∧ OffersOwn (recv ++ received t) t' := by
  induction t generalizing recv with
  | nil => simp [OffersOwn, received]
  | cons o t ih => cases o <;> simp [OffersOwn, received, ih, and_assoc]

theorem offers_of_not_isStream {os : List Obs} (h : ∀ o ∈ os, o.isStream = false) :
    offers os = [] ∧ ∀ recv, OffersOwn recv os := by
  induction os with
  | nil => exact ⟨rfl, fun _ => trivial⟩
  | cons o os ih =>
    obtain ⟨hoffers, hown⟩ := ih fun o' ho' => h o' (List.mem_cons_of_mem _ ho')
    have ho := h o List.mem_cons_self
    cases o <;> simp [Obs.isStream, offers, OffersOwn, hoffers, hown] at ho ⊢

/-! ## A link's own bytes -/

/-- The result of `on_data` is an `int`. -/
def TcpEvent.IntResult : TcpEvent → Prop
  | .dataReturn handled_len => -2147483648 ≤ handled_len ∧ handled_len < 2147483648
  | _ => True

instance : DecidablePred TcpEvent.IntResult
  | .dataReturn _ => inferInstanceAs (Decidable (_ ∧ _))
  | .setHandler _ | .connect _ _ _ | .send _ _ | .close | .connectDone _ _ _ | .connectedReturn _
  | .read _ _ | .readAgain _ | .readError _ | .closeReturn | .writeDone _ _ | .tick _ =>
    isTrue trivial

/-- The buffer is filled with bytes of the link, and so was everything that it offered. -/
structure TcpLink.Own (l : TcpLink) : Prop where
  holds : l.buf.Holds (cells (received l.trace))
  offers : OffersOwn [] l.trace

theorem TcpLink.own_new (self : LinkPtr) : (TcpLink.new self).Own :=
  ⟨RecvBuffer.holds_new, trivial⟩

theorem TcpLink.own_ofHandle (self : LinkPtr) (h : HandleId) : (TcpLink.ofHandle self h).Own :=
  ⟨RecvBuffer.holds_new, trivial⟩

theorem TcpLink.Own.of_keepsStream {l l' : TcpLink} (h : l.Own) (hk : KeepsStream l l') : l'.Own := by
  obtain ⟨hb, os, ht, hos⟩ := hk
  obtain ⟨hr, -, -⟩ := stream_of_not_isStream hos
  refine ⟨?_, ?_⟩
  · rw [hb, ht, received_append, hr, List.append_nil]
    exact h.holds
  · rw [ht, offersOwn_append]
    exact ⟨h.offers, (offers_of_not_isStream hos).2 _⟩

namespace TcpSys

/-- What arrives is put behind what the buffer is filled with, or the buffer is emptied. -/
theorem holds_addData {s : TcpSys} (h : s.link.Own) {seg : List UInt8}
    (hlen : seg.length ≤ STATIC_BUF_SIZE) :
    (s.link.buf.addData (cells seg)).Holds (cells (received s.link.trace ++ seg)) := by
  have hcells : (cells seg).length = seg.length := List.length_map _
  by_cases hd : s.link.buf.Discards (cells seg).length
  · exact h.holds.addData_discards hd _
  · have hadd := h.holds.addData (hcells.trans_le hlen) hd
    rwa [← List.map_append] at hadd

theorem own_onRead {s : TcpSys} (h : s.link.Own) {seg : List UInt8}
    (hlen : seg.length ≤ STATIC_BUF_SIZE) : (s.onRead seg).link.Own := by
  have hholds := holds_addData h hlen
  rw [onRead_link s hlen]
  refine ⟨?_, ?_⟩
  · show RecvBuffer.Holds _ (cells (received (s.link.trace ++ _)))
    rw [received_append]
    split <;> simpa [received] using hholds
  · show OffersOwn [] (s.link.trace ++ _)
    rw [offersOwn_append]
    refine ⟨h.offers, ?_⟩
    split
    · exact ⟨hholds.offered_infix, trivial⟩
    · trivial

theorem own_dataReturn {s : TcpSys} (h : s.link.Own) {c : ℤ} (hc : c < 2147483648) :
    (s.dataReturn c).link.Own := by
  rw [dataReturn_link]
  have hrecv : received (s.link.trace ++ [.handled c]) = received s.link.trace := by
    rw [received_append]
    simp [received]
  refine ⟨?_, ?_⟩
  · show RecvBuffer.Holds _ (cells (received (s.link.trace ++ [.handled c])))
    rw [hrecv]
    dsimp only
    split
    next hpos => exact h.holds.removeData hpos.le hc
    next => exact h.holds
  · show OffersOwn [] (s.link.trace ++ [.handled c])
    rw [offersOwn_append]
    exact ⟨h.offers, trivial⟩

theorem own_step {s s' : TcpSys} {e : TcpEvent} (h : s.link.Own) (hint : e.IntResult)
    (hstep : s.step e = some s') : s'.link.Own := by
  by_cases hread : ∃ g seg, e = .read g seg
  · obtain ⟨g, seg, rfl⟩ := hread
    cases step_case hstep with
    | read hidle hreads hne hlen => exact own_onRead h hlen
  by_cases hret : ∃ c, e = .dataReturn c
  · obtain ⟨c, rfl⟩ := hret
    cases step_case hstep with
    | dataReturn _ hframe => exact own_dataReturn h hint.2
  exact h.of_keepsStream
    (step_keepsStream hstep (fun g seg he => hread ⟨g, seg, he⟩) fun c he => hret ⟨c, he⟩)

end TcpSys

/-! ## The receiving side of a link -/

/-- What concerns the receiving side of a link. -/
inductive LinkInput
  | setHandler (handler : Bool)
  | segment (seg : List UInt8)
  | result (handled_len : ℤ)
  deriving DecidableEq

def TcpEvent.input : TcpEvent → Option LinkInput
  | .setHandler handler => some (.setHandler handler)
  | .read _ seg => some (.segment seg)
  | .dataReturn handled_len => some (.result handled_len)
  | _ => none

/-- The receiving side of a link, with what it has offered so far. -/
structure Receiver where
  pHandler : Bool
  buf : RecvBuffer
  offers : List (List Cell)

namespace Receiver

def new : Receiver := ⟨false, RecvBuffer.new, []⟩

def next (v : Receiver) : LinkInput → Receiver
  | .setHandler handler => { v with pHandler := handler }
  | .segment seg =>
    let buf := v.buf.addData (cells seg)
    { v with buf, offers := v.offers ++ if v.pHandler then [buf.offered] else [] }
  | .result handled_len =>
    { v with buf := if handled_len > 0 then v.buf.removeData handled_len else v.buf }

/-- The receiving side after the inputs. -/
def replay (v : Receiver) (is : List LinkInput) : Receiver := is.foldl next v

@[simp] theorem replay_append (v : Receiver) (is js : List LinkInput) :
    v.replay (is ++ js) = (v.replay is).replay js := List.foldl_append

end Receiver

def TcpLink.receiver (l : TcpLink) : Receiver := ⟨l.pHandler, l.buf, offers l.trace⟩

namespace TcpSys

/-- Only `set_handler` changes the handler. -/
theorem step_pHandler {s s' : TcpSys} {e : TcpEvent} (he : ∀ handler, e ≠ .setHandler handler)
    (h : s.step e = some s') : s'.link.pHandler = s.link.pHandler := by
  -- nothing but `set_handler` writes `m_pHandler`; `close` leaves it as well
  have hclose : ∀ s : TcpSys, s.shut.link.pHandler = s.link.pHandler := fun s => by rw [shut_link]
  cases step_case h with
  | setHandler handler => exact absurd rfl (he handler)
  | connect ip port r => rw [connect_link]
  | send data r =>
    have hout := s.send_outcome data r
    generalize s.send data r = res at hout ⊢
    rcases hout with _ | _ | _ | _ <;> rfl
  | close => exact hclose _
  | @connectDone q _ status r =>
    by_cases hneg : status < 0
    · rw [onConnect_failed s q r hneg]
    by_cases hh : s.link.pHandler = true
    · rw [onConnect_handler s q r hneg hh]
    · rw [onConnect_noHandler s q r hneg hh, connectedTail_link]
  | connectedReturn r =>
    unfold connectedReturn
    rw [connectedTail_link]
  | read _ _ _ hlen => rw [onRead_link s hlen]
  | readAgain => rfl
  | readError =>
    unfold onReadError closeError
    dsimp only
    split_ifs
    · rfl
    · rfl
    · exact hclose _
  | dataReturn c => rw [dataReturn_link]
  | closeReturn => exact hclose _
  | writeDone =>
    unfold onWrite
    dsimp only
    split_ifs
    · rw [timerStart_link]
      exact hclose _
    · exact hclose _
    · rfl
  | tick r =>
    unfold onTimer
    split_ifs
    · rw [connect_link]
    · rfl

/-- **The receiving side** of a link moves by its own inputs alone. -/
theorem step_receiver {s s' : TcpSys} {e : TcpEvent} (h : s.step e = some s') :
    s'.link.receiver = s.link.receiver.replay e.input.toList := by
  by_cases hset : ∃ handler, e = .setHandler handler
  · obtain ⟨handler, rfl⟩ := hset
    cases h
    rfl
  have hhandler := step_pHandler (fun handler he => hset ⟨handler, he⟩) h
  by_cases hread : ∃ g seg, e = .read g seg
  · obtain ⟨g, seg, rfl⟩ := hread
    cases step_case h with
    | read hidle hreads hne hlen =>
      rw [onRead_link s hlen]
      unfold TcpLink.receiver
      dsimp only
      rw [offers_append]
      by_cases hh : s.link.pHandler = true
      · simp [hh, offers, TcpEvent.input, Receiver.replay, Receiver.next]
      · simp [hh, offers, TcpEvent.input, Receiver.replay, Receiver.next]
  by_cases hret : ∃ c, e = .dataReturn c
  · obtain ⟨c, rfl⟩ := hret
    cases step_case h with
    | dataReturn _ hframe =>
      rw [dataReturn_link]
      unfold TcpLink.receiver
      dsimp only
      rw [offers_append]
      simp [offers, TcpEvent.input, Receiver.replay, Receiver.next]
  · -- neither a read nor a return: nothing reaches the receiving side
    have hinput : e.input = none := by
      cases e with
      | setHandler handler => exact absurd ⟨handler, rfl⟩ hset
      | read g seg => exact absurd ⟨g, seg, rfl⟩ hread
      | dataReturn c => exact absurd ⟨c, rfl⟩ hret
      | _ => rfl
    obtain ⟨hbuf, os, htrace, hos⟩ := step_keepsStream h (fun g seg he => hread ⟨g, seg, he⟩)
      fun c he => hret ⟨c, he⟩
    rw [hinput]
    unfold TcpLink.receiver
    rw [hhandler, hbuf, htrace, offers_append, (offers_of_not_isStream hos).1, List.append_nil]
    rfl

end TcpSys

/-! ## Any number of links -/

/-- What the events of a run tell the receiving side of the link `l`. -/
def inputs (l : LinkPtr) (es : List WorldEvent) : List LinkInput :=
  es.flatMap fun
    | .tcp l' e => if l' = l then e.input.toList else []
    | _ => []

theorem inputs_append (l : LinkPtr) (es es' : List WorldEvent) :
    inputs l (es ++ es') = inputs l es ++ inputs l es' := List.flatMap_append

def WorldEvent.IntResult : WorldEvent → Prop
  | .tcp _ e => e.IntResult
  | _ => True

instance : DecidablePred WorldEvent.IntResult
  | .tcp _ e => inferInstanceAs (Decidable e.IntResult)
  | .newTcp | .accept | .newUdp | .udpConnect _ | .udpSend _ _ _ _ | .udpSendAddr _ _ _ _ _ _
  | .udpClose _ | .newServer | .serverClose _ | .newPeer _ _ _ | .peerSend _ _ _
  | .peerSendAddr _ _ _ _ _ | .udpDone _ _ => isTrue trivial

namespace World

/-- What a step does to the TCP links: it creates one, or one of them moves, or they stay as
they are. -/
inductive TcpMove (w : World) : WorldEvent → World → Prop
  | created {e : WorldEvent} {w' : World} {a : TcpLink} (he : ∀ l, inputs l [e] = [])
      (ha : (∃ self, a = TcpLink.new self) ∨ ∃ self h, a = TcpLink.ofHandle self h)
      (htcp : w'.tcp = Function.update w.tcp w.nextLink (some a))
      (hnext : w'.nextLink = w.nextLink + 1) : TcpMove w e w'
  | moves {l : LinkPtr} {e : TcpEvent} {w' : World} {s s' : TcpSys} (hl : w.tcp l = some s.link)
      (hstep : s.step e = some s') (htcp : w'.tcp = Function.update w.tcp l (some s'.link))
      (hnext : w'.nextLink = w.nextLink) : TcpMove w (.tcp l e) w'
  | keeps {e : WorldEvent} {w' : World} (he : ∀ l, inputs l [e] = []) (htcp : w'.tcp = w.tcp)
      (hnext : w.nextLink ≤ w'.nextLink) : TcpMove w e w'

theorem step_tcpMove {w w' : World} {e : WorldEvent} (h : w.step e = some w') : TcpMove w e w' := by
  cases e with
  | newTcp =>
    cases h
    exact .created (fun _ => rfl) (Or.inl ⟨_, rfl⟩) rfl rfl
  | accept =>
    cases h
    exact .created (fun _ => rfl) (Or.inr ⟨_, _, rfl⟩) rfl rfl
  | tcp l e =>
    obtain ⟨s, s', hsys, hstep, rfl⟩ := step_tcp h
    obtain ⟨a, ha, rfl⟩ := Option.map_eq_some_iff.mp hsys
    exact .moves ha hstep rfl rfl
  | newUdp | newServer =>
    cases h
    exact .keeps (fun _ => rfl) rfl (Nat.le_succ _)
  | udpConnect l | udpSend l _ _ _ | udpSendAddr l _ _ _ _ _ | udpClose l | serverClose l =>
    obtain ⟨_, _, rfl⟩ := Option.map_eq_some_iff.mp h
    exact .keeps (fun _ => rfl) rfl le_rfl
  | newPeer server _ _ =>
    obtain ⟨_, _, rfl⟩ := Option.map_eq_some_iff.mp h
    exact .keeps (fun _ => rfl) rfl (Nat.le_succ _)
  | peerSend l _ _ | peerSendAddr l _ _ _ _ =>
    obtain ⟨_, _, h⟩ := Option.bind_eq_some_iff.mp h
    obtain ⟨_, _, rfl⟩ := Option.map_eq_some_iff.mp h
    exact .keeps (fun _ => rfl) rfl le_rfl
  -- a completion touches the pool only
  | udpDone q status =>
    simp only [step] at h
    split at h
    · cases h
      exact .keeps (fun _ => rfl) rfl le_rfl
    · cases h

/-- Every link's buffer and offers are of its own bytes. -/
def AllOwn (w : World) : Prop := ∀ l a, w.tcp l = some a → a.Own

theorem allOwn_step {w w' : World} {e : WorldEvent} (hw : w.AllOwn) (hint : e.IntResult)
    (h : w.step e = some w') : w'.AllOwn := by
  have hupdate : ∀ l b, b.Own → w'.tcp = Function.update w.tcp l (some b) → w'.AllOwn := by
    intro l b hb htcp m a ha
    rw [htcp, Function.update_apply] at ha
    split at ha
    · cases ha
      exact hb
    · exact hw m a ha
  cases step_tcpMove h with
  | created _ ha htcp _ =>
    rcases ha with ⟨self, rfl⟩ | ⟨self, g, rfl⟩
    · exact hupdate _ _ (TcpLink.own_new self) htcp
    · exact hupdate _ _ (TcpLink.own_ofHandle self g) htcp
  | moves hl hstep htcp _ => exact hupdate _ _ (TcpSys.own_step (hw _ _ hl) hint hstep) htcp
  | keeps _ htcp _ =>
    intro l a ha
    rw [htcp] at ha
    exact hw l a ha

theorem allOwn_exec {w : World} {es : List WorldEvent} (hint : ∀ e ∈ es, e.IntResult)
    (h : exec step new es = some w) : w.AllOwn := by
  have hnew : AllOwn new := fun l a ha => by cases ha
  have hrun : Always step AllOwn new es :=
    EachStep.always (I := fun _ => True) (fun _ _ _ _ _ => trivial)
      (fun _ _ _ _ hw he hs => allOwn_step hw he hs) trivial hnew (EachStep.of_mem hint new)
  exact hrun.last h

/-- What the events `es` have led to: the receiving side of every link is what the link's inputs
make of a new one. -/
structure Replayed (es : List WorldEvent) (w : World) : Prop where
  old : ∀ l a, w.tcp l = some a → l < w.nextLink
  unborn : ∀ l, w.tcp l = none → inputs l es = []
  replay : ∀ l a, w.tcp l = some a → a.receiver = Receiver.new.replay (inputs l es)

theorem replayed_step {w w' : World} {es : List WorldEvent} {e : WorldEvent} (hw : Replayed es w)
    (h : w.step e = some w') : Replayed (es ++ [e]) w' := by
  cases step_tcpMove h with
  | @created _ _ b he hb htcp hnext =>
    have hsame : ∀ l, inputs l (es ++ [e]) = inputs l es := fun l => by
      rw [inputs_append, he, List.append_nil]
    have hfresh : w.tcp w.nextLink = none := by
      by_contra hsome
      obtain ⟨a, ha⟩ := Option.ne_none_iff_exists'.mp hsome
      exact lt_irrefl _ (hw.old _ a ha)
    refine ⟨fun l a ha => ?_, fun l hl => ?_, fun l a ha => ?_⟩
    · rw [htcp, Function.update_apply] at ha
      rw [hnext]
      split at ha
      next hl =>
        subst hl
        exact Nat.lt_succ_self _
      next => exact (hw.old l a ha).trans (Nat.lt_succ_self _)
    · rw [htcp, Function.update_apply] at hl
      split at hl
      · cases hl
      · rw [hsame]
        exact hw.unborn l hl
    · rw [htcp, Function.update_apply] at ha
      rw [hsame]
      split at ha
      next hl =>
        -- the new link has had no input
        cases ha
        subst hl
        rw [hw.unborn _ hfresh]
        rcases hb with ⟨self, rfl⟩ | ⟨self, g, rfl⟩ <;> rfl
      next => exact hw.replay l a ha
  | @moves l te _ s s' hl hstep htcp hnext =>
    have hothers : ∀ m, m ≠ l → inputs m (es ++ [.tcp l te]) = inputs m es := by
      intro m hm
      rw [inputs_append]
      simp [inputs, hm.symm]
    have hself : inputs l (es ++ [.tcp l te]) = inputs l es ++ te.input.toList := by
      rw [inputs_append]
      simp [inputs]
    refine ⟨fun m a ha => ?_, fun m hm => ?_, fun m a ha => ?_⟩
    · rw [htcp, Function.update_apply] at ha
      rw [hnext]
      split at ha
      next hm => exact hw.old m _ (hm ▸ hl)
      next => exact hw.old m a ha
    · rw [htcp, Function.update_apply] at hm
      split at hm
      · cases hm
      next hne =>
        rw [hothers m hne]
        exact hw.unborn m hm
    · rw [htcp, Function.update_apply] at ha
      split at ha
      next hm =>
        cases ha
        subst hm
        rw [hself, Receiver.replay_append, ← hw.replay _ _ hl]
        exact TcpSys.step_receiver hstep
      next hne =>
        rw [hothers m hne]
        exact hw.replay m a ha
  | keeps he htcp hnext =>
    have hsame : ∀ l, inputs l (es ++ [e]) = inputs l es := fun l => by
      rw [inputs_append, he, List.append_nil]
    refine ⟨fun l a ha => ?_, fun l hl => ?_, fun l a ha => ?_⟩
    · rw [htcp] at ha
      exact (hw.old l a ha).trans_le hnext
    · rw [htcp] at hl
      rw [hsame]
      exact hw.unborn l hl
    · rw [htcp] at ha
      rw [hsame]
      exact hw.replay l a ha

/-- **Over a run**: the receiving side of a link is a function of the link's inputs. -/
theorem replayed_exec {w : World} {es : List WorldEvent} (h : exec step new es = some w) :
    Replayed es w := by
  induction es using List.reverseRecOn generalizing w with
  | nil =>
    cases h
    exact ⟨fun l a ha => (by cases ha), fun _ _ => rfl, fun l a ha => (by cases ha)⟩
  | append_singleton es e ih =>
    rw [exec_append] at h
    obtain ⟨t, ht, hlast⟩ := Option.bind_eq_some_iff.mp h
    obtain ⟨w', hstep, hnil⟩ := exec_cons_some.mp hlast
    cases hnil
    exact replayed_step (ih ht) hstep

/-- **Isolation on receive.** In every run of a process, whatever `int`s the handlers return,
every `on_data` of a link is given bytes that this link has received; and a link with the same
inputs in another run, among any other links and traffic, is given the same. -/
theorem recv_isolated {es₁ es₂ : List WorldEvent} (hint : ∀ e ∈ es₁, e.IntResult) {w₁ w₂ : World}
    (h₁ : exec step new es₁ = some w₁) (h₂ : exec step new es₂ = some w₂) {l₁ l₂ : LinkPtr}
    {a₁ a₂ : TcpLink} (ha₁ : w₁.tcp l₁ = some a₁) (ha₂ : w₂.tcp l₂ = some a₂) :
    OffersOwn [] a₁.trace ∧
      (inputs l₁ es₁ = inputs l₂ es₂ → offers a₁.trace = offers a₂.trace) := by
  refine ⟨(allOwn_exec hint h₁ l₁ a₁ ha₁).offers, fun hsame => ?_⟩
  have hreplay₁ := (replayed_exec h₁).replay l₁ a₁ ha₁
  have hreplay₂ := (replayed_exec h₂).replay l₂ a₂ ha₂
  rw [hsame, ← hreplay₂] at hreplay₁
  exact congrArg Receiver.offers hreplay₁

/-- A link that is alone. -/
def aloneRun : List WorldEvent :=
  [.accept, .tcp 0 (.setHandler true), .tcp 0 (.read 0 [1, 2]), .tcp 0 (.dataReturn 1),
    .tcp 0 (.read 0 [3])]

/-- The same link beside another one, which receives in between and whose handler claims to have
consumed more than there was. -/
def sharedRun : List WorldEvent :=
  [.accept, .accept, .tcp 1 (.setHandler true), .tcp 0 (.setHandler true), .tcp 1 (.read 1 [1, 2]),
    .tcp 0 (.read 0 [7, 8, 9]), .tcp 1 (.dataReturn 1), .tcp 0 (.dataReturn 100),
    .tcp 1 (.read 1 [3])]

theorem recv_isolated_sharedRun :
    ∃ w₁ w₂ a₁ a₂, exec step new aloneRun = some w₁ ∧ exec step new sharedRun = some w₂ ∧
      w₁.tcp 0 = some a₁ ∧ w₂.tcp 1 = some a₂ ∧ OffersOwn [] a₁.trace ∧
      offers a₁.trace = offers a₂.trace := by
  have hint : ∀ e ∈ aloneRun, e.IntResult := by decide
  have hsame : inputs 0 aloneRun = inputs 1 sharedRun := by decide
  have h := @recv_isolated aloneRun sharedRun hint _ _ rfl rfl 0 1 _ _ rfl rfl
  exact ⟨_, _, _, _, rfl, rfl, rfl, rfl, h.1, h.2 hsame⟩

end World
end SomoNet
