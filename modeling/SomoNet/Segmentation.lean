import Mathlib.Data.List.TakeWhile
import SomoNet.Http.Lockstep
import SomoNet.HttpSession

/-!
# Requests and segments

`HttpPeerLink::on_data` initialises the parser and parses what has arrived, so that a
request has to arrive in one segment: what comes after a cut is read as the beginning of a
message. Only a cut in the empty lines before the request does no harm.
-/

namespace SomoNet

open Http Execution

/-! ## Bytes between messages -/

/-- The bytes begin a message, after any empty lines. -/
def beginsMessage (data : Bytes) : Bool :=
  (data.dropWhile isCRLF).head?.any fun ch => (Method.ofFirst ch).isSome

/-- The execution that has read nothing but `k` bytes of empty lines. -/
def emptyLines {σ : Type*} (k : ℕ) (u : σ) : Execution σ :=
  ⟨⟨{ Parser.init with nread := k }, none, 0, 0⟩, false, u⟩

section

variable {σ : Type*} (S : Settings σ)

theorem step_emptyLines {k : ℕ} (u : σ) {ch : UInt8} (hch : isCRLF ch)
    (hk : k + 1 ≤ max_header_size) :
    (emptyLines k u).step S ch = emptyLines (k + 1) u := by
  have hfeed : feed (emptyLines k u).exec ch = .next [] (emptyLines (k + 1) u).exec := by
    unfold feed
    rw [if_pos ⟨rfl, rfl⟩, if_neg (by show ¬k + 1 > max_header_size; omega)]
    show Exec.lift _ (start_req _ ch) = _
    rw [start_req, if_pos hch]
    rfl
  simp only [step, hfeed]
  rfl

theorem scan_emptyLines (u : σ) (lead : Bytes) (hlead : ∀ ch ∈ lead, isCRLF ch) (k : ℕ)
    (hk : k + lead.length ≤ max_header_size) :
    (emptyLines k u).scan S lead = emptyLines (k + lead.length) u := by
  induction lead generalizing k with
  | nil => rfl
  | cons ch lead ih =>
    rw [List.length_cons] at hk ⊢
    rw [scan_cons, step_emptyLines S u (hlead ch List.mem_cons_self) (by omega),
      ih (fun c hc => hlead c (List.mem_cons_of_mem ch hc)) (k + 1) (by omega)]
    congr 1
    omega

/-- A byte that begins no message stops the parser without a callback, and so does a line too
many. -/
theorem step_stops (u : σ) (k : ℕ) {ch : UInt8}
    (hch : isCRLF ch = true ∧ k + 1 > max_header_size ∨
      isCRLF ch = false ∧ Method.ofFirst ch = none) :
    ((emptyLines k u).step S ch).stopped = true ∧ ((emptyLines k u).step S ch).user = u := by
  have hfeed : ∃ p, feed (emptyLines k u).exec ch = .stop [] p := by
    unfold feed
    rw [if_pos ⟨rfl, rfl⟩]
    by_cases hk : (emptyLines k u).exec.parser.nread + 1 > max_header_size
    · rw [if_pos hk]
      exact ⟨_, rfl⟩
    · rw [if_neg hk]
      obtain ⟨hcrlf, hnone⟩ := hch.resolve_left (fun h => hk h.2)
      show ∃ p, Exec.lift _ (start_req _ ch) = _
      simp only [start_req, hcrlf, hnone, Bool.false_eq_true, if_false]
      split <;> exact ⟨_, rfl⟩
  obtain ⟨p, hp⟩ := hfeed
  simp only [step, hp]
  exact ⟨rfl, rfl⟩

/-- Bytes that begin no message are not reported. -/
theorem finish_emptyLines (u : σ) (data : Bytes) (hdata : beginsMessage data = false) (k : ℕ) :
    (((emptyLines k u).scan S data).finish S).2 = u := by
  induction data generalizing k with
  | nil =>
    simp [emptyLines, finish]
  | cons ch data ih =>
    by_cases hcrlf : isCRLF ch
    · by_cases hk : k + 1 ≤ max_header_size
      · rw [scan_cons, step_emptyLines S u hcrlf hk]
        refine ih ?_ (k + 1)
        simpa [beginsMessage, hcrlf] using hdata
      · obtain ⟨hstop, huser⟩ := step_stops S u k (Or.inl ⟨hcrlf, by omega⟩)
        rw [scan_cons, scan_stopped S hstop, finish, if_pos hstop, huser]
    · have hnone : Method.ofFirst ch = none := by
        simpa [beginsMessage, hcrlf] using hdata
      obtain ⟨hstop, huser⟩ := step_stops S u k (Or.inr ⟨by simpa using hcrlf, hnone⟩)
      rw [scan_cons, scan_stopped S hstop, finish, if_pos hstop, huser]

/-- The execution over bytes that make no call, if they make none. -/
def silentScan (e : Exec) : Bytes → Option Exec
  | [] => some e
  | ch :: data =>
    match feed e ch with
    | .next [] e' => silentScan (e'.consume ch) data
    | _ => none

theorem scan_silentScan (u : σ) {data : Bytes} {e e' : Exec} (h : silentScan e data = some e') :
    (⟨e, false, u⟩ : Execution σ).scan S data = ⟨e', false, u⟩ := by
  induction data generalizing e with
  | nil =>
    cases h
    rfl
  | cons ch data ih =>
    unfold silentScan at h
    split at h
    next e₁ hfeed =>
      have hstep : (⟨e, false, u⟩ : Execution σ).step S ch = ⟨e₁.consume ch, false, u⟩ := by
        unfold Execution.step
        rw [hfeed]
        rfl
      rw [scan_cons, hstep]
      exact ih h
    next => cases h

/-- Without a mark nothing is reported at the end of the bytes. -/
theorem finish_unmarked (u : σ) {e : Exec} (h : e.mark = none) :
    ((⟨e, false, u⟩ : Execution σ).finish S).2 = u := by
  unfold finish
  dsimp only
  rw [h, if_neg Bool.false_ne_true]
  split
  · rfl
  · rfl

end

namespace HttpPeerLink

theorem settings_oblivious : Oblivious settings := fun _ _ _ => rfl

theorem on_data_eq (link : HttpPeerLink) {data : Bytes} (h : data ≠ []) :
    link.on_data data = (((emptyLines 0 link).scan settings data).finish settings).2 := by
  unfold on_data
  rw [execute_eq settings rfl link h]
  rfl

/-- A segment that begins no message leaves the session as it is. -/
theorem on_data_of_not_begins (link : HttpPeerLink) {data : Bytes}
    (h : beginsMessage data = false) : link.on_data data = link := by
  by_cases hnil : data = []
  · subst hnil
    rfl
  · rw [on_data_eq link hnil, finish_emptyLines settings link data h 0]

/-- Empty lines before a message make no difference. -/
theorem on_data_lead (link : HttpPeerLink) {lead data : Bytes} (hlead : ∀ ch ∈ lead, isCRLF ch)
    (hdata : data ≠ []) (hlen : (lead ++ data).length ≤ max_header_size) :
    link.on_data (lead ++ data) = link.on_data data := by
  rw [List.length_append] at hlen
  rw [on_data_eq link hdata, on_data_eq link (List.append_ne_nil_of_right_ne_nil lead hdata),
    scan_append, scan_emptyLines settings link lead hlead 0 (by omega)]
  symm
  refine finish_together (scan_together settings_oblivious data ?_ hlen) hlen
  refine ⟨rfl, Or.inr ⟨⟨rfl, ?_, ?_⟩, start_ok link lead.length, ?_⟩⟩
  · exact (start_ok link 0).exec.count _
  · show 0 + lead.length + 0 ≤ lead.length
    omega
  · exact ⟨.idle rfl rfl rfl rfl (Nat.zero_le _), rfl, rfl, rfl⟩

theorem on_segments_append (link : HttpPeerLink) (segs segs' : List Bytes) :
    link.on_segments (segs ++ segs') = (link.on_segments segs).on_segments segs' :=
  List.foldl_append

/-- Segments that begin no message leave the session as it is. -/
theorem on_segments_of_not_begins (link : HttpPeerLink) {segs : List Bytes}
    (h : ∀ seg ∈ segs, beginsMessage seg = false) : link.on_segments segs = link := by
  induction segs with
  | nil => rfl
  | cons seg segs ih =>
    show (link.on_data seg).on_segments segs = link
    rw [on_data_of_not_begins link (h seg List.mem_cons_self)]
    exact ih fun s hs => h s (List.mem_cons_of_mem seg hs)

/-! ## One request in several segments -/

/-- A way of cutting a byte string into segments. -/
structure Cut (data : Bytes) (segs : List Bytes) : Prop where
  flatten : segs.flatten = data
  nonempty : ∀ seg ∈ segs, seg ≠ []

/-- The handler invocations are those of the delivery in a single segment. -/
def SameInvocations (link : HttpPeerLink) (data : Bytes) (segs : List Bytes) : Prop :=
  (link.on_segments segs).invocations = (link.on_data data).invocations

/-- A request as the client begins it: empty lines, `GET` or `POST`, and a space. Delivered in
a single segment it makes the session invoke the handler. -/
structure IsRequest (link : HttpPeerLink) (data : Bytes) : Prop where
  begins : ∃ lead word rest, data = lead ++ word ++ SP :: rest ∧ (∀ ch ∈ lead, isCRLF ch) ∧
    (word = bytes "GET" ∨ word = bytes "POST")
  served : (link.on_data data).invocations ≠ link.invocations

/-- Empty lines, the segment in which the request begins, and segments that on their own begin
no message: the session is where the bytes up to the end of the second would have left it. -/
theorem on_segments_eq (link : HttpPeerLink) {data : Bytes}
    (hlen : data.length ≤ max_header_size) {lead : List Bytes} {first : Bytes} {later : List Bytes}
    (hcut : Cut data (lead ++ first :: later)) (hlead : ∀ ch ∈ lead.flatten, isCRLF ch)
    (hlater : ∀ seg ∈ later, beginsMessage seg = false) :
    link.on_segments (lead ++ first :: later) = link.on_data (lead.flatten ++ first) := by
  have hdata : lead.flatten ++ first ++ later.flatten = data := by
    rw [← hcut.flatten]
    simp
  have hfirst : first ≠ [] := hcut.nonempty first (by simp)
  -- the empty lines before the request are not noticed
  have hbegins : ∀ seg ∈ lead, beginsMessage seg = false := by
    intro seg hseg
    have hall : ∀ ch ∈ seg, isCRLF ch := fun ch hch =>
      hlead ch (List.mem_flatten.mpr ⟨seg, hseg, hch⟩)
    simp [beginsMessage, List.dropWhile_eq_nil_iff.mpr hall]
  have hprefix : link.on_data (lead.flatten ++ first) = link.on_data first := by
    refine on_data_lead link hlead hfirst (le_trans ?_ hlen)
    rw [← hdata]
    simp
  rw [on_segments_append, on_segments_of_not_begins link hbegins, hprefix]
  exact on_segments_of_not_begins _ hlater

/-- A method on its own makes no invocation. -/
theorem on_data_word (link : HttpPeerLink) {lead word : Bytes} (hlead : ∀ ch ∈ lead, isCRLF ch)
    (hword : word = bytes "GET" ∨ word = bytes "POST")
    (hlen : (lead ++ word).length ≤ max_header_size) :
    (link.on_data (lead ++ word)).invocations = link.invocations := by
  have hne : word ≠ [] := by rcases hword with rfl | rfl <;> decide
  have hread : (silentScan ⟨.init, none, 0, 0⟩ word).any (fun e => e.mark.isNone) = true := by
    rcases hword with rfl | rfl <;> decide +kernel
  obtain ⟨e, he, hmark⟩ := (Option.any_eq_true _ _).mp hread
  have hscan : (emptyLines 0 link).scan settings word = ⟨e, false, link⟩ :=
    scan_silentScan settings link he
  rw [on_data_lead link hlead hne hlen, on_data_eq link hne, hscan,
    finish_unmarked settings link (Option.isNone_iff_eq_none.mp hmark)]

/-- A cut between the method and the space is one that the session does not survive. -/
theorem exists_not_sameInvocations {link : HttpPeerLink} {data : Bytes}
    (hreq : IsRequest link data) (hlen : data.length ≤ max_header_size) :
    ∃ segs, Cut data segs ∧ ¬SameInvocations link data segs := by
  obtain ⟨lead, word, rest, rfl, hlead, hword⟩ := hreq.begins
  have hcut : Cut (lead ++ word ++ SP :: rest) ([] ++ (lead ++ word) :: [SP :: rest]) := by
    refine ⟨by simp, fun seg hseg => ?_⟩
    simp only [List.nil_append, List.mem_cons, List.not_mem_nil, or_false] at hseg
    rcases hseg with rfl | rfl
    · rcases hword with rfl | rfl <;> exact List.append_ne_nil_of_right_ne_nil _ (by decide)
    · simp
  refine ⟨_, hcut, fun hsame => hreq.served ?_⟩
  have hsegs := on_segments_eq link hlen hcut (by simp) (by
    intro seg hseg
    rw [List.mem_singleton] at hseg
    rw [hseg, beginsMessage, List.dropWhile_cons_of_neg (by decide)]
    rfl)
  rw [← hsame, hsegs, List.flatten_nil, List.nil_append]
  refine on_data_word link hlead hword (le_trans ?_ hlen)
  simp

/-- **Requests are read in one segment.** No request is read alike in all ways of cutting it.
Of those in which no segment after the one where the request begins can be mistaken for the
beginning of a message, it is read alike in exactly the ones in which that segment holds
everything the handler is invoked for. -/
theorem segmentation {link : HttpPeerLink} {data : Bytes} (hreq : IsRequest link data)
    (hlen : data.length ≤ max_header_size) :
    ¬(∀ segs, Cut data segs → SameInvocations link data segs) ∧
      ∀ lead first later, Cut data (lead ++ first :: later) → (∀ ch ∈ lead.flatten, isCRLF ch) →
        (∀ seg ∈ later, beginsMessage seg = false) →
        (SameInvocations link data (lead ++ first :: later) ↔
          SameInvocations link data [lead.flatten ++ first]) := by
  constructor
  · intro hall
    obtain ⟨segs, hcut, hnot⟩ := exists_not_sameInvocations hreq hlen
    exact hnot (hall segs hcut)
  · intro lead first later hcut hlead hlater
    unfold SameInvocations
    rw [on_segments_eq link hlen hcut hlead hlater]
    rfl

/-- A `POST` whose head and body are 39 and 5 bytes long. -/
def post : Bytes := bytes "POST /a HTTP/1.1\r\nContent-Length: 5\r\n\r\nhello"

theorem isRequest_post : IsRequest .new post where
  begins := ⟨[], bytes "POST", post.drop 5, by decide, by simp, Or.inr rfl⟩
  served := by
    intro h
    have hlen := congrArg List.length h
    revert hlen
    decide +kernel

theorem segmentation_post :
    ¬(∀ segs, Cut post segs → SameInvocations .new post segs) :=
  (segmentation isRequest_post (by decide)).1

/-- The body in a segment of its own is lost. -/
theorem not_sameInvocations_post :
    IsRequest .new post ∧ Cut post [post.take 39, post.drop 39] ∧
      ¬SameInvocations .new post [post.take 39, post.drop 39] := by
  refine ⟨isRequest_post, ⟨by decide, by decide⟩, fun h => ?_⟩
  have hlen := congrArg List.length h
  revert hlen
  decide +kernel

end HttpPeerLink
end SomoNet
