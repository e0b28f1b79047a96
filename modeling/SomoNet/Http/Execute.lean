import SomoNet.Http.Parser

/-!
# The bundled HTTP parser: a call

`sn_http_parser_execute` over the bytes of one call, with the callbacks of a
`http_parser_settings` acting on the user's data.
-/

namespace SomoNet
namespace Http

variable {σ τ : Type*}

/-- `http_parser_settings`, on the data `σ` that `parser->data` points to. The callbacks
that the program leaves `NULL` are left out, and a callback without a result returns 0. -/
structure Settings (σ : Type*) where
  on_url : Method → Bytes → σ → σ
  on_header_field : Bytes → σ → σ
  on_header_value : Bytes → σ → σ
  on_headers_complete : Parser → σ → σ × ℤ
  on_body : Bytes → σ → σ
  on_message_complete : σ → σ

namespace Settings

def call (S : Settings σ) (u : σ) : Event → σ
  | .url m d => S.on_url m d u
  | .header_field d => S.on_header_field d u
  | .header_value d => S.on_header_value d u
  | .body d => S.on_body d u
  | .message_complete => S.on_message_complete u

/-- Calls made one after the other. -/
def callAll (S : Settings σ) (u : σ) (cs : List Event) : σ := cs.foldl S.call u

@[simp] theorem callAll_nil (S : Settings σ) (u : σ) : S.callAll u [] = u := rfl

@[simp] theorem callAll_cons (S : Settings σ) (u : σ) (c : Event) (cs : List Event) :
    S.callAll u (c :: cs) = S.callAll (S.call u c) cs := rfl

theorem callAll_append (S : Settings σ) (u : σ) (cs cs' : List Event) :
    S.callAll u (cs ++ cs') = S.callAll (S.callAll u cs) cs' := List.foldl_append

end Settings

/-- The parser in the middle of a call, or where it has returned from it. -/
structure Execution (σ : Type*) where
  exec : Exec
  stopped : Bool
  user : σ

/-- The mark that is set when a call begins in the middle of some data. -/
def State.resumed : State → Option Mark
  | s_header_field => some .header_field
  | s_header_value => some .header_value
  | s_req_path | s_req_schema | s_req_schema_slash | s_req_schema_slash_slash
  | s_req_server_start | s_req_server | s_req_server_with_at | s_req_query_string_start
  | s_req_query_string | s_req_fragment_start | s_req_fragment => some .url
  | _ => none

namespace Execution

/-- The beginning of a call. -/
def start (p : Parser) (u : σ) : Execution σ where
  exec := ⟨p, p.state.resumed.map fun m => (m, []), 0, 0⟩
  stopped := false
  user := u

/-- The byte in which the headers are complete, from the call of `on_headers_complete` on. -/
def headers (S : Settings σ) (e : Exec) (u : σ) (ch : UInt8) : Execution σ :=
  let (u, answer) := S.on_headers_complete e.parser u
  let x := headers_complete answer e.parser ch
  ⟨{ e with parser := x.parser }.consume ch, x.stop, S.callAll u x.calls⟩

/-- One byte of the call. -/
def step (S : Settings σ) (r : Execution σ) (ch : UInt8) : Execution σ :=
  if r.stopped then r
  else
    match feed r.exec ch with
    | .next cs e => ⟨e.consume ch, false, S.callAll r.user cs⟩
    | .stop cs p => ⟨{ r.exec with parser := p }, true, S.callAll r.user cs⟩
    | .ask cs e => headers S e (S.callAll r.user cs) ch

/-- The bytes of a call. -/
def scan (S : Settings σ) (r : Execution σ) (data : Bytes) : Execution σ := data.foldl (step S) r

/-- What follows the loop: a loop over a field or value has run out of bytes, and the data
of a mark that is left is reported. -/
def finish (S : Settings σ) (r : Execution σ) : Parser × σ :=
  let p := r.exec.parser
  if r.stopped then (p, r.user)
  else if r.exec.run > 0 ∧ p.nread + (r.exec.run - 1) > max_header_size then
    (p.fail .HPE_HEADER_OVERFLOW, r.user)
  else
    ({ p with nread := p.nread + (r.exec.run - 1) },
      S.callAll r.user (r.exec.mark.toList.map fun md => md.1.call p md.2))

@[simp] theorem scan_nil (S : Settings σ) (r : Execution σ) : r.scan S [] = r := rfl

@[simp] theorem scan_cons (S : Settings σ) (r : Execution σ) (ch : UInt8) (data : Bytes) :
    r.scan S (ch :: data) = (r.step S ch).scan S data := rfl

theorem scan_append (S : Settings σ) (r : Execution σ) (data data' : Bytes) :
    r.scan S (data ++ data') = (r.scan S data).scan S data' := List.foldl_append

theorem step_stopped (S : Settings σ) {r : Execution σ} (h : r.stopped = true) (ch : UInt8) :
    r.step S ch = r := if_pos h

/-- Once the call has returned, the rest of its bytes is not looked at. -/
theorem scan_stopped (S : Settings σ) {r : Execution σ} (h : r.stopped = true) (data : Bytes) :
    r.scan S data = r := by
  induction data with
  | nil => rfl
  | cons ch data ih => rw [scan_cons, step_stopped S h, ih]

/-! ### What every callback keeps -/

section

variable {S : Settings σ} {P : σ → Prop} (hcall : ∀ u c, P u → P (S.call u c))
  (hheaders : ∀ p u, P u → P (S.on_headers_complete p u).1)
include hcall

theorem callAll_keeps {u : σ} (h : P u) (cs : List Event) : P (S.callAll u cs) := by
  induction cs generalizing u with
  | nil => exact h
  | cons c cs ih => exact ih (hcall u c h)

theorem finish_keeps {r : Execution σ} (h : P r.user) : P (r.finish S).2 := by
  simp only [finish]
  split
  · exact h
  split
  · exact h
  · exact callAll_keeps hcall h _

include hheaders

theorem step_keeps {r : Execution σ} (h : P r.user) (ch : UInt8) : P (r.step S ch).user := by
  unfold step
  split
  · exact h
  split
  · exact callAll_keeps hcall h _
  · exact callAll_keeps hcall h _
  · exact callAll_keeps hcall (hheaders _ _ (callAll_keeps hcall h _)) _

theorem scan_keeps {r : Execution σ} (h : P r.user) (data : Bytes) : P (r.scan S data).user := by
  induction data generalizing r with
  | nil => exact h
  | cons ch data ih => exact ih (step_keeps hcall hheaders h ch)

end

end Execution

/-- `sn_http_parser_execute` -/
def execute (S : Settings σ) (p : Parser) (u : σ) (data : Bytes) : Parser × σ :=
  if p.http_errno ≠ none then (p, u)
  else if data = [] then
    match p.state with
    | .s_body_identity_eof => (p, S.on_message_complete u)
    | .s_dead | .s_start_req => (p, u)
    | _ => (p.fail .HPE_INVALID_EOF_STATE, u)
  else ((Execution.start p u).scan S data).finish S

/-- A call on some bytes, where no error has been found before. -/
theorem execute_eq (S : Settings σ) {p : Parser} (hp : p.http_errno = none) (u : σ) {data : Bytes}
    (hdata : data ≠ []) :
    execute S p u data = ((Execution.start p u).scan S data).finish S := by
  unfold execute
  rw [if_neg (not_not.mpr hp), if_neg hdata]

theorem execute_keeps {S : Settings σ} {P : σ → Prop} (hcall : ∀ u c, P u → P (S.call u c))
    (hheaders : ∀ p u, P u → P (S.on_headers_complete p u).1) (p : Parser) {u : σ} (h : P u)
    (data : Bytes) : P (execute S p u data).2 := by
  unfold execute
  split
  · exact h
  split
  · split
    · exact hcall u .message_complete h
    · exact h
    · exact h
    · exact h
  · exact Execution.finish_keeps hcall (Execution.scan_keeps hcall hheaders (by exact h) data)

end Http
end SomoNet
