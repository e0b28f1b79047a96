import Mathlib.Tactic

/-!
# Runs of a partial step function

A program that reacts to events is a partial function `step : σ → ε → Option σ`: the
event carries everything the environment decides (return codes, bytes, statuses), and
`none` means that the event cannot happen in that state. This file has the runs of
such a function and the two induction rules every whole-run result is proved with:

* `Always.of_invariant`, a property that holds at the start and is kept by every step
  holds in every state of every run;
* `always_iff_eachStep`, where a property is kept by *exactly* the steps that meet a
  condition, it holds throughout a run if and only if every step meets the condition.
-/

namespace SomoNet
namespace Run

variable {σ ε : Type*} (step : σ → ε → Option σ)

/-- The state after the events, if each of them can happen where it stands. -/
def exec : σ → List ε → Option σ
  | s, [] => some s
  | s, e :: es => (step s e).bind fun s' => exec s' es

/-- `P` holds in every state of the run of the events from `s`, the first and the last
included. A run ends before an event that cannot happen. -/
def Always (P : σ → Prop) : σ → List ε → Prop
  | s, [] => P s
  | s, e :: es => P s ∧ ∀ s', step s e = some s' → Always P s' es

/-- Every step the run takes meets `c`, a condition on the state before the step and
the event. -/
def EachStep (c : σ → ε → Prop) : σ → List ε → Prop
  | _, [] => True
  | s, e :: es => ∀ s', step s e = some s' → c s e ∧ EachStep c s' es

/-- Every step the run takes is a move that `R` allows. -/
def EachMove (R : σ → ε → σ → Prop) : σ → List ε → Prop
  | _, [] => True
  | s, e :: es => ∀ s', step s e = some s' → R s e s' ∧ EachMove R s' es

/-- Some run from `s` ends in `s'`. -/
def Reaches (s s' : σ) : Prop := ∃ es, exec step s es = some s'

/-- `I` is kept by every step. -/
def Invariant (I : σ → Prop) : Prop := ∀ s e s', I s → step s e = some s' → I s'

variable {step}

@[simp] theorem exec_nil (s : σ) : exec step s [] = some s := rfl

theorem exec_cons (s : σ) (e : ε) (es : List ε) :
    exec step s (e :: es) = (step s e).bind fun s' => exec step s' es := rfl

theorem exec_cons_some {s s' : σ} {e : ε} {es : List ε} :
    exec step s (e :: es) = some s' ↔ ∃ t, step s e = some t ∧ exec step t es = some s' := by
  rw [exec_cons, Option.bind_eq_some_iff]

theorem exec_append (s : σ) (es es' : List ε) :
    exec step s (es ++ es') = (exec step s es).bind fun s' => exec step s' es' := by
  induction es generalizing s with
  | nil => rfl
  | cons e es ih =>
    rw [List.cons_append, exec_cons, exec_cons]
    cases step s e with
    | none => rfl
    | some t => simp only [Option.bind_some, ih]

/-- What a run of invariant-keeping steps starts with, it ends with. -/
theorem Invariant.exec {I : σ → Prop} (hI : Invariant step I) {s s' : σ} {es : List ε}
    (hs : I s) (h : exec step s es = some s') : I s' := by
  induction es generalizing s with
  | nil => cases h; exact hs
  | cons e es ih =>
    obtain ⟨t, ht, htail⟩ := exec_cons_some.mp h
    exact ih (hI s e t hs ht) htail

theorem Invariant.reaches {I : σ → Prop} (hI : Invariant step I) {s s' : σ}
    (hs : I s) (h : Reaches step s s') : I s' := by
  obtain ⟨es, hes⟩ := h
  exact hI.exec hs hes

/-- An invariant that holds at the start holds in every state of the run. -/
theorem Always.of_invariant {I P : σ → Prop} (hI : Invariant step I) (hP : ∀ s, I s → P s)
    {s : σ} (hs : I s) (es : List ε) : Always step P s es := by
  induction es generalizing s with
  | nil => exact hP s hs
  | cons e es ih => exact ⟨hP s hs, fun s' hs' => ih (hI s e s' hs hs')⟩

/-- The last state of a run is one of its states. -/
theorem Always.last {P : σ → Prop} {s s' : σ} {es : List ε} (h : Always step P s es)
    (hes : exec step s es = some s') : P s' := by
  induction es generalizing s with
  | nil => cases hes; exact h
  | cons e es ih =>
    obtain ⟨t, ht, htail⟩ := exec_cons_some.mp hes
    exact ih (h.2 t ht) htail

theorem Always.head {P : σ → Prop} {s : σ} {es : List ε} (h : Always step P s es) : P s := by
  cases es with
  | nil => exact h
  | cons e es => exact h.1

theorem Always.mono {P Q : σ → Prop} (hPQ : ∀ s, P s → Q s) {s : σ} {es : List ε}
    (h : Always step P s es) : Always step Q s es := by
  induction es generalizing s with
  | nil => exact hPQ s h
  | cons e es ih => exact ⟨hPQ s h.1, fun s' hs' => ih (h.2 s' hs')⟩

/-- **Exact step conditions.** If, wherever the invariant `I` holds, a step keeps `P`
if and only if it meets `c`, then a run keeps `P` in every state if and only if every
step of it meets `c`. -/
theorem always_iff_eachStep {I P : σ → Prop} {c : σ → ε → Prop} (hI : Invariant step I)
    (hc : ∀ s e s', I s → P s → step s e = some s' → (P s' ↔ c s e))
    {s : σ} (hs : I s) (hP : P s) (es : List ε) :
    Always step P s es ↔ EachStep step c s es := by
  induction es generalizing s with
  | nil => exact ⟨fun _ => trivial, fun _ => hP⟩
  | cons e es ih =>
    constructor
    · intro h s' hs'
      have hP' : P s' := (h.2 s' hs').head
      exact ⟨(hc s e s' hs hP hs').mp hP', (ih (hI s e s' hs hs') hP').mp (h.2 s' hs')⟩
    · intro h
      refine ⟨hP, fun s' hs' => ?_⟩
      have hP' : P s' := (hc s e s' hs hP hs').mpr (h s' hs').1
      exact (ih (hI s e s' hs hs') hP').mpr (h s' hs').2

/-- A condition that is enough for a step to keep `P` is enough along a run. -/
theorem EachStep.always {I P : σ → Prop} {c : σ → ε → Prop} (hI : Invariant step I)
    (hc : ∀ s e s', I s → P s → c s e → step s e = some s' → P s')
    {s : σ} (hs : I s) (hP : P s) {es : List ε} (h : EachStep step c s es) :
    Always step P s es := by
  induction es generalizing s with
  | nil => exact hP
  | cons e es ih =>
    refine ⟨hP, fun s' hs' => ?_⟩
    obtain ⟨hce, htail⟩ := h s' hs'
    exact ih (hI s e s' hs hs') (hc s e s' hs hP hce hs') htail

theorem EachStep.and {c d : σ → ε → Prop} {s : σ} {es : List ε} (hc : EachStep step c s es)
    (hd : EachStep step d s es) : EachStep step (fun s e => c s e ∧ d s e) s es := by
  induction es generalizing s with
  | nil => trivial
  | cons e es ih =>
    intro s' hs'
    exact ⟨⟨(hc s' hs').1, (hd s' hs').1⟩, ih (hc s' hs').2 (hd s' hs').2⟩

/-- If `Q` of the state after a step is enough for the step to keep `P`, a run in which `Q`
holds throughout keeps `P`. -/
theorem Always.strengthen {I P Q : σ → Prop} (hI : Invariant step I)
    (hstep : ∀ s e s', I s → P s → step s e = some s' → Q s' → P s') {s : σ} (hs : I s) (hP : P s)
    {es : List ε} (h : Always step Q s es) : Always step P s es := by
  induction es generalizing s with
  | nil => exact hP
  | cons e es ih =>
    refine ⟨hP, fun s' hs' => ?_⟩
    have hQ : Q s' := (h.2 s' hs').head
    exact ih (hI s e s' hs hs') (hstep s e s' hs hP hs' hQ) (h.2 s' hs')

/-- A condition on the events alone is met along a run of such events. -/
theorem EachStep.of_mem {p : ε → Prop} {es : List ε} (h : ∀ e ∈ es, p e) (s : σ) :
    EachStep step (fun _ e => p e) s es := by
  induction es generalizing s with
  | nil => trivial
  | cons e es ih =>
    intro s' _
    exact ⟨h e List.mem_cons_self, ih (fun e' he' => h e' (List.mem_cons_of_mem _ he')) s'⟩

/-- If every step from a state of the invariant is an allowed move, so are the steps of a
run. -/
theorem EachMove.of_invariant {I : σ → Prop} {R : σ → ε → σ → Prop} (hI : Invariant step I)
    (hR : ∀ s e s', I s → step s e = some s' → R s e s') {s : σ} (hs : I s) (es : List ε) :
    EachMove step R s es := by
  induction es generalizing s with
  | nil => trivial
  | cons e es ih => exact fun s' hs' => ⟨hR s e s' hs hs', ih (hI s e s' hs hs')⟩

/-- If every step from a state with `P` is an allowed move, so are the steps of a run in which
`P` holds throughout. -/
theorem EachMove.of_always {P : σ → Prop} {R : σ → ε → σ → Prop}
    (hR : ∀ s e s', P s → step s e = some s' → R s e s') {s : σ} {es : List ε}
    (h : Always step P s es) : EachMove step R s es := by
  induction es generalizing s with
  | nil => trivial
  | cons e es ih => exact fun s' hs' => ⟨hR s e s' h.1 hs', ih (h.2 s' hs')⟩

/-- If a step that meets `c` keeps `I` and is an allowed move, so are the steps of a run that all
meet `c`. -/
theorem EachStep.eachMove {I : σ → Prop} {c : σ → ε → Prop} {R : σ → ε → σ → Prop}
    (hR : ∀ s e s', I s → c s e → step s e = some s' → I s' ∧ R s e s') {s : σ} (hs : I s)
    {es : List ε} (h : EachStep step c s es) : EachMove step R s es := by
  induction es generalizing s with
  | nil => trivial
  | cons e es ih =>
    intro s' hs'
    obtain ⟨hce, htail⟩ := h s' hs'
    obtain ⟨hI, hmove⟩ := hR s e s' hs hce hs'
    exact ⟨hmove, ih hI htail⟩

/-- The moves of a run after its first events are the moves of a run from the state that those
lead to. -/
theorem EachMove.of_append {R : σ → ε → σ → Prop} {s s' : σ} {es es' : List ε}
    (h : EachMove step R s (es ++ es')) (hes : exec step s es = some s') : EachMove step R s' es' := by
  induction es generalizing s with
  | nil =>
    cases hes
    exact h
  | cons e es ih =>
    obtain ⟨t, ht, htail⟩ := exec_cons_some.mp hes
    exact ih (h t ht).2 htail

/-- **Exact move conditions.** If, wherever the invariant holds, a step is an allowed move
if and only if it meets `c`, then so it is with the steps of a run. -/
theorem eachMove_iff_eachStep {I : σ → Prop} {R : σ → ε → σ → Prop} {c : σ → ε → Prop}
    (hI : Invariant step I) (hc : ∀ s e s', I s → step s e = some s' → (R s e s' ↔ c s e))
    {s : σ} (hs : I s) (es : List ε) : EachMove step R s es ↔ EachStep step c s es := by
  induction es generalizing s with
  | nil => exact Iff.rfl
  | cons e es ih =>
    constructor
    · intro h s' hs'
      exact ⟨(hc s e s' hs hs').mp (h s' hs').1, (ih (hI s e s' hs hs')).mp (h s' hs').2⟩
    · intro h s' hs'
      exact ⟨(hc s e s' hs hs').mpr (h s' hs').1, (ih (hI s e s' hs hs')).mpr (h s' hs').2⟩

/-! ## Checking a given run -/

section

variable (step)

instance decidableAlways {P : σ → Prop} [DecidablePred P] :
    ∀ (s : σ) (es : List ε), Decidable (Always step P s es)
  | s, [] => inferInstanceAs (Decidable (P s))
  | s, e :: es =>
    match h : step s e with
    | none => decidable_of_iff (P s) (by simp [Always, h])
    | some t =>
      have : Decidable (Always step P t es) := decidableAlways t es
      decidable_of_iff (P s ∧ Always step P t es) (by simp [Always, h])

instance decidableEachStep {c : σ → ε → Prop} [∀ s e, Decidable (c s e)] :
    ∀ (s : σ) (es : List ε), Decidable (EachStep step c s es)
  | _, [] => isTrue trivial
  | s, e :: es =>
    match h : step s e with
    | none => isTrue (by simp [EachStep, h])
    | some t =>
      have : Decidable (EachStep step c t es) := decidableEachStep t es
      decidable_of_iff (c s e ∧ EachStep step c t es) (by simp [EachStep, h])

end

end Run
end SomoNet
