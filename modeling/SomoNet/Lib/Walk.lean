import Mathlib.Tactic

/-!
# Walks over a buffer

The loop `for (p = buf + i; p < buf + i + n; p++)`: a body that sees the position and the element
there, and that may leave the loop early. A walk whose range is not inside the buffer reads past its
end, which is an outcome of its own; inside the buffer the walk goes over the elements of the range
and nothing else (`walk_eq`).
-/

namespace Walk

variable {α σ ε : Type*}

/-- The loop over `n` elements from the position `i`; `out` is what reading past the end leads to. -/
def walk (out : ε) (buf : List α) (f : σ → ℕ → α → Except ε σ) : σ → ℕ → ℕ → Except ε σ
  | s, _, 0 => .ok s
  | s, i, n + 1 =>
    match buf[i]? with
    | none => .error out
    | some a => (f s i a).bind fun t => walk out buf f t (i + 1) n

/-- The loop over the elements of a list that begins at the position `i`. -/
def along (f : σ → ℕ → α → Except ε σ) : σ → ℕ → List α → Except ε σ
  | s, _, [] => .ok s
  | s, i, a :: as => (f s i a).bind fun t => along f t (i + 1) as

variable {out : ε} {buf : List α} {f : σ → ℕ → α → Except ε σ}

@[simp] theorem along_nil (s : σ) (i : ℕ) : along f s i [] = .ok s := rfl

theorem along_cons (s : σ) (i : ℕ) (a : α) (as : List α) :
    along f s i (a :: as) = (f s i a).bind fun t => along f t (i + 1) as := rfl

theorem bind_assoc {β γ : Type*} (x : Except ε σ) (g : σ → Except ε β) (h : β → Except ε γ) :
    (x.bind g).bind h = x.bind fun t => (g t).bind h := by
  cases x <;> rfl

theorem along_append (s : σ) (i : ℕ) (as bs : List α) :
    along f s i (as ++ bs) = (along f s i as).bind fun t => along f t (i + as.length) bs := by
  induction as generalizing s i with
  | nil => rfl
  | cons a as ih =>
    have hlen : i + (a :: as).length = i + 1 + as.length := by
      rw [List.length_cons]
      omega
    rw [List.cons_append, along_cons, along_cons, bind_assoc, hlen]
    congr 1
    funext t
    exact ih t (i + 1)

/-- A body that counts. -/
theorem along_count {g : ℕ → σ} {as : List α}
    (h : ∀ a ∈ as, ∀ n i, f (g n) i a = .ok (g (n + 1))) (n i : ℕ) :
    along f (g n) i as = .ok (g (n + as.length)) := by
  induction as generalizing n i with
  | nil => rfl
  | cons a as ih =>
    have hlen : n + (a :: as).length = n + 1 + as.length := by
      rw [List.length_cons]
      omega
    rw [along_cons, h a List.mem_cons_self, hlen]
    exact ih (fun a' ha' => h a' (List.mem_cons_of_mem _ ha')) (n + 1) (i + 1)

/-- A walk inside the buffer goes over the elements of its range. -/
theorem walk_eq (s : σ) {i n : ℕ} (h : i + n ≤ buf.length) :
    walk out buf f s i n = along f s i ((buf.drop i).take n) := by
  induction n generalizing s i with
  | zero => rfl
  | succ n ih =>
    have hi : i < buf.length := by omega
    rw [walk, List.getElem?_eq_getElem hi, List.drop_eq_getElem_cons hi, List.take_succ_cons, along_cons]
    dsimp only
    congr 1
    funext t
    exact ih t (by omega)

/-- A walk over the whole buffer. -/
theorem walk_all (s : σ) : walk out buf f s 0 buf.length = along f s 0 buf := by
  rw [walk_eq s (by omega), List.drop_zero, List.take_length]

/-! ## Outcomes -/

/-- The outcome is not `bad`, and a result has `P`. -/
def Safe (bad : ε) (P : σ → Prop) (x : Except ε σ) : Prop := x ≠ .error bad ∧ ∀ t, x = .ok t → P t

variable {bad : ε}

theorem safe_ok {P : σ → Prop} {s : σ} (h : P s) : Safe bad P (.ok s) := by
  refine ⟨fun hbad => (by cases hbad), fun t ht => ?_⟩
  cases ht
  exact h

theorem safe_error {P : σ → Prop} {e : ε} (h : e ≠ bad) : Safe bad P (.error e : Except ε σ) :=
  ⟨fun hbad => h (Except.error.inj hbad), fun t ht => (by cases ht)⟩

theorem Safe.bind {β : Type*} {P : σ → Prop} {Q : β → Prop} {x : Except ε σ} {g : σ → Except ε β}
    (hx : Safe bad P x) (hg : ∀ t, P t → Safe bad Q (g t)) : Safe bad Q (x.bind g) := by
  cases x with
  | error e => exact safe_error fun he => hx.1 (congrArg _ he)
  | ok t => exact hg t (hx.2 t rfl)

/-- **Invariants**: what the body keeps from one position to the next holds at the end of a loop
inside the buffer, and an outcome that the body does not have is not that of the loop. -/
theorem walk_safe {I : ℕ → σ → Prop}
    (hstep : ∀ s i a, i < buf.length → I i s → Safe bad (I (i + 1)) (f s i a))
    {s : σ} {i n : ℕ} (hs : I i s) (h : i + n ≤ buf.length) :
    Safe bad (I (i + n)) (walk out buf f s i n) := by
  induction n generalizing s i with
  | zero => exact safe_ok hs
  | succ n ih =>
    have hi : i < buf.length := by omega
    rw [walk, List.getElem?_eq_getElem hi, show i + (n + 1) = i + 1 + n by omega]
    exact (hstep s i buf[i] hi hs).bind fun t ht => ih ht (by omega)

end Walk
