import Mathlib.Tactic

/-!
# Leases

A table of leases sees one event at a time: a key is renewed, or whatever has expired is swept
out. What it holds after some events are the leases that were renewed and have neither been renewed
again nor been swept out since (`held_eq_some_iff`).
-/

namespace Leases

/-- What happens to the leases. -/
inductive Event (κ τ : Type*)
  | renew (k : κ) (t : τ)
  | sweep (expired : τ → Bool)
  | idle

variable {κ τ : Type*}

/-- The event leaves alone the lease of `k` that was renewed at `t`. -/
def Event.Spares (k : κ) (t : τ) : Event κ τ → Prop
  | .renew k' _ => k' ≠ k
  | .sweep expired => expired t = false
  | .idle => True

/-- The lease was renewed at `t`, and all events since have left it alone. -/
def Lasts (es : List (Event κ τ)) (k : κ) (t : τ) : Prop :=
  ∃ before after, es = before ++ .renew k t :: after ∧ ∀ e ∈ after, e.Spares k t

variable {es : List (Event κ τ)} {e : Event κ τ} {k : κ} {t : τ}

theorem not_lasts_nil : ¬ Lasts ([] : List (Event κ τ)) k t := by
  rintro ⟨before, after, heq, -⟩
  simp at heq

/-- One more event. -/
theorem lasts_concat : Lasts (es ++ [e]) k t ↔ e = .renew k t ∨ Lasts es k t ∧ e.Spares k t := by
  constructor
  · rintro ⟨before, after, heq, hafter⟩
    -- the last event is the renewal, or one of those that spare the lease
    obtain rfl | ⟨after, e', rfl⟩ := List.eq_nil_or_concat after
    · obtain ⟨-, he⟩ := List.append_inj' heq rfl
      exact Or.inl (List.singleton_inj.mp he)
    · have hsplit : es ++ [e] = (before ++ .renew k t :: after) ++ [e'] := by
        rw [heq, List.concat_eq_append, List.append_assoc, List.cons_append]
      obtain ⟨hes, he⟩ := List.append_inj' hsplit rfl
      obtain rfl := List.singleton_inj.mp he
      have hspares := hafter e (by simp)
      exact Or.inr ⟨⟨before, after, hes, fun e' he' => hafter e' (by simp [he'])⟩, hspares⟩
  · rintro (rfl | ⟨⟨before, after, rfl, hafter⟩, hspares⟩)
    · exact ⟨es, [], rfl, by simp⟩
    · refine ⟨before, after ++ [e], by simp, fun e' he' => ?_⟩
      rcases List.mem_append.mp he' with he' | he'
      · exact hafter e' he'
      · rwa [List.mem_singleton.mp he']

variable [DecidableEq κ]

/-- The leases after an event. -/
def act (m : κ → Option τ) : Event κ τ → κ → Option τ
  | .renew k t => Function.update m k (some t)
  | .sweep expired => fun k => (m k).filter fun t => !expired t
  | .idle => m

/-- The leases after some events, when there were none before. -/
def held (es : List (Event κ τ)) : κ → Option τ := es.foldl act fun _ => none

theorem held_concat : held (es ++ [e]) = act (held es) e := by
  unfold held
  rw [List.foldl_append]
  rfl

theorem act_eq_some_iff {m : κ → Option τ} :
    act m e k = some t ↔ e = .renew k t ∨ m k = some t ∧ e.Spares k t := by
  cases e with
  | renew k' t' =>
    by_cases hk : k' = k
    · subst hk
      simp [act, Event.Spares]
    · simp [act, Event.Spares, hk, Ne.symm hk]
  | sweep expired => simp [act, Event.Spares, Option.filter_eq_some_iff]
  | idle => simp [act, Event.Spares]

/-- **What is held** are the leases that last. -/
theorem held_eq_some_iff : held es k = some t ↔ Lasts es k t := by
  induction es using List.reverseRecOn with
  | nil => exact iff_of_false (by simp [held]) not_lasts_nil
  | append_singleton es e ih => rw [held_concat, act_eq_some_iff, lasts_concat, ih]

end Leases
