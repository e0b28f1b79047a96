import Mathlib.Tactic

/-!
# Ledgers

A ledger is a log of what is done with resources: one is acquired, used, and released. The caller
names the resource, and may name none at all, which is what passing `NULL` is.

A log is *sound* if every act in it is applied to a resource that is held at that point, and
*released* if moreover every resource acquired is released exactly once. Both are read off by the
rules for one more act at the end of a log, `sound_concat` and `held_concat`.
-/

namespace SomoNet

/-- `P` holds of each element of the list and the elements before it. -/
def EachAfter {α : Type*} (P : List α → α → Prop) (l : List α) : Prop :=
  ∀ pre a post, l = pre ++ a :: post → P pre a

namespace EachAfter

variable {α : Type*} {P : List α → α → Prop}

theorem nil : EachAfter P [] := by
  intro pre a post h
  simp at h

/-- One more element at the end is looked at after all the others. -/
theorem concat_iff {l : List α} {b : α} : EachAfter P (l ++ [b]) ↔ EachAfter P l ∧ P l b := by
  constructor
  · intro h
    refine ⟨fun pre a post hl => h pre a (post ++ [b]) ?_, h l b [] rfl⟩
    rw [hl, List.append_assoc, List.cons_append]
  · intro ⟨hl, hb⟩ pre a post h
    -- the element is the new one, or there is still something behind it
    rcases List.eq_nil_or_concat post with rfl | ⟨post', c, rfl⟩
    · obtain ⟨rfl, heq⟩ := List.append_inj' h rfl
      cases heq
      exact hb
    · have hsplit : l ++ [b] = (pre ++ a :: post') ++ [c] := by
        rw [h, List.append_assoc, List.cons_append, List.concat_eq_append]
      exact hl pre a post' (List.append_inj' hsplit rfl).1

end EachAfter

namespace Ledger

variable {ρ : Type*}

/-- What a call does with a resource. -/
inductive Act (ρ : Type*)
  | acquire (r : ρ)
  | use (r : Option ρ)
  | release (r : Option ρ)
  deriving DecidableEq

/-- The resources acquired, in order. -/
def acquired (log : List (Act ρ)) : List ρ :=
  log.filterMap fun a => match a with
    | .acquire r => some r
    | _ => none

/-- The resources released, in order. -/
def released (log : List (Act ρ)) : List ρ :=
  log.filterMap fun a => match a with
    | .release r => r
    | _ => none

/-- The resource has been acquired and not released. -/
def Held (log : List (Act ρ)) (r : ρ) : Prop := r ∈ acquired log ∧ r ∉ released log

/-- The act is sound after the log: a new resource is acquired, or one that is held is used or
released. -/
def Act.Sound (log : List (Act ρ)) : Act ρ → Prop
  | .acquire r => r ∉ acquired log
  | .use r | .release r => ∃ q, r = some q ∧ Held log q

/-- Every act is sound after those before it. -/
def Sound (log : List (Act ρ)) : Prop := EachAfter Act.Sound log

/-- No act goes wrong, and every resource acquired is released exactly once. -/
structure Released [DecidableEq ρ] (log : List (Act ρ)) : Prop where
  sound : Sound log
  once : ∀ r ∈ acquired log, (released log).count r = 1

theorem sound_nil : Sound ([] : List (Act ρ)) := EachAfter.nil

theorem sound_concat {log : List (Act ρ)} {a : Act ρ} :
    Sound (log ++ [a]) ↔ Sound log ∧ a.Sound log := EachAfter.concat_iff

theorem acquired_append (log log' : List (Act ρ)) :
    acquired (log ++ log') = acquired log ++ acquired log' := List.filterMap_append

theorem released_append (log log' : List (Act ρ)) :
    released (log ++ log') = released log ++ released log' := List.filterMap_append

/-- Only what was acquired is released, and nothing twice. -/
theorem Sound.released {log : List (Act ρ)} (h : Sound log) :
    (∀ r ∈ released log, r ∈ acquired log) ∧ (released log).Nodup := by
  induction log using List.reverseRecOn with
  | nil => exact ⟨fun _ hr => absurd hr List.not_mem_nil, List.nodup_nil⟩
  | append_singleton log a ih =>
    obtain ⟨hlog, ha⟩ := sound_concat.mp h
    obtain ⟨hsub, hnodup⟩ := ih hlog
    rw [acquired_append, released_append]
    have hkept : ∀ r ∈ Ledger.released log, r ∈ acquired log ++ acquired [a] :=
      fun r hr => List.mem_append_left _ (hsub r hr)
    cases a with
    | acquire r =>
      have hnone : Ledger.released [Act.acquire r] = [] := rfl
      rw [hnone, List.append_nil]
      exact ⟨hkept, hnodup⟩
    | use r =>
      have hnone : Ledger.released [Act.use r] = [] := rfl
      rw [hnone, List.append_nil]
      exact ⟨hkept, hnodup⟩
    | release r =>
      obtain ⟨q, rfl, hmem, hnot⟩ := ha
      have hone : Ledger.released [Act.release (some q)] = [q] := rfl
      rw [hone]
      refine ⟨fun r hr => ?_, ?_⟩
      · rcases List.mem_append.mp hr with hr | hr
        · exact hkept r hr
        · rw [List.mem_singleton.mp hr]
          exact List.mem_append_left _ hmem
      · refine hnodup.append (List.nodup_singleton q) ?_
        simpa using hnot

/-- A log is released if and only if it is sound and leaves nothing held. -/
theorem released_iff [DecidableEq ρ] {log : List (Act ρ)} :
    Released log ↔ Sound log ∧ ∀ r, ¬ Held log r := by
  constructor
  · intro h
    refine ⟨h.sound, fun r ⟨hmem, hnot⟩ => ?_⟩
    have hone := h.once r hmem
    rw [List.count_eq_zero.mpr hnot] at hone
    cases hone
  · intro ⟨hsound, hnone⟩
    refine ⟨hsound, fun r hr => ?_⟩
    have hmem : r ∈ Ledger.released log := by
      by_contra hnot
      exact hnone r ⟨hr, hnot⟩
    exact List.count_eq_one_of_mem hsound.released.2 hmem

/-! ## What one more act changes -/

section

variable {log : List (Act ρ)} {r q : ρ}

/-- A resource that is acquired for the first time has not been released. -/
theorem held_acquire (hlog : Sound log) (hnew : r ∉ acquired log) :
    Held (log ++ [.acquire r]) q ↔ q = r ∨ Held log q := by
  have hacq : acquired (log ++ [.acquire r]) = acquired log ++ [r] := acquired_append _ _
  have hrel : Ledger.released (log ++ [.acquire r]) = Ledger.released log :=
    (released_append _ _).trans (List.append_nil _)
  unfold Held
  rw [hacq, hrel, List.mem_append, List.mem_singleton]
  constructor
  · rintro ⟨hq | rfl, hnot⟩
    · exact Or.inr ⟨hq, hnot⟩
    · exact Or.inl rfl
  · rintro (rfl | ⟨hq, hnot⟩)
    · exact ⟨Or.inr rfl, fun h => hnew (hlog.released.1 _ h)⟩
    · exact ⟨Or.inl hq, hnot⟩

theorem held_use {o : Option ρ} : Held (log ++ [.use o]) q ↔ Held log q := by
  have hacq : acquired (log ++ [.use o]) = acquired log :=
    (acquired_append _ _).trans (List.append_nil _)
  have hrel : Ledger.released (log ++ [.use o]) = Ledger.released log :=
    (released_append _ _).trans (List.append_nil _)
  unfold Held
  rw [hacq, hrel]

theorem held_release : Held (log ++ [.release (some r)]) q ↔ Held log q ∧ q ≠ r := by
  have hacq : acquired (log ++ [.release (some r)]) = acquired log :=
    (acquired_append _ _).trans (List.append_nil _)
  have hrel : Ledger.released (log ++ [.release (some r)]) = Ledger.released log ++ [r] :=
    released_append _ _
  unfold Held
  rw [hacq, hrel, List.mem_append, List.mem_singleton, not_or, and_assoc]

/-- What is held stays held until it is released. -/
theorem Held.concat {a : Act ρ} (h : Held log q) (ha : a ≠ .release (some q)) :
    Held (log ++ [a]) q := by
  unfold Held
  rw [acquired_append, released_append]
  refine ⟨List.mem_append_left _ h.1, fun hmem => ?_⟩
  rcases List.mem_append.mp hmem with hmem | hmem
  · exact h.2 hmem
  · obtain ⟨a', ha', hrel⟩ := List.mem_filterMap.mp hmem
    cases List.mem_singleton.mp ha'
    cases a with
    | release r => exact ha (congrArg Act.release hrel)
    | acquire _ | use _ => cases hrel

/-- Releasing makes nothing held. -/
theorem Held.of_release {o : Option ρ} (h : Held (log ++ [.release o]) q) : Held log q := by
  cases o with
  | none =>
    have hacq : acquired (log ++ [.release none]) = acquired log :=
      (acquired_append _ _).trans (List.append_nil _)
    have hrel : Ledger.released (log ++ [.release none]) = Ledger.released log :=
      (released_append _ _).trans (List.append_nil _)
    unfold Held at h
    rwa [hacq, hrel] at h
  | some r => exact (held_release.mp h).1

end

end Ledger
end SomoNet
