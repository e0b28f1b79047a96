import Mathlib.Tactic

/-!
# Data that comes in pieces

A source may report one item in several pieces and leave it to the receiver to put them together. A
receiver that puts each piece in the place of the one before ends up with the last piece, which is
the item only if the other pieces are empty (`replaced_eq_flatten_iff`). A receiver of named items
that stores each piece of a value under the last piece of its name ends up with a map that
`stored_apply` computes.
-/

namespace SomoNet
namespace Pieces

variable {α : Type*}

/-- What a receiver that held `a` holds after the pieces, when each replaces the one before. -/
def replaced (a : List α) (pieces : List (List α)) : List α := pieces.foldl (fun _ d => d) a

/-- The last piece is all there is: the others are empty, and without any there was nothing. -/
def LastIsAll (a : List α) (pieces : List (List α)) : Prop :=
  (pieces = [] → a = []) ∧ ∀ d ∈ pieces.dropLast, d = []

@[simp] theorem replaced_nil (a : List α) : replaced a [] = a := rfl

theorem replaced_concat (a : List α) (pieces : List (List α)) (d : List α) :
    replaced a (pieces ++ [d]) = d := by
  simp [replaced]

/-- **Replacing and appending** come to the same if and only if the last piece is all there is. -/
theorem replaced_eq_flatten_iff (a : List α) (pieces : List (List α)) :
    replaced a pieces = pieces.flatten ↔ LastIsAll a pieces := by
  induction pieces using List.reverseRecOn with
  | nil => simp [LastIsAll]
  | append_singleton pieces d ih =>
    rw [replaced_concat, List.flatten_append, List.flatten_singleton, LastIsAll, List.dropLast_concat]
    constructor
    · intro h
      have hnil : pieces.flatten = [] := List.self_eq_append_left.mp h
      exact ⟨by simp, fun d' hd' => List.flatten_eq_nil_iff.mp hnil d' hd'⟩
    · intro ⟨_, hempty⟩
      rw [List.flatten_eq_nil_iff.mpr hempty, List.nil_append]

/-- An item that is reported, in one piece at least. -/
structure Item (α : Type*) where
  pieces : List (List α)
  ne_nil : pieces ≠ []

namespace Item

/-- The item. -/
def whole (item : Item α) : List α := item.pieces.flatten

/-- Its last piece. -/
def last (item : Item α) : List α := item.pieces.getLast item.ne_nil

theorem replaced_eq (item : Item α) (a : List α) : replaced a item.pieces = item.last := by
  rw [last]
  conv_lhs => rw [← List.dropLast_concat_getLast item.ne_nil, replaced_concat]

theorem last_eq_whole_iff (item : Item α) : item.last = item.whole ↔ LastIsAll [] item.pieces := by
  rw [← replaced_eq_flatten_iff, item.replaced_eq]
  rfl

end Item

/-! ## Named items -/

/-- A value with its name. -/
structure Named (α : Type*) where
  name : Item α
  value : Item α

/-- What a receiver stores for one of them, piece by piece. -/
def Named.entries (x : Named α) : List (List α × List α) :=
  x.value.pieces.map fun d => (x.name.last, d)

variable [DecidableEq α]

/-- The last of the values that have the name. -/
def named (xs : List (Named α)) (name : List α) : Option (Named α) :=
  xs.reverse.find? fun x => x.name.whole = name

/-- The last of the values whose names end in the piece. -/
def filed (xs : List (Named α)) (name : List α) : Option (Named α) :=
  xs.reverse.find? fun x => x.name.last = name

/-- With names in one piece the two find the same. -/
theorem filed_eq_named {xs : List (Named α)} (h : ∀ x ∈ xs, LastIsAll [] x.name.pieces)
    (name : List α) : filed xs name = named xs name := by
  refine List.find?_congr fun x hx => ?_
  rw [x.name.last_eq_whole_iff.mpr (h x (List.mem_reverse.mp hx))]

/-- Entries put into a map, one after the other. -/
def stored (m : List α → Option (List α)) (entries : List (List α × List α)) :
    List α → Option (List α) :=
  entries.foldl (fun m e => Function.update m e.1 (some e.2)) m

theorem stored_append (m : List α → Option (List α)) (es es' : List (List α × List α)) :
    stored m (es ++ es') = stored (stored m es) es' := List.foldl_append

/-- Of the pieces of one value the last one stays. -/
theorem stored_entries (m : List α → Option (List α)) (x : Named α) :
    stored m x.entries = Function.update m x.name.last (some x.value.last) := by
  have hpieces := List.dropLast_concat_getLast x.value.ne_nil
  have hentries : x.entries = (x.value.pieces.dropLast.map fun d => (x.name.last, d)) ++
      [(x.name.last, x.value.last)] := by
    rw [Named.entries, ← hpieces, List.map_append]
    simp [Item.last]
  rw [hentries, stored_append]
  -- the pieces before it were stored in the same place
  generalize x.value.pieces.dropLast = ds
  induction ds generalizing m with
  | nil => rfl
  | cons d ds ih =>
    have hrest := ih (Function.update m x.name.last (some d))
    rw [Function.update_idem] at hrest
    exact hrest

/-- **What is stored** under a name. -/
theorem stored_apply (m : List α → Option (List α)) (xs : List (Named α)) (name : List α) :
    stored m (xs.flatMap Named.entries) name =
      ((filed xs name).map fun x => x.value.last).or (m name) := by
  induction xs using List.reverseRecOn with
  | nil => rfl
  | append_singleton xs x ih =>
    rw [List.flatMap_append, List.flatMap_singleton, stored_append, stored_entries, filed,
      List.reverse_concat]
    by_cases h : x.name.last = name
    · rw [List.find?_cons_of_pos (by simpa using h), h, Function.update_self]
      rfl
    · rw [List.find?_cons_of_neg (by simpa using h), Function.update_of_ne (Ne.symm h), ih]
      rfl

end Pieces
end SomoNet
