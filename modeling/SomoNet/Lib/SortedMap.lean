import Mathlib.Tactic

/-!
# Ordered maps

`std::map`: entries in the order of their keys, with one entry for a key. What a map holds is
`find`; the order is that of an iteration over `entries`.
-/

namespace SomoNet

structure SortedMap (κ ν : Type*) [LinearOrder κ] where
  entries : List (κ × ν)
  sorted : entries.Pairwise fun a b => a.1 < b.1

namespace SortedMap

variable {κ ν : Type*} [LinearOrder κ]

def empty : SortedMap κ ν := ⟨[], .nil⟩

/-- The value under a key. -/
def find (m : SortedMap κ ν) (k : κ) : Option ν := (m.entries.find? (·.1 = k)).map Prod.snd

/-- The entries with a new one, or with another value for its key. -/
def insertEntry (k : κ) (v : ν) : List (κ × ν) → List (κ × ν)
  | [] => [(k, v)]
  | a :: as =>
    if k < a.1 then (k, v) :: a :: as
    else if k = a.1 then (k, v) :: as
    else a :: insertEntry k v as

theorem mem_insertEntry {k k' : κ} {v v' : ν} {as : List (κ × ν)}
    (has : as.Pairwise fun a b => a.1 < b.1) :
    (k', v') ∈ insertEntry k v as ↔ k' = k ∧ v' = v ∨ k' ≠ k ∧ (k', v') ∈ as := by
  induction as with
  | nil => simp [insertEntry]
  | cons a as ih =>
    obtain ⟨hlt, hrest⟩ := List.pairwise_cons.mp has
    have hne : ∀ b ∈ as, b.1 ≠ a.1 := fun b hb => (hlt b hb).ne'
    unfold insertEntry
    split_ifs with h1 h2
    · -- the new key is below all others
      have hbelow : ∀ b ∈ a :: as, b.1 ≠ k := by
        intro b hb
        rcases List.mem_cons.mp hb with rfl | hb
        · exact h1.ne'
        · exact (h1.trans (hlt b hb)).ne'
      rw [List.mem_cons, Prod.mk.injEq]
      exact or_congr Iff.rfl ⟨fun h => ⟨hbelow _ h, h⟩, And.right⟩
    · -- the key is there: its value is replaced
      subst h2
      rw [List.mem_cons, List.mem_cons, Prod.mk.injEq]
      refine or_congr Iff.rfl ⟨fun h => ⟨hne _ h, Or.inr h⟩, fun ⟨hk, h⟩ => h.resolve_left ?_⟩
      rintro rfl
      exact hk rfl
    · rw [List.mem_cons, List.mem_cons, ih hrest]
      constructor
      · rintro (rfl | h | h)
        · exact Or.inr ⟨Ne.symm h2, Or.inl rfl⟩
        · exact Or.inl h
        · exact Or.inr ⟨h.1, Or.inr h.2⟩
      · rintro (h | ⟨hk, h | h⟩)
        · exact Or.inr (Or.inl h)
        · exact Or.inl h
        · exact Or.inr (Or.inr ⟨hk, h⟩)

theorem sorted_insertEntry (k : κ) (v : ν) {as : List (κ × ν)}
    (has : as.Pairwise fun a b => a.1 < b.1) :
    (insertEntry k v as).Pairwise fun a b => a.1 < b.1 := by
  induction as with
  | nil => exact List.pairwise_singleton _ _
  | cons a as ih =>
    obtain ⟨hlt, hrest⟩ := List.pairwise_cons.mp has
    unfold insertEntry
    split_ifs with h1 h2
    · refine List.pairwise_cons.mpr ⟨fun b hb => ?_, has⟩
      rcases List.mem_cons.mp hb with rfl | hb
      · exact h1
      · exact h1.trans (hlt b hb)
    · exact List.pairwise_cons.mpr ⟨fun b hb => h2 ▸ hlt b hb, hrest⟩
    · refine List.pairwise_cons.mpr ⟨fun b hb => ?_, ih hrest⟩
      obtain ⟨k', v'⟩ := b
      rcases (mem_insertEntry hrest).mp hb with ⟨rfl, -⟩ | ⟨-, hb⟩
      · exact lt_of_le_of_ne (not_lt.mp h1) (Ne.symm h2)
      · exact hlt _ hb

/-- `m[k] = v` -/
def insert (m : SortedMap κ ν) (k : κ) (v : ν) : SortedMap κ ν :=
  ⟨insertEntry k v m.entries, sorted_insertEntry k v m.sorted⟩

/-- The entries that `p` holds of; the others are erased. -/
def filter (m : SortedMap κ ν) (p : κ → ν → Bool) : SortedMap κ ν :=
  ⟨m.entries.filter fun a => p a.1 a.2, m.sorted.filter _⟩

/-- `m.erase(k)` -/
def erase (m : SortedMap κ ν) (k : κ) : SortedMap κ ν := m.filter fun k' _ => k' ≠ k

theorem find_eq_some {m : SortedMap κ ν} {k : κ} {v : ν} :
    m.find k = some v ↔ (k, v) ∈ m.entries := by
  obtain ⟨as, has⟩ := m
  show (as.find? (·.1 = k)).map Prod.snd = some v ↔ (k, v) ∈ as
  induction as with
  | nil => simp
  | cons a as ih =>
    obtain ⟨hlt, hrest⟩ := List.pairwise_cons.mp has
    by_cases ha : a.1 = k
    · rw [List.find?_cons_of_pos (by simpa using ha), List.mem_cons]
      have hnot : (k, v) ∉ as := fun h => (hlt _ h).ne ha
      obtain ⟨k', v'⟩ := a
      cases ha
      simp [hnot, eq_comm]
    · rw [List.find?_cons_of_neg (by simpa using ha), ih hrest, List.mem_cons]
      refine ⟨Or.inr, fun h => h.resolve_left ?_⟩
      rintro rfl
      exact ha rfl

theorem find_insert (m : SortedMap κ ν) (k k' : κ) (v : ν) :
    (m.insert k v).find k' = if k' = k then some v else m.find k' := by
  refine Option.ext fun v' => ?_
  rw [find_eq_some]
  refine (mem_insertEntry m.sorted).trans ?_
  by_cases hk : k' = k
  · simp [hk, eq_comm]
  · simp [hk, find_eq_some]

theorem find_filter (m : SortedMap κ ν) (p : κ → ν → Bool) (k : κ) :
    (m.filter p).find k = (m.find k).filter (p k) := by
  refine Option.ext fun v => ?_
  rw [find_eq_some, Option.filter_eq_some_iff, find_eq_some]
  exact List.mem_filter

theorem find_erase (m : SortedMap κ ν) (k k' : κ) :
    (m.erase k).find k' = if k' = k then none else m.find k' := by
  unfold erase
  rw [find_filter]
  by_cases hk : k' = k
  · rw [if_pos hk]
    cases m.find k' <;> simp [hk]
  · rw [if_neg hk]
    cases m.find k' <;> simp [hk]

/-- Erasing some keys leaves the entries with other keys. -/
theorem entries_foldl_erase (m : SortedMap κ ν) (ks : List κ) :
    (ks.foldl erase m).entries = m.entries.filter fun a => decide (a.1 ∉ ks) := by
  induction ks generalizing m with
  | nil => simp
  | cons k ks ih =>
    rw [List.foldl_cons, ih]
    unfold erase filter
    rw [List.filter_filter]
    apply List.filter_congr
    intro a _
    by_cases hk : a.1 = k
    · simp [hk]
    · simp [hk]

theorem ext_entries {m m' : SortedMap κ ν} (h : m.entries = m'.entries) : m = m' := by
  cases m
  cases m'
  cases h
  rfl

/-- The keys of a map are the keys that something is found under. -/
theorem mem_keys_iff {m : SortedMap κ ν} {k : κ} :
    k ∈ m.entries.map Prod.fst ↔ ∃ v, m.find k = some v := by
  rw [List.mem_map]
  constructor
  · rintro ⟨⟨k', v⟩, hmem, rfl⟩
    exact ⟨v, find_eq_some.mpr hmem⟩
  · rintro ⟨v, hv⟩
    exact ⟨(k, v), find_eq_some.mp hv, rfl⟩

end SortedMap

/-- The order of `uint64_t`. -/
instance linearOrderUInt64 : LinearOrder UInt64 where
  le_refl := UInt64.le_refl
  le_trans _ _ _ := UInt64.le_trans
  lt_iff_le_not_ge a b := by
    rw [UInt64.lt_iff_toNat_lt, UInt64.le_iff_toNat_le, UInt64.le_iff_toNat_le]
    omega
  le_antisymm _ _ := UInt64.le_antisymm
  le_total := UInt64.le_total
  toDecidableLE := inferInstance
  toDecidableEq := inferInstance
  toDecidableLT := inferInstance

/-- The order of `uint32_t`. -/
instance linearOrderUInt32 : LinearOrder UInt32 where
  le_refl := UInt32.le_refl
  le_trans _ _ _ := UInt32.le_trans
  lt_iff_le_not_ge a b := by
    rw [UInt32.lt_iff_toNat_lt, UInt32.le_iff_toNat_le, UInt32.le_iff_toNat_le]
    omega
  le_antisymm _ _ := UInt32.le_antisymm
  le_total := UInt32.le_total
  toDecidableLE := inferInstance
  toDecidableEq := inferInstance
  toDecidableLT := inferInstance

end SomoNet
