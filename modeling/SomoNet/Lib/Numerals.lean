import Mathlib.Data.List.TakeWhile
import Mathlib.Tactic

/-!
# Numerals in a stream

What the stream operators of the C++ library do with unsigned numbers in the C locale: insertion
writes a numeral, and extraction skips white space, reads a sign and digits, and stores what they
say. A stream is the list of its bytes.
-/

namespace Numerals

/-! ## Digits -/

/-- The value of a character as a digit; no base has a digit worth 16. -/
def digitVal (c : UInt8) : ℕ :=
  if 48 ≤ c.toNat ∧ c.toNat ≤ 57 then c.toNat - 48
  else if 97 ≤ c.toNat ∧ c.toNat ≤ 102 then c.toNat - 87
  else if 65 ≤ c.toNat ∧ c.toNat ≤ 70 then c.toNat - 55
  else 16

def isDigit (b : ℕ) (c : UInt8) : Bool := digitVal c < b

/-- What a row of digits is worth. -/
def value (b : ℕ) (digits : List UInt8) : ℕ := digits.foldl (fun v c => b * v + digitVal c) 0

/-- The characters that an insertion writes for an unsigned number. -/
def numeral (b n : ℕ) : List UInt8 := (Nat.toDigits b n).map fun c => c.toNat.toUInt8

theorem digitVal_digitChar {d : ℕ} (hd : d < 16) : digitVal (Nat.digitChar d).toNat.toUInt8 = d := by
  have hall : ∀ d : Fin 16, digitVal (Nat.digitChar d.val).toNat.toUInt8 = d.val := by decide
  exact hall ⟨d, hd⟩

theorem value_concat (b : ℕ) (digits : List UInt8) (c : UInt8) :
    value b (digits ++ [c]) = b * value b digits + digitVal c := by
  simp [value]

section

variable {b : ℕ} (hlo : 1 < b) (hhi : b ≤ 16)
include hlo hhi

/-- **A numeral reads back**: its digits are worth the number that it was written for. -/
theorem value_numeral (n : ℕ) : value b (numeral b n) = n := by
  induction n using Nat.strong_induction_on with
  | _ n ih =>
    by_cases hn : n < b
    · have hone : numeral b n = [] ++ [(Nat.digitChar n).toNat.toUInt8] := by
        simp [numeral, Nat.toDigits_of_lt_base hn]
      rw [hone, value_concat, digitVal_digitChar (by omega)]
      simp [value]
    · have hmod : n % b < b := Nat.mod_lt n (by omega)
      have hsplit : numeral b n =
          numeral b (n / b) ++ [(Nat.digitChar (n % b)).toNat.toUInt8] := by
        simp [numeral, Nat.toDigits_of_base_le hlo (by omega : b ≤ n)]
      rw [hsplit, value_concat, ih (n / b) (Nat.div_lt_self (by omega) hlo),
        digitVal_digitChar (by omega)]
      exact Nat.div_add_mod n b

theorem isDigit_of_mem_numeral {n : ℕ} {c : UInt8} (hc : c ∈ numeral b n) : isDigit b c = true := by
  induction n using Nat.strong_induction_on with
  | _ n ih =>
    have hlast : ∀ d < b, isDigit b (Nat.digitChar d).toNat.toUInt8 = true := by
      intro d hd
      simp [isDigit, digitVal_digitChar (by omega : d < 16), hd]
    by_cases hn : n < b
    · rw [numeral, Nat.toDigits_of_lt_base hn, List.map_singleton, List.mem_singleton] at hc
      rw [hc]
      exact hlast n hn
    · rw [numeral, Nat.toDigits_of_base_le hlo (by omega : b ≤ n), List.map_append,
        List.mem_append, List.map_singleton, List.mem_singleton] at hc
      rcases hc with hc | hc
      · exact ih (n / b) (Nat.div_lt_self (by omega) hlo) hc
      · rw [hc]
        exact hlast _ (Nat.mod_lt n (by omega))

end

theorem numeral_ne_nil (b n : ℕ) : numeral b n ≠ [] := by
  simp [numeral, Nat.toDigits_ne_nil]

/-! ## Extraction -/

/-- `isspace` in the C locale. -/
def isspace (c : UInt8) : Bool := c.toNat == 32 || (9 ≤ c.toNat && c.toNat ≤ 13)

/-- `operator>>` into a string: a word, with the white space before it skipped. -/
def extractWord (s : List UInt8) : List UInt8 :=
  (s.dropWhile isspace).takeWhile fun c => !isspace c

/-- What is stored for the characters behind the sign: 0 where there is no digit, the maximum where
the digits are worth too much. -/
def convert (w : ℕ) (negative : Bool) (field : List UInt8) : BitVec w :=
  let digits := field.takeWhile (isDigit 10)
  if digits = [] then 0
  else if 2 ^ w ≤ value 10 digits then BitVec.allOnes w
  else if negative then -BitVec.ofNat w (value 10 digits)
  else BitVec.ofNat w (value 10 digits)

/-- `operator>>` into an unsigned integer of `w` bits that holds `val` so far, which is `none` when
it is indeterminate. At the end of the stream nothing is stored. -/
def extract (w : ℕ) (s : List UInt8) (val : Option (BitVec w)) : Option (BitVec w) :=
  match s.dropWhile isspace with
  | [] => val
  | c :: cs =>
    -- a minus sign, a plus sign, or none
    if c = 45 then some (convert w true cs)
    else if c = 43 then some (convert w false cs)
    else some (convert w false (c :: cs))

/-- **What is stored**: something for every stream that is not blank, and nothing otherwise. -/
theorem extract_isSome_iff (w : ℕ) (s : List UInt8) :
    (extract w s none).isSome = true ↔ ∃ c ∈ s, isspace c = false := by
  have hblank : s.dropWhile isspace = [] ↔ ∀ c ∈ s, isspace c = true := List.dropWhile_eq_nil_iff
  unfold extract
  split
  next hnil =>
    have hall := hblank.mp hnil
    simp only [Option.isSome_none, Bool.false_eq_true, false_iff]
    rintro ⟨c, hc, hnot⟩
    rw [hall c hc] at hnot
    contradiction
  next c cs hcons =>
    have hsome : ∃ c ∈ s, isspace c = false := by
      by_contra hnone
      have hnil : s.dropWhile isspace = [] := by
        apply hblank.mpr
        intro c hc
        by_contra hnot
        exact hnone ⟨c, hc, by simpa using hnot⟩
      rw [hnil] at hcons
      contradiction
    have hstored : (if c = 45 then some (convert w true cs)
        else if c = 43 then some (convert w false cs)
        else some (convert w false (c :: cs))).isSome = true := by
      split
      · rfl
      · split <;> rfl
    exact iff_of_true hstored hsome

theorem not_isspace_of_isDigit {c : UInt8} (hc : isDigit 10 c = true) :
    isspace c = false ∧ c ≠ 45 ∧ c ≠ 43 := by
  have hrange : 48 ≤ c.toNat ∧ c.toNat ≤ 57 := by
    unfold isDigit at hc
    have hlt : digitVal c < 10 := of_decide_eq_true hc
    unfold digitVal at hlt
    split_ifs at hlt <;> omega
  refine ⟨?_, ?_, ?_⟩
  · simp only [isspace, Bool.or_eq_false_iff, beq_eq_false_iff_ne, Bool.and_eq_false_iff,
      decide_eq_false_iff_not]
    omega
  · rintro rfl
    revert hrange
    decide
  · rintro rfl
    revert hrange
    decide

/-- A word by itself is extracted as it is. -/
theorem extractWord_eq {s : List UInt8} (hs : ∀ c ∈ s, isspace c = false) : extractWord s = s := by
  have hdrop : s.dropWhile isspace = s := by
    rw [List.dropWhile_eq_self_iff]
    intro hpos
    simp [hs _ (List.getElem_mem hpos)]
  rw [extractWord, hdrop, List.takeWhile_eq_self_iff]
  intro c hc
  simp [hs c hc]

/-- **An extraction undoes an insertion** of a number that the integer can hold. -/
theorem extract_numeral {w n : ℕ} (hn : n < 2 ^ w) (val : Option (BitVec w)) :
    extract w (numeral 10 n) val = some (BitVec.ofNat w n) := by
  have hdigits : ∀ c ∈ numeral 10 n, isDigit 10 c = true := fun c hc =>
    isDigit_of_mem_numeral (by omega) (by omega) hc
  have htake : (numeral 10 n).takeWhile (isDigit 10) = numeral 10 n :=
    List.takeWhile_eq_self_iff.mpr hdigits
  have hconvert : convert w false (numeral 10 n) = BitVec.ofNat w n := by
    have hvalue : value 10 (numeral 10 n) = n := value_numeral (by omega) (by omega) n
    simp [convert, htake, hvalue, numeral_ne_nil, Nat.not_le.mpr hn]
  rcases hs : numeral 10 n with _ | ⟨c, cs⟩
  · exact absurd hs (numeral_ne_nil 10 n)
  · obtain ⟨hspace, hminus, hplus⟩ := not_isspace_of_isDigit (hdigits c (by simp [hs]))
    have hdrop : (c :: cs).dropWhile isspace = c :: cs :=
      List.dropWhile_cons_of_neg (by simp [hspace])
    rw [hs] at hconvert
    simp only [extract, hdrop, if_neg hminus, if_neg hplus, hconvert]

/-! ## Lists of numerals -/

/-- The number that a numeral stands for, and none for anything else. -/
def readNumeral (b : ℕ) (s : List UInt8) : Option ℕ :=
  if !s.isEmpty && s.all (isDigit b) then some (value b s) else none

/-- The numbers of a text, with a separator between each and the next. -/
def readSeparated (b : ℕ) (sep : UInt8) (s : List UInt8) : Option (List ℕ) :=
  if s = [] then some [] else (s.splitOn sep).mapM (readNumeral b)

/-- The text of some numbers, with a separator between each and the next. -/
def separated (b : ℕ) (sep : UInt8) : List ℕ → List UInt8
  | [] => []
  | n :: ns => numeral b n ++ ns.flatMap fun m => sep :: numeral b m

theorem length_splitOn (sep : UInt8) (s : List UInt8) :
    (s.splitOn sep).length = s.count sep + 1 := by
  induction s with
  | nil => rfl
  | cons c s ih =>
    rw [List.splitOn_cons_eq_if_modifyHead, List.count_cons]
    split
    · rw [List.length_cons, ih]
    · rw [List.length_modifyHead, ih]

theorem length_of_mapM {f : List UInt8 → Option ℕ} {pieces : List (List UInt8)} {ns : List ℕ}
    (h : pieces.mapM f = some ns) : ns.length = pieces.length := by
  induction pieces generalizing ns with
  | nil =>
    cases h
    rfl
  | cons piece pieces ih =>
    rw [List.mapM_cons] at h
    obtain ⟨n, -, htail⟩ := Option.bind_eq_some_iff.mp h
    obtain ⟨ns', hns', heq⟩ := Option.bind_eq_some_iff.mp htail
    cases heq
    rw [List.length_cons, List.length_cons, ih hns']

/-- A text that can be read has one separator less than it has numbers. -/
theorem length_of_readSeparated {b : ℕ} {sep : UInt8} {s : List UInt8} {ns : List ℕ} (hs : s ≠ [])
    (h : readSeparated b sep s = some ns) : ns.length = s.count sep + 1 := by
  unfold readSeparated at h
  rw [if_neg hs] at h
  rw [length_of_mapM h, length_splitOn]

section

variable {b : ℕ} (hlo : 1 < b) (hhi : b ≤ 16)
include hlo hhi

theorem readNumeral_numeral (n : ℕ) : readNumeral b (numeral b n) = some n := by
  have hsome : (!(numeral b n).isEmpty) = true := by
    simp [numeral_ne_nil]
  have hdigits : (numeral b n).all (isDigit b) = true :=
    List.all_eq_true.mpr fun c hc => isDigit_of_mem_numeral hlo hhi hc
  unfold readNumeral
  rw [hsome, hdigits, value_numeral hlo hhi]
  rfl

theorem mapM_readNumeral (ns : List ℕ) :
    (ns.map (numeral b)).mapM (readNumeral b) = some ns := by
  induction ns with
  | nil => rfl
  | cons n ns ih =>
    rw [List.map_cons, List.mapM_cons, readNumeral_numeral hlo hhi, ih]
    rfl

variable {sep : UInt8} (hsep : isDigit b sep = false)
include hsep

/-- No separator is taken for a digit. -/
theorem not_mem_numeral (n : ℕ) : sep ∉ numeral b n := by
  intro h
  rw [isDigit_of_mem_numeral hlo hhi h] at hsep
  contradiction

theorem splitOn_separated (n : ℕ) (ns : List ℕ) :
    (separated b sep (n :: ns)).splitOn sep = (n :: ns).map (numeral b) := by
  induction ns generalizing n with
  | nil =>
    show (numeral b n ++ []).splitOn sep = [numeral b n]
    rw [List.append_nil]
    exact List.splitOn_eq_singleton (not_mem_numeral hlo hhi hsep n)
  | cons m ns ih =>
    show (numeral b n ++ sep :: separated b sep (m :: ns)).splitOn sep = _
    rw [List.splitOn_append_cons_self_of_not_mem (not_mem_numeral hlo hhi hsep n), ih m]
    rfl

/-- **A list of numerals reads back**, for any number of numbers. -/
theorem readSeparated_separated (ns : List ℕ) :
    readSeparated b sep (separated b sep ns) = some ns := by
  cases ns with
  | nil => rfl
  | cons n ns =>
    have hne : separated b sep (n :: ns) ≠ [] :=
      List.append_ne_nil_of_left_ne_nil (numeral_ne_nil b n) _
    unfold readSeparated
    rw [if_neg hne, splitOn_separated hlo hhi hsep, mapM_readNumeral hlo hhi]

end

end Numerals
