import SomoNet.HttpMessage
import SomoNet.Lib.Numerals
import SomoNet.Lib.SortedMap

/-!
# `format`: numbers as text

`uint2strN` prints a number, `str2uintN` parses one. The parsers extract into a local variable that
they do not initialise, so that what they return is indeterminate where the extraction stores
nothing.

`uintNids2str` prints a set of ids. A counter decides about the comma before each id, and it is an
`int`, whose overflow C++ does not define. What becomes of it is up to the compiler (`Overflow`), and
with it how many ids there is room for.
-/

namespace SomoNet.Format

open Numerals

/-! ## Printing -/

/-- `ss << i; ss >> str;` -/
def uint2str {w : ℕ} (i : BitVec w) : Bytes :=
  let ss := numeral 10 i.toNat
  extractWord ss

def uint2str16 (i : BitVec 16) : Bytes := uint2str i

def uint2str32 (i : BitVec 32) : Bytes := uint2str i

def uint2str64 (i : BitVec 64) : Bytes := uint2str i

/-- The way through the stream changes nothing: what is printed is the numeral. -/
theorem uint2str_eq {w : ℕ} (i : BitVec w) : uint2str i = numeral 10 i.toNat := by
  apply extractWord_eq
  intro c hc
  have hdigit : isDigit 10 c = true := isDigit_of_mem_numeral (by omega) (by omega) hc
  exact (not_isspace_of_isDigit hdigit).1

/-- The status line of a response has the number as `format` prints it. -/
theorem uint2str32_eq (i : BitVec 32) : uint2str32 i = SomoNet.uint2str32 i.toNat :=
  uint2str_eq i

/-! ## Parsing -/

/-- `uintN_t val; ss << str; ss >> val; return val;`; the value is `none` where `val` is still
indeterminate. -/
def str2uint (w : ℕ) (str : Bytes) : Option (BitVec w) :=
  let val : Option (BitVec w) := none
  let ss := str
  extract w ss val

def str2uint16 (str : Bytes) : Option (BitVec 16) := str2uint 16 str

def str2uint32 (str : Bytes) : Option (BitVec 32) := str2uint 32 str

def str2uint64 (str : Bytes) : Option (BitVec 64) := str2uint 64 str

/-- Parsing undoes printing, whatever the number. -/
theorem str2uint_uint2str {w : ℕ} (i : BitVec w) : str2uint w (uint2str i) = some i := by
  have hread : extract w (numeral 10 i.toNat) none = some (BitVec.ofNat w i.toNat) :=
    extract_numeral i.isLt none
  have hback : BitVec.ofNat w i.toNat = i := by simp
  rw [uint2str_eq]
  show extract w (numeral 10 i.toNat) none = some i
  rw [hread, hback]

/-! ## What the parsers promise -/

/-- Parsing undoes printing, and what it returns for `s` has been assigned. -/
def Converts {w : ℕ} (uint2str : BitVec w → Bytes) (str2uint : Bytes → Option (BitVec w))
    (s : Bytes) : Prop :=
  (∀ i, str2uint (uint2str i) = some i) ∧ (str2uint s).isSome = true

theorem converts_str2uint (w : ℕ) (s : Bytes) :
    Converts uint2str (str2uint w) s ↔ ∃ c ∈ s, isspace c = false := by
  have hassigned : (str2uint w s).isSome = true ↔ ∃ c ∈ s, isspace c = false :=
    extract_isSome_iff w s
  constructor
  · intro h
    exact hassigned.mp h.2
  · intro htext
    exact ⟨str2uint_uint2str, hassigned.mpr htext⟩

-- A number that is too large, one with a sign, and none at all.
example : str2uint16 (bytes "70000") = some 65535#16 ∧ str2uint16 (bytes " -1x") = some 65535#16 ∧
    str2uint16 (bytes "port") = some 0#16 := by decide

/-- **The parsers are defined on exactly the strings that are not blank**, whatever their width. -/
theorem converts_iff (s : Bytes) :
    (Converts uint2str16 str2uint16 s ↔ ∃ c ∈ s, isspace c = false) ∧
      (Converts uint2str32 str2uint32 s ↔ ∃ c ∈ s, isspace c = false) ∧
      (Converts uint2str64 str2uint64 s ↔ ∃ c ∈ s, isspace c = false) :=
  ⟨converts_str2uint 16 s, converts_str2uint 32 s, converts_str2uint 64 s⟩

/-- No parser assigns anything for the empty string. -/
theorem not_converts_empty :
    ¬ Converts uint2str16 str2uint16 [] ∧ ¬ Converts uint2str32 str2uint32 [] ∧
      ¬ Converts uint2str64 str2uint64 [] :=
  ⟨fun h => absurd h.2 (by decide), fun h => absurd h.2 (by decide), fun h => absurd h.2 (by decide)⟩

/-! ## Printing sets of ids -/

/-- What the compiler makes of the overflow of `idx`. -/
inductive Overflow
  /-- The `int` wraps around, as without optimisation or with `-fwrapv`. -/
  | wraps
  /-- The `int` is assumed not to overflow, as by g++ at the `-O2` of the Makefile: since it counts
  up from 0, the test `idx > 0` of its 32 bits is compiled as `idx != 0`. -/
  | assumed
  deriving DecidableEq

/-- What is compiled for `idx > 0`. -/
def Overflow.positive (ov : Overflow) (idx : ℤ) : Bool :=
  match ov with
  | .wraps => idx > 0
  | .assumed => idx ≠ 0

/-- The number of ids after which the counter is taken for 0 again, or for less. -/
def Overflow.room : Overflow → ℕ
  | .wraps => 2147483648
  | .assumed => 4294967296

/-- The variables of the loop over the ids. -/
structure IdsPrinter where
  /-- an `int`, in 32 bits -/
  idx : ℤ
  oss : Bytes

/-- `if (idx++ > 0) oss << ","; oss << *io;` -/
def IdsPrinter.put (ov : Overflow) (base : ℕ) (st : IdsPrinter) (io : ℕ) : IdsPrinter :=
  let oss := if ov.positive st.idx then st.oss ++ bytes "," else st.oss
  { idx := toInt32 (st.idx + 1), oss := oss ++ numeral base io }

/-- The base that `oss` writes in: `std::hex` in the hexadecimal style. -/
def base (hexStyle : Bool) : ℕ := if hexStyle then 16 else 10

/-- The common body of the two functions, on the ids in the order of the iteration. -/
def ids2str (ov : Overflow) (ids : List ℕ) (hexStyle : Bool) : Bytes :=
  let st : IdsPrinter := ⟨0, bytes "["⟩
  let st := ids.foldl (IdsPrinter.put ov (base hexStyle)) st
  st.oss ++ bytes "]"

/-- The ids of a `std::set`, in ascending order. -/
def numbers {κ : Type*} [LinearOrder κ] (toNat : κ → ℕ) (ids : SortedMap κ Unit) : List ℕ :=
  ids.entries.map fun a => toNat a.1

def uint32ids2str (ov : Overflow) (ids : SortedMap UInt32 Unit) (hexStyle : Bool) : Bytes :=
  ids2str ov (numbers UInt32.toNat ids) hexStyle

def uint64ids2str (ov : Overflow) (ids : SortedMap UInt64 Unit) (hexStyle : Bool) : Bytes :=
  ids2str ov (numbers UInt64.toNat ids) hexStyle

/-! ## What the loop writes -/

def comma : UInt8 := 44

/-- What is written for the ids from the index `k` on. -/
def written (ov : Overflow) (b : ℕ) : ℕ → List ℕ → Bytes
  | _, [] => []
  | k, id :: ids =>
    (if ov.positive (toInt32 k) then [comma] else []) ++ numeral b id ++ written ov b (k + 1) ids

/-- **The loop**: the counter is the index as an `int`, and the text grows by what is written. -/
theorem foldl_put (ov : Overflow) (b k : ℕ) (oss : Bytes) (ids : List ℕ) :
    (ids.foldl (IdsPrinter.put ov b) ⟨toInt32 k, oss⟩).oss = oss ++ written ov b k ids := by
  induction ids generalizing k oss with
  | nil => simp [written]
  | cons id ids ih =>
    have hput : IdsPrinter.put ov b ⟨toInt32 k, oss⟩ id =
        ⟨toInt32 ((k + 1 : ℕ) : ℤ),
          oss ++ ((if ov.positive (toInt32 k) then [comma] else []) ++ numeral b id)⟩ := by
      have hidx : toInt32 (toInt32 k + 1) = toInt32 ((k + 1 : ℕ) : ℤ) :=
        toInt32_toInt32_add_one k
      unfold IdsPrinter.put
      dsimp only
      rw [hidx]
      by_cases hpos : ov.positive (toInt32 k) = true
      · rw [if_pos hpos, if_pos hpos, ← List.append_assoc]
        rfl
      · rw [if_neg hpos, if_neg hpos, List.nil_append]
    rw [List.foldl_cons, hput, ih, List.append_assoc]
    rfl

theorem ids2str_eq (ov : Overflow) (ids : List ℕ) (hexStyle : Bool) :
    ids2str ov ids hexStyle = 91 :: (written ov (base hexStyle) 0 ids ++ [93]) := by
  have hloop := foldl_put ov (base hexStyle) 0 (bytes "[") ids
  have hzero : toInt32 ((0 : ℕ) : ℤ) = 0 := rfl
  rw [hzero] at hloop
  unfold ids2str
  dsimp only
  rw [hloop]
  rfl

example : ids2str .assumed [] false = bytes "[]" ∧ ids2str .assumed [7] false = bytes "[7]" ∧
    ids2str .wraps [1, 171, 255] true = bytes "[1,ab,ff]" := by decide

theorem written_append (ov : Overflow) (b k : ℕ) (ids ids' : List ℕ) :
    written ov b k (ids ++ ids') = written ov b k ids ++ written ov b (k + ids.length) ids' := by
  induction ids generalizing k with
  | nil => rfl
  | cons id ids ih =>
    have hindex : k + (id :: ids).length = k + 1 + ids.length := by
      rw [List.length_cons]
      omega
    rw [List.cons_append, written, ih, written, hindex]
    simp only [List.append_assoc]

/-- The first id has no comma before it, whatever the compiler. -/
theorem Overflow.positive_zero (ov : Overflow) : ov.positive (toInt32 ((0 : ℕ) : ℤ)) = false := by
  cases ov <;> decide

theorem Overflow.positive_of_lt_room (ov : Overflow) {k : ℕ} (hk : 0 < k) (hlt : k < ov.room) :
    ov.positive (toInt32 k) = true := by
  cases ov with
  | wraps =>
    have hroom : k < 2147483648 := hlt
    have hidx : toInt32 (k : ℤ) = k := toInt32_of_mem (by omega) (by omega)
    unfold positive
    rw [hidx]
    exact decide_eq_true (by omega)
  | assumed =>
    have hroom : k < 4294967296 := hlt
    have hbits : toUInt32 (toInt32 k) = k := by
      rw [toUInt32_toInt32, toUInt32_of_lt hroom]
    refine decide_eq_true fun hzero => ?_
    rw [hzero] at hbits
    exact hk.ne hbits

/-- There the counter has come back to where no comma is written. -/
theorem Overflow.positive_room (ov : Overflow) : ov.positive (toInt32 (ov.room : ℤ)) = false := by
  cases ov <;> decide

/-- As long as there is room, there is a comma before every id but the first. -/
theorem written_of_pos (ov : Overflow) (b : ℕ) {k : ℕ} (hk : 0 < k) {ids : List ℕ}
    (hle : k + ids.length ≤ ov.room) :
    written ov b k ids = ids.flatMap fun id => comma :: numeral b id := by
  induction ids generalizing k with
  | nil => rfl
  | cons id ids ih =>
    rw [List.length_cons] at hle
    have hpos : ov.positive (toInt32 k) = true := ov.positive_of_lt_room hk (by omega)
    rw [written, if_pos hpos, ih (by omega) (by omega), List.flatMap_cons]
    rfl

theorem written_zero (ov : Overflow) (b : ℕ) {ids : List ℕ} (hle : ids.length ≤ ov.room) :
    written ov b 0 ids = separated b comma ids := by
  cases ids with
  | nil => rfl
  | cons id ids =>
    rw [List.length_cons] at hle
    rw [written, if_neg (by rw [ov.positive_zero]; decide),
      written_of_pos ov b (by omega) (by omega)]
    rfl

/-! ## Reading them back -/

/-- The numbers between the brackets of a text. -/
def readIds (b : ℕ) (text : Bytes) : Option (List ℕ) :=
  if text.head? = some 91 ∧ text.getLast? = some 93 then
    readSeparated b comma text.tail.dropLast
  else none

theorem readIds_ids2str (ov : Overflow) (ids : List ℕ) (hexStyle : Bool) :
    readIds (base hexStyle) (ids2str ov ids hexStyle) =
      readSeparated (base hexStyle) comma (written ov (base hexStyle) 0 ids) := by
  have hlast : (91 :: (written ov (base hexStyle) 0 ids ++ [93])).getLast? = some 93 := by
    rw [← List.cons_append]
    exact List.getLast?_concat
  rw [ids2str_eq]
  unfold readIds
  rw [if_pos ⟨rfl, hlast⟩, List.tail_cons, List.dropLast_concat]

section

variable {b : ℕ} (hlo : 1 < b) (hhi : b ≤ 16)
include hlo hhi

theorem not_isDigit_comma : isDigit b comma = false := by
  have hval : digitVal comma = 16 := rfl
  unfold isDigit
  rw [hval, decide_eq_false_iff_not]
  omega

theorem count_numeral (n : ℕ) : (numeral b n).count comma = 0 :=
  List.count_eq_zero.mpr (not_mem_numeral hlo hhi (not_isDigit_comma hlo hhi) n)

theorem count_written_le (ov : Overflow) (k : ℕ) (ids : List ℕ) :
    (written ov b k ids).count comma ≤ ids.length := by
  induction ids generalizing k with
  | nil => exact le_rfl
  | cons id ids ih =>
    have htail := ih (k + 1)
    rw [written, List.count_append, List.count_append, count_numeral hlo hhi, List.length_cons]
    split_ifs
    · rw [List.count_singleton_self]
      omega
    · rw [List.count_nil]
      omega

/-- An id before which the counter is not taken for positive is written without a comma. -/
theorem count_written_cons {ov : Overflow} {k : ℕ} (hk : ov.positive (toInt32 k) = false) (id : ℕ)
    (ids : List ℕ) : (written ov b k (id :: ids)).count comma ≤ ids.length := by
  rw [written, if_neg (by rw [hk]; decide), List.nil_append, List.count_append,
    count_numeral hlo hhi, Nat.zero_add]
  exact count_written_le hlo hhi ov (k + 1) ids

/-- **The counter overflows**: the first id for which there is no room is the second one without a
comma. -/
theorem count_written_lt {ov : Overflow} {ids : List ℕ} (hlt : ov.room < ids.length) :
    (written ov b 0 ids).count comma + 2 ≤ ids.length := by
  have hroom : 0 < ov.room := by cases ov <;> decide
  have hsplit : ids = ids.take ov.room ++ ids.drop ov.room :=
    (List.take_append_drop ov.room ids).symm
  have hfirst : (ids.take ov.room).length = ov.room := by
    rw [List.length_take]
    omega
  have hrest : (ids.drop ov.room).length = ids.length - ov.room := List.length_drop
  have hcount : (written ov b 0 ids).count comma =
      (written ov b 0 (ids.take ov.room)).count comma +
        (written ov b ov.room (ids.drop ov.room)).count comma := by
    conv_lhs => rw [hsplit, written_append, hfirst, Nat.zero_add, List.count_append]
  rcases htake : ids.take ov.room with _ | ⟨id, ids₁⟩
  · rw [htake, List.length_nil] at hfirst
    omega
  rcases hdrop : ids.drop ov.room with _ | ⟨id', ids₂⟩
  · rw [hdrop, List.length_nil] at hrest
    omega
  have hle := count_written_cons hlo hhi ov.positive_zero id ids₁
  have hle' := count_written_cons hlo hhi ov.positive_room id' ids₂
  rw [htake, hdrop] at hcount
  rw [htake, List.length_cons] at hfirst
  rw [hdrop, List.length_cons] at hrest
  omega

end

/-- **The printed ids read back** if and only if the counter has room for them. -/
theorem readIds_eq_iff (ov : Overflow) (ids : List ℕ) (hexStyle : Bool) :
    readIds (base hexStyle) (ids2str ov ids hexStyle) = some ids ↔ ids.length ≤ ov.room := by
  have hlo : 1 < base hexStyle := by cases hexStyle <;> decide
  have hhi : base hexStyle ≤ 16 := by cases hexStyle <;> decide
  rw [readIds_ids2str]
  constructor
  · intro hread
    by_contra hmany
    have hcount := count_written_lt hlo hhi (not_le.mp hmany)
    by_cases hnil : written ov (base hexStyle) 0 ids = []
    · -- nothing is read of an empty text
      rw [hnil] at hread
      have hids : [] = ids := Option.some_injective _ hread
      rw [← hids] at hmany
      exact hmany (Nat.zero_le _)
    · have hlength := length_of_readSeparated hnil hread
      omega
  · intro hle
    rw [written_zero _ _ hle]
    exact readSeparated_separated hlo hhi (not_isDigit_comma hlo hhi) ids

/-! ## Nothing is lost -/

section

variable {κ : Type*} [LinearOrder κ]

/-- In the given style each of the two sets is what is read of its text, in ascending order, and the
sets print alike only if they are the same. -/
structure Lossless (toNat : κ → ℕ) (print : SortedMap κ Unit → Bool → Bytes) (hexStyle : Bool)
    (ids ids' : SortedMap κ Unit) : Prop where
  reads : readIds (base hexStyle) (print ids hexStyle) = some (numbers toNat ids)
  reads' : readIds (base hexStyle) (print ids' hexStyle) = some (numbers toNat ids')
  apart : print ids hexStyle = print ids' hexStyle → ids = ids'

theorem numbers_injective {toNat : κ → ℕ} (hinj : toNat.Injective) :
    (numbers toNat).Injective := by
  intro ids ids' h
  apply SortedMap.ext_entries
  apply List.map_injective_iff.mpr _ h
  rintro ⟨k, _⟩ ⟨k', _⟩ heq
  exact Prod.ext (hinj heq) rfl

theorem lossless_ids2str {toNat : κ → ℕ} (hinj : toNat.Injective) (ov : Overflow) (hexStyle : Bool)
    (ids ids' : SortedMap κ Unit) :
    Lossless toNat (fun s => ids2str ov (numbers toNat s)) hexStyle ids ids' ↔
      ids.entries.length ≤ ov.room ∧ ids'.entries.length ≤ ov.room := by
  have hsize : ∀ s : SortedMap κ Unit,
      readIds (base hexStyle) (ids2str ov (numbers toNat s) hexStyle) = some (numbers toNat s) ↔
        s.entries.length ≤ ov.room := by
    intro s
    have hlength : (numbers toNat s).length = s.entries.length := List.length_map _
    rw [readIds_eq_iff, hlength]
  constructor
  · intro h
    exact ⟨(hsize ids).mp h.reads, (hsize ids').mp h.reads'⟩
  · rintro ⟨hle, hle'⟩
    have hreads := (hsize ids).mpr hle
    have hreads' := (hsize ids').mpr hle'
    refine ⟨hreads, hreads', fun heq => numbers_injective hinj ?_⟩
    -- the same text is read for both
    have heq' : ids2str ov (numbers toNat ids) hexStyle = ids2str ov (numbers toNat ids') hexStyle :=
      heq
    rw [heq', hreads'] at hreads
    exact (Option.some_injective _ hreads).symm

end

/-- There are only so many 32-bit ids. -/
theorem length_uint32 (ids : SortedMap UInt32 Unit) :
    ids.entries.length ≤ Overflow.room .assumed := by
  have hnodup : (numbers UInt32.toNat ids).Nodup := by
    unfold numbers List.Nodup
    rw [List.pairwise_map]
    exact ids.sorted.imp fun hlt heq => hlt.ne (UInt32.toNat_inj.mp heq)
  have hrange : numbers UInt32.toNat ids ⊆ List.range 4294967296 := by
    intro n hn
    obtain ⟨a, -, rfl⟩ := List.mem_map.mp hn
    exact List.mem_range.mpr a.1.toNat_lt
  have hle := (hnodup.subperm hrange).length_le
  rwa [List.length_range, numbers, List.length_map] at hle

/-- **Printing sets of ids loses nothing** in either function and either style, if and only if the
counter has room for the sets. For sets of 32-bit ids it always has, as the Makefile builds it. -/
theorem lossless_iff (hexStyle : Bool) :
    (∀ (ov : Overflow) (ids ids' : SortedMap UInt32 Unit),
      Lossless UInt32.toNat (uint32ids2str ov) hexStyle ids ids' ↔
        ids.entries.length ≤ ov.room ∧ ids'.entries.length ≤ ov.room) ∧
    (∀ (ov : Overflow) (ids ids' : SortedMap UInt64 Unit),
      Lossless UInt64.toNat (uint64ids2str ov) hexStyle ids ids' ↔
        ids.entries.length ≤ ov.room ∧ ids'.entries.length ≤ ov.room) ∧
    ∀ ids ids' : SortedMap UInt32 Unit,
      Lossless UInt32.toNat (uint32ids2str .assumed) hexStyle ids ids' :=
  ⟨fun ov => lossless_ids2str (fun _ _ => UInt32.toNat_inj.mp) ov hexStyle,
    fun ov => lossless_ids2str (fun _ _ => UInt64.toNat_inj.mp) ov hexStyle,
    fun ids ids' => (lossless_ids2str (fun _ _ => UInt32.toNat_inj.mp) .assumed hexStyle ids ids').mpr
      ⟨length_uint32 ids, length_uint32 ids'⟩⟩

/-- The set of the ids below `n`. -/
def firstIds (n : ℕ) (hn : n ≤ 18446744073709551616) : SortedMap UInt64 Unit where
  entries := (List.range n).map fun i => (i.toUInt64, ())
  sorted := by
    rw [List.pairwise_map]
    apply List.pairwise_lt_range.imp_of_mem
    intro i j hi hj hlt
    rw [List.mem_range] at hi hj
    show i.toUInt64 < j.toUInt64
    have hnat : ∀ m < n, m.toUInt64.toNat = m := fun m hm => Nat.mod_eq_of_lt (by omega)
    rw [UInt64.lt_iff_toNat_lt, hnat i hi, hnat j hj]
    exact hlt

/-- The ids from 0 to 2^32: whatever the compiler makes of the overflow, two of them are written
without a comma between them. -/
theorem not_lossless_firstIds :
    ¬ Lossless UInt64.toNat (uint64ids2str .assumed) false (firstIds 4294967297 (by decide)) .empty ∧
      ¬ Lossless UInt64.toNat (uint64ids2str .wraps) false
        (firstIds 4294967297 (by decide)) .empty := by
  have hlength : (firstIds 4294967297 (by decide)).entries.length = 4294967297 := by
    unfold firstIds
    rw [List.length_map, List.length_range]
  have hmany : ∀ ov : Overflow, ov.room < 4294967297 := by
    intro ov
    cases ov <;> decide
  have hlost : ∀ ov : Overflow, ¬ Lossless UInt64.toNat (uint64ids2str ov) false
      (firstIds 4294967297 (by decide)) .empty := by
    intro ov h
    have hsize := ((lossless_ids2str (fun _ _ => UInt64.toNat_inj.mp) ov false _ _).mp h).1
    rw [hlength] at hsize
    exact absurd hsize (not_le.mpr (hmany ov))
  exact ⟨hlost .assumed, hlost .wraps⟩

end SomoNet.Format
