import Mathlib.Tactic

/-!
# Responses that end with the connection

How an HTTP/1.1 client reads a response whose length nothing announces: a status line, header
lines up to an empty one, and then the body, which is everything that follows until the connection
ends. The lines end in CR LF. A header line is a name, a colon and a value, which blanks may
surround.

The rules for reading back are the lemmas here: what `headLines` makes of one more line, what
`field` makes of a name and a value, and what `statusLine` makes of three digits.
-/

namespace SomoNet
namespace CloseDelimited

/-- The bytes of an ASCII text. -/
def ascii (s : String) : List UInt8 := s.toList.map fun c => c.toNat.toUInt8

def CR : UInt8 := 13

def LF : UInt8 := 10

/-- A space or a tab. -/
def isBlank (b : UInt8) : Bool := b == 32 || b == 9

def colon : UInt8 := 58

/-- The lines up to the first empty one, of which `acc` is what has been read of the next, and what
follows the empty line. -/
def headLines (acc : List UInt8) : List UInt8 → Option (List (List UInt8) × List UInt8)
  | [] | [_] => none
  | b :: c :: bs =>
    if b = CR ∧ c = LF then
      if acc = [] then some ([], bs) else (headLines [] bs).map fun p => (acc :: p.1, p.2)
    else headLines (acc ++ [b]) (c :: bs)

/-- The value without the blanks around it. -/
def trim (v : List UInt8) : List UInt8 := ((v.dropWhile isBlank).reverse.dropWhile isBlank).reverse

/-- A header line: a name, which has no blank in it, and a value. -/
def field (line : List UInt8) : Option (List UInt8 × List UInt8) :=
  let name := line.takeWhile (· ≠ colon)
  if name = [] ∨ name.any isBlank then none
  else
    match line.drop name.length with
    | [] => none
    | _ :: value => some (name, trim value)

/-- The number that a digit stands for. -/
def digit (b : UInt8) : Option ℕ :=
  if 48 ≤ b.toNat ∧ b.toNat ≤ 57 then some (b.toNat - 48) else none

/-- A status line: the version, the three digits of the status, and a reason. -/
def statusLine (line : List UInt8) : Option ℕ :=
  if line.take 9 = ascii "HTTP/1.1 " then
    match line.drop 9 with
    | a :: b :: c :: 32 :: _ => do some (100 * (← digit a) + 10 * (← digit b) + (← digit c))
    | _ => none
  else none

/-- Names are compared without regard to case. -/
def lower (name : List UInt8) : List UInt8 :=
  name.map fun b => if 65 ≤ b ∧ b ≤ 90 then b + 32 else b

/-- The value of the first field of that name. -/
def lookup (name : String) (fields : List (List UInt8 × List UInt8)) : Option (List UInt8) :=
  (fields.find? fun f => lower f.1 = ascii name).map Prod.snd

structure Response where
  status : ℕ
  contentType : Option (List UInt8)
  body : List UInt8
  deriving DecidableEq

/-- A response with this status has no body, whatever follows its head. -/
def bodiless (status : ℕ) : Bool := status < 200 || status = 204 || status = 304

/-- Reading a whole connection. A response that announces its length is not read by these rules. -/
def decode (bs : List UInt8) : Option Response := do
  let (lines, rest) ← headLines [] bs
  let status ← statusLine (lines.headD [])
  let fields ← lines.tail.mapM field
  if (lookup "content-length" fields).isSome || (lookup "transfer-encoding" fields).isSome then none
  else some ⟨status, lookup "content-type" fields, if bodiless status then [] else rest⟩

/-! ## Reading back -/

/-- A line without a CR in it is read up to its end. -/
theorem headLines_line (acc : List UInt8) {line : List UInt8} (hline : CR ∉ line)
    (hne : acc ++ line ≠ []) (rest : List UInt8) :
    headLines acc (line ++ CR :: LF :: rest) =
      (headLines [] rest).map fun p => ((acc ++ line) :: p.1, p.2) := by
  induction line generalizing acc with
  | nil =>
    rw [List.append_nil] at hne ⊢
    rw [List.nil_append, headLines, if_pos ⟨rfl, rfl⟩, if_neg hne]
  | cons b line ih =>
    have hb : b ≠ CR := fun h => hline (h ▸ List.mem_cons_self)
    have hrest : CR ∉ line := fun h => hline (List.mem_cons_of_mem _ h)
    have hstep := ih (acc ++ [b]) hrest (by simp)
    rw [List.append_assoc, List.singleton_append] at hstep
    rw [← hstep]
    -- the byte is not a CR, whatever the next one is
    cases line with
    | nil => exact if_neg fun h => hb h.1
    | cons c line => exact if_neg fun h => hb h.1

/-- The empty line ends the head. -/
theorem headLines_empty (rest : List UInt8) : headLines [] (CR :: LF :: rest) = some ([], rest) := by
  rw [headLines, if_pos ⟨rfl, rfl⟩, if_pos rfl]

/-- A value without blanks around it is not trimmed. -/
theorem trim_eq_self {v : List UInt8} (hhead : ∀ b, v.head? = some b → isBlank b = false)
    (hlast : ∀ b, v.getLast? = some b → isBlank b = false) : trim v = v := by
  have hdrop : ∀ w : List UInt8, (∀ b, w.head? = some b → isBlank b = false) →
      w.dropWhile isBlank = w := by
    intro w hw
    cases w with
    | nil => rfl
    | cons b w =>
      rw [List.dropWhile_cons_of_neg]
      rw [hw b rfl]
      exact Bool.false_ne_true
  unfold trim
  rw [hdrop v hhead, hdrop v.reverse (by rwa [List.head?_reverse]), List.reverse_reverse]

/-- A name and a value, with a colon between them. -/
theorem field_colon {name : List UInt8} (hne : name ≠ []) (hcolon : colon ∉ name)
    (hblank : name.any isBlank = false) (value : List UInt8) :
    field (name ++ colon :: value) = some (name, trim value) := by
  have htake : (name ++ colon :: value).takeWhile (· ≠ colon) = name := by
    rw [List.takeWhile_append_of_pos]
    · simp
    · intro b hb
      have hneq : b ≠ colon := fun h => hcolon (h ▸ hb)
      simpa using hneq
  unfold field
  dsimp only
  rw [htake, if_neg (by simp [hne, hblank]), List.drop_left]

/-- The digit of a number below ten. -/
theorem digit_toUInt8 {d : ℕ} (hd : d < 10) : digit (48 + d).toUInt8 = some d := by
  have hall : ∀ d : Fin 10, digit (48 + d.val).toUInt8 = some d.val := by decide
  exact hall ⟨d, hd⟩

/-- Three digits are read as the number that they are the decimal digits of. -/
theorem statusLine_digits {n : ℕ} (hn : n < 1000) (reason : List UInt8) :
    statusLine (ascii "HTTP/1.1 " ++ [(48 + n / 100).toUInt8, (48 + n / 10 % 10).toUInt8,
      (48 + n % 10).toUInt8, 32] ++ reason) = some n := by
  have hlen : (ascii "HTTP/1.1 ").length = 9 := by decide
  have hsum : 100 * (n / 100) + 10 * (n / 10 % 10) + n % 10 = n := by omega
  unfold statusLine
  rw [List.append_assoc, List.take_left' hlen, List.drop_left' hlen, if_pos rfl]
  show (do some (100 * (← digit (48 + n / 100).toUInt8) +
    10 * (← digit (48 + n / 10 % 10).toUInt8) + (← digit (48 + n % 10).toUInt8))) = some n
  rw [digit_toUInt8 (by omega), digit_toUInt8 (by omega), digit_toUInt8 (by omega)]
  exact congrArg some hsum

/-- A head whose lines read back, and that announces no length, is followed by the body. -/
theorem decode_eq {bs line rest : List UInt8} {lines : List (List UInt8)} {status : ℕ}
    {fields : List (List UInt8 × List UInt8)}
    (hlines : headLines [] bs = some (line :: lines, rest)) (hstatus : statusLine line = some status)
    (hfields : lines.mapM field = some fields)
    (hlength : lookup "content-length" fields = none)
    (hcoding : lookup "transfer-encoding" fields = none) :
    decode bs = some ⟨status, lookup "content-type" fields,
      if bodiless status then [] else rest⟩ := by
  unfold decode
  rw [hlines]
  simp only [Option.bind_eq_bind, Option.bind_some, List.headD_cons, List.tail_cons, hstatus, hfields,
    hlength, hcoding, Option.isSome_none, Bool.or_false, Bool.false_eq_true, if_false]

end CloseDelimited
end SomoNet
