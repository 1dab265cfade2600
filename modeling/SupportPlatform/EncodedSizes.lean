import SupportPlatform.Encoding

/-! # The sizes of encodings

How many bytes a compact encoding takes in UTF-8: what its parts take, the marks around them and a
comma between each two.  A string takes its characters as they are escaped, six bytes at most for
each.
-/
namespace SupportPlatform

namespace Text

@[simp] theorem utf8Length_nil : utf8Length [] = 0 := rfl

@[simp] theorem utf8Length_cons (c : Char) (s : Text) :
    utf8Length (c :: s) = c.utf8Size + utf8Length s := List.sum_cons

@[simp] theorem utf8Length_append (s t : Text) :
    utf8Length (s ++ t) = utf8Length s + utf8Length t := by
  rw [utf8Length, List.map_append, List.sum_append, utf8Length, utf8Length]

theorem utf8Length_flatMap {α : Type} (f : α → Text) (items : List α) :
    utf8Length (items.flatMap f) = (items.map fun x => utf8Length (f x)).sum := by
  induction items with
  | nil => rfl
  | cons x items ih => rw [List.flatMap_cons, utf8Length_append, ih, List.map_cons, List.sum_cons]

/-- A character takes four bytes at most. -/
theorem utf8Length_le (s : Text) : utf8Length s ≤ 4 * s.length := by
  induction s with
  | nil => exact Nat.le_refl 0
  | cons c s ih =>
      have hc := c.utf8Size_le_four
      rw [utf8Length_cons, List.length_cons]
      omega

/-- The parts, and the separators between them. -/
theorem utf8Length_join (sep : Text) (parts : List Text) :
    utf8Length (join sep parts) =
      (parts.map utf8Length).sum + utf8Length sep * (parts.length - 1) := by
  induction parts with
  | nil => rfl
  | cons first rest ih =>
      cases rest with
      | nil => simp [join]
      | cons second rest =>
          have hsum : ((first :: second :: rest).map utf8Length).sum =
              utf8Length first + ((second :: rest).map utf8Length).sum := List.sum_cons
          have hcommas : utf8Length sep * ((first :: second :: rest).length - 1) =
              utf8Length sep * ((second :: rest).length - 1) + utf8Length sep := Nat.mul_succ ..
          rw [join, utf8Length_append, utf8Length_append, ih, hcommas, hsum]
          omega

end Text

namespace Json

/-! ## Strings -/

/-- The bytes of a character in a string. -/
def escapedBytes (c : Char) : Nat :=
  if c = Text.doubleQuote ∨ c = '\\' ∨ c = '\n' ∨ c = '\r' ∨ c = '\t' ∨ c.toNat = 8 ∨
    c.toNat = 12 then 2
  else if c.toNat < 32 then 6
  else c.utf8Size

/-- The bytes of a string with its quotation marks. -/
def quotedBytes (s : Text) : Nat := 2 + (s.map escapedBytes).sum

theorem escapedBytes_le (c : Char) : escapedBytes c ≤ 6 := by
  have hc := c.utf8Size_le_four
  unfold escapedBytes
  split
  · omega
  · split <;> omega

theorem utf8Length_escapeUnit {n : Nat} (h : n < 32) : (escapeUnit n).utf8Length = 6 := by
  have hall : ∀ n < 32, (escapeUnit n).utf8Length = 6 := by decide
  exact hall n h

theorem utf8Length_escapeChar (c : Char) : (escapeChar false c).utf8Length = escapedBytes c := by
  simp only [escapeChar, escapedBytes, Bool.or_eq_true, beq_iff_eq, Bool.not_false, Bool.true_or,
    if_true]
  by_cases hmark : c = Text.doubleQuote ∨ c = '\\'
  · have hsize : c.utf8Size = 1 := by rcases hmark with rfl | rfl <;> decide
    rw [if_pos hmark, if_pos (by tauto), Text.utf8Length_cons, Text.utf8Length_cons, hsize]
    rfl
  · rw [if_neg hmark]
    by_cases hnewline : c = '\n'
    · rw [if_pos hnewline, if_pos (by tauto)]
      rfl
    by_cases hreturn : c = '\r'
    · rw [if_neg hnewline, if_pos hreturn, if_pos (by tauto)]
      rfl
    by_cases htab : c = '\t'
    · rw [if_neg hnewline, if_neg hreturn, if_pos htab, if_pos (by tauto)]
      rfl
    by_cases hbackspace : c.toNat = 8
    · rw [if_neg hnewline, if_neg hreturn, if_neg htab, if_pos hbackspace, if_pos (by tauto)]
      rfl
    by_cases hfeed : c.toNat = 12
    · rw [if_neg hnewline, if_neg hreturn, if_neg htab, if_neg hbackspace, if_pos hfeed,
        if_pos (by tauto)]
      rfl
    -- what is left has no escape of its own
    have hplain : ¬ (c = Text.doubleQuote ∨ c = '\\' ∨ c = '\n' ∨ c = '\r' ∨ c = '\t' ∨
      c.toNat = 8 ∨ c.toNat = 12) := by tauto
    rw [if_neg hnewline, if_neg hreturn, if_neg htab, if_neg hbackspace, if_neg hfeed,
      if_neg hplain]
    by_cases hcontrol : c.toNat < 32
    · rw [if_pos hcontrol, if_pos hcontrol, utf8Length_escapeUnit hcontrol]
    · rw [if_neg hcontrol, if_neg hcontrol]
      rfl

theorem utf8Length_quoted (s : Text) : (quoted false s).utf8Length = quotedBytes s := by
  have hmark : Text.doubleQuote.utf8Size = 1 := by decide
  have hescaped : (fun c => (escapeChar false c).utf8Length) = escapedBytes :=
    funext utf8Length_escapeChar
  rw [quoted, List.cons_append, Text.utf8Length_cons, Text.utf8Length_append,
    Text.utf8Length_flatMap, hescaped, Text.utf8Length_cons, hmark, Text.utf8Length_nil, quotedBytes]
  omega

theorem quotedBytes_append (s t : Text) : quotedBytes (s ++ t) + 2 = quotedBytes s + quotedBytes t := by
  rw [quotedBytes, List.map_append, List.sum_append, quotedBytes, quotedBytes]
  omega

theorem quotedBytes_le (s : Text) : quotedBytes s ≤ 2 + 6 * s.length := by
  have hsum : (s.map escapedBytes).sum ≤ 6 * s.length := by
    induction s with
    | nil => exact Nat.le_refl 0
    | cons c s ih =>
        have hc := escapedBytes_le c
        rw [List.map_cons, List.sum_cons, List.length_cons]
        omega
  rw [quotedBytes]
  omega

/-- The digits of a number need no escape. -/
theorem quotedBytes_ofInt (i : Int) : quotedBytes (Text.ofInt i) = 2 + (Text.ofInt i).utf8Length := by
  have hdigit : ∀ c : Char, c.isDigit = true → escapedBytes c = c.utf8Size := by
    intro c hc
    have hrange : 48 ≤ c.toNat ∧ c.toNat ≤ 57 := Char.isDigit_iff_toNat.mp hc
    have hplain : ¬ (c = Text.doubleQuote ∨ c = '\\' ∨ c = '\n' ∨ c = '\r' ∨ c = '\t' ∨
        c.toNat = 8 ∨ c.toNat = 12) := by
      rintro (rfl | rfl | rfl | rfl | rfl | h | h)
      · exact absurd hrange (by decide)
      · exact absurd hrange (by decide)
      · exact absurd hrange (by decide)
      · exact absurd hrange (by decide)
      · exact absurd hrange (by decide)
      · omega
      · omega
    rw [escapedBytes, if_neg hplain, if_neg (by omega)]
  have hdigits : ∀ n : Nat, ((Text.ofNat n).map escapedBytes).sum = (Text.ofNat n).utf8Length := by
    intro n
    have hsame : ∀ c ∈ Text.ofNat n, escapedBytes c = c.utf8Size := fun c hc =>
      hdigit c (Nat.isDigit_of_mem_toDigits (by decide) (by decide) hc)
    rw [Text.utf8Length, List.map_congr_left hsame]
  cases i with
  | ofNat n => rw [Text.ofInt, quotedBytes, hdigits]
  | negSucc n =>
      have hminus : escapedBytes '-' = '-'.utf8Size := by decide
      rw [Text.ofInt, quotedBytes, List.map_cons, List.sum_cons, hdigits, Text.utf8Length_cons,
        hminus]

/-! ## Values -/

variable [Runtime]

/-- The bytes of a value. -/
def bytes (v : Json) : Nat := (modelDumpJson v).utf8Length

theorem bytes_str (s : Text) : bytes (.str s) = quotedBytes s := by
  rw [bytes, modelDumpJson, encode, utf8Length_quoted]

theorem bytes_int (i : Int) : bytes (.int i) = (Text.ofInt i).utf8Length := by
  rw [bytes, modelDumpJson, encode]

theorem bytes_finite (q : Rat) : bytes (.float (.finite q)) = (Runtime.floatRepr q).utf8Length := by
  unfold bytes modelDumpJson encode floatText
  rfl

theorem bytes_true : bytes (.bool true) = 4 := by
  rw [bytes, modelDumpJson, encode]
  rfl

theorem bytes_null : bytes .null = 4 := by
  rw [bytes, modelDumpJson, encode]
  rfl

theorem bytes_arr (items : List Json) :
    bytes (.arr items) = 2 + (items.map bytes).sum + (items.length - 1) := by
  have hopen : Text.utf8Length ("[" : Text) = 1 := rfl
  have hclose : Text.utf8Length ("]" : Text) = 1 := rfl
  have hcomma : Text.utf8Length ("," : Text) = 1 := rfl
  rw [bytes, modelDumpJson, encode, encodeItems_eq, Text.utf8Length_append, Text.utf8Length_append,
    Text.utf8Length_join, List.map_map, List.length_map, hopen, hclose, hcomma, Nat.one_mul]
  change 1 + ((items.map bytes).sum + (items.length - 1)) + 1 = _
  omega

theorem bytes_obj (entries : List (Text × Json)) :
    bytes (.obj entries) =
      2 + (entries.map fun e => quotedBytes e.1 + 1 + bytes e.2).sum + (entries.length - 1) := by
  have hopen : Text.utf8Length ['\x7b'] = 1 := rfl
  have hclose : Text.utf8Length ['\x7d'] = 1 := rfl
  have hcomma : Text.utf8Length ("," : Text) = 1 := rfl
  have hcolon : Text.utf8Length (":" : Text) = 1 := rfl
  have hentry : ∀ e : Text × Json,
      (quoted false e.1 ++ (":" : Text) ++ encode false false e.2).utf8Length =
        quotedBytes e.1 + 1 + bytes e.2 := by
    intro e
    rw [Text.utf8Length_append, Text.utf8Length_append, utf8Length_quoted, hcolon, bytes,
      modelDumpJson]
  have hsum : (entries.map fun e : Text × Json =>
      (quoted false e.1 ++ (":" : Text) ++ encode false false e.2).utf8Length).sum =
        (entries.map fun e => quotedBytes e.1 + 1 + bytes e.2).sum := by
    rw [List.map_congr_left fun e _ => hentry e]
  rw [bytes, modelDumpJson, encode, encodeEntries_eq, if_neg Bool.false_ne_true,
    Text.utf8Length_append, Text.utf8Length_append, Text.utf8Length_join, List.map_map,
    List.map_map, List.length_map, List.length_map, hopen, hclose, hcomma, Nat.one_mul, ← hsum]
  change 1 + ((entries.map fun e : Text × Json =>
    (quoted false e.1 ++ (":" : Text) ++ encode false false e.2).utf8Length).sum +
      (entries.length - 1)) + 1 = _
  omega

end Json

end SupportPlatform
