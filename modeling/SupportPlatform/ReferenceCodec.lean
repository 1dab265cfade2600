import SupportPlatform.EventModels

/-! # A concrete codec

`Runtime` and `Pydantic` leave open what the repository does not contain.  This is one
choice of both: UTF-8, JSON objects of strings and integers, hexadecimal UUIDs, and
ISO 8601 instants.  It is lawful
(`LawfulPydantic`), so what is proved from the laws of pydantic is about something; and it
can be evaluated, which the concrete runs need.
-/
namespace SupportPlatform.ReferenceCodec

/-! ## UTF-8 -/

/-- The characters of a byte string, of at most `fuel` of them. -/
def decodeUtf8From : Nat → Bytes → Option Text
  | _, [] => some []
  | 0, _ :: _ => none
  | fuel + 1, b :: bs => do
      let c ← ((b :: bs).take 4).toByteArray.utf8DecodeChar? 0
      let rest ← decodeUtf8From fuel ((b :: bs).drop c.utf8Size)
      return c :: rest

/-- `value.decode("utf-8")`. -/
def decodeUtf8 (bytes : Bytes) : Option Text := decodeUtf8From bytes.length bytes

theorem take_encoded (c : Char) (bs : Bytes) :
    (String.utf8EncodeChar c ++ bs).take 4 =
      String.utf8EncodeChar c ++ bs.take (4 - c.utf8Size) := by
  have h : c.utf8Size ≤ 4 := c.utf8Size_le_four
  rw [List.take_append, String.length_utf8EncodeChar,
    List.take_of_length_le (by rw [String.length_utf8EncodeChar]; exact h)]

theorem decodeChar_encoded (c : Char) (bs : Bytes) :
    ((String.utf8EncodeChar c ++ bs).take 4).toByteArray.utf8DecodeChar? 0 = some c := by
  rw [take_encoded, List.toByteArray_append, ← List.utf8Encode_singleton]
  exact List.utf8DecodeChar?_utf8Encode_singleton_append

theorem decodeUtf8From_utf8 (s : Text) (fuel : Nat) (h : s.utf8.length ≤ fuel) :
    decodeUtf8From fuel s.utf8 = some s := by
  induction s generalizing fuel with
  | nil => cases fuel <;> rfl
  | cons c s ih =>
      have hcons : Text.utf8 (c :: s) = String.utf8EncodeChar c ++ Text.utf8 s := rfl
      rw [hcons, List.length_append, String.length_utf8EncodeChar] at h
      have hpos := c.utf8Size_pos
      obtain ⟨fuel, rfl⟩ : ∃ n, fuel = n + 1 := ⟨fuel - 1, by omega⟩
      obtain ⟨b, bs, hb⟩ := List.exists_cons_of_ne_nil
        (show String.utf8EncodeChar c ++ Text.utf8 s ≠ [] by simp)
      have hdrop : (String.utf8EncodeChar c ++ Text.utf8 s).drop c.utf8Size = Text.utf8 s := by
        rw [← String.length_utf8EncodeChar, List.drop_left]
      rw [hcons, hb, decodeUtf8From, ← hb, decodeChar_encoded]
      simp [hdrop, ih fuel (by omega)]

/-- **Decoding inverts encoding.** -/
theorem decodeUtf8_utf8 (s : Text) : decodeUtf8 s.utf8 = some s :=
  decodeUtf8From_utf8 s _ le_rfl

/-! ## Digits -/

/-- The value of a hexadecimal digit. -/
def hexValue (c : Char) : Option Nat :=
  if c.isDigit then some (c.toNat - 48)
  else if 'a' ≤ c ∧ c ≤ 'f' then some (c.toNat - 87)
  else none

/-- The number that hexadecimal digits write, after `acc`. -/
def ofHex : Nat → Text → Option Nat
  | acc, [] => some acc
  | acc, c :: s => do
      let d ← hexValue c
      ofHex (16 * acc + d) s

theorem hexValue_digitChar : ∀ d, d < 16 → hexValue (Nat.digitChar d) = some d := by decide

theorem ofHex_append (acc : Nat) (s t : Text) :
    ofHex acc (s ++ t) = (ofHex acc s).bind fun n => ofHex n t := by
  induction s generalizing acc with
  | nil => rfl
  | cons c s ih =>
      rw [List.cons_append, ofHex, ofHex]
      cases hexValue c with
      | none => rfl
      | some d => exact ih _

theorem ofHex_digits (width n acc : Nat) :
    ofHex acc (Uuid.digits width n) = some (16 ^ width * acc + n % 16 ^ width) := by
  induction width generalizing n acc with
  | zero => simp [Uuid.digits, ofHex, Nat.mod_one]
  | succ width ih =>
      have hd : hexValue (Uuid.nibble n) = some (n % 16) :=
        hexValue_digitChar _ (Nat.mod_lt _ (by decide))
      have hmod : n % (16 * 16 ^ width) = 16 * (n / 16 % 16 ^ width) + n % 16 := by
        rw [Nat.mod_mul]
        omega
      rw [Uuid.digits, ofHex_append, ih]
      simp only [Option.bind_some, ofHex, hd, hmod, Option.bind_eq_bind, Nat.pow_succ',
        Nat.mul_add, Nat.mul_assoc, Nat.add_assoc]

/-- The natural number that decimal digits write. -/
def ofDecimal (s : Text) : Nat := Nat.ofDigitChars 10 s 0

/-! ## UUIDs -/

/-- `UUID(text)`: thirty-two hexadecimal digits, hyphens aside. -/
def uuidOfText (s : Text) : Option Uuid :=
  let digits := s.filter (· ≠ '-')
  if digits.length = 32 then (ofHex 0 digits).map (BitVec.ofNat 128) else none

theorem digits_length (width n : Nat) : (Uuid.digits width n).length = width := by
  induction width generalizing n with
  | zero => rfl
  | succ width ih => simp [Uuid.digits, ih]

theorem nibble_ne_hyphen : ∀ d, d < 16 → Nat.digitChar d ≠ '-' := by decide

theorem digits_ne_hyphen {width n : Nat} {c : Char} (h : c ∈ Uuid.digits width n) : c ≠ '-' := by
  induction width generalizing n with
  | zero => cases h
  | succ width ih =>
      rcases List.mem_append.mp h with h | h
      · exact ih h
      · rw [List.mem_singleton] at h
        exact h ▸ nibble_ne_hyphen _ (Nat.mod_lt _ (by decide))

/-- Without its hyphens, the text of a UUID is its digits. -/
theorem filter_toText (u : Uuid) :
    (u.toText).filter (· ≠ '-') = Uuid.digits 32 u.toNat := by
  have hkeep : ∀ s : Text, s ⊆ Uuid.digits 32 u.toNat → s.filter (· ≠ '-') = s := fun s hs =>
    List.filter_eq_self.mpr fun c hc => by simpa using digits_ne_hyphen (hs hc)
  have hsub : ∀ i n : Nat, ((Uuid.digits 32 u.toNat).drop i).take n ⊆ Uuid.digits 32 u.toNat :=
    fun i n => fun _ hc => List.drop_subset _ _ (List.take_subset _ _ hc)
  have hjoin : u.toText.filter (· ≠ '-') = (Uuid.digits 32 u.toNat).take 8 ++
      (((Uuid.digits 32 u.toNat).drop 8).take 4 ++ (((Uuid.digits 32 u.toNat).drop 12).take 4 ++
        (((Uuid.digits 32 u.toNat).drop 16).take 4 ++ (Uuid.digits 32 u.toNat).drop 20))) := by
    have hh : (("-" : String) : Text).filter (· ≠ '-') = [] := by decide
    simp only [Uuid.toText, Text.join, List.filter_append, hh, List.nil_append, List.append_assoc,
      hkeep _ (List.take_subset _ _), hkeep _ (hsub _ _), hkeep _ (List.drop_subset _ _)]
  rw [hjoin]
  set ds := Uuid.digits 32 u.toNat
  rw [show ds.drop 20 = (ds.drop 16).drop 4 by rw [List.drop_drop], List.take_append_drop,
    show ds.drop 16 = (ds.drop 12).drop 4 by rw [List.drop_drop], List.take_append_drop,
    show ds.drop 12 = (ds.drop 8).drop 4 by rw [List.drop_drop], List.take_append_drop,
    List.take_append_drop]

theorem uuidOfText_toText (u : Uuid) : uuidOfText u.toText = some u := by
  have hu : u.toNat % 16 ^ 32 = u.toNat := Nat.mod_eq_of_lt (by have := u.isLt; omega)
  rw [uuidOfText, filter_toText, digits_length, if_pos rfl, ofHex_digits, hu]
  simp

/-! ## JSON text -/

/-- A value that is written without nesting. -/
def Flat : Json → Prop
  | .str _ | .int _ => True
  | _ => False

/-- The character that an escape sequence names after its backslash. -/
def unescape (c : Char) : Option Char :=
  if c = Text.doubleQuote ∨ c = '\\' ∨ c = '/' then some c
  else if c = 'n' then some '\n'
  else if c = 'r' then some '\r'
  else if c = 't' then some '\t'
  else if c = 'b' then some (Char.ofNat 8)
  else if c = 'f' then some (Char.ofNat 12)
  else none

/-- The text of a JSON string after its opening quotation mark, and what follows it. -/
def stringBody : Text → Option (Text × Text)
  | '\\' :: 'u' :: a :: b :: c :: d :: s => do
      let n ← ofHex 0 [a, b, c, d]
      let (t, rest) ← stringBody s
      return (Char.ofNat n :: t, rest)
  | '\\' :: e :: s => do
      let c ← unescape e
      let (t, rest) ← stringBody s
      return (c :: t, rest)
  | c :: s =>
      if c = Text.doubleQuote then some ([], s)
      else if c = '\\' then none
      else do
        let (t, rest) ← stringBody s
        return (c :: t, rest)
  | [] => none

theorem hex_control : ∀ n, n < 32 →
    (Text.hex 4 n).length = 4 ∧ ofHex 0 (Text.hex 4 n) = some n := by decide

/-- A `\uXXXX` escape. -/
theorem stringBody_unit {n : Nat} {t : Text} (ht : t.length = 4) (hn : ofHex 0 t = some n)
    (rest : Text) :
    stringBody ('\\' :: 'u' :: t ++ rest) =
      (stringBody rest).map fun p => (Char.ofNat n :: p.1, p.2) := by
  obtain ⟨a, b, c, d, rfl⟩ : ∃ a b c d, t = [a, b, c, d] := by
    match t, ht with
    | [a, b, c, d], _ => exact ⟨a, b, c, d, rfl⟩
  simp only [List.cons_append, List.nil_append, stringBody, hn]
  cases stringBody rest <;> rfl

/-- An escape of one letter. -/
theorem stringBody_escape {e c : Char} (hu : e ≠ 'u') (he : unescape e = some c) (rest : Text) :
    stringBody ('\\' :: e :: rest) = (stringBody rest).map fun p => (c :: p.1, p.2) := by
  rw [stringBody.eq_def]
  split
  · rename_i h
    simp only [List.cons.injEq] at h
    exact absurd h.2.1 hu
  · rename_i h
    simp only [List.cons.injEq, true_and] at h
    obtain ⟨rfl, rfl⟩ := h
    simp only [he]
    cases stringBody rest <;> rfl
  · rename_i hn h
    simp only [List.cons.injEq] at h
    exact (hn e rest h.1.symm h.2.symm).elim
  · rename_i h
    cases h

/-- A character that stands for itself. -/
theorem stringBody_plain {c : Char} (hq : c ≠ Text.doubleQuote) (hb : c ≠ '\\') (rest : Text) :
    stringBody (c :: rest) = (stringBody rest).map fun p => (c :: p.1, p.2) := by
  rw [stringBody.eq_def]
  split
  · rename_i h
    simp only [List.cons.injEq] at h
    exact absurd h.1 hb
  · rename_i h
    simp only [List.cons.injEq] at h
    exact absurd h.1 hb
  · rename_i h
    simp only [List.cons.injEq] at h
    obtain ⟨rfl, rfl⟩ := h
    simp only [if_neg hq, if_neg hb]
    cases stringBody rest <;> rfl
  · rename_i h
    cases h

/-- **Reading one written character.** -/
theorem stringBody_escapeChar (c : Char) (rest : Text) :
    stringBody (Json.escapeChar false c ++ rest) =
      (stringBody rest).map fun p => (c :: p.1, p.2) := by
  have hof : ∀ n, c.toNat = n → c = Char.ofNat n := fun n h => h ▸ (Char.ofNat_toNat c).symm
  unfold Json.escapeChar
  simp only [beq_iff_eq, Bool.or_eq_true, Bool.not_false, Bool.true_or, if_true]
  split
  · rename_i h
    have he : unescape c = some c := by
      simp only [unescape]
      rw [if_pos (h.imp_right .inl)]
    refine stringBody_escape (fun hu => ?_) he rest
    subst hu
    revert h
    decide
  split
  · subst_vars
    exact stringBody_escape (by decide) (by decide) rest
  split
  · subst_vars
    exact stringBody_escape (by decide) (by decide) rest
  split
  · subst_vars
    exact stringBody_escape (by decide) (by decide) rest
  split
  · rename_i h
    rw [hof 8 h]
    exact stringBody_escape (by decide) (by decide) rest
  split
  · rename_i h
    rw [hof 12 h]
    exact stringBody_escape (by decide) (by decide) rest
  split
  · rename_i h
    obtain ⟨hlen, hval⟩ := hex_control _ h
    exact (stringBody_unit hlen hval rest).trans (by rw [Char.ofNat_toNat])
  · rename_i h _ _ _ _ _ _
    exact stringBody_plain (fun e => h (.inl e)) (fun e => h (.inr e)) rest

theorem stringBody_flatMap (s rest : Text) :
    stringBody (s.flatMap (Json.escapeChar false) ++ Text.doubleQuote :: rest) =
      some (s, rest) := by
  induction s with
  | nil =>
      rw [stringBody.eq_def]
      rfl
  | cons c s ih =>
      rw [List.flatMap_cons, List.append_assoc, stringBody_escapeChar, ih]
      rfl

/-- The text of a JSON string, and what follows it. -/
def quotedText : Text → Option (Text × Text)
  | c :: s => if c = Text.doubleQuote then stringBody s else none
  | [] => none

theorem quotedText_quoted (s rest : Text) :
    quotedText (Json.quoted false s ++ rest) = some (s, rest) := by
  simp only [Json.quoted, List.cons_append, List.append_assoc, quotedText, if_true]
  exact stringBody_flatMap s rest

/-- A string or an integer, and what follows it. -/
def flatValue : Text → Option (Json × Text)
  | '-' :: s =>
      if (s.takeWhile Char.isDigit).isEmpty then none
      else some (.int (-(ofDecimal (s.takeWhile Char.isDigit))), s.dropWhile Char.isDigit)
  | s =>
      if (s.takeWhile Char.isDigit).isEmpty then
        (quotedText s).map fun p => (.str p.1, p.2)
      else some (.int (ofDecimal (s.takeWhile Char.isDigit)), s.dropWhile Char.isDigit)

/-- What follows a value starts with no digit. -/
def NoDigit (rest : Text) : Prop := ∀ c ∈ rest.head?, c.isDigit = false

theorem takeWhile_digits {ds rest : Text} (hd : ∀ c ∈ ds, c.isDigit = true) (hr : NoDigit rest) :
    (ds ++ rest).takeWhile Char.isDigit = ds ∧ (ds ++ rest).dropWhile Char.isDigit = rest := by
  have hnil : rest.takeWhile Char.isDigit = [] ∧ rest.dropWhile Char.isDigit = rest := by
    cases rest with
    | nil => exact ⟨rfl, rfl⟩
    | cons c rest =>
        have := hr c rfl
        simp [this]
  rw [List.takeWhile_append_of_pos hd, List.dropWhile_append_of_pos hd, hnil.1, hnil.2,
    List.append_nil]
  exact ⟨rfl, rfl⟩

theorem ofNat_digits (n : Nat) : ∀ c ∈ Text.ofNat n, c.isDigit = true :=
  fun _ hc => Nat.isDigit_of_mem_toDigits (by decide) (by decide) hc

theorem ofNat_ne_nil (n : Nat) : Text.ofNat n ≠ [] := Nat.toDigits_ne_nil

theorem ofDecimal_ofNat (n : Nat) : ofDecimal (Text.ofNat n) = n := Nat.ofDigitChars_ten_toDigits

theorem minus_not_digit {n : Nat} : (Text.ofNat n).head? ≠ some '-' := by
  intro h
  have := ofNat_digits n '-' (List.mem_of_mem_head? h)
  revert this
  decide

theorem flatValue_ofNat (n : Nat) {rest : Text} (hr : NoDigit rest) :
    flatValue (Text.ofNat n ++ rest) = some (.int n, rest) := by
  obtain ⟨ht, hd⟩ := takeWhile_digits (ofNat_digits n) hr
  obtain ⟨c, ds, hcons⟩ := List.exists_cons_of_ne_nil (ofNat_ne_nil n)
  have hc : c ≠ '-' := fun e => minus_not_digit (n := n) (by rw [hcons, e]; rfl)
  have hne : (Text.ofNat n).isEmpty = false := by rw [hcons]; rfl
  rw [hcons, List.cons_append] at ht hd ⊢
  rw [flatValue]
  · rw [ht, hd, ← hcons, hne, ofDecimal_ofNat]
    rfl
  · exact fun s h => hc (List.cons.inj h).1

theorem flatValue_ofInt (i : Int) {rest : Text} (hr : NoDigit rest) :
    flatValue (Text.ofInt i ++ rest) = some (.int i, rest) := by
  cases i with
  | ofNat n => exact flatValue_ofNat n hr
  | negSucc n =>
      obtain ⟨ht, hd⟩ := takeWhile_digits (ofNat_digits (n + 1)) hr
      have hne : (Text.ofNat (n + 1)).isEmpty = false := by
        cases h : Text.ofNat (n + 1) with
        | nil => exact absurd h (ofNat_ne_nil _)
        | cons => rfl
      show flatValue ('-' :: (Text.ofNat (n + 1) ++ rest)) = _
      rw [flatValue, ht, hd, hne, ofDecimal_ofNat]
      rfl

theorem flatValue_quoted (s rest : Text) :
    flatValue (Json.quoted false s ++ rest) = some (.str s, rest) := by
  have hq : Json.quoted false s ++ rest =
      Text.doubleQuote :: (s.flatMap (Json.escapeChar false) ++ [Text.doubleQuote] ++ rest) := rfl
  have htake : (Json.quoted false s ++ rest).takeWhile Char.isDigit = [] := by
    rw [hq]
    exact List.takeWhile_cons_of_neg (by decide)
  rw [hq] at htake ⊢
  rw [flatValue]
  · rw [htake, ← hq, quotedText_quoted]
    rfl
  · intro t h
    have := (List.cons.inj h).1
    revert this
    decide

/-- **Reading a written value.** -/
theorem flatValue_encode [Runtime] {v : Json} (hv : Flat v) {rest : Text} (hr : NoDigit rest) :
    flatValue (v.encode false false ++ rest) = some (v, rest) := by
  cases v with
  | str s => exact flatValue_quoted s rest
  | int i => exact flatValue_ofInt i hr
  | null | bool | float | arr | obj => exact hv.elim

/-- The entries of an object after its opening brace or a comma, up to its end. -/
def objectBody : Nat → Text → Option (List (Text × Json))
  | 0, _ => none
  | fuel + 1, s => do
      let (key, s) ← quotedText s
      match s with
      | ':' :: s => do
          let (value, s) ← flatValue s
          match s with
          | ',' :: s => do
              let entries ← objectBody fuel s
              return (key, value) :: entries
          | ['\x7d'] => return [(key, value)]
          | _ => none
      | _ => none

/-- `json.loads` of an object of strings and integers. -/
def parseObject : Text → Option Json
  | '\x7b' :: s =>
      if s = ['\x7d'] then some (.obj [])
      else (objectBody s.length s).map fun entries => .obj (Dict.ofList entries)
  | _ => none

mutual
/-- A value without blanks and without fractions, and what follows it. -/
def nestedValue : Nat → Text → Option (Json × Text)
  | 0, _ => none
  | _ + 1, '\x7b' :: '\x7d' :: s => some (.obj [], s)
  | fuel + 1, '\x7b' :: s => (nestedEntries fuel s).map fun p => (.obj (Dict.ofList p.1), p.2)
  | _ + 1, '[' :: ']' :: s => some (.arr [], s)
  | fuel + 1, '[' :: s => (nestedItems fuel s).map fun p => (.arr p.1, p.2)
  | _ + 1, 'n' :: 'u' :: 'l' :: 'l' :: s => some (.null, s)
  | _ + 1, 't' :: 'r' :: 'u' :: 'e' :: s => some (.bool true, s)
  | _ + 1, 'f' :: 'a' :: 'l' :: 's' :: 'e' :: s => some (.bool false, s)
  | _ + 1, s => flatValue s

/-- The entries of an object, and what follows it. -/
def nestedEntries : Nat → Text → Option (List (Text × Json) × Text)
  | 0, _ => none
  | fuel + 1, s => do
      let (key, s) ← quotedText s
      match s with
      | ':' :: s => do
          let (value, s) ← nestedValue fuel s
          match s with
          | ',' :: s => do
              let (entries, s) ← nestedEntries fuel s
              return ((key, value) :: entries, s)
          | '\x7d' :: s => return ([(key, value)], s)
          | _ => none
      | _ => none

/-- The items of a list, and what follows it. -/
def nestedItems : Nat → Text → Option (List Json × Text)
  | 0, _ => none
  | fuel + 1, s => do
      let (value, s) ← nestedValue fuel s
      match s with
      | ',' :: s => do
          let (items, s) ← nestedItems fuel s
          return (value :: items, s)
      | ']' :: s => return ([value], s)
      | _ => none
end

/-- `json.loads` of a text that is one value. -/
def parseNested (s : Text) : Option Json :=
  match nestedValue (s.length + 1) s with
  | some (value, []) => some value
  | _ => none

/-- How the encoder writes one entry. -/
def entryText [Runtime] (e : Text × Json) : Text :=
  Json.quoted false e.1 ++ ":" ++ e.2.encode false false

theorem encodeEntries_map [Runtime] (entries : List (Text × Json)) :
    (Json.encodeEntries false false entries).map
      (fun e => Json.quoted false e.1 ++ (":" : String) ++ e.2) = entries.map entryText := by
  induction entries with
  | nil => rfl
  | cons e entries ih =>
      rw [Json.encodeEntries, List.map_cons, List.map_cons, ih]
      rfl

theorem objectBody_entry [Runtime] {e : Text × Json} (he : Flat e.2) {rest : Text}
    (hr : NoDigit rest) (fuel : Nat) :
    objectBody (fuel + 1) (entryText e ++ rest) =
      match rest with
      | ',' :: s => (objectBody fuel s).map (e :: ·)
      | ['\x7d'] => some [e]
      | _ => none := by
  have hk := quotedText_quoted e.1 (":" ++ (e.2.encode false false ++ rest))
  rw [objectBody, entryText, List.append_assoc, List.append_assoc, hk]
  show (do
    let p ← flatValue (e.2.encode false false ++ rest)
    match p.2 with
    | ',' :: s => do
        let entries ← objectBody fuel s
        return (e.1, p.1) :: entries
    | ['\x7d'] => return [(e.1, p.1)]
    | _ => none) = _
  rw [flatValue_encode he hr]
  show (match rest with
    | ',' :: s => (objectBody fuel s).bind fun entries => some ((e.1, e.2) :: entries)
    | ['\x7d'] => some [(e.1, e.2)]
    | _ => none) = _
  split
  · rename_i s
    simp
    cases objectBody fuel s <;> rfl
  · rfl
  · rename_i h₁ h₂
    split
    · exact absurd rfl (h₁ _)
    · exact absurd rfl h₂
    · rfl

theorem objectBody_join [Runtime] {entries : List (Text × Json)}
    (hflat : ∀ e ∈ entries, Flat e.2) (hne : entries ≠ []) {fuel : Nat}
    (hfuel : entries.length ≤ fuel) :
    objectBody fuel (Text.join "," (entries.map entryText) ++ ['\x7d']) = some entries := by
  induction entries generalizing fuel with
  | nil => exact absurd rfl hne
  | cons e entries ih =>
      obtain ⟨fuel, rfl⟩ : ∃ n, fuel = n + 1 := ⟨fuel - 1, by simp at hfuel; omega⟩
      have he := hflat e List.mem_cons_self
      cases entries with
      | nil =>
          rw [List.map_cons, List.map_nil, Text.join,
            objectBody_entry he (by rintro c ⟨⟩; decide)]
          rfl
      | cons f entries =>
          have hlen : (f :: entries).length ≤ fuel := by simpa using hfuel
          have hrest := ih (fun x hx => hflat x (List.mem_cons_of_mem e hx)) (by simp) hlen
          rw [List.map_cons, List.map_cons, Text.join, ← List.map_cons, List.append_assoc,
            List.append_assoc, objectBody_entry he (by rintro c ⟨⟩; decide)]
          show (objectBody fuel (Text.join "," ((f :: entries).map entryText) ++ ['\x7d'])).map
            (e :: ·) = _
          rw [hrest]
          rfl

/-- **Reading a written object.** -/
theorem parseObject_modelDumpJson [Runtime] {entries : Dict Text Json}
    (hflat : ∀ e ∈ entries, Flat e.2) (hne : entries ≠ [])
    (hnodup : (entries.map (·.1)).Nodup) :
    parseObject (Json.modelDumpJson (.obj entries)) = some (.obj entries) := by
  have htext : Json.modelDumpJson (.obj entries) =
      '\x7b' :: (Text.join "," (entries.map entryText) ++ ['\x7d']) := by
    simp only [Json.modelDumpJson, Json.encode, Bool.false_eq_true, if_false]
    rw [encodeEntries_map]
    rfl
  obtain ⟨e, rest, rfl⟩ := List.exists_cons_of_ne_nil hne
  have hlen : (e :: rest).length ≤
      (Text.join "," ((e :: rest).map entryText) ++ ['\x7d']).length := by
    have hjoin : ∀ ts : List Text, (∀ t ∈ ts, t ≠ []) →
        ts.length ≤ (Text.join "," ts).length := by
      intro ts
      induction ts with
      | nil => exact fun _ => le_rfl
      | cons t ts ih =>
          intro hts
          have ht := List.length_pos_of_ne_nil (hts t List.mem_cons_self)
          cases ts with
          | nil => exact ht
          | cons u us =>
              have := ih fun x hx => hts x (List.mem_cons_of_mem t hx)
              simp only [Text.join, List.length_append, List.length_cons] at this ⊢
              omega
    have := hjoin ((e :: rest).map entryText) (by
      intro t ht
      obtain ⟨x, -, rfl⟩ := List.mem_map.mp ht
      simp [entryText, Json.quoted])
    rw [List.length_append]
    simpa using Nat.le_succ_of_le this
  rw [htext, parseObject, if_neg, objectBody_join hflat (by simp) hlen, Option.map_some,
    Dict.ofList_of_nodup hnodup]
  intro h
  have hl := congrArg List.length h
  have := hlen
  simp only [List.map_cons, entryText, Json.quoted, List.length_append, List.length_cons,
    List.length_nil] at hl
  cases rest <;> simp [Text.join, entryText, Json.quoted] at hl

/-! ## Instants -/

/-- Whether a year has a 29th of February. -/
def isLeap (y : Nat) : Bool := y % 4 = 0 && (y % 100 ≠ 0 || y % 400 = 0)

/-- The days from 0001-01-01 to the first day of a year. -/
def daysBeforeYear (y : Nat) : Nat := 365 * (y - 1) + (y - 1) / 4 - (y - 1) / 100 + (y - 1) / 400

/-- The days of a year before each of its months, and its length. -/
def monthStarts (leap : Bool) : List Nat :=
  let l := if leap then 1 else 0
  [0, 31, 59 + l, 90 + l, 120 + l, 151 + l, 181 + l, 212 + l, 243 + l, 273 + l, 304 + l, 334 + l,
    365 + l]

/-- The number of days before a month, from 0. -/
def daysBeforeMonth (leap : Bool) (month : Nat) : Nat := (monthStarts leap).getD month 0

/-- The month, from 0, of a day of the year. -/
def monthOf (leap : Bool) (day : Nat) : Nat :=
  ((monthStarts leap).tail.takeWhile (· ≤ day)).length

/-- The year that a day falls into, and the days before it in that year. -/
def yearOf (n : Nat) : Nat × Nat :=
  let b := min 3 (n % 146097 / 36524)
  let n₂ := n % 146097 - 36524 * b
  let e := min 3 (n₂ % 1461 / 365)
  (400 * (n / 146097) + 100 * b + 4 * (n₂ / 1461) + e + 1, n₂ % 1461 - 365 * e)

/-- Years by their place in the cycles of 400, 100 and 4 years. -/
theorem daysBeforeYear_cycle {a b c e : Nat} (hb : b ≤ 3) (hc : c ≤ 24) (he : e ≤ 3) :
    daysBeforeYear (400 * a + 100 * b + 4 * c + e + 1) =
      146097 * a + 36524 * b + 1461 * c + 365 * e := by
  have h4 : (400 * a + 100 * b + 4 * c + e) / 4 = 100 * a + 25 * b + c := by omega
  have h100 : (400 * a + 100 * b + 4 * c + e) / 100 = 4 * a + b := by omega
  have h400 : (400 * a + 100 * b + 4 * c + e) / 400 = a := by omega
  rw [daysBeforeYear, Nat.add_sub_cancel, h4, h100, h400]
  omega

theorem isLeap_cycle {a b c e : Nat} (hb : b ≤ 3) (hc : c ≤ 24) (he : e ≤ 3) :
    isLeap (400 * a + 100 * b + 4 * c + e + 1) = (e = 3 && (c ≠ 24 || b = 3)) := by
  have h4 : (400 * a + 100 * b + 4 * c + e + 1) % 4 = 0 ↔ e = 3 := by omega
  have h100 : (400 * a + 100 * b + 4 * c + e + 1) % 100 = 0 ↔ c = 24 ∧ e = 3 := by omega
  have h400 : (400 * a + 100 * b + 4 * c + e + 1) % 400 = 0 ↔ b = 3 ∧ c = 24 ∧ e = 3 := by omega
  rw [Bool.eq_iff_iff]
  simp only [isLeap, Bool.and_eq_true, decide_eq_true_eq, Bool.or_eq_true, h4, h400, ne_eq, h100]
  omega

theorem yearOf_spec (n : Nat) :
    daysBeforeYear (yearOf n).1 + (yearOf n).2 = n ∧
      (yearOf n).2 < if isLeap (yearOf n).1 then 366 else 365 := by
  obtain ⟨a, ha⟩ : ∃ a, n / 146097 = a := ⟨_, rfl⟩
  obtain ⟨b, hb⟩ : ∃ b, min 3 (n % 146097 / 36524) = b := ⟨_, rfl⟩
  obtain ⟨r, hr⟩ : ∃ r, n % 146097 - 36524 * b = r := ⟨_, rfl⟩
  obtain ⟨c, hc⟩ : ∃ c, r / 1461 = c := ⟨_, rfl⟩
  obtain ⟨e, he⟩ : ∃ e, min 3 (r % 1461 / 365) = e := ⟨_, rfl⟩
  simp only [yearOf, ha, hb, hr, hc, he]
  have hb3 : b ≤ 3 := by omega
  have hn : n % 146097 < 146097 := Nat.mod_lt _ (by decide)
  have hrlt : r < 36525 ∧ (b < 3 → r < 36524) := by omega
  have hc24 : c ≤ 24 := by omega
  have he3 : e ≤ 3 := by omega
  have hday : r % 1461 - 365 * e ≤ 365 ∧ (r % 1461 - 365 * e = 365 → e = 3 ∧ r % 1461 = 1460) := by
    omega
  refine ⟨?_, ?_⟩
  · rw [daysBeforeYear_cycle hb3 hc24 he3]
    clear hday
    omega
  · rw [isLeap_cycle hb3 hc24 he3]
    split
    · omega
    · rename_i hleap
      simp only [Bool.and_eq_true, decide_eq_true_eq, Bool.or_eq_true] at hleap
      omega

theorem monthOf_spec : ∀ leap : Bool, ∀ day, day < (if leap then 366 else 365) →
    monthOf leap day < 12 ∧ daysBeforeMonth leap (monthOf leap day) ≤ day ∧
      day < daysBeforeMonth leap (monthOf leap day + 1) ∧
      daysBeforeMonth leap (monthOf leap day + 1) ≤
        daysBeforeMonth leap (monthOf leap day) + 31 := by
  decide +kernel

/-- The last `width` decimal digits of `n`. -/
def decimals : Nat → Nat → Text
  | 0, _ => []
  | width + 1, n => decimals width (n / 10) ++ [Nat.digitChar (n % 10)]

/-- The number that the next `width` characters write in decimal digits, and what follows. -/
def readDecimals : Nat → Nat → Text → Option (Nat × Text)
  | 0, acc, s => some (acc, s)
  | width + 1, acc, c :: s =>
      if c.isDigit then readDecimals width (10 * acc + (c.toNat - 48)) s else none
  | _ + 1, _, [] => none

theorem digitChar_value : ∀ d, d < 10 →
    (Nat.digitChar d).isDigit = true ∧ (Nat.digitChar d).toNat - 48 = d := by decide

theorem readDecimals_add (v w acc : Nat) (s : Text) :
    readDecimals (v + w) acc s =
      (readDecimals v acc s).bind fun p => readDecimals w p.1 p.2 := by
  induction v generalizing acc s with
  | zero => rw [Nat.zero_add]; rfl
  | succ v ih =>
      cases s with
      | nil => rw [Nat.succ_add]; rfl
      | cons c s =>
          rw [Nat.succ_add, readDecimals, readDecimals]
          split
          · exact ih _ s
          · rfl

theorem readDecimals_decimals (width n acc : Nat) (rest : Text) :
    readDecimals width acc (decimals width n ++ rest) =
      some (10 ^ width * acc + n % 10 ^ width, rest) := by
  induction width generalizing n acc rest with
  | zero => simp [decimals, readDecimals, Nat.mod_one]
  | succ width ih =>
      obtain ⟨hdigit, hval⟩ := digitChar_value (n % 10) (Nat.mod_lt _ (by decide))
      have hmod : n % (10 * 10 ^ width) = 10 * (n / 10 % 10 ^ width) + n % 10 := by
        rw [Nat.mod_mul]
        omega
      rw [decimals, List.append_assoc, readDecimals_add, ih]
      simp only [Option.bind_some, List.cons_append, List.nil_append, readDecimals, hdigit, hval,
        if_true, Nat.pow_succ', hmod, Nat.mul_add, Nat.mul_assoc, Nat.add_assoc]

theorem read_decimals (width n : Nat) (h : n < 10 ^ width) (rest : Text) :
    readDecimals width 0 (decimals width n ++ rest) = some (n, rest) := by
  rw [readDecimals_decimals, Nat.mul_zero, Nat.zero_add, Nat.mod_eq_of_lt h]

/-- The microseconds of a day. -/
def dayLength : Nat := 86400000000

/-- The microseconds after the seconds, unless they are zero, before `tail`. -/
def fractionText (us : Nat) (tail : Text) : Text :=
  if us = 0 then tail else '.' :: (decimals 6 us ++ tail)

/-- A wall clock in microseconds from 0001-01-01, `YYYY-MM-DDTHH:MM:SS` and the
microseconds, before `tail`. -/
def wallText (total : Nat) (tail : Text) : Text :=
  let (year, day) := yearOf (total / dayLength)
  let month := monthOf (isLeap year) day
  let time := total % dayLength
  decimals 4 year ++ '-' :: (decimals 2 (month + 1) ++ '-' ::
    (decimals 2 (day - daysBeforeMonth (isLeap year) month + 1) ++ 'T' ::
      (decimals 2 (time / 3600000000) ++ ':' :: (decimals 2 (time / 60000000 % 60) ++ ':' ::
        (decimals 2 (time / 1000000 % 60) ++ fractionText (time % 1000000) tail)))))

/-- The text of a UTC instant in a JSON dump. -/
def datetimeText (t : Timestamp) : Text := wallText (t - Timestamp.min).toNat ['Z']

/-- What follows the next character, which is `c`. -/
def expect (c : Char) : Text → Option Text
  | d :: s => if d = c then some s else none
  | [] => none

@[simp] theorem expect_cons (c : Char) (s : Text) : expect c (c :: s) = some s := if_pos rfl

/-- The microseconds after the seconds. -/
def fraction (s : Text) : Option (Nat × Text) :=
  match expect '.' s with
  | some s => readDecimals 6 0 s
  | none => some (0, s)

/-- The offset from UTC at the end of an ISO 8601 text, if there is one. -/
def offsetOf (s : Text) : Option (Option Int) :=
  if s = [] then some none
  else if s = ['Z'] then some (some 0)
  else do
    let (sign, s) ← match s with
      | '+' :: s => some ((1 : Int), s)
      | '-' :: s => some (-1, s)
      | _ => none
    let (hours, s) ← readDecimals 2 0 s
    let s ← expect ':' s
    let (minutes, s) ← readDecimals 2 0 s
    guard (s = [] ∧ hours < 24 ∧ minutes < 60)
    return some (sign * (3600000000 * hours + 60000000 * minutes : Nat))

/-- A wall clock, and what follows it. -/
def readWall (s : Text) : Option (Nat × Text) := do
  let (year, s) ← readDecimals 4 0 s
  let s ← expect '-' s
  let (month, s) ← readDecimals 2 0 s
  let s ← expect '-' s
  let (day, s) ← readDecimals 2 0 s
  let s ← expect 'T' s
  let (hour, s) ← readDecimals 2 0 s
  let s ← expect ':' s
  let (minute, s) ← readDecimals 2 0 s
  let s ← expect ':' s
  let (second, s) ← readDecimals 2 0 s
  let (microsecond, s) ← fraction s
  guard (1 ≤ year ∧ 1 ≤ month ∧ month ≤ 12 ∧ 1 ≤ day ∧
    daysBeforeMonth (isLeap year) (month - 1) + day ≤ daysBeforeMonth (isLeap year) month ∧
    hour < 24 ∧ minute < 60 ∧ second < 60)
  let days := daysBeforeYear year + daysBeforeMonth (isLeap year) (month - 1) + (day - 1)
  return (dayLength * days + 3600000000 * hour + 60000000 * minute + 1000000 * second +
    microsecond, s)

/-- `datetime` of an ISO 8601 text. -/
def datetimeOfText (s : Text) : Option Moment := do
  let (total, s) ← readWall s
  let offset ← offsetOf s
  return ⟨total + Timestamp.min, offset⟩

theorem fraction_text {us : Nat} (h : us < 1000000) :
    fraction (fractionText us ['Z']) = some (us, ['Z']) := by
  unfold fractionText
  split
  · subst us
    rfl
  · rw [fraction, expect_cons]
    exact read_decimals 6 us h _

/-- **Reading a written wall clock** of the years 1 to 9999. -/
theorem readWall_wallText {total : Nat} (h : total < dayLength * 3652059) :
    readWall (wallText total ['Z']) = some (total, ['Z']) := by
  obtain ⟨hday, hlt⟩ := yearOf_spec (total / dayLength)
  have hyear : 1 ≤ (yearOf (total / dayLength)).1 ∧ (yearOf (total / dayLength)).1 < 10000 := by
    have hd : total / dayLength < 3652059 := Nat.div_lt_of_lt_mul h
    refine ⟨by simp [yearOf], ?_⟩
    by_contra hge
    have : 3652059 ≤ daysBeforeYear (yearOf (total / dayLength)).1 := by
      unfold daysBeforeYear
      omega
    omega
  rw [wallText]
  generalize hyd : yearOf (total / dayLength) = yd at *
  obtain ⟨year, day⟩ := yd
  obtain ⟨hm, hm₁, hm₂, hm₃⟩ := monthOf_spec (isLeap year) day hlt
  dsimp only at hday hyear ⊢
  generalize hmonth : monthOf (isLeap year) day = month at *
  have htime : total % dayLength < 86400000000 := Nat.mod_lt _ (by decide)
  generalize ht : total % dayLength = time at *
  have hsum : dayLength * (total / dayLength) + time = total := by
    rw [← ht]
    exact Nat.div_add_mod _ _
  have hus := Nat.mod_lt time (show 0 < 1000000 by decide)
  rw [readWall]
  simp only [read_decimals 4 year (by omega),
    read_decimals 2 (month + 1) (by omega),
    read_decimals 2 (day - daysBeforeMonth (isLeap year) month + 1) (by omega),
    read_decimals 2 (time / 3600000000) (by omega),
    read_decimals 2 (time / 60000000 % 60) (by omega),
    read_decimals 2 (time / 1000000 % 60) (by omega),
    fraction_text hus, expect_cons, Option.bind_eq_bind, Option.bind_some, Nat.add_sub_cancel]
  have hvalid : 1 ≤ year ∧ 1 ≤ month + 1 ∧ month + 1 ≤ 12 ∧
      1 ≤ day - daysBeforeMonth (isLeap year) month + 1 ∧
      daysBeforeMonth (isLeap year) month + (day - daysBeforeMonth (isLeap year) month + 1) ≤
        daysBeforeMonth (isLeap year) (month + 1) ∧
      time / 3600000000 < 24 ∧ time / 60000000 % 60 < 60 ∧ time / 1000000 % 60 < 60 := by
    omega
  rw [guard, if_pos hvalid]
  have hdays : daysBeforeYear year + daysBeforeMonth (isLeap year) month +
      (day - daysBeforeMonth (isLeap year) month) = total / dayLength := by omega
  have hclock : 3600000000 * (time / 3600000000) + 60000000 * (time / 60000000 % 60) +
      1000000 * (time / 1000000 % 60) + time % 1000000 = time := by
    clear hday hlt hyear hm hm₁ hm₂ hm₃ hvalid hdays hsum h
    omega
  show some (_, _) = some (_, _)
  rw [hdays]
  congr 2
  omega

/-- **Reading a written instant.** -/
theorem datetimeOfText_text {t : Int} (h : Timestamp.InCalendar t) :
    datetimeOfText (datetimeText t) = some ⟨t, some 0⟩ := by
  obtain ⟨hmin, hmax⟩ : (-62135596800000000 : Int) ≤ t ∧ t ≤ (253402300799999999 : Int) := h
  have hlt : (t + 62135596800000000 : Int).toNat < 86400000000 * 3652059 := by omega
  have hback : ((t + 62135596800000000 : Int).toNat : Int) + -62135596800000000 = t := by omega
  have hread : datetimeOfText (datetimeText t) =
      some ⟨((t + 62135596800000000 : Int).toNat : Int) + -62135596800000000, some 0⟩ := by
    rw [datetimeText, datetimeOfText]
    exact congrArg (Option.bind · _) (readWall_wallText hlt)
  rw [hread, hback]

/-! ## Parsed dictionaries -/

/-- The value is not an object with a key twice. -/
def KeysDistinct (v : Json) : Prop := ∀ entries, v = .obj entries → (Dict.keys entries).Nodup

theorem flatValue_ne_obj {s rest : Text} {entries : List (Text × Json)} :
    flatValue s ≠ some (.obj entries, rest) := by
  intro h
  unfold flatValue at h
  split at h
  · split at h
    · cases h
    · cases h
  · split at h
    · obtain ⟨p, -, hp⟩ := Option.map_eq_some_iff.mp h
      cases hp
    · cases h

theorem keysDistinct_flatValue {s rest : Text} {v : Json} (h : flatValue s = some (v, rest)) :
    KeysDistinct v := by
  rintro entries rfl
  exact absurd h flatValue_ne_obj

/-- An object that was read is built of the entries that were read. -/
theorem nestedValue_obj {fuel : Nat} {s rest : Text} {entries : List (Text × Json)}
    (h : nestedValue fuel s = some (.obj entries, rest)) :
    entries = [] ∨ ∃ fuel' s' body rest', nestedEntries fuel' s' = some (body, rest') ∧
      entries = Dict.ofList body := by
  unfold nestedValue at h
  split at h
  · cases h
  · exact .inl (Json.obj.inj (Prod.mk.inj (Option.some.inj h)).1).symm
  · obtain ⟨⟨body, rest'⟩, hbody, hp⟩ := Option.map_eq_some_iff.mp h
    exact .inr ⟨_, _, body, rest', hbody, (Json.obj.inj (Prod.mk.inj hp).1).symm⟩
  · cases h
  · obtain ⟨p, -, hp⟩ := Option.map_eq_some_iff.mp h
    cases hp
  · cases h
  · cases h
  · cases h
  · exact absurd h flatValue_ne_obj

theorem keysDistinct_nestedValue {fuel : Nat} {s rest : Text} {v : Json}
    (h : nestedValue fuel s = some (v, rest)) : KeysDistinct v := by
  rintro entries rfl
  rcases nestedValue_obj h with rfl | ⟨_, _, body, _, -, rfl⟩
  · exact List.nodup_nil
  · exact Dict.nodup_keys_ofList body

theorem keysDistinct_objectBody {fuel : Nat} {s : Text} {entries : List (Text × Json)}
    (h : objectBody fuel s = some entries) : ∀ e ∈ entries, KeysDistinct e.2 := by
  induction fuel generalizing s entries with
  | zero => cases h
  | succ fuel ih =>
      rw [objectBody] at h
      obtain ⟨⟨key, s₁⟩, -, h⟩ := Option.bind_eq_some_iff.mp h
      dsimp only at h
      split at h
      · obtain ⟨⟨value, s₂⟩, hvalue, h⟩ := Option.bind_eq_some_iff.mp h
        dsimp only at h
        split at h
        · obtain ⟨rest, hrest, h⟩ := Option.bind_eq_some_iff.mp h
          obtain rfl : (key, value) :: rest = entries := Option.some.inj h
          intro e he
          rcases List.mem_cons.mp he with rfl | he
          · exact keysDistinct_flatValue hvalue
          · exact ih hrest e he
        · obtain rfl : [(key, value)] = entries := Option.some.inj h
          intro e he
          obtain rfl := List.mem_singleton.mp he
          exact keysDistinct_flatValue hvalue
        · cases h
      · cases h

theorem keysDistinct_nestedEntries {fuel : Nat} {s rest : Text} {entries : List (Text × Json)}
    (h : nestedEntries fuel s = some (entries, rest)) : ∀ e ∈ entries, KeysDistinct e.2 := by
  induction fuel generalizing s rest entries with
  | zero =>
      rw [nestedEntries] at h
      cases h
  | succ fuel ih =>
      rw [nestedEntries] at h
      obtain ⟨⟨key, s₁⟩, -, h⟩ := Option.bind_eq_some_iff.mp h
      dsimp only at h
      split at h
      · obtain ⟨⟨value, s₂⟩, hvalue, h⟩ := Option.bind_eq_some_iff.mp h
        dsimp only at h
        split at h
        · obtain ⟨⟨tail, s₃⟩, htail, h⟩ := Option.bind_eq_some_iff.mp h
          obtain rfl : (key, value) :: tail = entries := (Prod.mk.inj (Option.some.inj h)).1
          intro e he
          rcases List.mem_cons.mp he with rfl | he
          · exact keysDistinct_nestedValue hvalue
          · exact ih htail e he
        · obtain rfl : [(key, value)] = entries := (Prod.mk.inj (Option.some.inj h)).1
          intro e he
          obtain rfl := List.mem_singleton.mp he
          exact keysDistinct_nestedValue hvalue
        · cases h
      · cases h

/-- The values of a built dictionary are among those of its entries. -/
theorem keysDistinct_ofList {entries : List (Text × Json)} (h : ∀ e ∈ entries, KeysDistinct e.2)
    {key : Text} {v : Json} (hv : Dict.get? (Dict.ofList entries) key = some v) :
    KeysDistinct v := h _ (Dict.mem_of_mem_ofList (Dict.mem_of_get? hv))

/-! ## The instances -/

/-- The Unicode tables without anything outside ASCII, and floats as fractions. -/
instance : Runtime where
  alnum _ := false
  lower c := [c]
  printable _ := false
  floatRepr q := Text.ofInt q.num ++ '/' :: Text.ofNat q.den
  isoformat t := wallText (t - Timestamp.min).toNat "+00:00"

/-- The text conversions of pydantic's default mode, and its integers where a text is all digits. -/
instance : Pydantic where
  parseJson bytes := (decodeUtf8 bytes).bind fun s => (parseObject s).or (parseNested s)
  uuidOf
    | .str s => uuidOfText s
    | _ => none
  datetimeOf
    | .str s => datetimeOfText s
    | _ => none
  intOf
    | .int i => some i
    | .bool b => some (if b then 1 else 0)
    | .float (.finite q) => if q.den = 1 then some q.num else none
    | .str s => if s ≠ [] ∧ s.all Char.isDigit then some (ofDecimal s) else none
    | _ => none
  floatOf
    | .int i => some (.finite i)
    | .bool b => some (.finite (if b then 1 else 0))
    | .float f => some f
    | _ => none
  boolOf
    | .bool b => some b
    | .int 0 => some false
    | .int 1 => some true
    | _ => none
  datetimeText := datetimeText
  errorText model _ := "1 validation error for " ++ model

/-- An object within an object that was parsed has distinct keys. -/
theorem parseJson_keys {bytes : Bytes} {payload : Dict Text Json} {key : Text}
    {entries : Dict Text Json} (h : Pydantic.parseJson bytes = some (.obj payload))
    (hentries : payload.get? key = some (.obj entries)) : entries.keys.Nodup := by
  obtain ⟨s, -, h⟩ := Option.bind_eq_some_iff.mp h
  rcases Option.or_eq_some_iff.mp h with h | ⟨-, h⟩
  · unfold parseObject at h
    split at h
    · split at h
      · cases h
        cases hentries
      · obtain ⟨body, hbody, hpayload⟩ := Option.map_eq_some_iff.mp h
        cases hpayload
        exact keysDistinct_ofList (keysDistinct_objectBody hbody) hentries entries rfl
    · cases h
  · unfold parseNested at h
    split at h
    · rename_i value hvalue
      obtain rfl : value = .obj payload := Option.some.inj h
      rcases nestedValue_obj hvalue with rfl | ⟨_, _, body, _, hbody, rfl⟩
      · cases hentries
      · exact keysDistinct_ofList (keysDistinct_nestedEntries hbody) hentries entries rfl
    · cases h

instance : LawfulPydantic where
  uuidOf_toText := uuidOfText_toText
  intOf_int _ := rfl
  datetimeOf_text _ := datetimeOfText_text
  parseJson_dump event := by
    have hparse : parseObject event.modelDumpJson = some event.modelDump := by
      refine parseObject_modelDumpJson ?_ (List.cons_ne_nil _ _) ?_
      · simp [IncidentCreatedEvent.modelDumpEntries, Flat]
      · exact (by decide : IncidentCreatedEvent.fieldNames.Nodup)
    have hdecode : decodeUtf8 event.serialize = some event.modelDumpJson := decodeUtf8_utf8 _
    show (decodeUtf8 event.serialize).bind (fun s => (parseObject s).or (parseNested s)) = _
    rw [hdecode, Option.bind_some, hparse, Option.some_or]

example : datetimeText 1700000000000000 = ("2023-11-14T22:13:20Z" : Text) := by decide +kernel

end SupportPlatform.ReferenceCodec
