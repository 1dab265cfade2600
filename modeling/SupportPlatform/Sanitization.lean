import SupportPlatform.Json
import SupportPlatform.Regex

/-! # Sanitization

`app/agent/sanitization.py`: what is persisted for audit, or reused in a prompt, is bounded
and redacted first.

`sanitizeValue` cuts a value off at the fifth level, so it is defined by recursion on the
levels that are left.  A value that one more pass leaves alone is described by its
structure (`Settled`), and `sanitizeLevels_eq_self` says that the description is exact.
-/
namespace SupportPlatform

/-! ## Texts -/

/-- `_SENSITIVE_KEY_PARTS`. -/
def sensitiveKeyParts : List Text :=
  ["authorization", "cookie", "credential", "password", "secret", "token", "api_key", "apikey"]

namespace SensitiveValue
open Regex

/-- A letter, in a class that is matched under `re.IGNORECASE`. -/
def letter (c : Char) : Bool := c.isAlpha || [0x130, 0x131, 0x17f, 0x212a].elem c.toNat

/-- `[A-Za-z0-9._~+/=-]` under `re.IGNORECASE`. -/
def bearerChar (c : Char) : Bool := letter c || c.isDigit || ['.', '_', '~', '+', '/', '=', '-'].elem c

/-- `[^\s,;]`. -/
def valueChar (c : Char) : Bool := !(Text.isSpace c || c == ',' || c == ';')

/-- `[A-Za-z0-9_-]`. -/
def tokenChar (c : Char) : Bool := c.isAlphanum || c == '_' || c == '-'

/-- `(?i)\bbearer\s+[A-Za-z0-9._~+/=-]{16,}`. -/
def bearer : Regex :=
  all [boundary, literalIgnoreCase "bearer", plus Text.isSpace, rep bearerChar 16 none]

/-- `password|secret|token|api[_-]?key`. -/
def credentialName : Regex :=
  alt (literalIgnoreCase "password") (alt (literalIgnoreCase "secret")
    (alt (literalIgnoreCase "token")
      (all [literalIgnoreCase "api", opt (fun c => c == '_' || c == '-'), literalIgnoreCase "key"])))

/-- `(?i)\b(password|secret|token|api[_-]?key)\s*[:=]\s*[^\s,;]+`. -/
def credential : Regex :=
  all [boundary, credentialName, star Text.isSpace, char (fun c => c == ':' || c == '='),
    star Text.isSpace, plus valueChar]

/-- `\beyJ[A-Za-z0-9_-]+\.[A-Za-z0-9_-]+\.[A-Za-z0-9_-]+\b`. -/
def webToken : Regex :=
  all [boundary, literal "eyJ", plus tokenChar, char (· == '.'), plus tokenChar, char (· == '.'),
    plus tokenChar, boundary]

/-- `_SENSITIVE_VALUE_PATTERNS`. -/
def patterns : List Regex := [bearer, credential, webToken]

end SensitiveValue

section
variable [Runtime]

/-- `sanitize_text(value)`. -/
def sanitizeText (value : Text) : Text :=
  (SensitiveValue.patterns.foldl (fun s pattern => pattern.sub "[redacted-sensitive-value]" s)
    value).take 2000

/-- A text that `sanitize_text` leaves as it is. -/
def Text.Clean (s : Text) : Prop := sanitizeText s = s

instance : DecidablePred Text.Clean := fun s => inferInstanceAs (Decidable (sanitizeText s = s))

/-- Whether a key names something to redact. -/
def sensitiveKey (key : Text) : Bool := sensitiveKeyParts.any fun part => part.occursIn key.lower

/-! ## Values -/

/-- What `sanitize_value` makes of the entries of a dictionary. -/
def sanitizeEntries (item : Json → Json) (entries : Dict Text Json) : Dict Text Json :=
  Dict.ofList ((entries.take 50).map fun (rawKey, value) =>
    let key := rawKey.take 120
    (key, if sensitiveKey key then .str "[redacted]" else item value))

/-- `sanitize_value` with so many levels left. -/
def sanitizeLevels : Nat → Json → Json
  | 0, _ => .str "[depth-limited]"
  | _ + 1, .null => .null
  | _ + 1, .bool b => .bool b
  | _ + 1, .int i => .int i
  | _ + 1, .float f => .float f
  | _ + 1, .str s => .str (sanitizeText s)
  | n + 1, .arr items => .arr ((items.take 50).map (sanitizeLevels n))
  | n + 1, .obj entries => .obj (sanitizeEntries (sanitizeLevels n) entries)

/-- `sanitize_value(value)`. -/
def sanitizeValue (value : Json) : Json := sanitizeLevels 5 value

/-- `sanitize_value(value)` of a dictionary. -/
def sanitizeDict (entries : Dict Text Json) : Dict Text Json :=
  sanitizeEntries (sanitizeLevels 4) entries

@[simp] theorem sanitizeLevels_int (n : Nat) (i : Int) :
    sanitizeLevels (n + 1) (.int i) = .int i := rfl

@[simp] theorem sanitizeLevels_str (n : Nat) (s : Text) :
    sanitizeLevels (n + 1) (.str s) = .str (sanitizeText s) := rfl

/-! ## What sanitizing leaves alone -/

namespace SensitiveValue

/-- A character that no credential pattern can do without. -/
def marks (c : Char) : Bool := Text.isSpace c || c == ':' || c == '=' || c == '.'

omit [Runtime] in
theorem needs_marks : ∀ pattern ∈ patterns, pattern.Needs marks := by
  have hspace : (Regex.plus Text.isSpace).Needs marks := ⟨by decide, fun c hc => by simp [marks, hc]⟩
  have hsign : (Regex.char fun c => c == ':' || c == '=').Needs marks := fun c hc => by
    rcases Bool.or_eq_true_iff.mp hc with h | h <;> simp [marks, h]
  have hdot : (Regex.char (· == '.')).Needs marks := fun c hc => by simp_all [marks]
  intro pattern hp
  simp only [patterns, List.mem_cons, List.not_mem_nil, or_false] at hp
  rcases hp with rfl | rfl | rfl
  · exact .inr (.inr (.inl hspace))
  · exact .inr (.inr (.inr (.inl hsign)))
  · exact .inr (.inr (.inr (.inl hdot)))

end SensitiveValue

/-- A text without what the patterns cannot do without is only cut off. -/
theorem sanitizeText_of_needs {p : Char → Bool}
    (hneeds : ∀ pattern ∈ SensitiveValue.patterns, pattern.Needs p) {s : Text}
    (h : ∀ c ∈ s, p c = false) : sanitizeText s = s.take 2000 := by
  have hsub : ∀ pattern ∈ SensitiveValue.patterns,
      pattern.sub "[redacted-sensitive-value]" s = s := fun pattern hp =>
    Regex.sub_of_not_search _ (Regex.search_of_needs (hneeds pattern hp) h)
  have hfold : SensitiveValue.patterns.foldl
      (fun s pattern => pattern.sub "[redacted-sensitive-value]" s) s = s := by
    simp only [SensitiveValue.patterns, List.mem_cons, List.not_mem_nil, or_false, forall_eq_or_imp,
      forall_eq] at hsub
    simp only [SensitiveValue.patterns, List.foldl_cons, List.foldl_nil, hsub]
  rw [sanitizeText, hfold]

/-- **A text without white space, colon, equals sign and dot is clean.** -/
theorem Text.Clean.of_plain {s : Text} (h : ∀ c ∈ s, SensitiveValue.marks c = false)
    (hlen : s.length ≤ 2000) : s.Clean := by
  rw [Text.Clean, sanitizeText_of_needs SensitiveValue.needs_marks h, List.take_of_length_le hlen]

/-- Sanitizing does not empty a text. -/
theorem sanitizeText_ne_nil {s : Text} (h : s ≠ []) : sanitizeText s ≠ [] := by
  have hsub : ∀ (pattern : Regex) (t : Text), t ≠ [] →
      pattern.sub "[redacted-sensitive-value]" t ≠ [] := by
    intro pattern t ht
    cases t with
    | nil => exact absurd rfl ht
    | cons c t =>
        rw [Regex.sub, Regex.subFrom]
        split
        · exact List.append_ne_nil_of_left_ne_nil (by decide) _
        · exact List.cons_ne_nil _ _
  have hfold : SensitiveValue.patterns.foldl
      (fun s pattern => pattern.sub "[redacted-sensitive-value]" s) s ≠ [] :=
    hsub _ _ (hsub _ _ (hsub _ _ h))
  rw [sanitizeText]
  intro hnil
  rw [List.take_eq_nil_iff] at hnil
  exact hnil.elim (by decide) hfold

theorem length_sanitizeText_le (s : Text) : (sanitizeText s).length ≤ 2000 :=
  List.length_take_le _ _

/-- A value that `sanitize_value` leaves alone with so many levels left, by its structure. -/
def Settled : Nat → Json → Prop
  | 0, v => v = .str "[depth-limited]"
  | _ + 1, .null => True
  | _ + 1, .bool _ => True
  | _ + 1, .int _ => True
  | _ + 1, .float _ => True
  | _ + 1, .str s => s.Clean
  | n + 1, .arr items => items.length ≤ 50 ∧ ∀ v ∈ items, Settled n v
  | n + 1, .obj entries => entries.length ≤ 50 ∧ (Dict.keys entries).Nodup ∧
      ∀ e ∈ entries, e.1.length ≤ 120 ∧
        if sensitiveKey e.1 then e.2 = .str "[redacted]" else Settled n e.2

omit [Runtime] in
theorem take_eq_self_iff {α : Type} {n : Nat} {l : List α} : l.take n = l ↔ l.length ≤ n := by
  constructor
  · intro h
    have hlen := congrArg List.length h
    rw [List.length_take] at hlen
    omega
  · exact List.take_of_length_le

omit [Runtime] in
theorem map_eq_self_iff {α : Type} {f : α → α} {l : List α} : l.map f = l ↔ ∀ a ∈ l, f a = a := by
  induction l with
  | nil => simp
  | cons a l ih => simp [ih]

/-- Entries that are left alone by what is done with their values. -/
theorem sanitizeEntries_eq_self {item : Json → Json} {entries : Dict Text Json} :
    sanitizeEntries item entries = entries ↔ entries.length ≤ 50 ∧ (Dict.keys entries).Nodup ∧
      ∀ e ∈ entries, e.1.length ≤ 120 ∧
        if sensitiveKey e.1 then e.2 = .str "[redacted]" else item e.2 = e.2 := by
  have hentry : ∀ e : Text × Json, (e.1.take 120, if sensitiveKey (e.1.take 120) then
      .str "[redacted]" else item e.2) = e ↔ e.1.length ≤ 120 ∧
        if sensitiveKey e.1 then e.2 = .str "[redacted]" else item e.2 = e.2 := by
    intro e
    rw [Prod.ext_iff, take_eq_self_iff]
    refine and_congr_right fun hlen => ?_
    rw [List.take_of_length_le hlen]
    by_cases h : sensitiveKey e.1 = true
    · rw [if_pos h, if_pos h]
      exact eq_comm
    · rw [if_neg h, if_neg h]
  have hmap : ∀ l : List (Text × Json), l.map (fun e => (e.1.take 120,
      if sensitiveKey (e.1.take 120) then .str "[redacted]" else item e.2)) = l ↔
        ∀ e ∈ l, e.1.length ≤ 120 ∧
          if sensitiveKey e.1 then e.2 = .str "[redacted]" else item e.2 = e.2 := by
    intro l
    rw [map_eq_self_iff]
    exact forall₂_congr fun e _ => hentry e
  constructor
  · intro h
    have hlen : entries.length ≤ (entries.take 50).length := by
      conv_lhs => rw [← h]
      exact (Dict.length_ofList_le _).trans (List.length_map _).le
    rw [List.length_take] at hlen
    have hfifty : entries.length ≤ 50 := by omega
    rw [sanitizeEntries, List.take_of_length_le hfifty] at h
    -- nothing was lost in building the dictionary
    have hall := Dict.ofList_of_length (by rw [h, List.length_map])
    refine ⟨hfifty, h ▸ Dict.nodup_keys_ofList _, (hmap entries).mp ?_⟩
    exact hall.symm.trans h
  · rintro ⟨hfifty, hnodup, hall⟩
    rw [sanitizeEntries, List.take_of_length_le hfifty]
    rw [← hmap] at hall
    exact (congrArg Dict.ofList hall).trans (Dict.ofList_of_nodup hnodup)

/-- **What sanitizing leaves alone.** -/
theorem sanitizeLevels_eq_self {n : Nat} {v : Json} : sanitizeLevels n v = v ↔ Settled n v := by
  induction n generalizing v with
  | zero => exact eq_comm
  | succ n ih =>
      cases v with
      | null => exact iff_of_true rfl trivial
      | bool b => exact iff_of_true rfl trivial
      | int i => exact iff_of_true rfl trivial
      | float f => exact iff_of_true rfl trivial
      | str s =>
          rw [sanitizeLevels, Json.str.injEq]
          exact Iff.rfl
      | arr items =>
          rw [sanitizeLevels, Json.arr.injEq, Settled]
          constructor
          · intro h
            have hlen : items.length ≤ 50 := by
              have := congrArg List.length h
              rw [List.length_map, List.length_take] at this
              omega
            rw [List.take_of_length_le hlen, map_eq_self_iff] at h
            exact ⟨hlen, fun v hv => ih.mp (h v hv)⟩
          · rintro ⟨hlen, h⟩
            rw [List.take_of_length_le hlen, map_eq_self_iff]
            exact fun v hv => ih.mpr (h v hv)
      | obj entries =>
          rw [sanitizeLevels, Json.obj.injEq, Settled, sanitizeEntries_eq_self]
          refine and_congr_right fun _ => and_congr_right fun _ => forall₂_congr fun e _ => ?_
          refine and_congr_right fun _ => ?_
          by_cases h : sensitiveKey e.1 = true
          · rw [if_pos h, if_pos h]
          · rw [if_neg h, if_neg h]
            exact ih

/-- Entries that were sanitized are left alone if their values are. -/
theorem settled_sanitizeEntries {n : Nat} {item : Json → Json} {entries : Dict Text Json}
    (h : ∀ e ∈ entries, Settled n (item e.2)) :
    Settled (n + 1) (.obj (sanitizeEntries item entries)) := by
  refine ⟨?_, Dict.nodup_keys_ofList _, fun e he => ?_⟩
  · refine (Dict.length_ofList_le _).trans ?_
    rw [List.length_map]
    exact List.length_take_le _ _
  · obtain ⟨raw, hraw, rfl⟩ := List.mem_map.mp (Dict.mem_of_mem_ofList he)
    refine ⟨List.length_take_le _ _, ?_⟩
    by_cases hkey : sensitiveKey (raw.1.take 120) = true
    · dsimp only
      rw [if_pos hkey, if_pos hkey]
    · dsimp only
      rw [if_neg hkey, if_neg hkey]
      exact h raw (List.mem_of_mem_take hraw)

end

end SupportPlatform
