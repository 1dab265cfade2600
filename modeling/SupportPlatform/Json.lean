import SupportPlatform.Text

/-! # JSON values and dictionaries

A value of the code that came from JSON, or goes to it, is a `Json`; a float is a
rational number or one of the three non-finite ones, which Python's `json` reads and
writes.  An object keeps its entries in insertion order, as a `dict` does.

`dumps` is `json.dumps`, and `modelDumpJson` the compact encoding of pydantic.
-/
namespace SupportPlatform

/-- A Python float, its rounding left aside. -/
inductive Float64
  | finite (q : Rat)
  | nan
  | infinity
  | negInfinity
  deriving DecidableEq

namespace Float64

instance (n : Nat) : OfNat Float64 n := ⟨.finite n⟩

/-- The sum of two floats. -/
def add : Float64 → Float64 → Float64
  | finite a, finite b => finite (a + b)
  | nan, _ | _, nan | infinity, negInfinity | negInfinity, infinity => nan
  | infinity, _ | _, infinity => infinity
  | negInfinity, _ | _, negInfinity => negInfinity

instance : Add Float64 := ⟨add⟩

/-- `a <= b`, which no comparison with a NaN is. -/
def le : Float64 → Float64 → Bool
  | finite a, finite b => a ≤ b
  | nan, _ | _, nan => false
  | negInfinity, _ | _, infinity => true
  | _, _ => false

end Float64

/-- A JSON value as Python holds it. -/
inductive Json
  | null
  | bool (b : Bool)
  | int (i : Int)
  | float (f : Float64)
  | str (s : Text)
  | arr (items : List Json)
  | obj (entries : List (Text × Json))

/-! ## Dictionaries -/

/-- A `dict`: its entries in insertion order. -/
abbrev Dict (κ β : Type) := List (κ × β)

namespace Dict
variable {κ β : Type} [DecidableEq κ]

/-- `d.get(k)`. -/
def get? (d : Dict κ β) (k : κ) : Option β := (d.find? fun e => e.1 = k).map (·.2)

/-- `k in d`. -/
def has (d : Dict κ β) (k : κ) : Bool := d.any fun e => e.1 = k

/-- `d[k] = v`: in place when the key is there, at the end otherwise. -/
def set : Dict κ β → κ → β → Dict κ β
  | [], k, v => [(k, v)]
  | e :: d, k, v => if e.1 = k then (k, v) :: d else e :: set d k v

/-- `d` without the key `k`. -/
def erase (d : Dict κ β) (k : κ) : Dict κ β := d.filter fun e => e.1 ≠ k

/-- The keys, in insertion order. -/
def keys (d : Dict κ β) : List κ := d.map (·.1)

/-- The values, in insertion order. -/
def values (d : Dict κ β) : List β := d.map (·.2)

/-- A dictionary built from a list of entries; a later entry replaces an earlier
one in its place. -/
def ofList (entries : List (κ × β)) : Dict κ β := entries.foldl (fun d e => set d e.1 e.2) []

omit [DecidableEq κ] in
@[simp] theorem keys_cons (e : κ × β) (d : Dict κ β) : keys (e :: d) = e.1 :: keys d := rfl

theorem mem_of_get? {d : Dict κ β} {k : κ} {v : β} (h : get? d k = some v) : (k, v) ∈ d := by
  obtain ⟨e, he, rfl⟩ := Option.map_eq_some_iff.mp h
  have hk : e.1 = k := by simpa using List.find?_some he
  exact hk ▸ List.mem_of_find?_eq_some he

theorem mem_values_of_get? {d : Dict κ β} {k : κ} {v : β} (h : get? d k = some v) :
    v ∈ values d := List.mem_map.mpr ⟨_, mem_of_get? h, rfl⟩

theorem mem_set {d : Dict κ β} {k : κ} {v : β} {e : κ × β} (h : e ∈ set d k v) :
    e = (k, v) ∨ e ∈ d := by
  induction d with
  | nil => exact .inl (List.mem_singleton.mp h)
  | cons a d ih =>
      rw [set] at h
      split at h
      · rcases List.mem_cons.mp h with rfl | h
        · exact .inl rfl
        · exact .inr (List.mem_cons_of_mem a h)
      · rcases List.mem_cons.mp h with rfl | h
        · exact .inr List.mem_cons_self
        · exact (ih h).imp_right (List.mem_cons_of_mem a)

theorem keys_set (d : Dict κ β) (k : κ) (v : β) :
    keys (set d k v) = if k ∈ keys d then keys d else keys d ++ [k] := by
  induction d with
  | nil => simp [set, keys]
  | cons a d ih =>
      rw [set]
      by_cases hk : a.1 = k
      · rw [if_pos hk, keys_cons, keys_cons, if_pos (by simp [hk]), hk]
      · have hne : ¬ k = a.1 := fun h => hk h.symm
        rw [if_neg hk, keys_cons, keys_cons, ih]
        by_cases hd : k ∈ keys d <;> simp [hd, hne]

/-- Setting a key makes it a key, and keeps the others. -/
theorem mem_keys_set {d : Dict κ β} {k k' : κ} {v : β} :
    k' ∈ keys (set d k v) ↔ k' = k ∨ k' ∈ keys d := by
  rw [keys_set]
  split
  · rename_i h
    exact ⟨.inr, fun h' => h'.elim (fun e => e ▸ h) id⟩
  · simp [or_comm]

theorem nodup_keys_set {d : Dict κ β} (h : (keys d).Nodup) (k : κ) (v : β) :
    (keys (set d k v)).Nodup := by
  rw [keys_set]
  split
  · exact h
  · rename_i hk
    exact List.nodup_append.mpr ⟨h, by simp,
      fun a ha b hb => by rw [List.mem_singleton] at hb; exact fun e => hk (hb ▸ e ▸ ha)⟩

theorem get?_cons (e : κ × β) (d : Dict κ β) (k : κ) :
    get? (e :: d) k = if e.1 = k then some e.2 else get? d k := by
  by_cases h : e.1 = k <;> simp [get?, h]

theorem get?_eq_none {d : Dict κ β} {k : κ} : get? d k = none ↔ k ∉ keys d := by
  induction d with
  | nil => simp [get?, keys]
  | cons e d ih =>
      rw [get?_cons, keys_cons, List.mem_cons]
      by_cases h : e.1 = k
      · simp [h]
      · rw [if_neg h, ih]
        simp [Ne.symm h]

/-- Distinct keys find their entries. -/
theorem get?_of_mem {d : Dict κ β} (h : (keys d).Nodup) {e : κ × β} (he : e ∈ d) :
    get? d e.1 = some e.2 := by
  induction d with
  | nil => cases he
  | cons a d ih =>
      obtain ⟨hfresh, h⟩ := List.nodup_cons.mp h
      rw [get?_cons]
      rcases List.mem_cons.mp he with rfl | he
      · rw [if_pos rfl]
      · have hne : ¬ a.1 = e.1 := fun hk => hfresh (List.mem_map.mpr ⟨e, he, hk.symm⟩)
        rw [if_neg hne]
        exact ih h he

/-- Setting a key changes what is found under it, and nothing else. -/
theorem get?_set (d : Dict κ β) (k k' : κ) (v : β) :
    get? (set d k v) k' = if k' = k then some v else get? d k' := by
  induction d with
  | nil =>
      rw [set, get?_cons]
      by_cases h : k = k'
      · rw [if_pos h, if_pos h.symm]
      · rw [if_neg h, if_neg (Ne.symm h)]
  | cons e d ih =>
      rw [set]
      by_cases he : e.1 = k
      · rw [if_pos he, get?_cons, get?_cons, he]
        by_cases h : k' = k
        · simp [h]
        · simp [h, Ne.symm h]
      · rw [if_neg he, get?_cons, get?_cons, ih]
        by_cases h : e.1 = k'
        · rw [if_pos h, if_pos h, if_neg fun hk => he (h.trans hk)]
        · rw [if_neg h, if_neg h]

theorem get?_erase (d : Dict κ β) (k k' : κ) :
    get? (erase d k) k' = if k' = k then none else get? d k' := by
  induction d with
  | nil => simp [erase, get?]
  | cons e d ih =>
      rw [erase] at ih ⊢
      by_cases he : e.1 = k
      · rw [List.filter_cons_of_neg (by simp [he]), ih, get?_cons, he]
        by_cases h : k' = k
        · rw [if_pos h, if_pos h]
        · rw [if_neg h, if_neg h, if_neg (Ne.symm h)]
      · rw [List.filter_cons_of_pos (by simp [he]), get?_cons, ih, get?_cons]
        by_cases h : e.1 = k'
        · rw [if_pos h, if_pos h, if_neg fun hk => he (h.trans hk)]
        · rw [if_neg h, if_neg h]

/-- Setting a key to what is found under it changes nothing. -/
theorem set_of_get? {d : Dict κ β} {k : κ} {v : β} (h : get? d k = some v) : set d k v = d := by
  induction d with
  | nil => cases h
  | cons e d ih =>
      rw [get?_cons] at h
      rw [set]
      by_cases he : e.1 = k
      · rw [if_pos he] at h ⊢
        rw [← he, ← Option.some.inj h]
      · rw [if_neg he] at h ⊢
        rw [ih h]

theorem set_of_notMem {d : Dict κ β} {k : κ} (h : k ∉ keys d) (v : β) :
    set d k v = d ++ [(k, v)] := by
  induction d with
  | nil => rfl
  | cons a d ih =>
      rw [keys_cons, List.mem_cons, not_or] at h
      rw [set, if_neg (fun e => h.1 e.symm), ih h.2]
      rfl

/-- The keys of the entries are distinct, so that a dictionary keeps all of them. -/
theorem ofList_of_nodup {entries : List (κ × β)} (h : (keys entries).Nodup) :
    ofList entries = entries := by
  -- the entries that are left are new to the dictionary that was built so far
  have hgen : ∀ (rest d : List (κ × β)), (keys (d ++ rest)).Nodup →
      rest.foldl (fun d e => set d e.1 e.2) d = d ++ rest := by
    intro rest
    induction rest with
    | nil => exact fun d _ => by simp
    | cons e rest ih =>
        intro d hd
        have hnot : e.1 ∉ keys d := by
          rw [keys, List.map_append, List.map_cons] at hd
          exact fun he => (List.nodup_append.mp hd).2.2 e.1 he e.1 List.mem_cons_self rfl
        rw [List.foldl_cons, set_of_notMem hnot, ih _ (by simpa [keys] using hd)]
        simp
  exact hgen entries [] h

/-- A dictionary that is built has distinct keys. -/
theorem nodup_keys_ofList (entries : List (κ × β)) : (keys (ofList entries)).Nodup :=
  List.foldlRecOn entries (fun d e => set d e.1 e.2) (motive := fun d => (keys d).Nodup)
    List.nodup_nil fun _ h e _ => nodup_keys_set h e.1 e.2

/-- Its entries are among those that it is built of. -/
theorem mem_of_mem_ofList {entries : List (κ × β)} {e : κ × β} (h : e ∈ ofList entries) :
    e ∈ entries := by
  have hall : ∀ a ∈ ofList entries, a ∈ entries := by
    refine List.foldlRecOn entries (fun d e => set d e.1 e.2)
      (motive := fun d => ∀ a ∈ d, a ∈ entries) nofun fun d hd e he a ha => ?_
    rcases mem_set ha with rfl | ha
    · exact he
    · exact hd a ha
  exact hall e h

theorem keys_ofList_subperm (entries : List (κ × β)) :
    (keys (ofList entries)).Subperm (keys entries) := by
  refine List.subperm_of_subset (nodup_keys_ofList entries) fun k hk => ?_
  obtain ⟨e, he, rfl⟩ := List.mem_map.mp hk
  exact List.mem_map_of_mem (mem_of_mem_ofList he)

theorem length_ofList_le (entries : List (κ × β)) : (ofList entries).length ≤ entries.length := by
  simpa [keys] using (keys_ofList_subperm entries).length_le

/-- One more entry is set last. -/
theorem ofList_concat (entries : List (κ × β)) (e : κ × β) :
    ofList (entries ++ [e]) = set (ofList entries) e.1 e.2 := List.foldl_concat ..

theorem mem_set_iff {d : Dict κ β} (h : (keys d).Nodup) {k : κ} {v : β} {e : κ × β} :
    e ∈ set d k v ↔ e = (k, v) ∨ e ∈ d ∧ e.1 ≠ k := by
  constructor
  · intro he
    by_cases hk : e.1 = k
    · have hget := get?_of_mem (nodup_keys_set h k v) he
      rw [get?_set, if_pos hk] at hget
      exact .inl (Prod.ext hk (Option.some.inj hget).symm)
    · exact (mem_set he).imp_right fun hd => ⟨hd, hk⟩
  · rintro (rfl | ⟨he, hk⟩)
    · exact mem_of_get? (by rw [get?_set, if_pos rfl])
    · exact mem_of_get? (by rw [get?_set, if_neg hk, get?_of_mem h he])

/-- **What a dictionary keeps**: the last entry under each key. -/
theorem mem_ofList {entries : List (κ × β)} {e : κ × β} :
    e ∈ ofList entries ↔ ∃ before after, entries = before ++ e :: after ∧ e.1 ∉ keys after := by
  induction entries using List.reverseRecOn with
  | nil => exact iff_of_false nofun (by simp)
  | append_singleton entries a ih =>
      rw [ofList_concat, mem_set_iff (nodup_keys_ofList entries), ih]
      constructor
      · rintro (rfl | ⟨⟨before, after, rfl, hafter⟩, hk⟩)
        · exact ⟨entries, [], rfl, nofun⟩
        · refine ⟨before, after ++ [a], by simp, fun hmem => ?_⟩
          rw [keys, List.map_append, List.mem_append] at hmem
          rcases hmem with hmem | hmem
          · exact hafter hmem
          · exact hk (List.mem_singleton.mp hmem)
      · rintro ⟨before, after, heq, hafter⟩
        rcases List.eq_nil_or_concat after with rfl | ⟨after', b, rfl⟩
        · exact .inl (List.singleton_inj.mp (List.append_inj' heq rfl).2).symm
        · have hsplit : entries ++ [a] = (before ++ e :: after') ++ [b] := by simpa using heq
          obtain ⟨rfl, hb⟩ := List.append_inj' hsplit rfl
          obtain rfl := List.singleton_inj.mp hb
          rw [keys, List.concat_eq_append, List.map_append, List.mem_append, not_or] at hafter
          exact .inr ⟨⟨before, after', rfl, hafter.1⟩, fun hk => hafter.2 (by simp [hk])⟩

/-- Working on the values and building the dictionary may be exchanged. -/
theorem ofList_map_values {γ : Type} (f : κ → β → γ) (entries : List (κ × β)) :
    ofList (entries.map fun e => (e.1, f e.1 e.2)) =
      (ofList entries).map fun e => (e.1, f e.1 e.2) := by
  have hset : ∀ (d : Dict κ β) (k : κ) (v : β),
      set (d.map fun e => (e.1, f e.1 e.2)) k (f k v) = (set d k v).map fun e => (e.1, f e.1 e.2) := by
    intro d k v
    induction d with
    | nil => rfl
    | cons a d ih =>
        rw [List.map_cons, set, set]
        by_cases hk : a.1 = k
        · rw [if_pos hk, if_pos hk, List.map_cons]
        · rw [if_neg hk, if_neg hk, List.map_cons, ih]
  induction entries using List.reverseRecOn with
  | nil => rfl
  | append_singleton entries a ih =>
      rw [List.map_append, List.map_singleton, ofList_concat, ofList_concat, ih, hset]

/-- Entries that agree pairwise make dictionaries that do. -/
theorem forall₂_ofList {γ : Type} {R : κ × β → κ × γ → Prop} (hkey : ∀ a b, R a b → a.1 = b.1)
    {entries : List (κ × β)} {entries' : List (κ × γ)} (h : List.Forall₂ R entries entries') :
    List.Forall₂ R (ofList entries) (ofList entries') := by
  have hset : ∀ {d : Dict κ β} {d' : Dict κ γ} {a : κ × β} {b : κ × γ}, List.Forall₂ R d d' → R a b →
      List.Forall₂ R (set d a.1 a.2) (set d' b.1 b.2) := by
    intro d d' a b hd hab
    induction hd with
    | nil => exact .cons hab .nil
    | cons hxy hd ih =>
        rename_i x y d d'
        rw [set, set, ← hkey x y hxy]
        by_cases hk : x.1 = a.1
        · rw [if_pos hk, if_pos (hk.trans (hkey a b hab))]
          exact .cons hab hd
        · rw [if_neg hk, if_neg fun h => hk (h.trans (hkey a b hab).symm)]
          exact .cons hxy ih
  have hgen : ∀ {l : List (κ × β)} {l' : List (κ × γ)}, List.Forall₂ R l l' →
      ∀ {d : Dict κ β} {d' : Dict κ γ}, List.Forall₂ R d d' →
        List.Forall₂ R (l.foldl (fun d e => set d e.1 e.2) d)
          (l'.foldl (fun d e => set d e.1 e.2) d') := by
    intro l l' hl
    induction hl with
    | nil => exact fun hd => hd
    | cons hab _ ih => exact fun hd => ih (hset hd hab)
  exact hgen h .nil

/-- A dictionary as long as the list of its entries kept all of them. -/
theorem ofList_of_length {entries : List (κ × β)} (h : entries.length ≤ (ofList entries).length) :
    ofList entries = entries := by
  have hperm := (keys_ofList_subperm entries).perm_of_length_le (by simpa [keys] using h)
  exact ofList_of_nodup (hperm.nodup_iff.mp (nodup_keys_ofList entries))

end Dict

/-- `list(dict.fromkeys(xs))`: the distinct entries in order of first occurrence. -/
def fromKeys {α : Type} [DecidableEq α] : List α → List α
  | [] => []
  | x :: xs => x :: (fromKeys xs).filter (· ≠ x)

theorem mem_fromKeys {α : Type} [DecidableEq α] {x : α} : ∀ {xs : List α}, x ∈ fromKeys xs ↔ x ∈ xs
  | [] => Iff.rfl
  | y :: xs => by
      by_cases h : x = y <;> simp [fromKeys, mem_fromKeys, h]

theorem nodup_fromKeys {α : Type} [DecidableEq α] : ∀ xs : List α, (fromKeys xs).Nodup
  | [] => List.nodup_nil
  | x :: xs => List.nodup_cons.mpr
      ⟨fun h => by simp at h, (nodup_fromKeys xs).filter _⟩

namespace Json

mutual
/-- Equality of JSON values, decided by recursion on both. -/
def decEq : (a b : Json) → Decidable (a = b)
  | null, null => isTrue rfl
  | bool a, bool b => decidable_of_iff (a = b) (by simp)
  | int a, int b => decidable_of_iff (a = b) (by simp)
  | float a, float b => decidable_of_iff (a = b) (by simp)
  | str a, str b => decidable_of_iff (a = b) (by simp)
  | arr a, arr b =>
      have := decEqItems a b
      decidable_of_iff (a = b) (by simp)
  | obj a, obj b =>
      have := decEqEntries a b
      decidable_of_iff (a = b) (by simp)
  | null, bool _ | null, int _ | null, float _ | null, str _ | null, arr _ | null, obj _
  | bool _, null | bool _, int _ | bool _, float _ | bool _, str _ | bool _, arr _ | bool _, obj _
  | int _, null | int _, bool _ | int _, float _ | int _, str _ | int _, arr _ | int _, obj _
  | float _, null | float _, bool _ | float _, int _ | float _, str _ | float _, arr _
  | float _, obj _
  | str _, null | str _, bool _ | str _, int _ | str _, float _ | str _, arr _ | str _, obj _
  | arr _, null | arr _, bool _ | arr _, int _ | arr _, float _ | arr _, str _ | arr _, obj _
  | obj _, null | obj _, bool _ | obj _, int _ | obj _, float _ | obj _, str _ | obj _, arr _ =>
      isFalse (by simp)

def decEqItems : (a b : List Json) → Decidable (a = b)
  | [], [] => isTrue rfl
  | [], _ :: _ | _ :: _, [] => isFalse (by simp)
  | x :: a, y :: b =>
      have := decEq x y
      have := decEqItems a b
      decidable_of_iff (x = y ∧ a = b) (by simp)

def decEqEntries : (a b : List (Text × Json)) → Decidable (a = b)
  | [], [] => isTrue rfl
  | [], _ :: _ | _ :: _, [] => isFalse (by simp)
  | (k, x) :: a, (l, y) :: b =>
      have := decEq x y
      have := decEqEntries a b
      decidable_of_iff (k = l ∧ x = y ∧ a = b) (by simp [and_assoc])
end

instance : DecidableEq Json := decEq

/-- `value.get(key)` of an object; `none` for a missing key and for anything else
than an object. -/
def get? : Json → Text → Option Json
  | obj entries, k => Dict.get? entries k
  | _, _ => none

/-- Whether Python counts the value as true. -/
def truthy : Json → Bool
  | null => false
  | bool b => b
  | int i => i ≠ 0
  | float f => f ≠ .finite 0
  | str s => s ≠ []
  | arr items => !items.isEmpty
  | obj entries => !entries.isEmpty

/-- `value == i` for an integer `i`: a Boolean counts as 0 or 1, and a float by its value. -/
def eqInt (i : Int) : Json → Bool
  | bool b => (b.toNat : Int) = i
  | int j => j = i
  | float (.finite q) => q = i
  | _ => false

/-! ## Python texts -/

mutual
/-- `repr(value)`. -/
def repr [Runtime] : Json → Text
  | null => "None"
  | bool true => "True"
  | bool false => "False"
  | int i => Text.ofInt i
  | float (.finite q) => Runtime.floatRepr q
  | float .nan => "nan"
  | float .infinity => "inf"
  | float .negInfinity => "-inf"
  | str s => Text.repr s
  | arr items => Text.reprList (reprItems items)
  | obj entries => ['\x7b'] ++ Text.join ", " (reprEntries entries) ++ ['\x7d']

def reprItems [Runtime] : List Json → List Text
  | [] => []
  | v :: items => repr v :: reprItems items

def reprEntries [Runtime] : List (Text × Json) → List Text
  | [] => []
  | (k, v) :: entries => (Text.repr k ++ ": " ++ repr v) :: reprEntries entries
end

/-- `str(value)`. -/
def toText [Runtime] : Json → Text
  | str s => s
  | v => repr v

/-! ## Encoding -/

/-- A `\uXXXX` escape of a UTF-16 code unit. -/
def escapeUnit (n : Nat) : Text := "\\u" ++ Text.hex 4 n

/-- One character of a JSON string. `ascii` is `ensure_ascii`. -/
def escapeChar (ascii : Bool) (c : Char) : Text :=
  let n := c.toNat
  if c == Text.doubleQuote || c == '\\' then ['\\', c]
  else if c == '\n' then "\\n"
  else if c == '\r' then "\\r"
  else if c == '\t' then "\\t"
  else if n == 8 then "\\b"
  else if n == 12 then "\\f"
  else if n < 32 then escapeUnit n
  -- `ensure_ascii` keeps what is between the space and the tilde
  else if !ascii || n < 127 then [c]
  else if n < 0x10000 then escapeUnit n
  else
    let m := n - 0x10000
    escapeUnit (0xd800 + m / 0x400) ++ escapeUnit (0xdc00 + m % 0x400)

/-- A JSON string with its quotation marks. -/
def quoted (ascii : Bool) (s : Text) : Text :=
  Text.doubleQuote :: s.flatMap (escapeChar ascii) ++ [Text.doubleQuote]

/-- A number.  Non-finite floats are written the way Python writes them. -/
def floatText [Runtime] : Float64 → Text
  | .finite q => Runtime.floatRepr q
  | .nan => "NaN"
  | .infinity => "Infinity"
  | .negInfinity => "-Infinity"

/-- The entries of an object in the order of their keys, for `sort_keys`. -/
def sortEntries (entries : List (Text × Text)) : List (Text × Text) :=
  entries.insertionSort fun a b => a.1 ≤ b.1

mutual
/-- The compact encoding of a value. -/
def encode [Runtime] (ascii sortKeys : Bool) : Json → Text
  | null => "null"
  | bool true => "true"
  | bool false => "false"
  | int i => Text.ofInt i
  | float f => floatText f
  | str s => quoted ascii s
  | arr items => "[" ++ Text.join "," (encodeItems ascii sortKeys items) ++ "]"
  | obj entries =>
      let parts := encodeEntries ascii sortKeys entries
      let parts := if sortKeys then sortEntries parts else parts
      ['\x7b'] ++ Text.join "," (parts.map fun e => quoted ascii e.1 ++ ":" ++ e.2) ++ ['\x7d']

def encodeItems [Runtime] (ascii sortKeys : Bool) : List Json → List Text
  | [] => []
  | v :: items => encode ascii sortKeys v :: encodeItems ascii sortKeys items

def encodeEntries [Runtime] (ascii sortKeys : Bool) : List (Text × Json) → List (Text × Text)
  | [] => []
  | (k, v) :: entries => (k, encode ascii sortKeys v) :: encodeEntries ascii sortKeys entries
end

/-- `json.dumps(value, sort_keys=True, separators=(",", ":"))`. -/
def dumps [Runtime] (value : Json) : Text := encode true true value

/-- `json.dumps(texts)` of a list of texts, with the separator that is the default. -/
def dumpsTexts (texts : List Text) : Text :=
  "[" ++ Text.join ", " (texts.map (quoted true)) ++ "]"

/-- `model_dump_json()`: compact, keys in field order, UTF-8. -/
def modelDumpJson [Runtime] (value : Json) : Text := encode false false value

end Json

end SupportPlatform
