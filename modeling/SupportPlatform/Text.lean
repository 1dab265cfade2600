import Mathlib

/-! # Python strings

A `str` is its list of code points.  The functions here are the string methods the
code uses, on that list, so that the kernel can run them.

`Runtime` is what is left open of the runtime: the Unicode tables outside ASCII,
and the texts of floats.  Everything proved holds for
every choice of them.
-/
namespace SupportPlatform

/-- A Python `str`. -/
abbrev Text := List Char

instance : Coe String Text := ⟨String.toList⟩

instance : LawfulBEq Text := inferInstance

/-- **What is left open of the runtime.**  The first three are the Unicode tables
outside ASCII; `floatRepr` is `repr` of a finite float, and `isoformat` the text of the
`datetime` at so many microseconds from the epoch in UTC. -/
class Runtime where
  alnum : Char → Bool
  lower : Char → Text
  printable : Char → Bool
  floatRepr : Rat → Text
  isoformat : Int → Text

namespace Text

/-- Whether a code point is ASCII. -/
def ascii (c : Char) : Bool := c.toNat < 128

/-- `str.isspace` of one character, which is also what `\s` matches. -/
def isSpace (c : Char) : Bool :=
  let n := c.toNat
  (9 ≤ n && n ≤ 13) || (28 ≤ n && n ≤ 32) || n == 0x85 || n == 0xa0 || n == 0x1680 ||
    (0x2000 ≤ n && n ≤ 0x200a) || n == 0x2028 || n == 0x2029 || n == 0x202f || n == 0x205f ||
    n == 0x3000

/-- `str.strip()`. -/
def strip (s : Text) : Text :=
  ((s.dropWhile isSpace).reverse.dropWhile isSpace).reverse

/-- What pydantic's `str_strip_whitespace` leaves, which goes by the Unicode property and
so keeps the four information separators that `str.strip` removes. -/
def stripWhitespace (s : Text) : Text :=
  let white (c : Char) : Bool := isSpace c && !(28 ≤ c.toNat && c.toNat ≤ 31)
  ((s.dropWhile white).reverse.dropWhile white).reverse

/-- The characters `\w` matches. -/
def isWord [Runtime] (c : Char) : Bool :=
  if ascii c then c.isAlphanum || c == '_' else Runtime.alnum c

/-- `str.lower()`. -/
def lower [Runtime] (s : Text) : Text :=
  s.flatMap fun c => if ascii c then [c.toLower] else Runtime.lower c

/-- Whether `p` occurs in `s` (`p in s`). -/
def occursIn (p : Text) : Text → Bool
  | [] => p.isEmpty
  | c :: s => p.isPrefixOf (c :: s) || occursIn p s

/-- `str.replace` for a non-empty `old`.  `skip` counts the characters of an
occurrence that has been replaced already. -/
def replaceFrom (old new : Text) : Nat → Text → Text
  | _, [] => []
  | skip + 1, _ :: s => replaceFrom old new skip s
  | 0, c :: s =>
      if old.isPrefixOf (c :: s) then new ++ replaceFrom old new (old.length - 1) s
      else c :: replaceFrom old new 0 s

/-- `str.replace(old, new)` for a non-empty `old`. -/
def replace (s old new : Text) : Text := replaceFrom old new 0 s

/-- `separator.join(parts)`. -/
def join (separator : Text) : List Text → Text
  | [] => []
  | [s] => s
  | s :: t :: rest => s ++ separator ++ join separator (t :: rest)

/-- `str(n)` of a natural number. -/
def ofNat (n : Nat) : Text := Nat.toDigits 10 n

/-- `str(n)` of an integer. -/
def ofInt : Int → Text
  | .ofNat n => ofNat n
  | .negSucc n => '-' :: ofNat (n + 1)

/-- The hexadecimal digits of `n`, padded with zeros to `width`. -/
def hex (width n : Nat) : Text :=
  let digits := Nat.toDigits 16 n
  List.replicate (width - digits.length) '0' ++ digits

/-- The maximal runs of characters of a class: `re.findall` of `p+`. -/
def runs (p : Char → Bool) : Text → List Text
  | [] => []
  | c :: s =>
      if p c then
        match s with
        | [] => [[c]]
        | d :: _ =>
            if p d then
              match runs p s with
              | [] => [[c]]
              | run :: rest => (c :: run) :: rest
            else [c] :: runs p s
      else runs p s

/-- The length of the UTF-8 encoding. -/
def utf8Length (s : Text) : Nat := (s.map fun c => c.utf8Size).sum

/-- The single and the double quotation mark. -/
def singleQuote : Char := Char.ofNat 39
def doubleQuote : Char := Char.ofNat 34

/-- `repr` of one character between quotes `q`. -/
def reprChar [Runtime] (q c : Char) : Text :=
  if c == q || c == '\\' then ['\\', c]
  else if c == '\n' then "\\n"
  else if c == '\r' then "\\r"
  else if c == '\t' then "\\t"
  else if ascii c then if 32 ≤ c.toNat && c.toNat < 127 then [c] else "\\x" ++ hex 2 c.toNat
  else if Runtime.printable c then [c]
  else if c.toNat < 0x100 then "\\x" ++ hex 2 c.toNat
  else if c.toNat < 0x10000 then "\\u" ++ hex 4 c.toNat
  else "\\U" ++ hex 8 c.toNat

/-- `repr(s)`: single quotes unless `s` has a single and no double quote. -/
def repr [Runtime] (s : Text) : Text :=
  let q := if s.elem singleQuote && !s.elem doubleQuote then doubleQuote else singleQuote
  q :: s.flatMap (reprChar q) ++ [q]

/-- `repr` of a list whose entries have the given representations. -/
def reprList (entries : List Text) : Text := "[" ++ join ", " entries ++ "]"

@[simp] theorem replace_nil (old new : Text) : replace [] old new = [] := rfl

example : replace "<a> and <a>" "<a>" "b" = ("b and b" : Text) := by decide

end Text

end SupportPlatform
