import SupportPlatform.SanitizedValues
import SupportPlatform.Substitution

/-! # Signatures of stored arguments

A resumed execution recomputes the signatures of its calls from the stored arguments, which were
sanitized before.  So they are the counted ones as long as sanitizing twice is sanitizing once.
The three substitutions leave nothing for a second pass: a match of the redacted text would have
been one before.  Only the cut at 2000 characters can expose a token, since the pattern of web
tokens wants a word boundary at its end (`clean_sanitizeText_iff`).
-/
namespace SupportPlatform

namespace SensitiveValue
open Regex Text

section
variable [Runtime] {prev : Option Char} {w rest : Text}

/-! ## What the patterns match -/

/-- `bearer\s+[A-Za-z0-9._~+/=-]{16,}`. -/
def Bearer (w : Text) : Prop :=
  ∃ name gap token, w = name ++ (gap ++ token) ∧ Spells "bearer" name ∧
    (gap ≠ [] ∧ ∀ c ∈ gap, isSpace c = true) ∧ 16 ≤ token.length ∧ ∀ c ∈ token, bearerChar c = true

/-- `password|secret|token|api[_-]?key`. -/
def CredentialName (name : Text) : Prop :=
  Spells "password" name ∨ Spells "secret" name ∨ Spells "token" name ∨
    ∃ api mark key, name = api ++ (mark ++ key) ∧ Spells "api" api ∧
      (mark.length ≤ 1 ∧ ∀ c ∈ mark, (c == '_' || c == '-') = true) ∧ Spells "key" key

/-- A credential up to its value. -/
def CredentialHead (w : Text) : Prop :=
  ∃ name gap sign gap', w = name ++ (gap ++ sign :: gap') ∧ CredentialName name ∧
    (∀ c ∈ gap, isSpace c = true) ∧ (sign == ':' || sign == '=') = true ∧
    ∀ c ∈ gap', isSpace c = true

/-- `(password|secret|token|api[_-]?key)\s*[:=]\s*[^\s,;]+`. -/
def Credential (w : Text) : Prop :=
  ∃ head value, w = head ++ value ∧ CredentialHead head ∧ value ≠ [] ∧
    ∀ c ∈ value, valueChar c = true

/-- `eyJ[A-Za-z0-9_-]+\.[A-Za-z0-9_-]+\.[A-Za-z0-9_-]+`. -/
def WebToken (w : Text) : Prop :=
  ∃ header payload signature, w = ("eyJ" : Text) ++ (header ++ '.' :: (payload ++ '.' :: signature)) ∧
    (header ≠ [] ∧ ∀ c ∈ header, tokenChar c = true) ∧
    (payload ≠ [] ∧ ∀ c ∈ payload, tokenChar c = true) ∧
    (signature ≠ [] ∧ ∀ c ∈ signature, tokenChar c = true)

theorem takes_bearer :
    bearer.Takes prev w rest ↔ isBoundary prev (w ++ rest) = true ∧ Bearer w := by
  have hbearer : bearer = seq boundary (seq (literalIgnoreCase "bearer")
    (seq (plus isSpace) (rep bearerChar 16 none))) := rfl
  rw [hbearer, takes_boundary_seq]
  refine and_congr_right fun _ => ?_
  rw [takes_seq]
  constructor
  · rintro ⟨name, v, rfl, hname, hv⟩
    obtain ⟨gap, token, rfl, hgap, htoken⟩ := takes_seq.mp hv
    obtain ⟨hlength, -, hchars⟩ := takes_rep.mp htoken
    exact ⟨name, gap, token, rfl, takes_literalIgnoreCase.mp hname, takes_plus.mp hgap, hlength, hchars⟩
  · rintro ⟨name, gap, token, rfl, hname, hgap, hlength, hchars⟩
    exact ⟨name, gap ++ token, rfl, takes_literalIgnoreCase.mpr hname, takes_seq.mpr
      ⟨gap, token, rfl, takes_plus.mpr hgap,
        takes_rep.mpr ⟨hlength, fun _ hmost => (by cases hmost), hchars⟩⟩⟩

theorem takes_credentialName : credentialName.Takes prev w rest ↔ CredentialName w := by
  have hname : credentialName = alt (literalIgnoreCase "password") (alt (literalIgnoreCase "secret")
    (alt (literalIgnoreCase "token") (seq (literalIgnoreCase "api")
      (seq (opt fun c => c == '_' || c == '-') (literalIgnoreCase "key"))))) := rfl
  rw [hname, takes_alt, takes_alt, takes_alt, takes_literalIgnoreCase, takes_literalIgnoreCase,
    takes_literalIgnoreCase, takes_seq]
  refine or_congr_right (or_congr_right (or_congr_right ?_))
  constructor
  · rintro ⟨api, v, rfl, hapi, hv⟩
    obtain ⟨mark, key, rfl, hmark, hkey⟩ := takes_seq.mp hv
    obtain ⟨-, hlength, hchars⟩ := takes_rep.mp hmark
    exact ⟨api, mark, key, rfl, takes_literalIgnoreCase.mp hapi, ⟨hlength 1 rfl, hchars⟩,
      takes_literalIgnoreCase.mp hkey⟩
  · rintro ⟨api, mark, key, rfl, hapi, ⟨hlength, hchars⟩, hkey⟩
    refine ⟨api, mark ++ key, rfl, takes_literalIgnoreCase.mpr hapi, takes_seq.mpr
      ⟨mark, key, rfl, takes_rep.mpr ⟨Nat.zero_le _, fun m hm => ?_, hchars⟩,
        takes_literalIgnoreCase.mpr hkey⟩⟩
    obtain rfl := Option.some.inj hm
    exact hlength

theorem takes_credential :
    credential.Takes prev w rest ↔ isBoundary prev (w ++ rest) = true ∧ Credential w := by
  have hcredential : credential = seq boundary (seq credentialName (seq (star isSpace)
    (seq (char fun c => c == ':' || c == '=') (seq (star isSpace) (plus valueChar))))) := rfl
  rw [hcredential, takes_boundary_seq]
  refine and_congr_right fun _ => ?_
  rw [takes_seq]
  constructor
  · rintro ⟨name, v, rfl, hname, hv⟩
    obtain ⟨gap, v, rfl, hgap, hv⟩ := takes_seq.mp hv
    obtain ⟨u, v, rfl, hu, hv⟩ := takes_seq.mp hv
    obtain ⟨sign, rfl, hsign⟩ := takes_char.mp hu
    obtain ⟨gap', value, rfl, hgap', hvalue⟩ := takes_seq.mp hv
    obtain ⟨hne, hchars⟩ := takes_plus.mp hvalue
    refine ⟨name ++ (gap ++ sign :: gap'), value, by simp, ⟨name, gap, sign, gap', rfl,
      takes_credentialName.mp hname, takes_star.mp hgap, hsign, takes_star.mp hgap'⟩, hne, hchars⟩
  · rintro ⟨_, value, rfl, ⟨name, gap, sign, gap', rfl, hname, hgap, hsign, hgap'⟩, hvalue⟩
    refine ⟨name, gap ++ sign :: (gap' ++ value), by simp, takes_credentialName.mpr hname,
      takes_seq.mpr ⟨gap, sign :: (gap' ++ value), rfl, takes_star.mpr hgap, takes_seq.mpr
        ⟨[sign], gap' ++ value, rfl, takes_char.mpr ⟨sign, rfl, hsign⟩, takes_seq.mpr
          ⟨gap', value, rfl, takes_star.mpr hgap', takes_plus.mpr hvalue⟩⟩⟩⟩

theorem takes_webToken : webToken.Takes prev w rest ↔
    isBoundary prev (w ++ rest) = true ∧ WebToken w ∧ isBoundary (before prev w) rest = true := by
  have hwebToken : webToken = seq boundary (seq (literal "eyJ") (seq (plus tokenChar)
    (seq (char (· == '.')) (seq (plus tokenChar) (seq (char (· == '.'))
      (seq (plus tokenChar) boundary)))))) := rfl
  have hdot : ∀ {prev : Option Char} {w rest : Text},
      (char (· == '.')).Takes prev w rest ↔ w = ['.'] := by
    intro prev w rest
    rw [takes_char]
    simp
  have hbefore : ∀ (prev : Option Char) (u v : Text),
      before (before prev u) v = before prev (u ++ v) := by
    intro prev u v
    simp only [before, List.getLast?_append, Option.or_assoc]
  rw [hwebToken, takes_boundary_seq]
  refine and_congr_right fun _ => ?_
  rw [takes_seq]
  constructor
  · rintro ⟨u, v, rfl, hu, hv⟩
    obtain rfl := takes_literal.mp hu
    obtain ⟨header, v, rfl, hheader, hv⟩ := takes_seq.mp hv
    obtain ⟨u, v, rfl, hu, hv⟩ := takes_seq.mp hv
    obtain rfl := hdot.mp hu
    obtain ⟨payload, v, rfl, hpayload, hv⟩ := takes_seq.mp hv
    obtain ⟨u, v, rfl, hu, hv⟩ := takes_seq.mp hv
    obtain rfl := hdot.mp hu
    obtain ⟨signature, v, rfl, hsignature, hv⟩ := takes_seq.mp hv
    obtain ⟨rfl, hend⟩ := takes_boundary.mp hv
    refine ⟨⟨header, payload, signature, by simp, takes_plus.mp hheader, takes_plus.mp hpayload,
      takes_plus.mp hsignature⟩, ?_⟩
    simpa only [hbefore, List.append_assoc, List.append_nil, List.nil_append] using hend
  · rintro ⟨⟨header, payload, signature, rfl, hheader, hpayload, hsignature⟩, hend⟩
    refine ⟨"eyJ", header ++ '.' :: (payload ++ '.' :: signature), rfl, takes_literal.mpr rfl,
      takes_seq.mpr ⟨header, '.' :: (payload ++ '.' :: signature), rfl, takes_plus.mpr hheader,
        takes_seq.mpr ⟨['.'], payload ++ '.' :: signature, rfl, hdot.mpr rfl, takes_seq.mpr
          ⟨payload, '.' :: signature, rfl, takes_plus.mpr hpayload, takes_seq.mpr
            ⟨['.'], signature, rfl, hdot.mpr rfl, takes_seq.mpr
              ⟨signature, [], (List.append_nil _).symm, takes_plus.mpr hsignature,
                takes_boundary.mpr ⟨rfl, ?_⟩⟩⟩⟩⟩⟩⟩
    simpa only [hbefore, List.append_assoc, List.cons_append, List.nil_append] using hend

/-! ## How a match starts -/

/-- The first three letters of what the patterns look for. -/
def openings : List (Char × Char × Char) :=
  [('b', 'e', 'a'), ('p', 'a', 's'), ('s', 'e', 'c'), ('t', 'o', 'k'), ('a', 'p', 'i'),
    ('e', 'y', 'j')]

/-- A text that starts like a match. -/
def Opens (w : Text) : Prop :=
  ∃ l ∈ openings, ∃ c d e t, w = c :: d :: e :: t ∧ foldsTo l.1 c = true ∧ foldsTo l.2.1 d = true ∧
    foldsTo l.2.2 e = true

section
omit [Runtime]

theorem opens_of_spells {a b c : Char} {letters w t : Text} (hl : (a, b, c) ∈ openings)
    (h : Spells (a :: b :: c :: letters) w) : Opens (w ++ t) := by
  obtain ⟨x, w₁, hx, h₁, rfl⟩ := List.forall₂_cons_left_iff.mp h
  obtain ⟨y, w₂, hy, h₂, rfl⟩ := List.forall₂_cons_left_iff.mp h₁
  obtain ⟨z, w₃, hz, -, rfl⟩ := List.forall₂_cons_left_iff.mp h₂
  exact ⟨_, hl, x, y, z, w₃ ++ t, rfl, hx, hy, hz⟩

theorem Bearer.opens (h : Bearer w) : Opens w := by
  obtain ⟨name, gap, token, rfl, hname, -⟩ := h
  exact opens_of_spells (by decide) hname

theorem CredentialName.opens {t : Text} (h : CredentialName w) : Opens (w ++ t) := by
  rcases h with h | h | h | ⟨api, mark, key, rfl, h, -⟩
  · exact opens_of_spells (by decide) h
  · exact opens_of_spells (by decide) h
  · exact opens_of_spells (by decide) h
  · rw [List.append_assoc]
    exact opens_of_spells (by decide) h

theorem CredentialHead.opens {t : Text} (h : CredentialHead w) : Opens (w ++ t) := by
  obtain ⟨name, gap, sign, gap', rfl, hname, -⟩ := h
  rw [List.append_assoc]
  exact hname.opens

end

omit [Runtime] in
theorem Credential.opens (h : Credential w) : Opens w := by
  obtain ⟨head, value, rfl, hhead, -⟩ := h
  exact hhead.opens

omit [Runtime] in
theorem WebToken.opens (h : WebToken w) : Opens w := by
  obtain ⟨header, payload, signature, rfl, -⟩ := h
  exact ⟨('e', 'y', 'j'), by decide, 'e', 'y', 'J', _, rfl, by decide, by decide, by decide⟩

omit [Runtime] in
/-- The first letter of a match, which bounds words and may stand in a value. -/
theorem opening_letter {l : Char × Char × Char} (hl : l ∈ openings) {c : Char}
    (h : foldsTo l.1 c = true) : valueChar c = true ∧ c ≠ '[' := by
  have hletters : ∀ l ∈ openings, 97 ≤ l.1.toNat ∧ l.1.toNat ≤ 122 := by decide
  have hrange := foldsTo_range (hletters l hl) h
  have hne : ∀ d : Char, d.toNat < 65 ∨ d.toNat = 91 → (c == d) = false := by
    intro d hd
    rw [beq_eq_false_iff_ne]
    rintro rfl
    omega
  constructor
  · simp only [valueChar, hne ',' (by decide), hne ';' (by decide), isSpace, Bool.or_false,
      Bool.not_eq_true', Bool.or_eq_false_iff, Bool.and_eq_false_iff, decide_eq_false_iff_not,
      beq_eq_false_iff_ne]
    omega
  · exact beq_eq_false_iff_ne.mp (hne '[' (by decide))

/-- The text that replaces a match. -/
def mark : Text := "[redacted-sensitive-value]"

/-- Whether a text may be continued to one that starts like a match. -/
def mayOpen (v : Text) : Bool :=
  openings.any fun l => match v with
    | [] => true
    | [c] => foldsTo l.1 c
    | [c, d] => foldsTo l.1 c && foldsTo l.2.1 d
    | c :: d :: e :: _ => foldsTo l.1 c && foldsTo l.2.1 d && foldsTo l.2.2 e

omit [Runtime] in
theorem mayOpen_of_opens {v t : Text} (h : Opens (v ++ t)) : mayOpen v = true := by
  obtain ⟨l, hl, c, d, e, rest, hsplit, hc, hd, he⟩ := h
  refine List.any_eq_true.mpr ⟨l, hl, ?_⟩
  rcases v with _ | ⟨x, _ | ⟨y, _ | ⟨z, v⟩⟩⟩
  · rfl
  · rw [List.cons_append, List.cons.injEq] at hsplit
    exact hsplit.1 ▸ hc
  · rw [List.cons_append, List.cons.injEq, List.cons_append, List.cons.injEq] at hsplit
    exact Bool.and_eq_true_iff.mpr ⟨hsplit.1 ▸ hc, hsplit.2.1 ▸ hd⟩
  · rw [List.cons_append, List.cons.injEq, List.cons_append, List.cons.injEq, List.cons_append,
      List.cons.injEq] at hsplit
    exact Bool.and_eq_true_iff.mpr ⟨Bool.and_eq_true_iff.mpr
      ⟨hsplit.1 ▸ hc, hsplit.2.1 ▸ hd⟩, hsplit.2.2.1 ▸ he⟩

omit [Runtime] in
/-- No match starts within the text that replaces one. -/
theorem not_opens_mark {u v t : Text} (h : mark = u ++ v) (hv : v ≠ []) : ¬ Opens (v ++ t) := by
  have hall : ∀ v ∈ mark.tails, v ≠ [] → mayOpen v = false := by decide
  intro hopens
  have hsuffix : v ∈ mark.tails := (List.mem_tails _ _).mpr ⟨u, h.symm⟩
  have hmay := mayOpen_of_opens hopens
  rw [hall v hsuffix hv] at hmay
  cases hmay

/-! ## What comes after a match -/

/-- After a match of the pattern, a character of the kind starts a word. -/
def Separates (r : Regex) (P : Char → Prop) : Prop :=
  ∀ (c : Char) (s m : Text) (p : Option Char), P c → r.matchAt p (m ++ c :: s) = some m.length →
    isBoundary (before p m) (c :: s) = true

theorem separates_of_greedy {r : Regex} {p : Char → Bool} {P : Char → Prop} (hr : r.EndsGreedy p)
    (hP : ∀ c, P c → p c = true) : Separates r P := by
  intro c s m prev hc hmatch
  have hnext := next_of_endsGreedy r hr prev _ _ hmatch c (by rw [List.drop_left]; rfl)
  rw [hP c hc] at hnext
  cases hnext

theorem separates_bearer : Separates bearer fun c => foldsTo 'b' c = true := by
  have hends : EndsGreedy bearerChar bearer := rfl
  refine separates_of_greedy hends fun c hc => ?_
  -- only the two cases of the letter fold to it
  have hlower : c.toLower = 'b' := by
    simp only [foldsTo, Bool.or_eq_true, Bool.and_eq_true, beq_iff_eq] at hc
    rcases hc with ((h | ⟨h, -⟩) | ⟨h, -⟩) | ⟨h, -⟩
    · exact h
    · exact absurd h (by decide)
    · exact absurd h (by decide)
    · exact absurd h (by decide)
  have halpha : c.isAlpha = true := by
    rw [Char.isAlpha, Bool.or_eq_true]
    by_cases hupper : c.val ≥ 'A'.val ∧ c.val ≤ 'Z'.val
    · exact .inl (by simpa [Char.isUpper] using hupper)
    · have hsame : c.toLower = c := dif_neg hupper
      rw [hsame] at hlower
      rw [hlower]
      decide
  rw [bearerChar, letter, halpha]
  rfl

theorem separates_credential : Separates credential fun c => valueChar c = true := by
  have hends : EndsGreedy valueChar credential := rfl
  exact separates_of_greedy hends fun _ h => h

theorem separates_webToken (P : Char → Prop) : Separates webToken P := by
  intro c s m prev _ hmatch
  have htakes : webToken.Takes prev m (c :: s) := List.mem_of_mem_head? hmatch
  exact (takes_webToken.mp htakes).2.2

theorem boundary_of_linked {r : Regex} {P : Char → Prop} (hr : Separates r P) {c : Char}
    {s t : Text} {prev' prev : Option Char} (hc : P c) (hlinked : Linked r mark prev' prev (c :: s))
    (h : isBoundary prev' (c :: t) = true) : isBoundary prev (c :: s) = true := by
  rcases hlinked with rfl | ⟨-, p, m, -, hmatch, rfl⟩
  · exact h
  · exact hr c s m p hc hmatch

/-! ## What a substitution keeps -/

variable {r : Regex} {c : Char} {s t : Text} {prev' : Option Char}

/-- What starts at a character that is kept was there before, up to the first new text. -/
theorem kept_text (prev : Option Char) {w rest : Text} (hw : '[' ∉ w) (hne : w ≠ []) (hsplit : c :: t = w ++ rest)
    (h : Replaces r mark (some c) s t) :
    ∃ rest', c :: s = w ++ rest' ∧ Replaces r mark (before prev w) rest' rest := by
  cases w with
  | nil => exact absurd rfl hne
  | cons d w =>
      obtain ⟨rfl, rfl⟩ := List.cons.inj hsplit
      rw [List.mem_cons, not_or] at hw
      obtain ⟨rest', rfl, hrest⟩ := h.kept_prefix (d := '[') rfl hw.2
      exact ⟨rest', rfl, by rw [before_cons]; exact hrest⟩

section
omit [Runtime]

theorem Opens.ne_nil (h : Opens w) : w ≠ [] := by
  obtain ⟨l, -, c, d, e, t, rfl, -⟩ := h
  exact List.cons_ne_nil _ _

theorem Opens.valueChar (h : Opens (c :: w)) : valueChar c = true ∧ c ≠ '[' := by
  obtain ⟨l, hl, c, d, e, t, hsplit, hc, -⟩ := h
  obtain ⟨rfl, -⟩ := List.cons.inj hsplit
  exact opening_letter hl hc

theorem Bearer.notMem (h : Bearer w) : '[' ∉ w := by
  obtain ⟨name, gap, token, rfl, hname, ⟨-, hgap⟩, -, htoken⟩ := h
  have hbracket : isSpace '[' = false ∧ bearerChar '[' = false := by decide
  rw [List.mem_append, List.mem_append, not_or, not_or]
  refine ⟨notMem_of_spells hname (by decide), fun hmem => ?_, fun hmem => ?_⟩
  · rw [hgap _ hmem] at hbracket
    cases hbracket.1
  · rw [htoken _ hmem] at hbracket
    cases hbracket.2

end

theorem bearer_kept (hr : Separates r fun c => foldsTo 'b' c = true)
    (hlinked : Linked r mark prev' prev (c :: s)) (h : Replaces r mark (some c) s t)
    (hends : bearer.ends prev' (c :: t) ≠ []) : bearer.ends prev (c :: s) ≠ [] := by
  obtain ⟨w, rest, hsplit, htakes⟩ := ends_ne_nil_iff.mp hends
  obtain ⟨hboundary, hbearer⟩ := takes_bearer.mp htakes
  obtain ⟨rest', hsplit', -⟩ := kept_text prev hbearer.notMem hbearer.opens.ne_nil hsplit h
  refine ends_ne_nil_iff.mpr ⟨w, rest', hsplit', takes_bearer.mpr ⟨?_, hbearer⟩⟩
  rw [← hsplit']
  rw [← hsplit] at hboundary
  refine boundary_of_linked hr ?_ hlinked hboundary
  obtain ⟨name, gap, token, rfl, hname, -⟩ := hbearer
  obtain ⟨x, name', hx, -, rfl⟩ := List.forall₂_cons_left_iff.mp hname
  obtain ⟨rfl, -⟩ := List.cons.inj hsplit
  exact hx

omit [Runtime] in
theorem CredentialName.notMem (h : CredentialName w) : '[' ∉ w := by
  rcases h with h | h | h | ⟨api, sep, key, rfl, hapi, ⟨-, hsep⟩, hkey⟩
  · exact notMem_of_spells h (by decide)
  · exact notMem_of_spells h (by decide)
  · exact notMem_of_spells h (by decide)
  · rw [List.mem_append, List.mem_append, not_or, not_or]
    exact ⟨notMem_of_spells hapi (by decide), fun hmem => absurd (hsep _ hmem) (by decide),
      notMem_of_spells hkey (by decide)⟩

omit [Runtime] in
theorem CredentialHead.notMem (h : CredentialHead w) : '[' ∉ w := by
  obtain ⟨name, gap, sign, gap', rfl, hname, hgap, hsign, hgap'⟩ := h
  have hspace : isSpace '[' ≠ true := by decide
  rw [List.mem_append, List.mem_append, List.mem_cons, not_or, not_or, not_or]
  refine ⟨hname.notMem, fun hmem => hspace (hgap _ hmem), ?_, fun hmem => hspace (hgap' _ hmem)⟩
  rintro rfl
  exact absurd hsign (by decide)

/-- A credential whose value was swapped for the new text had a value. -/
theorem credential_kept (hr : Separates r fun c => valueChar c = true)
    (hopens : ∀ prev w rest, r.Takes prev w rest → Opens w)
    (hlinked : Linked r mark prev' prev (c :: s)) (h : Replaces r mark (some c) s t)
    (hends : credential.ends prev' (c :: t) ≠ []) : credential.ends prev (c :: s) ≠ [] := by
  obtain ⟨w, rest, hsplit, htakes⟩ := ends_ne_nil_iff.mp hends
  obtain ⟨hboundary, head, value, rfl, hhead, hne, hvalue⟩ := takes_credential.mp htakes
  have hletter : valueChar c = true := by
    have hopens : Opens (c :: t) := by
      rw [hsplit, List.append_assoc]
      exact hhead.opens
    exact hopens.valueChar.1
  have hfront : Opens head := by
    have := hhead.opens (t := [])
    rwa [List.append_nil] at this
  rw [← hsplit] at hboundary
  rw [List.append_assoc] at hsplit
  obtain ⟨rest', hsplit', hrest⟩ := kept_text prev hhead.notMem hfront.ne_nil hsplit h
  have hfound : ∃ d rest'', rest' = d :: rest'' ∧ valueChar d = true := by
    cases value with
    | nil => exact absurd rfl hne
    | cons v value =>
        generalize htail : (v :: value) ++ rest = tail at hrest
        cases hrest with
        | nil => cases htail
        | keep hnone hrest =>
            obtain ⟨rfl, -⟩ := List.cons.inj htail
            exact ⟨_, _, rfl, hvalue _ List.mem_cons_self⟩
        | @swap prev m s t hm hmatch hrest =>
            cases m with
            | nil => exact absurd rfl hm
            | cons d m =>
                have htaken := hopens _ _ _ (List.mem_of_mem_head? hmatch)
                exact ⟨d, m ++ s, rfl, htaken.valueChar.1⟩
  obtain ⟨d, rest'', rfl, hd⟩ := hfound
  refine ends_ne_nil_iff.mpr ⟨head ++ [d], rest'', by rw [hsplit']; simp, ?_⟩
  refine takes_credential.mpr ⟨?_, head, [d], rfl, hhead, List.cons_ne_nil _ _, ?_⟩
  · rw [List.append_assoc]
    change isBoundary prev (head ++ d :: rest'') = true
    rw [← hsplit']
    exact boundary_of_linked hr hletter hlinked hboundary
  · rwa [List.forall_mem_singleton]

omit [Runtime] in
theorem WebToken.notMem (h : WebToken w) : '[' ∉ w := by
  obtain ⟨header, payload, signature, rfl, ⟨-, hheader⟩, ⟨-, hpayload⟩, -, hsignature⟩ := h
  have hbracket : tokenChar '[' ≠ true := by decide
  simp only [List.mem_append, List.mem_cons, not_or]
  exact ⟨by decide, fun hmem => hbracket (hheader _ hmem), by decide,
    fun hmem => hbracket (hpayload _ hmem), by decide, fun hmem => hbracket (hsignature _ hmem)⟩

omit [Runtime] in
theorem before_of_ne_nil (hw : w ≠ []) (prev prev' : Option Char) :
    before prev w = before prev' w := by
  obtain ⟨u, d, rfl⟩ := (List.eq_nil_or_concat w).resolve_left hw
  simp [before]

theorem webToken_kept (hlinked : Linked webToken mark prev' prev (c :: s))
    (h : Replaces webToken mark (some c) s t) (hends : webToken.ends prev' (c :: t) ≠ []) :
    webToken.ends prev (c :: s) ≠ [] := by
  obtain ⟨w, rest, hsplit, htakes⟩ := ends_ne_nil_iff.mp hends
  obtain ⟨hboundary, htoken, hend⟩ := takes_webToken.mp htakes
  obtain ⟨rest', hsplit', hrest⟩ :=
    kept_text prev htoken.notMem htoken.opens.ne_nil hsplit h
  refine ends_ne_nil_iff.mpr ⟨w, rest', hsplit', takes_webToken.mpr ⟨?_, htoken, ?_⟩⟩
  · rw [← hsplit']
    rw [← hsplit] at hboundary
    exact boundary_of_linked (separates_webToken fun _ => True) trivial hlinked hboundary
  · rw [before_of_ne_nil htoken.opens.ne_nil prev' prev] at hend
    cases hrest with
    | nil => exact hend
    | keep hnone hrest => exact hend
    | swap hm hmatch hrest =>
        -- a match starts where the token ends
        have htaken := List.mem_of_mem_head? hmatch
        exact (takes_webToken.mp htaken).1

/-! ## The redacted text -/

/-- What starts like a match of one pattern never appears by a substitution of the other. -/
def Keeps (q r : Regex) : Prop :=
  ∀ {prev' prev : Option Char} {c : Char} {s t : Text}, Linked r mark prev' prev (c :: s) →
    Replaces r mark (some c) s t → q.ends prev' (c :: t) ≠ [] → q.ends prev (c :: s) ≠ []

/-- The texts that a pattern takes start with one of the openings. -/
def OpensAll (q : Regex) : Prop :=
  ∀ (prev : Option Char) (w rest : Text), q.Takes prev w rest → Opens w

theorem opensAll_bearer : OpensAll bearer := fun _ _ _ h => (takes_bearer.mp h).2.opens

theorem opensAll_credential : OpensAll credential := fun _ _ _ h => (takes_credential.mp h).2.opens

theorem opensAll_webToken : OpensAll webToken := fun _ _ _ h => (takes_webToken.mp h).2.1.opens

theorem consumes_of_opensAll {q : Regex} (hq : OpensAll q) : q.Consumes := by
  intro prev s hzero
  have htakes : q.Takes prev [] s := hzero
  exact (hq prev [] s htakes).ne_nil rfl

theorem inside_mark {q : Regex} (hq : OpensAll q) (u v : Text) (h : mark = u ++ v) (hv : v ≠ [])
    (p : Option Char) (t : Text) : q.ends p (v ++ t) = [] := by
  by_contra hends
  obtain ⟨w, rest, hsplit, htakes⟩ := ends_ne_nil_iff.mp hends
  refine not_opens_mark h hv (t := t) ?_
  rw [hsplit]
  obtain ⟨l, hl, c, d, e, w, rfl, hopens⟩ := hq p w rest htakes
  exact ⟨l, hl, c, d, e, w ++ rest, rfl, hopens⟩

/-- No match appears by a substitution. -/
theorem not_occurs_sub {q r : Regex} (hq : OpensAll q) (hkeeps : Keeps q r) {s : Text}
    (h : ¬ q.Occurs none s) : ¬ q.Occurs none (r.sub mark s) := by
  intro hoccurs
  obtain ⟨w, c, s', rfl, hends, -⟩ := (replaces_sub r mark s).exists_kept (List.cons_ne_nil _ _)
    (inside_mark hq) hkeeps (.inl rfl) hoccurs
  exact h (occurs_append (.inl hends))

/-- No match of a pattern survives its substitution. -/
theorem not_occurs_sub_self {r : Regex} (hr : OpensAll r) (hkeeps : Keeps r r) (s : Text) :
    ¬ r.Occurs none (r.sub mark s) := by
  intro hoccurs
  obtain ⟨w, c, s', rfl, hends, hnone⟩ := (replaces_sub r mark s).exists_kept (List.cons_ne_nil _ _)
    (inside_mark hr) hkeeps (.inl rfl) hoccurs
  obtain ⟨n, hn⟩ := matchAt_of_ends_ne_nil (consumes_of_opensAll hr) hends
  exact hnone n hn

/-- What `sanitize_text` makes of a text before it cuts it off. -/
def redact (s : Text) : Text := patterns.foldl (fun s pattern => pattern.sub mark s) s

theorem sanitizeText_eq (s : Text) : sanitizeText s = (redact s).take 2000 := rfl

theorem redact_eq (s : Text) :
    redact s = webToken.sub mark (credential.sub mark (bearer.sub mark s)) := rfl

theorem not_occurs_bearer (s : Text) : ¬ bearer.Occurs none (redact s) := by
  have hletter : ∀ c, foldsTo 'b' c = true → valueChar c = true := fun c hc =>
    (opening_letter (l := ('b', 'e', 'a')) (by decide) hc).1
  have hfirst := not_occurs_sub_self opensAll_bearer (bearer_kept separates_bearer) s
  have hsecond := not_occurs_sub opensAll_bearer (bearer_kept fun c s m p hc =>
    separates_credential c s m p (hletter c hc)) hfirst
  exact not_occurs_sub opensAll_bearer (bearer_kept (separates_webToken _)) hsecond

theorem not_occurs_credential (s : Text) : ¬ credential.Occurs none (redact s) := by
  have hsecond := not_occurs_sub_self opensAll_credential
    (credential_kept separates_credential opensAll_credential) (bearer.sub mark s)
  exact not_occurs_sub opensAll_credential
    (credential_kept (separates_webToken _) opensAll_webToken) hsecond

theorem not_occurs_webToken (s : Text) : ¬ webToken.Occurs none (redact s) :=
  not_occurs_sub_self opensAll_webToken webToken_kept _

/-! ## What the cut exposes -/

/-- The cut leaves a web token that was not one: its last character and the first one that is cut
off are two characters of one word. -/
def Exposes (s : Text) : Prop :=
  ∃ before token next rest, redact s = before ++ (token ++ next :: rest) ∧
    before.length + token.length = 2000 ∧ WebToken token ∧
    isBoundary before.getLast? token = true ∧ token.getLast?.any isWord = true ∧ isWord next = true

theorem isBoundary_append (hw : w ≠ []) (t : Text) : isBoundary prev (w ++ t) = isBoundary prev w := by
  obtain ⟨d, w, rfl⟩ := List.exists_cons_of_ne_nil hw
  rfl

/-- A pattern of the first two is found in no part of a redacted text. -/
theorem not_occurs_take {q : Regex} (hq : OpensAll q)
    (hextends : ∀ (prev : Option Char) (w rest t : Text), q.Takes prev w rest →
      q.Takes prev w (rest ++ t)) {s : Text} (h : ¬ q.Occurs none s) (n : Nat) :
    q.search (s.take n) = false := by
  rw [Bool.eq_false_iff]
  intro hsearch
  obtain ⟨u, w, rest, hsplit, htakes⟩ := (occurs_iff_exists (consumes_of_opensAll hq)).mp
    ((searchFrom_iff_occurs (consumes_of_opensAll hq)).mp hsearch)
  refine h ((occurs_iff_exists (consumes_of_opensAll hq)).mpr
    ⟨u, w, rest ++ s.drop n, ?_, hextends _ _ _ _ htakes⟩)
  rw [← List.append_assoc w, ← List.append_assoc u, ← hsplit, List.take_append_drop]

theorem extends_of_opens {q : Regex} {Shape : Text → Prop} (hopens : ∀ {w}, Shape w → Opens w)
    (htakes : ∀ {prev w rest}, q.Takes prev w rest ↔ isBoundary prev (w ++ rest) = true ∧ Shape w)
    (prev : Option Char) (w rest t : Text) (h : q.Takes prev w rest) :
    q.Takes prev w (rest ++ t) := by
  obtain ⟨hboundary, hshape⟩ := htakes.mp h
  refine htakes.mpr ⟨?_, hshape⟩
  rw [isBoundary_append (hopens hshape).ne_nil] at hboundary ⊢
  exact hboundary

theorem search_take_iff (s : Text) :
    webToken.search ((redact s).take 2000) = true ↔ Exposes s := by
  have hconsumes : webToken.Consumes := consumes_of_opensAll opensAll_webToken
  rw [search, searchFrom_iff_occurs hconsumes, occurs_iff_exists hconsumes]
  have hnone : ∀ u w rest, redact s = u ++ (w ++ rest) → ¬ webToken.Takes (before none u) w rest :=
    fun u w rest hsplit htakes => not_occurs_webToken s
      ((occurs_iff_exists hconsumes).mpr ⟨u, w, rest, hsplit, htakes⟩)
  have hbefore : ∀ u : Text, before none u = u.getLast? := fun u => by simp [before]
  constructor
  · rintro ⟨u, w, rest, hsplit, htakes⟩
    obtain ⟨hboundary, htoken, hend⟩ := takes_webToken.mp htakes
    have hfull : redact s = u ++ (w ++ (rest ++ (redact s).drop 2000)) := by
      rw [← List.append_assoc w, ← List.append_assoc u, ← hsplit, List.take_append_drop]
    have hnot := hnone u w _ hfull
    rw [takes_webToken] at hnot
    rw [isBoundary_append htoken.opens.ne_nil] at hboundary hnot
    have hafter : isBoundary (before (before none u) w) (rest ++ (redact s).drop 2000) ≠ true :=
      fun hb => hnot ⟨hboundary, htoken, hb⟩
    cases rest with
    | cons e rest => exact absurd hend hafter
    | nil =>
        -- the token ends where the text is cut off
        rw [List.nil_append] at hafter hfull
        cases hdrop : (redact s).drop 2000 with
        | nil => exact absurd (hdrop ▸ hend) hafter
        | cons e tail =>
            rw [hdrop] at hafter hfull
            have hlength : (u ++ (w ++ ([] : Text))).length = 2000 := by
              have hlong := congrArg List.length hdrop
              rw [List.length_drop, List.length_cons] at hlong
              rw [← hsplit, List.length_take]
              omega
            have hlast : before (before none u) w = w.getLast? := by
              rw [before_of_ne_nil htoken.opens.ne_nil _ none, hbefore]
            rw [hlast] at hend hafter
            refine ⟨u, w, e, tail, hfull, by simpa using hlength, htoken, ?_, ?_, ?_⟩
            · rw [← hbefore]
              exact hboundary
            · simpa [isBoundary] using hend
            · have hword : w.getLast?.any isWord = true := by simpa [isBoundary] using hend
              rw [isBoundary, hword] at hafter
              simpa using hafter
  · rintro ⟨u, w, next, rest, hfull, hlength, htoken, hboundary, hlast, hnext⟩
    refine ⟨u, w, [], ?_, takes_webToken.mpr ⟨?_, htoken, ?_⟩⟩
    · rw [hfull, ← List.append_assoc, List.append_nil]
      exact List.take_left' (by rw [List.length_append, hlength])
    · rw [hbefore, List.append_nil]
      exact hboundary
    · rw [before_of_ne_nil htoken.opens.ne_nil _ none, hbefore, isBoundary, hlast]
      rfl

/-- **When a sanitized text is clean**: when the cut exposes no web token. -/
theorem clean_sanitizeText_iff {s : Text} : (sanitizeText s).Clean ↔ ¬ Exposes s := by
  have hbearer : bearer.search ((redact s).take 2000) = false := not_occurs_take opensAll_bearer
    (extends_of_opens Bearer.opens takes_bearer) (not_occurs_bearer s) 2000
  have hcredential : credential.search ((redact s).take 2000) = false :=
    not_occurs_take opensAll_credential
      (extends_of_opens Credential.opens takes_credential) (not_occurs_credential s) 2000
  have hagain : redact ((redact s).take 2000) = webToken.sub mark ((redact s).take 2000) := by
    rw [redact_eq, sub_of_not_search mark hbearer, sub_of_not_search mark hcredential]
  rw [← search_take_iff, Bool.not_eq_true, Text.Clean, sanitizeText_eq (sanitizeText s),
    sanitizeText_eq s, hagain]
  have hconsumes : webToken.Consumes := consumes_of_opensAll opensAll_webToken
  constructor
  · intro hclean
    rw [Bool.eq_false_iff]
    intro hsearch
    have hoccurs := (searchFrom_iff_occurs hconsumes).mp hsearch
    have hstart : ∀ prev w rest, webToken.Takes prev w rest → w.head? ≠ some '[' := by
      intro prev w rest htakes hhead
      have hopens := opensAll_webToken prev w rest htakes
      obtain ⟨d, w, rfl⟩ := List.exists_cons_of_ne_nil hopens.ne_nil
      exact hopens.valueChar.2 (Option.some.inj hhead)
    obtain ⟨u, c, s', t', hs, ht, hne⟩ :=
      (replaces_sub webToken mark ((redact s).take 2000)).differs rfl hconsumes hstart hoccurs
    -- the two texts differ before the cut
    have hshort : u.length < 2000 := by
      have hlength := congrArg List.length hs
      rw [List.length_take, List.length_append, List.length_cons] at hlength
      omega
    have hat := congrArg (·[u.length]?) hclean
    rw [ht, hs, List.getElem?_take_of_lt hshort, List.getElem?_append_right (Nat.le_refl _),
      List.getElem?_append_right (Nat.le_refl _), Nat.sub_self] at hat
    exact hne (Option.some.inj hat).symm
  · intro hsearch
    rw [sub_of_not_search mark hsearch, List.take_take]
    rfl

end

end SensitiveValue

section
variable [Runtime]

/-! ## Values -/

/-- The cut exposes no web token in any text that is kept of a value with so many levels left. -/
def TextsHold : Nat → Json → Prop
  | _ + 1, .str s => ¬ SensitiveValue.Exposes s
  | n + 1, .arr items => ∀ v ∈ items.take 50, TextsHold n v
  | n + 1, .obj entries =>
      ∀ e ∈ keptEntries entries, sensitiveKey e.1 = false → TextsHold n e.2.2
  | _, _ => True

/-- **When a sanitized value is left alone by the next pass.** -/
theorem settled_sanitizeLevels_iff {n : Nat} {v : Json} :
    Settled n (sanitizeLevels n v) ↔ TextsHold n v := by
  induction n generalizing v with
  | zero => exact iff_of_true rfl (by cases v <;> trivial)
  | succ n ih =>
      cases v with
      | null => exact iff_of_true trivial trivial
      | bool b => exact iff_of_true trivial trivial
      | int i => exact iff_of_true trivial trivial
      | float f => exact iff_of_true trivial trivial
      | str s => exact SensitiveValue.clean_sanitizeText_iff
      | arr items =>
          rw [sanitizeLevels, Settled, TextsHold, List.forall_mem_map]
          constructor
          · intro h v hv
            exact ih.mp (h.2 v hv)
          · intro h
            refine ⟨?_, fun v hv => ih.mpr (h v hv)⟩
            rw [List.length_map]
            exact List.length_take_le _ _
      | obj entries =>
          rw [sanitizeLevels, TextsHold]
          constructor
          · rintro ⟨-, -, h⟩ e he hkey
            have hentry : (e.1, sanitizeLevels n e.2.2) ∈
                sanitizeEntries (sanitizeLevels n) entries := by
              rw [sanitizeEntries_eq]
              refine List.mem_map.mpr ⟨e, he, ?_⟩
              rw [hkey]
              rfl
            have hsettled := (h _ hentry).2
            dsimp only at hsettled
            rw [hkey] at hsettled
            exact ih.mp hsettled
          · intro h
            refine ⟨?_, Dict.nodup_keys_ofList _, ?_⟩
            · refine (Dict.length_ofList_le _).trans ?_
              rw [List.length_map]
              exact List.length_take_le _ _
            · rw [sanitizeEntries_eq, List.forall_mem_map]
              intro e he
              have hcut : e.1 = e.2.1.take 120 := (mem_keptEntries.mp he).1
              refine ⟨?_, ?_⟩
              · dsimp only
                rw [hcut]
                exact List.length_take_le _ _
              · cases hkey : sensitiveKey e.1 with
                | true => rfl
                | false => exact ih.mpr (h e he hkey)

/-- What resuming relies on: the signatures of the stored arguments are those of the arguments,
since sanitizing them again changes nothing. -/
structure SignedAlike (arguments : Json) : Prop where
  signature : ∀ toolName,
    ControlledAgentWorkflow.signature toolName arguments =
      ControlledAgentWorkflow.signature toolName (sanitizeValue arguments)
  stable : sanitizeValue (sanitizeValue arguments) = sanitizeValue arguments

/-- **When stored arguments are signed like the ones they were made from**: when the cut of the
texts that are kept of them exposes no web token. -/
theorem signedAlike_iff (arguments : Json) : SignedAlike arguments ↔ TextsHold 5 arguments := by
  rw [← settled_sanitizeLevels_iff, ← sanitizeLevels_eq_self]
  constructor
  · intro h
    exact h.stable
  · intro h
    refine ⟨fun toolName => ?_, h⟩
    rw [ControlledAgentWorkflow.signature, ControlledAgentWorkflow.signature]
    exact congrArg (fun v => toolName ++ ':' :: ControlledAgentWorkflow.jsonText v 30000) h.symm

end

/-- The letters and digits of Latin-1, beside ASCII. -/
def latinAlnum (c : Char) : Bool :=
  let n := c.toNat
  [0xaa, 0xb2, 0xb3, 0xb5, 0xb9, 0xba, 0xbc, 0xbd, 0xbe].elem n ||
    (0xc0 ≤ n && n ≤ 0xff && n != 0xd7 && n != 0xf7)

/-- The reference runtime, with the words of Latin-1. -/
@[reducible] def latinRuntime : Runtime := { (inferInstance : Runtime) with alnum := latinAlnum }

/-- A text of 2001 characters that ends with what is no web token, since it runs on into a
letter. -/
def tokenAcrossCut : Text := List.replicate 1992 '.' ++ ("eyJa.b.cé" : Text)

/-- The text is kept up to its last letter, and the next pass takes what is left for a token. -/
theorem resumed_signature_differs : ¬ ∀ toolName arguments,
    @ControlledAgentWorkflow.signature latinRuntime toolName arguments =
      @ControlledAgentWorkflow.signature latinRuntime toolName
        (@sanitizeValue latinRuntime arguments) := by
  intro h
  exact absurd (h "get_incident" (.obj [("note", .str tokenAcrossCut)])) (by decide +kernel)

end SupportPlatform

