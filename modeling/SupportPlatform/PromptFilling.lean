import SupportPlatform.Prompts
import SupportPlatform.ReferenceCodec

/-! # Filling in a prompt

What `PromptTemplate.render` computes against what a template means: the template with all its
placeholders replaced at once (`substitute`).  The code replaces them one name after the other,
in the text as it has been filled so far, and looks for placeholders once more at the end.

The argument goes by the pieces of a text.  A placeholder cannot begin inside another one, so a
text falls into placeholders and the plain texts between them in one way (`exists_pieces`), and
every scanner of the source works piece by piece.  As long as the filled text is plain, so is
every text between the placeholders that are left, and each replacement fills exactly the
pieces it is meant for.
-/


namespace SupportPlatform
namespace PromptTemplate

/-! ## Placeholders in a text -/

/-- A name that a placeholder can have. -/
def Valid (name : Text) : Prop := name ≠ [] ∧ ∀ c ∈ name, nameChar c = true

/-- `render` as it is meant: every placeholder is replaced by `hole` of its name, and nothing
else is changed.  `skip` counts the characters of a placeholder that has been read already. -/
def fillFrom (hole : Text → Text) : Nat → Text → Text
  | _, [] => []
  | skip + 1, _ :: s => fillFrom hole skip s
  | 0, c :: s =>
      match placeholderAt (c :: s) with
      | some name => hole name ++ fillFrom hole (name.length + 3) s
      | none => c :: fillFrom hole 0 s

/-- The value of a name, and its placeholder where it has none. -/
def valueOf (values : Dict Text Text) (name : Text) : Text :=
  (values.get? name).getD (placeholder name)

/-- **Simultaneous substitution** of the values for the placeholders of a text. -/
def substitute (values : Dict Text Text) (s : Text) : Text := fillFrom (valueOf values) 0 s

theorem nameChar_brace {c : Char} (h : nameChar c = true) : c ≠ '\x7b' ∧ c ≠ '\x7d' := by
  constructor <;> rintro rfl <;> exact absurd h (by decide)

theorem takeWhile_name {name r : Text} (h : Valid name) :
    (name ++ ['\x7d', '\x7d'] ++ r).takeWhile nameChar = name := by
  have hbrace : nameChar '\x7d' = false := by decide
  rw [List.append_assoc, List.takeWhile_append_of_pos h.2]
  simp [hbrace]

/-- Where a placeholder stands. -/
theorem placeholderAt_eq_some {s name : Text} :
    placeholderAt s = some name ↔ Valid name ∧ ∃ r, s = placeholder name ++ r := by
  constructor
  · intro h
    unfold placeholderAt at h
    split at h
    · rename_i s
      dsimp only at h
      split at h
      · rename_i hname
        cases h
        refine ⟨⟨hname.1, fun c hc => List.mem_takeWhile_imp hc⟩, ?_⟩
        obtain ⟨r, hr⟩ := List.isPrefixOf_iff_prefix.mp hname.2
        refine ⟨r, ?_⟩
        have hs := (List.prefix_iff_eq_append.mp (List.takeWhile_prefix nameChar (l := s))).symm
        rw [placeholder, List.append_assoc, List.append_assoc, hr, ← hs]
        rfl
      · cases h
    · cases h
  · rintro ⟨hname, r, rfl⟩
    have htake := takeWhile_name (r := r) hname
    change (let name' := (name ++ ['\x7d', '\x7d'] ++ r).takeWhile nameChar
      if name' ≠ [] ∧ ['\x7d', '\x7d'].isPrefixOf
        ((name ++ ['\x7d', '\x7d'] ++ r).drop name'.length) then some name' else none) = some name
    rw [htake]
    refine if_pos ⟨hname.1, ?_⟩
    rw [List.append_assoc, List.drop_left]
    rfl

theorem placeholderAt_placeholder {name : Text} (h : Valid name) (r : Text) :
    placeholderAt (placeholder name ++ r) = some name := placeholderAt_eq_some.mpr ⟨h, r, rfl⟩

/-- A placeholder that a text begins with, the longer text begins with. -/
theorem placeholderAt_append {s name : Text} (h : placeholderAt s = some name) (r : Text) :
    placeholderAt (s ++ r) = some name := by
  obtain ⟨hname, t, rfl⟩ := placeholderAt_eq_some.mp h
  rw [List.append_assoc]
  exact placeholderAt_placeholder hname _

/-- **A text without a placeholder.** -/
def Plain (t : Text) : Prop := ∀ s, s <:+ t → placeholderAt s = none

theorem Plain.of_suffix {s t : Text} (h : Plain t) (hs : s <:+ t) : Plain s :=
  fun u hu => h u (hu.trans hs)

theorem Plain.of_infix {s t : Text} (h : Plain t) (hs : s <:+: t) : Plain s := by
  obtain ⟨a, b, rfl⟩ := hs
  rintro u ⟨v, rfl⟩
  cases hu : placeholderAt u with
  | none => rfl
  | some name =>
      have hmem : u ++ b <:+ a ++ (v ++ u) ++ b := ⟨a ++ v, by simp⟩
      exact ((h _ hmem).symm.trans (placeholderAt_append hu b)).symm

/-- A name's character is not the brace that a placeholder begins with. -/
theorem brace_notMem {name : Text} (h : Valid name) :
    ∀ c ∈ name ++ ['\x7d', '\x7d'], c ≠ '\x7b' := by
  intro c hc
  rcases List.mem_append.mp hc with hc | hc
  · exact (nameChar_brace (h.2 c hc)).1
  · simp only [List.mem_cons, List.not_mem_nil, or_false, or_self] at hc
    subst hc
    decide

/-- **A placeholder does not begin inside a plain text that a placeholder follows**: of two
placeholders that overlapped, the second would begin at a brace of the first that a name
follows. -/
theorem placeholderAt_straddle {t u : Text} (ht : Plain t) (hu : u <:+ t) (hne : u ≠ [])
    (name r : Text) : placeholderAt (u ++ (placeholder name ++ r)) = none := by
  cases h : placeholderAt (u ++ (placeholder name ++ r)) with
  | none => rfl
  | some w =>
      obtain ⟨hw, r', hr'⟩ := placeholderAt_eq_some.mp h
      rcases List.append_eq_append_iff.mp hr' with ⟨a, ha, hb⟩ | ⟨a, ha, -⟩
      · -- the placeholder reaches over the end of the plain text: where it goes on is a brace
        exfalso
        have hbody : ∀ c ∈ w ++ ['\x7d', '\x7d'], c ≠ '\x7b' := brace_notMem hw
        have hw' : placeholder w = '\x7b' :: '\x7b' :: (w ++ ['\x7d', '\x7d']) := rfl
        have hb' : '\x7b' :: '\x7b' :: (name ++ ['\x7d', '\x7d'] ++ r) = a ++ r' := hb
        rw [hw'] at ha
        match u, a, hne with
        | _ :: [], [], _ =>
            exact absurd ha (by simp)
        | _ :: [], [_], _ => exact absurd ha (by simp)
        | _ :: [], c :: d :: a, _ =>
            simp only [List.cons_append, List.nil_append, List.cons.injEq] at ha hb'
            exact hbody d (ha.2.2 ▸ List.mem_cons_self) hb'.2.1.symm
        | _ :: _ :: u, [], _ =>
            rw [List.append_nil] at ha
            have hat : placeholderAt (_ :: _ :: u) = some w :=
              placeholderAt_eq_some.mpr ⟨hw, [], by rw [hw', ha, List.append_nil]⟩
            exact nomatch (ht _ hu).symm.trans hat
        | _ :: _ :: u, c :: a, _ =>
            simp only [List.cons_append, List.cons.injEq] at ha hb'
            exact hbody c (ha.2.2 ▸ List.mem_append_right _ List.mem_cons_self) hb'.1.symm
      · have hat : placeholderAt u = some w := placeholderAt_eq_some.mpr ⟨hw, a, ha⟩
        exact ((ht u hu).symm.trans hat).symm

/-! ## Pieces -/

/-- The text of pieces: a text, and then placeholders, each followed by a text. -/
def assemble (hole : Text → Text) (t : Text) (l : List (Text × Text)) : Text :=
  t ++ l.flatMap fun p => hole p.1 ++ p.2

/-- The texts between the placeholders are plain. -/
structure Pieces (t : Text) (l : List (Text × Text)) : Prop where
  first : Plain t
  rest : ∀ p ∈ l, Valid p.1 ∧ Plain p.2

theorem assemble_cons (hole : Text → Text) (t name t' : Text) (l : List (Text × Text)) :
    assemble hole t ((name, t') :: l) = t ++ (hole name ++ assemble hole t' l) := by
  simp [assemble]

/-- **Every text falls into pieces.** -/
theorem exists_pieces : ∀ s : Text, ∃ t l, Pieces t l ∧ s = assemble placeholder t l := by
  intro s
  induction hn : s.length using Nat.strong_induction_on generalizing s with
  | _ n ih =>
      cases s with
      | nil =>
          refine ⟨[], [], ⟨fun u hu => ?_, nofun⟩, rfl⟩
          rw [List.suffix_nil.mp hu]
          rfl
      | cons c s =>
          cases h : placeholderAt (c :: s) with
          | some name =>
              obtain ⟨hname, r, hr⟩ := placeholderAt_eq_some.mp h
              have hlt : r.length < n := by
                rw [← hn, hr, List.length_append]
                have : 0 < (placeholder name).length := by simp [placeholder]
                omega
              obtain ⟨t, l, hp, rfl⟩ := ih _ hlt r rfl
              refine ⟨[], (name, t) :: l, ⟨fun u hu => ?_, ?_⟩, ?_⟩
              · rw [List.suffix_nil.mp hu]
                rfl
              · intro p hm
                rcases List.mem_cons.mp hm with rfl | hm
                · exact ⟨hname, hp.first⟩
                · exact hp.rest p hm
              · rw [assemble_cons, hr]
                rfl
          | none =>
              have hlt : s.length < n := by rw [← hn]; exact Nat.lt_succ_self _
              obtain ⟨t, l, hp, rfl⟩ := ih _ hlt s rfl
              refine ⟨c :: t, l, ⟨fun u hu => ?_, hp.rest⟩, rfl⟩
              rcases List.suffix_cons_iff.mp hu with rfl | hu
              · -- a placeholder in the shorter text would be one in the longer
                cases hat : placeholderAt (c :: t) with
                | none => rfl
                | some name => exact (h.symm.trans (placeholderAt_append hat _)).symm
              · exact hp.first u hu

/-- **A scanner goes piece by piece**: one that copies a character where no placeholder stands,
and replaces a placeholder, does so with all of them. -/
theorem scan_assemble {F hole : Text → Text} (hnil : F [] = [])
    (hplain : ∀ c s, placeholderAt (c :: s) = none → F (c :: s) = c :: F s)
    (hhole : ∀ name r, Valid name → F (placeholder name ++ r) = hole name ++ F r) :
    ∀ {l : List (Text × Text)} {t : Text}, Pieces t l →
      F (assemble placeholder t l) = assemble hole t l := by
  have htext : ∀ r u : Text, (∀ v, v <:+ u → v ≠ [] → placeholderAt (v ++ r) = none) →
      F (u ++ r) = u ++ F r := by
    intro r u
    induction u with
    | nil => exact fun _ => rfl
    | cons c u ih =>
        intro h
        rw [List.cons_append, hplain c (u ++ r) (h (c :: u) (List.suffix_refl _) nofun),
          ih fun v hv => h v (hv.trans (List.suffix_cons c u))]
        rfl
  intro l
  induction l with
  | nil =>
      intro t hp
      have h := htext [] t fun v hv _ => by
        rw [List.append_nil]
        exact hp.first v hv
      rw [hnil] at h
      simpa [assemble] using h
  | cons p l ih =>
      intro t hp
      obtain ⟨name, t'⟩ := p
      obtain ⟨hname, ht'⟩ := hp.rest _ List.mem_cons_self
      rw [assemble_cons, assemble_cons,
        htext _ t fun v hv hne => placeholderAt_straddle hp.first hv hne name _, hhole name _ hname,
        ih ⟨ht', fun q hq => hp.rest q (List.mem_cons_of_mem _ hq)⟩]

/-! ## The scanners of the source -/

theorem fillFrom_skip (hole : Text → Text) : ∀ a r : Text,
    fillFrom hole a.length (a ++ r) = fillFrom hole 0 r
  | [], _ => rfl
  | _ :: a, r => fillFrom_skip hole a r

/-- Filling in a text fills in its placeholders. -/
theorem fill_assemble (hole : Text → Text) {t : Text} {l : List (Text × Text)} (hp : Pieces t l) :
    fillFrom hole 0 (assemble placeholder t l) = assemble hole t l := by
  refine scan_assemble rfl (fun c s h => ?_) (fun name r hname => ?_) hp
  · rw [fillFrom, h]
  · have hcons : placeholder name ++ r =
        '\x7b' :: ('\x7b' :: (name ++ ['\x7d', '\x7d']) ++ r) := rfl
    have hlen : name.length + 3 = ('\x7b' :: (name ++ ['\x7d', '\x7d'])).length := by simp
    have hat := placeholderAt_placeholder hname r
    rw [hcons] at hat ⊢
    rw [fillFrom, hat]
    dsimp only
    rw [hlen, fillFrom_skip]

theorem replaceFrom_skip (old new : Text) : ∀ a r : Text,
    Text.replaceFrom old new a.length (a ++ r) = Text.replaceFrom old new 0 r
  | [], _ => by simp
  | _ :: a, r => replaceFrom_skip old new a r

/-- `replace` of a placeholder finds that placeholder. -/
theorem isPrefixOf_placeholder {name s : Text} (h : Valid name) :
    (placeholder name).isPrefixOf s = true ↔ placeholderAt s = some name := by
  rw [List.isPrefixOf_iff_prefix, placeholderAt_eq_some]
  exact ⟨fun ⟨r, hr⟩ => ⟨h, r, hr.symm⟩, fun ⟨_, r, hr⟩ => ⟨r, hr.symm⟩⟩

/-- Replacing one placeholder fills in the pieces of its name. -/
theorem replace_assemble {name : Text} (hname : Valid name) (value : Text) {t : Text}
    {l : List (Text × Text)} (hp : Pieces t l) :
    (assemble placeholder t l).replace (placeholder name) value =
      assemble (fun k => if k = name then value else placeholder k) t l := by
  have hplain : ∀ c s, placeholderAt (c :: s) ≠ some name →
      Text.replaceFrom (placeholder name) value 0 (c :: s) =
        c :: Text.replaceFrom (placeholder name) value 0 s := by
    intro c s h
    rw [Text.replaceFrom, if_neg fun hc => h ((isPrefixOf_placeholder hname).mp hc)]
  -- the rest of another placeholder is copied
  have hcopy : ∀ r u : Text, (∀ c ∈ u, c ≠ '\x7b') →
      Text.replaceFrom (placeholder name) value 0 (u ++ r) =
        u ++ Text.replaceFrom (placeholder name) value 0 r := by
    intro r u
    induction u with
    | nil => exact fun _ => rfl
    | cons c u ih =>
        intro h
        have hat : placeholderAt (c :: (u ++ r)) ≠ some name := by
          intro hc
          obtain ⟨-, r', hr'⟩ := placeholderAt_eq_some.mp hc
          exact h c List.mem_cons_self (List.cons.inj hr').1
        rw [List.cons_append, hplain c _ hat, ih fun d hd => h d (List.mem_cons_of_mem c hd)]
        rfl
  refine scan_assemble (F := fun s => s.replace (placeholder name) value) rfl
    (fun c s h => hplain c s (by rw [h]; nofun)) (fun k r hk => ?_) hp
  have hcons : placeholder k ++ r =
      '\x7b' :: ('\x7b' :: ((k ++ ['\x7d', '\x7d']) ++ r)) := rfl
  have hat := placeholderAt_placeholder hk r
  change Text.replaceFrom (placeholder name) value 0 (placeholder k ++ r) = _
  by_cases hkn : k = name
  · subst hkn
    have hlen : (placeholder k).length - 1 = ('\x7b' :: (k ++ ['\x7d', '\x7d'])).length := by
      simp [placeholder]
    rw [if_pos rfl]
    rw [hcons] at hat ⊢
    rw [Text.replaceFrom, if_pos ((isPrefixOf_placeholder hname).mpr hat), hlen]
    exact congrArg _ (replaceFrom_skip _ _ ('\x7b' :: (k ++ ['\x7d', '\x7d'])) r)
  · rw [if_neg hkn]
    have hbody : ∀ c ∈ k ++ ['\x7d', '\x7d'], c ≠ '\x7b' := brace_notMem hk
    have hsecond : placeholderAt ('\x7b' :: ((k ++ ['\x7d', '\x7d']) ++ r)) ≠ some name := by
      intro hc
      obtain ⟨-, r', hr'⟩ := placeholderAt_eq_some.mp hc
      obtain ⟨c, k', rfl⟩ := List.exists_cons_of_ne_nil hk.1
      exact hbody c List.mem_cons_self (List.cons.inj (List.cons.inj hr').2).1
    rw [hcons] at hat ⊢
    rw [hplain _ _ (by rw [hat]; exact fun hc => hkn (Option.some.inj hc)), hplain _ _ hsecond,
      hcopy r _ hbody]
    rfl

/-! ## Partly filled texts -/

/-- The pieces that are left when the placeholders that have a value are filled in: a value
joins the texts around it. -/
def collapse (filled : Text → Option Text) : Text → List (Text × Text) → Text × List (Text × Text)
  | t, [] => (t, [])
  | t, (name, t') :: l =>
      match filled name with
      | some value => collapse filled (t ++ value ++ t') l
      | none => (t, (name, (collapse filled t' l).1) :: (collapse filled t' l).2)

theorem assemble_collapse (hole : Text → Text) (filled : Text → Option Text) :
    ∀ (t : Text) (l : List (Text × Text)),
      assemble hole (collapse filled t l).1 (collapse filled t l).2 =
        assemble (fun name => (filled name).getD (hole name)) t l
  | _, [] => rfl
  | t, (name, t') :: l => by
      rw [collapse]
      cases h : filled name with
      | some value =>
          dsimp only
          rw [assemble_collapse hole filled _ l, assemble_cons, h, assemble, assemble]
          simp
      | none =>
          dsimp only
          rw [assemble_cons, assemble_cons, assemble_collapse hole filled t' l, h]
          rfl

/-- The texts that are left are parts of the filled text. -/
theorem collapse_infix {hole : Text → Text} {filled : Text → Option Text}
    (hfilled : ∀ name value, filled name = some value → hole name = value) :
    ∀ (t : Text) (l : List (Text × Text)),
      (collapse filled t l).1 <+: assemble hole t l ∧
        ∀ p ∈ (collapse filled t l).2, p.2 <:+: assemble hole t l
  | t, [] => ⟨List.prefix_append t _, nofun⟩
  | t, (name, t') :: l => by
      rw [collapse]
      cases h : filled name with
      | some value =>
          have hjoin : assemble hole t ((name, t') :: l) =
              assemble hole (t ++ value ++ t') l := by
            rw [assemble_cons, hfilled name value h, assemble, assemble]
            simp
          rw [hjoin]
          exact collapse_infix hfilled _ l
      | none =>
          obtain ⟨hfirst, hrest⟩ := collapse_infix hfilled t' l
          have hsuffix : assemble hole t' l <:+ assemble hole t ((name, t') :: l) := by
            rw [assemble_cons, ← List.append_assoc]
            exact List.suffix_append _ _
          refine ⟨?_, fun p hp => ?_⟩
          · rw [assemble_cons]
            exact List.prefix_append _ _
          · rcases List.mem_cons.mp hp with rfl | hp
            · exact hfirst.isInfix.trans hsuffix.isInfix
            · exact (hrest p hp).trans hsuffix.isInfix

theorem collapse_valid (filled : Text → Option Text) : ∀ (t : Text) (l : List (Text × Text)),
    (∀ p ∈ l, Valid p.1) → ∀ p ∈ (collapse filled t l).2, Valid p.1
  | _, [], _ => nofun
  | t, (name, t') :: l, h => by
      rw [collapse]
      have htail := fun t => collapse_valid filled t l fun p hp => h p (List.mem_cons_of_mem _ hp)
      cases filled name with
      | some value => exact htail _
      | none =>
          intro p hp
          rcases List.mem_cons.mp hp with rfl | hp
          · exact h (name, t') List.mem_cons_self
          · exact htail _ p hp

/-- **The step of the replacement**: where the filled text is plain, the replacement of a name
fills its placeholders, and no others have come up. -/
theorem replace_partly {hole : Text → Text} {filled : Text → Option Text} {t : Text}
    {l : List (Text × Text)} (hp : Pieces t l)
    (hfilled : ∀ name value, filled name = some value → hole name = value)
    (hplain : Plain (assemble hole t l)) {name : Text} (hname : Valid name) (value : Text) :
    (assemble (fun k => (filled k).getD (placeholder k)) t l).replace (placeholder name) value =
      assemble (fun k => ((filled k).or (if k = name then some value else none)).getD
        (placeholder k)) t l := by
  obtain ⟨hfirst, hrest⟩ := collapse_infix hfilled t l
  have hpieces : Pieces (collapse filled t l).1 (collapse filled t l).2 :=
    ⟨hplain.of_infix hfirst.isInfix, fun p hm =>
      ⟨collapse_valid filled t l (fun p hm => (hp.rest p hm).1) p hm,
        hplain.of_infix (hrest p hm)⟩⟩
  rw [← assemble_collapse placeholder filled t l, replace_assemble hname value hpieces,
    assemble_collapse]
  congr 1
  funext k
  cases filled k with
  | some v => rfl
  | none => by_cases hk : k = name <;> simp [hk]

/-- The run of the replacements. -/
theorem replaceAll_partly {values : Dict Text Text} {t : Text} {l : List (Text × Text)}
    (hp : Pieces t l) (hvalid : ∀ name ∈ values.keys, Valid name)
    (hplain : Plain (assemble (valueOf values) t l)) :
    ∀ done rest : Dict Text Text, values = done ++ rest →
      rest.foldl (fun s e => s.replace (placeholder e.1) e.2)
        (assemble (valueOf done) t l) = assemble (valueOf values) t l := by
  intro done rest
  induction rest generalizing done with
  | nil =>
      intro h
      rw [List.append_nil] at h
      rw [h]
      rfl
  | cons e rest ih =>
      intro h
      have hget : ∀ name, Dict.get? (done ++ [e]) name =
          (Dict.get? done name).or (if name = e.1 then some e.2 else none) := by
        intro name
        rw [Dict.get?, Dict.get?, List.find?_append]
        cases done.find? fun a => a.1 = name with
        | some a => rfl
        | none => by_cases hn : name = e.1 <;> simp [hn, eq_comm]
      have hfilled : ∀ name value, Dict.get? done name = some value →
          valueOf values name = value := by
        intro name value hv
        rw [valueOf, h, Dict.get?, List.find?_append]
        obtain ⟨a, ha, rfl⟩ := Option.map_eq_some_iff.mp hv
        rw [ha]
        rfl
      have hname : Valid e.1 := hvalid _ (by rw [h]; simp [Dict.keys])
      have hstep := replace_partly hp hfilled hplain hname e.2
      have hnext : (fun k => ((Dict.get? done k).or
          (if k = e.1 then some e.2 else none)).getD (placeholder k)) = valueOf (done ++ [e]) := by
        funext k
        rw [valueOf, hget]
      rw [hnext] at hstep
      rw [List.foldl_cons]
      change rest.foldl _ ((assemble (fun k => (Dict.get? done k).getD (placeholder k)) t l).replace
        (placeholder e.1) e.2) = _
      rw [hstep]
      exact ih (done ++ [e]) (by rw [h, List.append_assoc]; rfl)

/-! ## Rendering -/

theorem placeholdersFrom_skip : ∀ a r : Text,
    placeholdersFrom a.length (a ++ r) = placeholdersFrom 0 r
  | [], _ => rfl
  | _ :: a, r => placeholdersFrom_skip a r

theorem valid_of_mem_placeholders {name : Text} : ∀ {s : Text} {skip : Nat},
    name ∈ placeholdersFrom skip s → Valid name
  | [], skip, h => by cases skip <;> cases h
  | c :: s, skip + 1, h => valid_of_mem_placeholders (s := s) h
  | c :: s, 0, h => by
      rw [placeholdersFrom] at h
      cases hat : placeholderAt (c :: s) with
      | none =>
          rw [hat] at h
          exact valid_of_mem_placeholders h
      | some k =>
          rw [hat] at h
          rcases List.mem_cons.mp h with rfl | h
          · exact (placeholderAt_eq_some.mp hat).1
          · exact valid_of_mem_placeholders h

/-- A plain text is one in which no placeholder is found. -/
theorem placeholders_eq_nil {s : Text} : placeholders s = [] ↔ Plain s := by
  induction s with
  | nil =>
      refine ⟨fun _ u hu => ?_, fun _ => rfl⟩
      rw [List.suffix_nil.mp hu]
      rfl
  | cons c s ih =>
      rw [placeholders, placeholdersFrom]
      cases hat : placeholderAt (c :: s) with
      | some name =>
          refine ⟨fun h => (nomatch h), fun h => ?_⟩
          exact nomatch (h _ (List.suffix_refl _)).symm.trans hat
      | none =>
          refine ih.trans ⟨fun h u hu => ?_, fun h => h.of_suffix (List.suffix_cons c s)⟩
          rcases List.suffix_cons_iff.mp hu with rfl | hu
          · exact hat
          · exact h u hu

section
variable [Runtime]

/-- **Verbatim rendering**: in whatever order the values are given, the template is rendered, and
what comes out is the template with each placeholder replaced by its value. -/
def Verbatim (template : PromptTemplate) (values : Dict Text Text) : Prop :=
  ∀ values' : Dict Text Text, values'.Perm values →
    template.render values' = .ok (substitute values template.content)

theorem render_eq (template : PromptTemplate) (values : Dict Text Text)
    (hkeys : ∀ name, name ∈ values.keys ↔ name ∈ placeholders template.content) :
    template.render values =
      if placeholders (values.foldl (fun s e => s.replace (placeholder e.1) e.2)
        template.content) ≠ [] then .error (error "Prompt contains an unresolved placeholder")
      else .ok (values.foldl (fun s e => s.replace (placeholder e.1) e.2) template.content) := by
  have hmissing : (placeholders template.content).filter (fun name => name ∉ values.keys) = [] :=
    List.filter_eq_nil_iff.mpr fun name hm => by simpa using (hkeys name).mpr hm
  have hextra : values.keys.filter (fun key => key ∉ placeholders template.content) = [] :=
    List.filter_eq_nil_iff.mpr fun key hm => by simpa using (hkeys key).mp hm
  unfold render
  dsimp only
  rw [hmissing, hextra, if_neg (by simp)]

omit [Runtime] in
theorem get?_perm {values values' : Dict Text Text} (hperm : values'.Perm values)
    (hnodup : values.keys.Nodup) (name : Text) : values'.get? name = values.get? name := by
  have hkeys : values'.keys.Perm values.keys := hperm.map _
  have hnodup' := hkeys.nodup_iff.mpr hnodup
  have hfound : ∀ {a b : Dict Text Text}, a.Perm b → b.keys.Nodup → ∀ v,
      a.get? name = some v → b.get? name = some v := by
    intro a b hab hb v hv
    have hm := hab.mem_iff.mp (Dict.mem_of_get? hv)
    cases hget : b.get? name with
    | none => exact absurd (List.mem_map.mpr ⟨_, hm, rfl⟩) (Dict.get?_eq_none.mp hget)
    | some u =>
        have hinj := List.inj_on_of_nodup_map hb (Dict.mem_of_get? hget) hm rfl
        rw [(Prod.mk.inj hinj).2]
  cases h : values.get? name with
  | some v => exact hfound hperm.symm hnodup' v h
  | none =>
      cases h' : values'.get? name with
      | none => rfl
      | some v => exact (nomatch (hfound hperm hnodup v h').symm.trans h)

/-- **Rendering is verbatim just when the filled text holds no placeholder**: neither does a
value hold one, nor do a value and what stands around it form one. -/
theorem verbatim_iff (template : PromptTemplate) (values : Dict Text Text)
    (hnodup : values.keys.Nodup)
    (hkeys : ∀ name, name ∈ values.keys ↔ name ∈ placeholders template.content) :
    Verbatim template values ↔ placeholders (substitute values template.content) = [] := by
  obtain ⟨t, l, hp, hcontent⟩ := exists_pieces template.content
  have hspec : substitute values template.content = assemble (valueOf values) t l := by
    rw [substitute, hcontent, fill_assemble _ hp]
  constructor
  · intro h
    have hrender := h values (.refl _)
    rw [render_eq template values hkeys] at hrender
    split at hrender
    · cases hrender
    · rename_i hnil
      rw [← Except.ok.inj hrender]
      exact not_not.mp hnil
  · intro h values' hperm
    have hget := get?_perm hperm hnodup
    have hkeys' : ∀ name, name ∈ values'.keys ↔ name ∈ placeholders template.content :=
      fun name => ((hperm.map (·.1)).mem_iff).trans (hkeys name)
    have hvalue : valueOf values' = valueOf values := by
      funext name
      rw [valueOf, valueOf, hget]
    have hplain : Plain (assemble (valueOf values') t l) := by
      rw [hvalue, ← hspec]
      exact placeholders_eq_nil.mp h
    have hrun := replaceAll_partly hp
      (fun name hm => valid_of_mem_placeholders ((hkeys' name).mp hm)) hplain [] values' rfl
    have hstart : assemble (valueOf []) t l = template.content := by
      rw [hcontent]
      rfl
    rw [hstart, hvalue, ← hspec] at hrun
    rw [render_eq template values' hkeys', hrun, h, if_neg (by simp)]

end

end PromptTemplate

/-! ## Runs on fixed prompts -/

/-- The placeholders of the prompt below, and an incident whose text looks like one. -/
def echoPrompt : PromptTemplate :=
  ⟨"planner", "v2", "Event: \x7b\x7bincident_event\x7d\x7d Error: \x7b\x7blast_error\x7d\x7d"⟩

/-- Plain values are filled in as they are. -/
theorem verbatim_plain : PromptTemplate.Verbatim echoPrompt
    [("incident_event", "payment-api down"), ("last_error", "none")] :=
  (PromptTemplate.verbatim_iff echoPrompt _ (by decide) (fun name => by
    have hnames : PromptTemplate.placeholders echoPrompt.content =
        ["incident_event", "last_error"] := by decide
    rw [hnames]
    rfl)).mpr (by decide)

/-- **A value that looks like a placeholder is expanded**: the text of the incident comes out as
the text of the error. -/
theorem echo_expanded : ¬ PromptTemplate.Verbatim echoPrompt
    [("incident_event", "see \x7b\x7blast_error\x7d\x7d"), ("last_error", "none")] := by
  intro h
  exact absurd (h _ (.refl _)) (by decide)

end SupportPlatform
