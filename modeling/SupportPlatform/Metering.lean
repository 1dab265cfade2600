import SupportPlatform.Program

/-! # Metered programs

A meter is a supply that calls draw on: `spend o s` is what is left of `s` after a call of
`o`, or nothing when the supply does not allow it.  A program is `Metered` from `s` when no
path through it, whatever the answers, overdraws, and it ends with a postcondition on its
result, or its exception, and what is left.

`Issues p calls` is a path: the calls issued so far by some run of `p`; `CanReturn p a` says
that a run of `p` returns `a`.  What a metered program issues is paid for (`Metered.spent`), and
what it returns meets its postcondition (`Metered.returned`).
-/
namespace SupportPlatform
namespace Program
variable {Op : Type} {Resp : Op → Type} {ε α β S : Type}

/-- **No path overdraws** the supply, and the program ends with `Q` of its result or `X` of its
exception and what is left. -/
def Metered (spend : Op → S → Option S) :
    Program Resp ε α → (α → S → Prop) → (ε → S → Prop) → S → Prop
  | ret a, Q, _, s => Q a s
  | raise e, _, X, s => X e s
  | call o k, Q, X, s => ∃ s', spend o s = some s' ∧ ∀ r, (k r).Metered spend Q X s'

/-- A run of the program that has issued these calls. -/
inductive Issues : Program Resp ε α → List Op → Prop
  | start (p : Program Resp ε α) : Issues p []
  | call {o : Op} {k : Resp o → Program Resp ε α} {r : Resp o} {calls : List Op}
      (h : Issues (k r) calls) : Issues (call o k) (o :: calls)

/-- A run of the program returns this. -/
inductive CanReturn : Program Resp ε α → α → Prop
  | ret (a : α) : CanReturn (ret a) a
  | call {o : Op} {k : Resp o → Program Resp ε α} {r : Resp o} {a : α}
      (h : CanReturn (k r) a) : CanReturn (call o k) a

/-! ## Paths -/

section
variable {A : Op → Prop}

/-- **Which calls a program can issue**, path by path. -/
theorem only_iff_issues (hanswer : ∀ o, Nonempty (Resp o)) {p : Program Resp ε α} :
    p.Only A ↔ ∀ calls, p.Issues calls → ∀ o ∈ calls, A o := by
  constructor
  · intro hp calls hcalls
    induction hcalls with
    | start p => exact nofun
    | call _ ih =>
        intro o ho
        rcases List.mem_cons.mp ho with rfl | ho
        · exact hp.1
        · exact ih (hp.2 _) o ho
  · intro h
    induction p with
    | ret a => trivial
    | raise e => trivial
    | call o k ih =>
        obtain ⟨r⟩ := hanswer o
        refine ⟨h [o] (.call (r := r) (.start _)) o List.mem_cons_self, fun r => ih r ?_⟩
        intro calls hcalls o' ho'
        exact h (o :: calls) (.call hcalls) o' (List.mem_cons_of_mem o ho')

end

section
variable {spend : Op → S → Option S} {Q : α → S → Prop} {X : ε → S → Prop} {s : S}

@[simp] theorem metered_ret {a : α} :
    (ret a : Program Resp ε α).Metered spend Q X s ↔ Q a s := Iff.rfl

@[simp] theorem metered_raise {e : ε} :
    (raise e : Program Resp ε α).Metered spend Q X s ↔ X e s := Iff.rfl

theorem metered_answer {x : Except ε α} :
    (answer x : Program Resp ε α).Metered spend Q X s ↔
      (∀ a, x = .ok a → Q a s) ∧ ∀ e, x = .error e → X e s := by
  cases x <;> simp [answer]

theorem Metered.mono {p : Program Resp ε α} {Q' : α → S → Prop} {X' : ε → S → Prop}
    (h : p.Metered spend Q X s) (hQ : ∀ a s, Q a s → Q' a s) (hX : ∀ e s, X e s → X' e s) :
    p.Metered spend Q' X' s := by
  induction p generalizing s with
  | ret a => exact hQ a s h
  | raise e => exact hX e s h
  | call o k ih =>
      obtain ⟨s', hs, hk⟩ := h
      exact ⟨s', hs, fun r => ih r (hk r)⟩

/-- **Sequencing.** -/
theorem Metered.bind {p : Program Resp ε α} {f : α → Program Resp ε β} {R : β → S → Prop}
    (hp : p.Metered spend Q X s) (hf : ∀ a s, Q a s → (f a).Metered spend R X s) :
    (p >>= f).Metered spend R X s := by
  induction p generalizing s with
  | ret a => exact hf a s hp
  | raise e => exact hp
  | call o k ih =>
      obtain ⟨s', hs, hk⟩ := hp
      exact ⟨s', hs, fun r => ih r (hk r)⟩

/-- **Handling.** -/
theorem Metered.tryCatch {p : Program Resp ε α} {h : ε → Program Resp ε α} {Y : ε → S → Prop}
    (hp : p.Metered spend Q Y s) (hh : ∀ e s, Y e s → (h e).Metered spend Q X s) :
    (p.tryCatch h).Metered spend Q X s := by
  induction p generalizing s with
  | ret a => exact hp
  | raise e => exact hh e s hp
  | call o k ih =>
      obtain ⟨s', hs, hk⟩ := hp
      exact ⟨s', hs, fun r => ih r (hk r)⟩

/-- A program whose calls are free leaves the supply as it is. -/
theorem Metered.of_only {p : Program Resp ε α} (hp : p.Only fun o => ∀ s, spend o s = some s)
    (hQ : ∀ a, Q a s) (hX : ∀ e, X e s) : p.Metered spend Q X s := by
  induction p with
  | ret a => exact hQ a
  | raise e => exact hX e
  | call o k ih => exact ⟨s, hp.1 s, fun r => ih r (hp.2 r)⟩

/-- The same, with what conformance says of the outcome. -/
theorem Metered.of_conforms {p : Program Resp ε α} {Q : α → Prop} {X : ε → Prop}
    (hp : p.Conforms (fun o => ∀ s, spend o s = some s) (fun _ _ => True) Q X) :
    p.Metered spend (fun a s' => Q a ∧ s' = s) (fun e s' => X e ∧ s' = s) s := by
  induction p with
  | ret a => exact ⟨hp, rfl⟩
  | raise e => exact ⟨hp, rfl⟩
  | call o k ih => exact ⟨s, hp.1 s, fun r => ih r (hp.2 r trivial)⟩

/-- Programs that agree on every result of the first one agree after it. -/
theorem Metered.bind_congr {p : Program Resp ε α} {f g : α → Program Resp ε β}
    (hp : p.Metered spend Q X s) (hfg : ∀ a s, Q a s → f a = g a) : p >>= f = p >>= g := by
  induction p generalizing s with
  | ret a => exact hfg a s hp
  | raise e => rfl
  | call o k ih =>
      obtain ⟨s', hs, hk⟩ := hp
      rw [call_bind, call_bind]
      exact congrArg (Program.call o) (funext fun r => ih r (hk r))

/-- **What a metered program issues is paid for.** -/
theorem Metered.spent {p : Program Resp ε α} {calls : List Op} (h : p.Metered spend Q X s)
    (hcalls : p.Issues calls) : ∃ s', calls.foldlM (fun s o => spend o s) s = some s' := by
  induction hcalls generalizing s with
  | start p => exact ⟨s, rfl⟩
  | call _ ih =>
      obtain ⟨s', hs, hk⟩ := h
      obtain ⟨s'', hs''⟩ := ih (hk _)
      exact ⟨s'', by simp [List.foldlM_cons, hs, hs'']⟩

/-- What a metered program returns meets the postcondition. -/
theorem Metered.returned {p : Program Resp ε α} {a : α} (h : p.Metered spend Q X s)
    (ha : p.CanReturn a) : ∃ s', Q a s' := by
  induction ha generalizing s with
  | ret a => exact ⟨s, h⟩
  | call _ ih =>
      obtain ⟨s', -, hk⟩ := h
      exact ih (hk _)

end

end Program
end SupportPlatform
