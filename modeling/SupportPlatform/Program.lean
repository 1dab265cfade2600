import Mathlib

/-! # Programs that call out

Code that talks to a database, a broker or a model is a tree of calls: it issues
one call, is answered, and goes on with the answer; at the end it returns or
raises.  `Program Resp ε α` is that tree, for calls `o : Op` answered in `Resp o`,
exceptions in `ε` and results in `α`.  It is a monad with exceptions, so a
function of such code is written down as the code writes it.

What a call does is not part of the program but of the `System` it runs on:
`act w o s r s'` says that `w` issuing `o` in state `s` may be answered `r` and
leave `s'`.  Two readings are developed.

* **Alone** (`Exec`): the program runs to its end.
* **Among others** (`Pool`): a family of programs works on one shared state, one
  call at a time in any order, and any of them may crash between two calls.

Reasoning is the same in both.  A `Discipline` fixes an invariant and, for each
participant, what it relies on and what it guarantees; `Safe` is the weakest
condition under which a program, whatever the answers and whatever the others do
within its rely, keeps the discipline at each of its own calls and ends in the
given postcondition.  `Pool.Reachable.sound` is the rely–guarantee rule: when
every program of the pool is safe, the invariant holds in every reachable state
and every call made is within the guarantee of whoever made it.
-/
namespace SupportPlatform

/-- A program over the calls `Op`: it returns, raises, or issues a call and goes
on with the answer. -/
inductive Program {Op : Type} (Resp : Op → Type) (ε α : Type)
  | ret (a : α)
  | raise (e : ε)
  | call (o : Op) (k : Resp o → Program Resp ε α)

namespace Program
variable {Op : Type} {Resp : Op → Type} {ε α β γ : Type}

/-! ## The monad -/

/-- Run `p`, then `f` on what it returned; an exception of `p` is passed on. -/
def bind : Program Resp ε α → (α → Program Resp ε β) → Program Resp ε β
  | ret a, f => f a
  | raise e, _ => raise e
  | call o k, f => call o fun r => (k r).bind f

/-- Run `p`; if it raises, go on with the handler. -/
def tryCatch : Program Resp ε α → (ε → Program Resp ε α) → Program Resp ε α
  | ret a, _ => ret a
  | raise e, h => h e
  | call o k, h => call o fun r => (k r).tryCatch h

instance : Monad (Program Resp ε) where
  pure := ret
  bind := bind

instance : MonadExceptOf ε (Program Resp ε) where
  throw := raise
  tryCatch := tryCatch

@[simp] theorem pure_eq (a : α) : (pure a : Program Resp ε α) = ret a := rfl
@[simp] theorem throw_eq (e : ε) : (throw e : Program Resp ε α) = raise e := rfl
@[simp] theorem ret_bind (a : α) (f : α → Program Resp ε β) : ret a >>= f = f a := rfl
@[simp] theorem raise_bind (e : ε) (f : α → Program Resp ε β) : raise e >>= f = raise e := rfl
@[simp] theorem call_bind (o : Op) (k : Resp o → Program Resp ε α) (f : α → Program Resp ε β) :
    call o k >>= f = call o fun r => k r >>= f := rfl

theorem bind_bind (p : Program Resp ε α) (f : α → Program Resp ε β) (g : β → Program Resp ε γ) :
    (p >>= f) >>= g = p >>= fun a => f a >>= g := by
  induction p with
  | ret a => rfl
  | raise e => rfl
  | call o k ih => exact congrArg (Program.call o) (funext ih)

/-- Issue one call and return its answer. -/
def ask (o : Op) : Program Resp ε (Resp o) := call o ret

/-- The answer of a fallible call: its value, or the exception it raises. -/
def answer : Except ε α → Program Resp ε α
  | .ok a => ret a
  | .error e => raise e

@[simp] theorem answer_ok (a : α) : (answer (.ok a) : Program Resp ε α) = ret a := rfl
@[simp] theorem answer_error (e : ε) : (answer (.error e) : Program Resp ε α) = raise e := rfl

/-- `finally`: run the clean-up after `p` in either case.  An exception of the
clean-up replaces the outcome of `p`. -/
def andFinally (p : Program Resp ε α) (cleanup : Program Resp ε Unit) : Program Resp ε α :=
  (p.bind fun a => ret (.ok a : Except ε α)).tryCatch (fun e => ret (.error e)) |>.bind fun out =>
    cleanup.bind fun _ => answer out

/-! ## Which calls a program can issue -/

/-- Every call of the program, whatever the answers, is one of `A`. -/
def Only (A : Op → Prop) : Program Resp ε α → Prop
  | ret _ => True
  | raise _ => True
  | call o k => A o ∧ ∀ r, (k r).Only A

section Only
variable {A B : Op → Prop}

@[simp] theorem only_ret (a : α) : (ret a : Program Resp ε α).Only A := trivial
@[simp] theorem only_raise (e : ε) : (raise e : Program Resp ε α).Only A := trivial
@[simp] theorem only_call {o : Op} {k : Resp o → Program Resp ε α} :
    (call o k).Only A ↔ A o ∧ ∀ r, (k r).Only A := Iff.rfl

@[simp] theorem only_ask {o : Op} : (ask o : Program Resp ε (Resp o)).Only A ↔ A o := by
  simp [ask]

@[simp] theorem only_answer (x : Except ε α) : (answer x : Program Resp ε α).Only A := by
  cases x <;> trivial

theorem Only.bind {p : Program Resp ε α} {f : α → Program Resp ε β} (hp : p.Only A)
    (hf : ∀ a, (f a).Only A) : (p >>= f).Only A := by
  induction p with
  | ret a => exact hf a
  | raise e => trivial
  | call o k ih => exact ⟨hp.1, fun r => ih r (hp.2 r)⟩

theorem Only.tryCatch {p : Program Resp ε α} {h : ε → Program Resp ε α} (hp : p.Only A)
    (hh : ∀ e, (h e).Only A) : (p.tryCatch h).Only A := by
  induction p with
  | ret a => trivial
  | raise e => exact hh e
  | call o k ih => exact ⟨hp.1, fun r => ih r (hp.2 r)⟩

theorem Only.andFinally {p : Program Resp ε α} {c : Program Resp ε Unit} (hp : p.Only A)
    (hc : c.Only A) : (p.andFinally c).Only A := by
  refine Only.bind (Only.tryCatch (Only.bind hp fun _ => trivial) fun _ => trivial) fun out => ?_
  exact Only.bind hc fun _ => only_answer out

theorem Only.mono {p : Program Resp ε α} (hp : p.Only A) (hAB : ∀ o, A o → B o) : p.Only B := by
  induction p with
  | ret a => trivial
  | raise e => trivial
  | call o k ih => exact ⟨hAB o hp.1, fun r => ih r (hp.2 r)⟩

end Only

/-! ## What a program can do by itself -/

/-- **Conformance.**  While its calls are answered within `B`, the program issues calls of `A`
only, and ends with a result in `Q` or an exception in `X`, whatever the state. -/
def Conforms (A : Op → Prop) (B : (o : Op) → Resp o → Prop) (Q : α → Prop) (X : ε → Prop) :
    Program Resp ε α → Prop
  | ret a => Q a
  | raise e => X e
  | call o k => A o ∧ ∀ r, B o r → (k r).Conforms A B Q X

section Conforms
variable {A : Op → Prop} {B : (o : Op) → Resp o → Prop} {Q : α → Prop} {X : ε → Prop}

@[simp] theorem conforms_ret {a : α} : (ret a : Program Resp ε α).Conforms A B Q X ↔ Q a := Iff.rfl

@[simp] theorem conforms_raise {e : ε} :
    (raise e : Program Resp ε α).Conforms A B Q X ↔ X e := Iff.rfl

@[simp] theorem conforms_call {o : Op} {k : Resp o → Program Resp ε α} :
    (call o k).Conforms A B Q X ↔ A o ∧ ∀ r, B o r → (k r).Conforms A B Q X := Iff.rfl

theorem conforms_answer {x : Except ε α} :
    (answer x : Program Resp ε α).Conforms A B Q X ↔
      (∀ a, x = .ok a → Q a) ∧ ∀ e, x = .error e → X e := by
  cases x <;> simp [answer]

theorem Conforms.mono {p : Program Resp ε α} {Q' : α → Prop} {X' : ε → Prop}
    (h : p.Conforms A B Q X) (hQ : ∀ a, Q a → Q' a) (hX : ∀ e, X e → X' e) :
    p.Conforms A B Q' X' := by
  induction p with
  | ret a => exact hQ a h
  | raise e => exact hX e h
  | call o k ih => exact ⟨h.1, fun r hr => ih r (h.2 r hr)⟩

theorem Conforms.bind {p : Program Resp ε α} {f : α → Program Resp ε β} {R : β → Prop}
    (hp : p.Conforms A B Q X) (hf : ∀ a, Q a → (f a).Conforms A B R X) :
    (p >>= f).Conforms A B R X := by
  induction p with
  | ret a => exact hf a hp
  | raise e => exact hp
  | call o k ih => exact ⟨hp.1, fun r hr => ih r (hp.2 r hr)⟩

theorem Conforms.tryCatch {p : Program Resp ε α} {h : ε → Program Resp ε α} {Y : ε → Prop}
    (hp : p.Conforms A B Q Y) (hh : ∀ e, Y e → (h e).Conforms A B Q X) :
    (p.tryCatch h).Conforms A B Q X := by
  induction p with
  | ret a => exact hp
  | raise e => exact hh e hp
  | call o k ih => exact ⟨hp.1, fun r hr => ih r (hp.2 r hr)⟩

theorem Conforms.andFinally {p : Program Resp ε α} {c : Program Resp ε Unit}
    (hp : p.Conforms A B Q X) (hc : c.Conforms A B (fun _ => True) X) :
    (p.andFinally c).Conforms A B Q X := by
  have hout : ((p >>= fun a => ret (.ok a : Except ε α)).tryCatch
      fun e => ret (.error e)).Conforms A B
      (fun out => (∀ a, out = .ok a → Q a) ∧ ∀ e, out = .error e → X e) X := by
    refine Conforms.tryCatch (Y := X) (hp.bind fun a ha => ?_) fun e he => ?_
    · refine ⟨fun b hb => ?_, fun e he => (nomatch he)⟩
      cases hb
      exact ha
    · refine ⟨fun b hb => (nomatch hb), fun e' he' => ?_⟩
      cases he'
      exact he
  exact hout.bind fun out h => hc.bind fun _ _ => conforms_answer.mpr h

/-- What is known of a program in two ways is known of it at once. -/
theorem Conforms.and {p : Program Resp ε α} {A' : Op → Prop} {B' : (o : Op) → Resp o → Prop}
    {Q' : α → Prop} {X' : ε → Prop} (h : p.Conforms A B Q X) (h' : p.Conforms A' B' Q' X') :
    p.Conforms (fun o => A o ∧ A' o) (fun o r => B o r ∧ B' o r) (fun a => Q a ∧ Q' a)
      fun e => X e ∧ X' e := by
  induction p with
  | ret a => exact ⟨h, h'⟩
  | raise e => exact ⟨h, h'⟩
  | call o k ih => exact ⟨⟨h.1, h'.1⟩, fun r hr => ih r (h.2 r hr.1) (h'.2 r hr.2)⟩

/-- A program conforms to weaker demands, under stronger assumptions. -/
theorem Conforms.imp {p : Program Resp ε α} {A' : Op → Prop} {B' : (o : Op) → Resp o → Prop}
    {Q' : α → Prop} {X' : ε → Prop} (h : p.Conforms A B Q X) (hA : ∀ o, A o → A' o)
    (hB : ∀ o r, B' o r → B o r) (hQ : ∀ a, Q a → Q' a) (hX : ∀ e, X e → X' e) :
    p.Conforms A' B' Q' X' := by
  induction p with
  | ret a => exact hQ a h
  | raise e => exact hX e h
  | call o k ih => exact ⟨hA o h.1, fun r hr => ih r (h.2 r (hB o r hr))⟩

end Conforms

/-! ## Safety under interference -/

/-- What calls do to the shared state, and what a crash of a participant does. -/
structure System {Op : Type} (Resp : Op → Type) (W S : Type) where
  act : W → (o : Op) → S → Resp o → S → Prop
  abort : W → S → S

/-- **A rely–guarantee discipline** for a system: an invariant of the shared
state, what each participant may assume of the others between its calls, and what
it promises of its own calls.  Nobody's calls, and nobody's crash, break what
another relies on. -/
structure Discipline {W S : Type} (sys : System Resp W S) where
  inv : S → Prop
  rely : W → S → S → Prop
  guar : W → (o : Op) → S → Resp o → S → Prop
  rely_refl : ∀ w s, rely w s s
  rely_trans : ∀ w s t u, rely w s t → rely w t u → rely w s u
  guar_rely : ∀ v w o s r s', v ≠ w → inv s → inv s' → guar v o s r s' → rely w s s'
  crash_inv : ∀ w s, inv s → inv (sys.abort w s)
  crash_rely : ∀ v w s, v ≠ w → inv s → rely w s (sys.abort v s)

/-- The runs of a system in which every call, with its answer, is made under a condition. -/
def System.restrict {W S : Type} (sys : System Resp W S)
    (C : W → (o : Op) → S → Resp o → Prop) : System Resp W S where
  act w o s r s' := C w o s r ∧ sys.act w o s r s'
  abort := sys.abort

section Safe
variable {W S : Type} {sys : System Resp W S} (d : Discipline sys) (w : W)

/-- **Safety.**  From `s`, whatever the others do within the rely before each
call and whatever the answers, each call keeps the invariant and stays within the
guarantee, and the program ends with `Q` of its result or `X` of its exception. -/
def Safe : Program Resp ε α → (α → S → Prop) → (ε → S → Prop) → S → Prop
  | ret a, Q, _, s => Q a s
  | raise e, _, X, s => X e s
  | call o k, Q, X, s => ∀ s₁, d.rely w s s₁ → d.inv s₁ → ∀ r s₂, sys.act w o s₁ r s₂ →
      (d.inv s₂ ∧ d.guar w o s₁ r s₂) ∧ (k r).Safe Q X s₂

variable {d w} {Q : α → S → Prop} {X : ε → S → Prop} {s : S}

@[simp] theorem safe_ret {a : α} : (ret a : Program Resp ε α).Safe d w Q X s ↔ Q a s := Iff.rfl

@[simp] theorem safe_raise {e : ε} : (raise e : Program Resp ε α).Safe d w Q X s ↔ X e s := Iff.rfl

@[simp] theorem safe_answer {x : Except ε α} :
    (answer x : Program Resp ε α).Safe d w Q X s ↔
      (∀ a, x = .ok a → Q a s) ∧ ∀ e, x = .error e → X e s := by
  cases x <;> simp [answer]

theorem Safe.mono {p : Program Resp ε α} {Q' : α → S → Prop} {X' : ε → S → Prop}
    (h : p.Safe d w Q X s) (hQ : ∀ a s, Q a s → Q' a s) (hX : ∀ e s, X e s → X' e s) :
    p.Safe d w Q' X' s := by
  induction p generalizing s with
  | ret a => exact hQ a s h
  | raise e => exact hX e s h
  | call o k ih =>
      intro s₁ hr hi r s₂ ha
      obtain ⟨hg, hk⟩ := h s₁ hr hi r s₂ ha
      exact ⟨hg, ih r hk⟩

/-- **Sequencing.** -/
theorem safe_bind {p : Program Resp ε α} {f : α → Program Resp ε β} {Q : β → S → Prop} :
    (p >>= f).Safe d w Q X s ↔ p.Safe d w (fun a => (f a).Safe d w Q X) X s := by
  induction p generalizing s with
  | ret a => exact Iff.rfl
  | raise e => exact Iff.rfl
  | call o k ih =>
      constructor <;> intro h s₁ hr hi r s₂ ha
      · exact ⟨(h s₁ hr hi r s₂ ha).1, (ih r).mp (h s₁ hr hi r s₂ ha).2⟩
      · exact ⟨(h s₁ hr hi r s₂ ha).1, (ih r).mpr (h s₁ hr hi r s₂ ha).2⟩

theorem safe_map {p : Program Resp ε α} {f : α → β} {Q : β → S → Prop} :
    (f <$> p).Safe d w Q X s ↔ p.Safe d w (fun a => Q (f a)) X s :=
  safe_bind (f := fun a => ret (f a))

/-- **Handling.** -/
theorem safe_tryCatch {p : Program Resp ε α} {h : ε → Program Resp ε α} :
    (p.tryCatch h).Safe d w Q X s ↔ p.Safe d w Q (fun e => (h e).Safe d w Q X) s := by
  induction p generalizing s with
  | ret a => exact Iff.rfl
  | raise e => exact Iff.rfl
  | call o k ih =>
      constructor <;> intro hs s₁ hr hi r s₂ ha
      · exact ⟨(hs s₁ hr hi r s₂ ha).1, (ih r).mp (hs s₁ hr hi r s₂ ha).2⟩
      · exact ⟨(hs s₁ hr hi r s₂ ha).1, (ih r).mpr (hs s₁ hr hi r s₂ ha).2⟩

/-- **Cleaning up**: the clean-up is entered with either outcome, and restores it. -/
theorem safe_andFinally {p : Program Resp ε α} {c : Program Resp ε Unit}
    (h : p.Safe d w (fun a => c.Safe d w (fun _ => Q a) X)
      (fun e => c.Safe d w (fun _ => X e) X) s) :
    (p.andFinally c).Safe d w Q X s := by
  refine safe_bind.mpr (safe_tryCatch.mpr (safe_bind.mpr (h.mono ?_ ?_)))
  · intro a t ht
    exact safe_bind.mpr ht
  · intro e t ht
    exact safe_bind.mpr ht

/-- Steps of the others do not matter to a program that still has a call to make;
a program at its end needs its postcondition to be stable. -/
theorem Safe.of_rely {p : Program Resp ε α} {t : S} (h : p.Safe d w Q X s) (hr : d.rely w s t)
    (hQ : ∀ a, Q a s → Q a t) (hX : ∀ e, X e s → X e t) : p.Safe d w Q X t := by
  cases p with
  | ret a => exact hQ a h
  | raise e => exact hX e h
  | call o k =>
      intro s₁ hr₁ hi r s₂ ha
      exact h s₁ (d.rely_trans w s t s₁ hr hr₁) hi r s₂ ha

/-- **The frame rule for uneventful calls.**  If every call the program can issue
keeps `P`, the invariant and the guarantee, the program ends in `P`. -/
theorem Safe.of_only {A : Op → Prop} {P : S → Prop} {p : Program Resp ε α} (hp : p.Only A)
    (hstep : ∀ o, A o → ∀ s s₁ r s₂, P s → d.rely w s s₁ → d.inv s₁ → sys.act w o s₁ r s₂ →
      (d.inv s₂ ∧ d.guar w o s₁ r s₂) ∧ P s₂) (hs : P s) :
    p.Safe d w (fun _ => P) (fun _ => P) s := by
  induction p generalizing s with
  | ret a => exact hs
  | raise e => exact hs
  | call o k ih =>
      intro s₁ hr hi r s₂ ha
      obtain ⟨hg, hP⟩ := hstep o hp.1 s s₁ r s₂ hs hr hi ha
      exact ⟨hg, ih r (hp.2 r) hP⟩

/-- **The frame rule for conforming programs**: if every call that the program can issue
keeps `P`, the invariant and the guarantee, and is answered within `B`, the program ends in
`P` with what conformance says of its outcome. -/
theorem Safe.of_conforms {A : Op → Prop} {B : (o : Op) → Resp o → Prop} {P : S → Prop}
    {Q : α → Prop} {X : ε → Prop} {p : Program Resp ε α} (hp : p.Conforms A B Q X)
    (hstep : ∀ o, A o → ∀ s s₁ r s₂, P s → d.rely w s s₁ → d.inv s₁ → sys.act w o s₁ r s₂ →
      (d.inv s₂ ∧ d.guar w o s₁ r s₂) ∧ B o r ∧ P s₂) (hs : P s) :
    p.Safe d w (fun a t => Q a ∧ P t) (fun e t => X e ∧ P t) s := by
  induction p generalizing s with
  | ret a => exact ⟨hp, hs⟩
  | raise e => exact ⟨hp, hs⟩
  | call o k ih =>
      intro s₁ hr hi r s₂ ha
      obtain ⟨hg, hB, hP⟩ := hstep o hp.1 s s₁ r s₂ hs hr hi ha
      exact ⟨hg, ih r (hp.2 r hB) hP⟩

/-- **The rule of constancy**: what neither the others nor the guaranteed calls of `w` break
is kept by a safe program. -/
theorem Safe.keep {K : S → Prop} {p : Program Resp ε α} (h : p.Safe d w Q X s)
    (hrely : ∀ s t, d.rely w s t → K s → K t) (hguar : ∀ o s r t, d.guar w o s r t → K s → K t)
    (hs : K s) : p.Safe d w (fun a t => Q a t ∧ K t) (fun e t => X e t ∧ K t) s := by
  induction p generalizing s with
  | ret a => exact ⟨h, hs⟩
  | raise e => exact ⟨h, hs⟩
  | call o k ih =>
      intro s₁ hr hi r s₂ ha
      obtain ⟨hg, hk⟩ := h s₁ hr hi r s₂ ha
      exact ⟨hg, ih r hk (hguar o s₁ r s₂ hg.2 (hrely s s₁ hr hs))⟩

end Safe

/-! ## A program on its own -/

/-- A complete run of the program against `act`: its outcome and final state. -/
inductive Exec {S : Type} (act : (o : Op) → S → Resp o → S → Prop) :
    Program Resp ε α → S → Except ε α → S → Prop
  | ret (a : α) (s : S) : Exec act (ret a) s (.ok a) s
  | raise (e : ε) (s : S) : Exec act (raise e) s (.error e) s
  | call {o : Op} {k : Resp o → Program Resp ε α} {s s₁ s₂ : S} {r : Resp o}
      {out : Except ε α} (ha : act o s r s₁) (hk : Exec act (k r) s₁ out s₂) :
      Exec act (call o k) s out s₂

section Exec
variable {S : Type} {act : (o : Op) → S → Resp o → S → Prop}

/-- A system with one participant. -/
def System.solo (act : (o : Op) → S → Resp o → S → Prop) : System Resp Unit S where
  act _ := act
  abort _ s := s

/-- The discipline of a program that nobody interferes with. -/
def Discipline.solo (inv : S → Prop) : Discipline (System.solo act) where
  inv := inv
  rely _ s t := s = t
  guar _ _ _ _ _ := True
  rely_refl _ _ := rfl
  rely_trans _ _ _ _ h h' := h.trans h'
  guar_rely v w _ _ _ _ hne := absurd (Subsingleton.elim v w) hne
  crash_inv _ _ h := h
  crash_rely v w _ hne := absurd (Subsingleton.elim v w) hne

/-- **A safe program run alone ends in its postcondition.** -/
theorem Exec.of_safe {inv : S → Prop} {p : Program Resp ε α} {Q : α → S → Prop}
    {X : ε → S → Prop} {s s' : S} {out : Except ε α} (hx : Exec act p s out s') (hi : inv s)
    (h : p.Safe (Discipline.solo inv : Discipline (System.solo act)) () Q X s) :
    (∀ a, out = .ok a → Q a s') ∧ ∀ e, out = .error e → X e s' := by
  induction hx with
  | ret a s =>
      refine ⟨fun b hb => ?_, fun e he => (nomatch he)⟩
      cases hb
      exact h
  | raise e s =>
      refine ⟨fun b hb => (nomatch hb), fun e' he => ?_⟩
      cases he
      exact h
  | call ha hk ih =>
      obtain ⟨⟨hi', -⟩, hk'⟩ := h _ rfl hi _ _ ha
      exact ih hi' hk'

/-- Runs are composed as programs are. -/
theorem Exec.bind {p : Program Resp ε α} {f : α → Program Resp ε β} {s t u : S} {a : α}
    {out : Except ε β} (hp : Exec act p s (.ok a) t) (hf : Exec act (f a) t out u) :
    Exec act (p >>= f) s out u := by
  induction p generalizing s with
  | ret b =>
      cases hp
      exact hf
  | raise e => cases hp
  | call o k ih =>
      cases hp with
      | call ha hk => exact .call ha (ih _ hk)

/-- A handled exception. -/
theorem Exec.tryCatch {p : Program Resp ε α} {h : ε → Program Resp ε α} {s t u : S} {e : ε}
    {out : Except ε α} (hp : Exec act p s (.error e) t) (hh : Exec act (h e) t out u) :
    Exec act (p.tryCatch h) s out u := by
  induction p generalizing s with
  | ret b => cases hp
  | raise e' =>
      cases hp
      exact hh
  | call o k ih =>
      cases hp with
      | call ha hk => exact .call ha (ih _ hk)

/-- **Simulation**: where every call is matched on other states, so is every run. -/
theorem Exec.simulate {T : Type} {act' : (o : Op) → T → Resp o → T → Prop} {f : S → T}
    (hstep : ∀ o s r s', act o s r s' → act' o (f s) r (f s')) {p : Program Resp ε α} {s s' : S}
    {out : Except ε α} (h : Exec act p s out s') : Exec act' p (f s) out (f s') := by
  induction h with
  | ret a s => exact .ret a _
  | raise e s => exact .raise e _
  | call ha _ ih => exact .call (hstep _ _ _ _ ha) ih

end Exec

end Program

/-! ## A pool of programs on one state -/

/-- The shared state and, for each participant, what is left of its program;
`none` once it has crashed. -/
structure Pool {Op : Type} (Resp : Op → Type) (ε α W S : Type) where
  world : S
  task : W → Option (Program Resp ε α)

namespace Pool
open Program
variable {Op : Type} {Resp : Op → Type} {ε α W S : Type} [DecidableEq W]

/-- What happens in one step of a pool. -/
inductive Label {Op : Type} (Resp : Op → Type) (W : Type)
  | act (w : W) (o : Op) (r : Resp o)
  | crash (w : W)

/-- **One step**: some participant's next call is carried out, or a participant
crashes and the state drops what it held. -/
inductive Step (sys : System Resp W S) :
    Pool Resp ε α W S → Label Resp W → Pool Resp ε α W S → Prop
  | act {p : Pool Resp ε α W S} {w : W} {o : Op} {k : Resp o → Program Resp ε α} {r : Resp o}
      {s' : S} (ht : p.task w = some (.call o k)) (ha : sys.act w o p.world r s') :
      Step sys p (.act w o r) ⟨s', Function.update p.task w (some (k r))⟩
  | crash {p : Pool Resp ε α W S} {w : W} {q : Program Resp ε α} (ht : p.task w = some q) :
      Step sys p (.crash w) ⟨sys.abort w p.world, Function.update p.task w none⟩

/-- The pools reachable when participant `w` starts as `main w` on `s`. -/
inductive Reachable (sys : System Resp W S) (main : W → Program Resp ε α) (s : S) :
    Pool Resp ε α W S → Prop
  | init : Reachable sys main s ⟨s, fun w => some (main w)⟩
  | step {p p' : Pool Resp ε α W S} {l : Label Resp W} (hp : Reachable sys main s p)
      (hs : Step sys p l p') : Reachable sys main s p'

/-- Some step leads from one pool to the other. -/
def Next (sys : System Resp W S) (p p' : Pool Resp ε α W S) : Prop := ∃ l, Step sys p l p'

/-- A run from a reachable pool stays among the reachable ones. -/
theorem Reachable.run {sys : System Resp W S} {main : W → Program Resp ε α} {s : S}
    {p p' : Pool Resp ε α W S} (hp : Reachable sys main s p)
    (hrun : Relation.ReflTransGen (Next sys) p p') : Reachable sys main s p' := by
  induction hrun with
  | refl => exact hp
  | tail _ hs ih =>
      obtain ⟨l, hs⟩ := hs
      exact ih.step hs

/-- A run of a system is one of every system that can do what it can. -/
theorem Reachable.mono {sys sys' : System Resp W S}
    (hact : ∀ w o s r t, sys.act w o s r t → sys'.act w o s r t) (habort : sys.abort = sys'.abort)
    {main : W → Program Resp ε α} {s : S} {p : Pool Resp ε α W S}
    (h : Reachable sys main s p) : Reachable sys' main s p := by
  induction h with
  | init => exact .init
  | step _ hs ih =>
      cases hs with
      | act ht ha => exact ih.step (.act ht (hact _ _ _ _ _ ha))
      | crash ht =>
          rw [habort]
          exact ih.step (.crash ht)

/-- A run of the restricted system is a run of the system. -/
theorem Reachable.of_restrict {sys : System Resp W S}
    {C : W → (o : Op) → S → Resp o → Prop} {main : W → Program Resp ε α} {s : S}
    {p : Pool Resp ε α W S} (h : Reachable (sys.restrict C) main s p) : Reachable sys main s p := by
  have hact : ∀ w o s r t, (sys.restrict C).act w o s r t → sys.act w o s r t :=
    fun _ _ _ _ _ ha => ha.2
  exact h.mono hact rfl

theorem Next.of_restrict {sys : System Resp W S}
    {C : W → (o : Op) → S → Resp o → Prop} {p p' : Pool Resp ε α W S}
    (h : Relation.ReflTransGen (Next (sys.restrict C)) p p') :
    Relation.ReflTransGen (Next sys) p p' := by
  induction h with
  | refl => exact .refl
  | tail _ hs ih =>
      obtain ⟨l, hs⟩ := hs
      cases hs with
      | act ht ha => exact ih.tail ⟨_, .act ht ha.2⟩
      | crash ht => exact ih.tail ⟨_, .crash ht⟩

/-- A run whose calls meet the condition is one of the restricted system. -/
theorem Reachable.restrict {sys : System Resp W S}
    {C : W → (o : Op) → S → Resp o → Prop} {main : W → Program Resp ε α} {s : S}
    (hC : ∀ p : Pool Resp ε α W S, Reachable sys main s p → ∀ w o r, C w o p.world r)
    {p : Pool Resp ε α W S} (h : Reachable sys main s p) : Reachable (sys.restrict C) main s p := by
  induction h with
  | init => exact .init
  | step hp hs ih =>
      cases hs with
      | act ht ha => exact ih.step (.act ht ⟨hC _ hp _ _ _, ha⟩)
      | crash ht => exact ih.step (.crash ht)

/-- Without a condition there is no restriction. -/
theorem Step.unrestricted {sys : System Resp W S} {p p' : Pool Resp ε α W S} {l : Label Resp W}
    (h : Step sys p l p') : Step (sys.restrict fun _ _ _ _ => True) p l p' := by
  cases h with
  | act ht ha => exact .act ht ⟨trivial, ha⟩
  | crash ht => exact .crash ht

theorem Reachable.unrestricted {sys : System Resp W S} {main : W → Program Resp ε α} {s : S}
    {p : Pool Resp ε α W S} (h : Reachable sys main s p) :
    Reachable (sys.restrict fun _ _ _ _ => True) main s p := by
  induction h with
  | init => exact .init
  | step _ hs ih => exact ih.step hs.unrestricted

theorem Next.unrestricted {sys : System Resp W S} {p p' : Pool Resp ε α W S}
    (h : Relation.ReflTransGen (Next sys) p p') :
    Relation.ReflTransGen (Next (sys.restrict fun _ _ _ _ => True)) p p' := by
  induction h with
  | refl => exact .refl
  | tail _ hs ih =>
      obtain ⟨l, hs⟩ := hs
      exact ih.tail ⟨l, hs.unrestricted⟩

section Rule
variable {sys : System Resp W S} {main : W → Program Resp ε α} {s₀ : S}

/-- The postconditions of the participants, on results and on exceptions, that nobody
else's calls can break. -/
structure Post (d : Discipline sys) (ε α : Type) where
  returns : W → α → S → Prop
  raises : W → ε → S → Prop
  returns_stable : ∀ w a s t, d.rely w s t → returns w a s → returns w a t
  raises_stable : ∀ w e s t, d.rely w s t → raises w e s → raises w e t

/-- The postconditions that say nothing. -/
def Post.trivial (d : Discipline sys) (ε α : Type) : Post d ε α where
  returns _ _ _ := True
  raises _ _ _ := True
  returns_stable _ _ _ _ _ _ := True.intro
  raises_stable _ _ _ _ _ _ := True.intro

/-- The invariant holds and every participant that has not crashed is safe. -/
def Sound (d : Discipline sys) (post : Post d ε α) (p : Pool Resp ε α W S) : Prop :=
  d.inv p.world ∧
    ∀ w q, p.task w = some q → q.Safe d w (post.returns w) (post.raises w) p.world

variable {d : Discipline sys} {post : Post d ε α}

/-- A call of a participant keeps the pool sound, and is within the
participant's guarantee. -/
theorem Sound.act {p : Pool Resp ε α W S} (hp : Sound d post p) {w : W} {o : Op}
    {k : Resp o → Program Resp ε α} {r : Resp o} {s' : S}
    (ht : p.task w = some (.call o k)) (ha : sys.act w o p.world r s') :
    d.guar w o p.world r s' ∧ Sound d post ⟨s', Function.update p.task w (some (k r))⟩ := by
  obtain ⟨hinv, hsafe⟩ := hp
  obtain ⟨⟨hinv', hg⟩, hk⟩ := hsafe w _ ht p.world (d.rely_refl _ _) hinv r s' ha
  refine ⟨hg, hinv', fun v q hq => ?_⟩
  dsimp only at hq
  by_cases hvw : v = w
  · subst v
    rw [Function.update_self] at hq
    cases hq
    exact hk
  · rw [Function.update_of_ne hvw] at hq
    have hr := d.guar_rely w v o _ r _ (Ne.symm hvw) hinv hinv' hg
    exact (hsafe v q hq).of_rely hr (fun a h => post.returns_stable v a _ _ hr h)
      fun e h => post.raises_stable v e _ _ hr h

theorem Sound.crash {p : Pool Resp ε α W S} (hp : Sound d post p) (w : W) :
    Sound d post ⟨sys.abort w p.world, Function.update p.task w none⟩ := by
  obtain ⟨hinv, hsafe⟩ := hp
  refine ⟨d.crash_inv w _ hinv, fun v q hq => ?_⟩
  dsimp only at hq
  by_cases hvw : v = w
  · subst v
    rw [Function.update_self] at hq
    cases hq
  · rw [Function.update_of_ne hvw] at hq
    have hr := d.crash_rely w v _ (Ne.symm hvw) hinv
    exact (hsafe v q hq).of_rely hr (fun a h => post.returns_stable v a _ _ hr h)
      fun e h => post.raises_stable v e _ _ hr h

/-- **The rely–guarantee rule**: every reachable pool is sound. -/
theorem Reachable.sound (post : Post d ε α) (h₀ : d.inv s₀)
    (hmain : ∀ w, (main w).Safe d w (post.returns w) (post.raises w) s₀)
    {p : Pool Resp ε α W S} (hp : Reachable sys main s₀ p) : Sound d post p := by
  induction hp with
  | init =>
      refine ⟨h₀, fun w q hq => ?_⟩
      cases hq
      exact hmain w
  | step _ hs ih =>
      cases hs with
      | act ht ha => exact (ih.act ht ha).2
      | crash ht => exact ih.crash _

variable (h₀ : d.inv s₀)
  (hmain : ∀ w, (main w).Safe d w (fun _ _ => True) (fun _ _ => True) s₀)
include h₀ hmain

/-- The invariant holds in every reachable state. -/
theorem Reachable.inv {p : Pool Resp ε α W S} (hp : Reachable sys main s₀ p) : d.inv p.world :=
  (hp.sound (.trivial d ε α) h₀ hmain).1

/-- Every call made in a run is within the guarantee of whoever made it. -/
theorem Reachable.guar {p p' : Pool Resp ε α W S} (hp : Reachable sys main s₀ p) {w : W} {o : Op}
    {r : Resp o} (hs : Step sys p (.act w o r) p') : d.guar w o p.world r p'.world := by
  cases hs with
  | act ht ha => exact ((hp.sound (.trivial d ε α) h₀ hmain).act ht ha).1

/-- **Stability**: what every guaranteed call and every crash keeps, a run keeps. -/
theorem Reachable.stable {P : S → Prop}
    (hact : ∀ w o s r s', d.guar w o s r s' → P s → P s')
    (hcrash : ∀ w s, P s → P (sys.abort w s)) {p p' : Pool Resp ε α W S}
    (hp : Reachable sys main s₀ p) (hrun : Relation.ReflTransGen (Next sys) p p')
    (h : P p.world) : P p'.world := by
  induction hrun with
  | refl => exact h
  | tail hpq hs ih =>
      obtain ⟨l, hs⟩ := hs
      have hq := hp.run hpq
      cases hs with
      | act ht ha =>
          exact hact _ _ _ _ _ ((hq.sound (.trivial d ε α) h₀ hmain).act ht ha).1 ih
      | crash ht => exact hcrash _ _ ih

end Rule

end Pool

end SupportPlatform
