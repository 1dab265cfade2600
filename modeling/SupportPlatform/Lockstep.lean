import SupportPlatform.Program

/-! # Two runs in lockstep

`Alike E R p q`: two programs issue the same calls as long as these are answered alike
(`E`), and end alike, with results related by `R` or with the same exception.  What a
program makes of an answer beyond `E` cannot be told from its calls.

When the system answers alike in states that are alike, runs of pools of such programs go
in lockstep (`Pool.Run.lockstep`): for every run from one state there is one from the other
with the same calls in the same order.
-/
namespace SupportPlatform
namespace Program
variable {Op : Type} {Resp : Op → Type} {ε α β γ δ : Type}

/-- **The programs cannot be told apart** by their calls, when answers related by `E` are not. -/
def Alike (E : (o : Op) → Resp o → Resp o → Prop) (R : α → β → Prop) :
    Program Resp ε α → Program Resp ε β → Prop
  | ret a, q => ∃ b, q = ret b ∧ R a b
  | raise e, q => q = raise e
  | call o k, q => ∃ k', q = call o k' ∧ ∀ r r', E o r r' → (k r).Alike E R (k' r')

section
variable {E : (o : Op) → Resp o → Resp o → Prop} {R : α → β → Prop}
  {p : Program Resp ε α} {q : Program Resp ε β}

theorem alike_ret {a : α} {b : β} (h : R a b) :
    (ret a : Program Resp ε α).Alike E R (ret b : Program Resp ε β) := ⟨b, rfl, h⟩

theorem alike_raise (e : ε) :
    (raise e : Program Resp ε α).Alike E R (raise e : Program Resp ε β) := rfl

theorem alike_ask {o : Op} {R : Resp o → Resp o → Prop} (h : ∀ r r', E o r r' → R r r') :
    (ask o : Program Resp ε (Resp o)).Alike E R (ask o) :=
  ⟨ret, rfl, fun r r' hr => ⟨r', rfl, h r r' hr⟩⟩

/-- **Sequencing.** -/
theorem Alike.bind {T : γ → δ → Prop} {f : α → Program Resp ε γ} {g : β → Program Resp ε δ}
    (h : p.Alike E R q) (hfg : ∀ a b, R a b → (f a).Alike E T (g b)) :
    (p >>= f).Alike E T (q >>= g) := by
  induction p generalizing q with
  | ret a =>
      obtain ⟨b, rfl, hab⟩ := h
      exact hfg a b hab
  | raise e =>
      cases h
      rfl
  | call o k ih =>
      obtain ⟨k', rfl, hk⟩ := h
      exact ⟨_, rfl, fun r r' hr => ih r (hk r r' hr)⟩

/-- **Handling.** -/
theorem Alike.tryCatch {h : ε → Program Resp ε α} {h' : ε → Program Resp ε β}
    (hpq : p.Alike E R q) (hh : ∀ e, (h e).Alike E R (h' e)) :
    (p.tryCatch h).Alike E R (q.tryCatch h') := by
  induction p generalizing q with
  | ret a =>
      obtain ⟨b, rfl, hab⟩ := hpq
      exact ⟨b, rfl, hab⟩
  | raise e =>
      cases hpq
      exact hh e
  | call o k ih =>
      obtain ⟨k', rfl, hk⟩ := hpq
      exact ⟨_, rfl, fun r r' hr => ih r (hk r r' hr)⟩

/-- Outcomes with related results, or with the same exception. -/
def AlikeOutcome (R : α → β → Prop) : Except ε α → Except ε β → Prop
  | .ok a, .ok b => R a b
  | .error e, .error e' => e = e'
  | _, _ => False

theorem alike_answer {x : Except ε α} {y : Except ε β} (h : AlikeOutcome R x y) :
    (answer x : Program Resp ε α).Alike E R (answer y) := by
  rcases x with e | a <;> rcases y with e' | b
  · cases h
    exact alike_raise e
  · cases h
  · cases h
  · exact alike_ret h

/-- **Cleaning up.** -/
theorem Alike.andFinally {c : Program Resp ε Unit} (hpq : p.Alike E R q)
    (hc : c.Alike E (fun _ _ => True) c) : (p.andFinally c).Alike E R (q.andFinally c) := by
  have hout : ((p >>= fun a => ret (.ok a : Except ε α)).tryCatch
      fun e => ret (.error e)).Alike E (AlikeOutcome R)
      ((q >>= fun b => ret (.ok b : Except ε β)).tryCatch fun e => ret (.error e)) :=
    Alike.tryCatch (hpq.bind fun a b hab => ⟨.ok b, rfl, hab⟩) fun e => ⟨.error e, rfl, rfl⟩
  exact hout.bind fun out out' h => hc.bind fun _ _ _ => alike_answer h

/-- A program that can tell no two answers apart that are related is alike to itself. -/
theorem Alike.of_conforms {p : Program Resp ε α} {Q : α → Prop} {X : ε → Prop}
    (h : p.Conforms (fun o => ∀ r r', E o r r' → r = r') (fun _ _ => True) Q X) :
    p.Alike E Eq p := by
  induction p with
  | ret a => exact alike_ret rfl
  | raise e => exact alike_raise e
  | call o k ih =>
      refine ⟨k, rfl, fun r r' hr => ?_⟩
      obtain rfl := h.1 r r' hr
      exact ih r (h.2 r trivial)

end

end Program

namespace Pool
open Program
variable {Op : Type} {Resp : Op → Type} {ε α W S : Type} [DecidableEq W]

/-- A run with its steps. -/
inductive Run (sys : System Resp W S) :
    Pool Resp ε α W S → List (Label Resp W) → Pool Resp ε α W S → Prop
  | refl (p : Pool Resp ε α W S) : Run sys p [] p
  | step {p p' q : Pool Resp ε α W S} {l : Label Resp W} {ls : List (Label Resp W)}
      (hs : Step sys p l p') (h : Run sys p' ls q) : Run sys p (l :: ls) q

theorem Run.snoc {sys : System Resp W S} {p q q' : Pool Resp ε α W S} {l : Label Resp W}
    {ls : List (Label Resp W)} (h : Run sys p ls q) (hs : Step sys q l q') :
    Run sys p (ls ++ [l]) q' := by
  induction h with
  | refl p => exact .step hs (.refl q')
  | step hs' _ ih => exact .step hs' (ih hs)

/-- What is reachable is reached by a run. -/
theorem Reachable.exists_run {sys : System Resp W S} {main : W → Program Resp ε α} {s : S}
    {p : Pool Resp ε α W S} (h : Reachable sys main s p) :
    ∃ ls, Run sys ⟨s, fun w => some (main w)⟩ ls p := by
  induction h with
  | init => exact ⟨[], .refl _⟩
  | step _ hs ih =>
      obtain ⟨ls, h⟩ := ih
      exact ⟨_, h.snoc hs⟩

/-- The same participant makes the same call, answered alike, or crashes. -/
inductive Label.Alike (E : (o : Op) → Resp o → Resp o → Prop) :
    Label Resp W → Label Resp W → Prop
  | act {w : W} {o : Op} {r r' : Resp o} (h : E o r r') : Alike E (.act w o r) (.act w o r')
  | crash (w : W) : Alike E (.crash w) (.crash w)

/-- Pools with states related by `T` and tasks that cannot be told apart. -/
structure Alike (E : (o : Op) → Resp o → Resp o → Prop) (R : α → α → Prop) (T : S → S → Prop)
    (p q : Pool Resp ε α W S) : Prop where
  world : T p.world q.world
  task : ∀ w, Option.Rel (Program.Alike E R) (p.task w) (q.task w)

section
variable {sys : System Resp W S} {E : (o : Op) → Resp o → Resp o → Prop} {R : α → α → Prop}
  {T : S → S → Prop}
  (hact : ∀ w o s r s' t, T s t → sys.act w o s r s' →
    ∃ r' t', sys.act w o t r' t' ∧ E o r r' ∧ T s' t')
  (habort : ∀ w s t, T s t → T (sys.abort w s) (sys.abort w t))
include hact habort

/-- A step is matched. -/
theorem Step.lockstep {p p' q : Pool Resp ε α W S} {l : Label Resp W} (h : Alike E R T p q)
    (hs : Step sys p l p') :
    ∃ l' q', Step sys q l' q' ∧ Label.Alike E l l' ∧ Alike E R T p' q' := by
  cases hs with
  | @act w o k r s' ht ha =>
      obtain ⟨r', t', ha', hr, hworld⟩ := hact w o _ r s' _ h.world ha
      have htask := h.task w
      rw [ht] at htask
      obtain ⟨k', hq, hk⟩ : ∃ k', q.task w = some (.call o k') ∧
          ∀ r r', E o r r' → (k r).Alike E R (k' r') := by
        rcases hqw : q.task w with _ | p'
        · rw [hqw] at htask
          cases htask
        · rw [hqw] at htask
          cases htask with
          | some halike =>
              obtain ⟨k', rfl, hk⟩ := halike
              exact ⟨k', rfl, hk⟩
      refine ⟨_, _, .act hq ha', .act hr, hworld, fun v => ?_⟩
      dsimp only
      by_cases hv : v = w
      · subst hv
        rw [Function.update_self, Function.update_self]
        exact .some (hk r r' hr)
      · rw [Function.update_of_ne hv, Function.update_of_ne hv]
        exact h.task v
  | @crash w task ht =>
      have htask := h.task w
      rw [ht] at htask
      obtain ⟨task', hq⟩ : ∃ task', q.task w = some task' := by
        rcases hqw : q.task w with _ | task'
        · rw [hqw] at htask
          cases htask
        · exact ⟨task', rfl⟩
      refine ⟨_, _, .crash hq, .crash w, habort w _ _ h.world, fun v => ?_⟩
      dsimp only
      by_cases hv : v = w
      · subst hv
        rw [Function.update_self, Function.update_self]
        exact .none
      · rw [Function.update_of_ne hv, Function.update_of_ne hv]
        exact h.task v

/-- **Every run is matched** by one with the same calls in the same order. -/
theorem Run.lockstep {p p' q : Pool Resp ε α W S} {ls : List (Label Resp W)}
    (h : Alike E R T p q) (hrun : Run sys p ls p') :
    ∃ ls' q', Run sys q ls' q' ∧ List.Forall₂ (Label.Alike E) ls ls' ∧ Alike E R T p' q' := by
  induction hrun generalizing q with
  | refl p => exact ⟨[], q, .refl q, .nil, h⟩
  | step hs _ ih =>
      obtain ⟨l', q', hs', hl, hq⟩ := hs.lockstep hact habort h
      obtain ⟨ls', q'', hrun', hls, hq'⟩ := ih hq
      exact ⟨l' :: ls', q'', .step hs' hrun', .cons hl hls, hq'⟩

end

end Pool

end SupportPlatform
