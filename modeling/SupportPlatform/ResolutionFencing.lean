import SupportPlatform.IncidentResolution
import SupportPlatform.ReferenceCodec

/-! # Fencing of resolutions

Whether calls of `IncidentResolutionWorkflow.resolve` keep out of each other's way.  An outcome
is written to whatever row is found, not only to the attempt that was claimed, so a call that
outlives its claim can overwrite what a later one has completed.

Where no claim is committed while another call for the incident has one and is still in progress,
nothing of that happens (`resolve_fenced`): the row of a call that has claimed is left alone by
the others until the call is over.  In general it does happen (`superseded_call_reopens`).
-/
namespace SupportPlatform
open Program

/-! ## Updates -/

/-- Writing back to the row that was loaded gives the edited row. -/
theorem Resolution.merge_loaded {l e : Resolution} (h : e.id = l.id) : l.merge e l = e := by
  cases l
  cases e
  simp only [Resolution.merge, put_current]
  simp_all

@[simp] theorem Resolution.merge_self (l current : Resolution) : l.merge l current = current := by
  simp [Resolution.merge]

/-- The resolution of an incident is final. -/
def Resolution.Final (r : Resolution) : Prop := r.status = .completed ∨ r.status = .failed

instance (r : Resolution) : Decidable r.Final := inferInstanceAs (Decidable (_ ∨ _))

section
variable {W : Type} [DecidableEq W]

/-! ## What fencing is -/

/-- An outcome is written only to the attempt that the call has claimed. -/
def Unsuperseded (w : W) : (o : ResolutionOp) → ResolutionStore W → ResolutionResp o → Prop
  | .commit txn change, s, r => txn ≠ .claim → CommitReport.applied r = true →
      ∃ record, s.records change.incidentId = some record ∧
        s.attempts w = some (change.incidentId, record.attemptCount)
  | _, _, _ => True

/-- **A fenced call** leaves final rows as they are, and is not superseded when it writes. -/
structure Fenced (w : W) (o : ResolutionOp) (s : ResolutionStore W) (r : ResolutionResp o)
    (s' : ResolutionStore W) : Prop where
  final : ∀ i record, s.records i = some record → record.Final → s'.records i = some record
  current : Unsuperseded w o s r

/-- A claim is committed only while no other call in progress has claimed the incident. -/
def Alone (w : W) : (o : ResolutionOp) → ResolutionStore W → ResolutionResp o → Prop
  | .commit .claim change, s, r => CommitReport.applied r = true →
      ∀ v, v ≠ w → ∀ n, s.attempts v ≠ some (change.incidentId, n)
  | _, _, _ => True

/-! ## The discipline -/

/-- What holds between calls: rows are found by their incident, locks are on rows, and of the
calls in progress one at most has claimed an incident. -/
structure SoleClaims (s : ResolutionStore W) : Prop where
  keyed : ∀ i record, s.records i = some record → record.incidentId = i
  locked : ∀ i w, s.locks i = some w → s.records i ≠ none
  sole : ∀ v w i n m, s.attempts v = some (i, n) → s.attempts w = some (i, m) → v = w

/-- What a call relies on: nobody else ends its attempt, writes the row that it has claimed, or
breaks its locks. -/
structure KeepsClaim (w : W) (s s' : ResolutionStore W) : Prop where
  attempt : s'.attempts w = s.attempts w
  claimed : ∀ i n, s.attempts w = some (i, n) → s'.records i = s.records i
  held : ∀ i, s.locks i = some w → s'.locks i = some w ∧ s'.records i = s.records i

omit [DecidableEq W] in
theorem KeepsClaim.refl (w : W) (s : ResolutionStore W) : KeepsClaim w s s :=
  ⟨rfl, fun _ _ _ => rfl, fun _ h => ⟨h, rfl⟩⟩

omit [DecidableEq W] in
theorem KeepsClaim.trans {w : W} {s t u : ResolutionStore W} (h : KeepsClaim w s t)
    (h' : KeepsClaim w t u) : KeepsClaim w s u where
  attempt := h'.attempt.trans h.attempt
  claimed i n hn := (h'.claimed i n (h.attempt.trans hn)).trans (h.claimed i n hn)
  held i hi := by
    obtain ⟨hlock, hrecord⟩ := h.held i hi
    obtain ⟨hlock', hrecord'⟩ := h'.held i hlock
    exact ⟨hlock', hrecord'.trans hrecord⟩

theorem release_locks {s : ResolutionStore W} {v w : W} {i : Int} :
    (s.release v).locks i = some w ↔ s.locks i = some w ∧ v ≠ w := by
  simp only [ResolutionStore.release]
  split
  · rename_i h
    rw [h]
    simp
  · rename_i h
    constructor
    · intro hw
      exact ⟨hw, fun hvw => h (hvw ▸ hw)⟩
    · exact fun hw => hw.1

theorem SoleClaims.release {s : ResolutionStore W} (h : SoleClaims s) (w : W) :
    SoleClaims (s.release w) :=
  ⟨h.keyed, fun i v hv => h.locked i v (release_locks.mp hv).1, h.sole⟩

theorem KeepsClaim.release {v w : W} (hne : v ≠ w) (s : ResolutionStore W) :
    KeepsClaim w s (s.release v) :=
  ⟨rfl, fun _ _ _ => rfl, fun _ h => ⟨release_locks.mpr ⟨h, hne⟩, rfl⟩⟩

/-- The end of a call's attempt. -/
theorem SoleClaims.ended {s : ResolutionStore W} (h : SoleClaims s) (w : W) :
    SoleClaims { s with attempts := Function.update s.attempts w none } := by
  refine ⟨h.keyed, h.locked, fun u v i n m hu hv => ?_⟩
  by_cases huw : u = w
  · rw [huw] at hu
    simp at hu
  · by_cases hvw : v = w
    · rw [hvw] at hv
      simp at hv
    · dsimp only at hu hv
      rw [Function.update_of_ne huw] at hu
      rw [Function.update_of_ne hvw] at hv
      exact h.sole u v i n m hu hv

theorem KeepsClaim.ended {v w : W} (hne : v ≠ w) (s : ResolutionStore W) :
    KeepsClaim w s { s with attempts := Function.update s.attempts v none } :=
  ⟨Function.update_of_ne hne.symm none s.attempts, fun _ _ _ => rfl, fun _ h => ⟨h, rfl⟩⟩

/-- **The discipline of the calls**, every claim being made alone. -/
def fencing : Discipline ((resolutionSystem (W := W)).restrict Alone) where
  inv := SoleClaims
  rely := KeepsClaim
  guar w o s r s' := Fenced w o s r s' ∧ ∀ v, v ≠ w → KeepsClaim v s s'
  rely_refl := KeepsClaim.refl
  rely_trans _ _ _ _ := KeepsClaim.trans
  guar_rely _ w _ _ _ _ hne _ _ h := h.2 w hne.symm
  crash_inv w _ h := (h.release w).ended w
  crash_rely _ _ _ hne _ := (KeepsClaim.release hne _).trans (KeepsClaim.ended hne _)

/-! ## What a call knows -/

/-- The call has claimed nothing. -/
def Unclaimed (w : W) (s : ResolutionStore W) : Prop := s.attempts w = none

/-- The call has found the record, holds its lock and has claimed nothing. -/
def Locking (w : W) (i : Int) (record : Resolution) (s : ResolutionStore W) : Prop :=
  s.attempts w = none ∧ s.locks i = some w ∧ s.records i = some record

/-- The call has claimed an attempt that is not over. -/
def Claimed (w : W) (i : Int) (s : ResolutionStore W) : Prop :=
  ∃ record, s.records i = some record ∧ ¬ record.Final ∧
    s.attempts w = some (i, record.attemptCount)

variable {w : W} {s t : ResolutionStore W} {i : Int} {record : Resolution}

section
omit [DecidableEq W]

theorem Unclaimed.keep (h : Unclaimed w s) (hst : KeepsClaim w s t) : Unclaimed w t :=
  hst.attempt.trans h

theorem Locking.keep (h : Locking w i record s) (hst : KeepsClaim w s t) :
    Locking w i record t := by
  obtain ⟨hattempt, hlock, hrecord⟩ := h
  obtain ⟨hlock', hrecord'⟩ := hst.held i hlock
  exact ⟨hst.attempt.trans hattempt, hlock', hrecord'.trans hrecord⟩

theorem Claimed.keep (h : Claimed w i s) (hst : KeepsClaim w s t) : Claimed w i t := by
  obtain ⟨record, hrecord, hfinal, hattempt⟩ := h
  exact ⟨record, (hst.claimed i _ hattempt).trans hrecord, hfinal, hst.attempt.trans hattempt⟩

end

/-! ## Commits -/

/-- A change keeps the incident of the row. -/
def ResolutionChange.Keyed : ResolutionChange → Prop
  | .insert _ => True
  | .update loaded edited => edited.incidentId = loaded.incidentId

section
variable {change : ResolutionChange} {txn : ResolutionTransaction} {v : W}

section
omit [DecidableEq W]

theorem records_apply_of_ne (h : i ≠ change.incidentId) :
    (s.apply change).records i = s.records i := by
  cases change with
  | insert row => exact Function.update_of_ne h _ _
  | update loaded edited => exact Function.update_of_ne h _ _

/-- Only the rows differ after a change. -/
theorem locks_apply : (s.apply change).locks = s.locks := by
  cases change <;> rfl

theorem attempts_apply : (s.apply change).attempts = s.attempts := by
  cases change <;> rfl

end

theorem records_settle : (s.settle w txn change).records = (s.apply change).records := by
  unfold ResolutionStore.settle
  split <;> rfl

theorem locks_settle : (s.settle w txn change).locks = (s.release w).locks := by
  unfold ResolutionStore.settle
  split <;> simp only [ResolutionStore.release, locks_apply]

theorem attempts_settle : (s.settle w txn change).attempts =
    if txn = .claim then Function.update s.attempts w (some change.attempt) else s.attempts := by
  unfold ResolutionStore.settle
  split
  · rfl
  · exact attempts_apply

theorem attempt_fst : change.attempt.1 = change.incidentId := by
  cases change <;> rfl

omit [DecidableEq W] in
/-- The row of a change stays under its incident. -/
theorem apply_keyed (h : SoleClaims s) (hkeyed : change.Keyed)
    (hrecord : (s.apply change).records i = some record) : record.incidentId = i := by
  by_cases hi : i = change.incidentId
  · subst hi
    cases change with
    | insert row =>
        simp only [ResolutionStore.apply, ResolutionChange.incidentId, Function.update_self] at hrecord
        cases hrecord
        rfl
    | update loaded edited =>
        simp only [ResolutionStore.apply, ResolutionChange.incidentId, Function.update_self] at hrecord
        obtain ⟨current, hcurrent, rfl⟩ := Option.map_eq_some_iff.mp hrecord
        have hsame : edited.incidentId = loaded.incidentId := hkeyed
        simp only [Resolution.merge, hsame, put_unedited]
        exact h.keyed _ current hcurrent
  · rw [records_apply_of_ne hi] at hrecord
    exact h.keyed i record hrecord

omit [DecidableEq W] in
theorem apply_ne_none (h : s.records i ≠ none) : (s.apply change).records i ≠ none := by
  by_cases hi : i = change.incidentId
  · subst hi
    cases change with
    | insert row => simp [ResolutionStore.apply, ResolutionChange.incidentId]
    | update loaded edited =>
        simp only [ResolutionStore.apply, ResolutionChange.incidentId, Function.update_self, ne_eq,
          Option.map_eq_none_iff]
        exact h
  · rwa [records_apply_of_ne hi]

/-- A commit leaves a call alone that has not claimed the incident. -/
theorem KeepsClaim.settle (h : SoleClaims s) (hne : v ≠ w) (haccepts : s.Accepts w change)
    (hother : ∀ n, s.attempts v ≠ some (change.incidentId, n)) :
    KeepsClaim v s (s.settle w txn change) where
  attempt := by
    rw [attempts_settle]
    split
    · exact Function.update_of_ne hne _ _
    · rfl
  claimed i n hn := by
    rw [records_settle]
    exact records_apply_of_ne fun hi => hother n (hi ▸ hn)
  held i hi := by
    rw [locks_settle, records_settle]
    refine ⟨release_locks.mpr ⟨hi, hne.symm⟩, ?_⟩
    by_cases hkey : i = change.incidentId
    · subst hkey
      cases change with
      | insert row => exact absurd haccepts.2 (h.locked _ v hi)
      | update loaded edited =>
          rcases haccepts with rfl | hfree
          · -- an update without a net change
            have hid : edited.merge edited = id := funext fun c => Resolution.merge_self edited c
            simp [ResolutionStore.apply, ResolutionChange.incidentId, hid]
          · rcases hfree with hnone | hown
            · exact absurd (hnone.symm.trans hi) (Option.some_ne_none v).symm
            · exact absurd (Option.some.inj (hi.symm.trans hown)) hne
    · exact records_apply_of_ne hkey

theorem SoleClaims.settle (h : SoleClaims s) (hkeyed : change.Keyed)
    (hothers : ∀ v, v ≠ w → ∀ n, s.attempts v ≠ some (change.incidentId, n)) :
    SoleClaims (s.settle w txn change) where
  keyed i record hrecord := by
    rw [records_settle] at hrecord
    exact apply_keyed h hkeyed hrecord
  locked i u hu := by
    rw [locks_settle] at hu
    rw [records_settle]
    exact apply_ne_none (h.locked i u (release_locks.mp hu).1)
  sole u v i n m hu hv := by
    rw [attempts_settle] at hu hv
    split at hu
    · rename_i htxn
      rw [if_pos htxn] at hv
      have hclaim : ∀ x k, Function.update s.attempts w (some change.attempt) x = some (i, k) →
          x ≠ w → s.attempts x = some (i, k) := by
        intro x k hx hne
        rwa [Function.update_of_ne hne] at hx
      have hself : ∀ x k, Function.update s.attempts w (some change.attempt) x = some (i, k) →
          x = w → i = change.incidentId := by
        rintro x k hx rfl
        rw [Function.update_self] at hx
        rw [← attempt_fst, Option.some.inj hx]
      by_cases huw : u = w
      · by_cases hvw : v = w
        · rw [huw, hvw]
        · exact absurd (hself u n hu huw ▸ hclaim v m hv hvw) (hothers v hvw m)
      · by_cases hvw : v = w
        · exact absurd (hself v m hv hvw ▸ hclaim u n hu huw) (hothers u huw n)
        · exact h.sole u v i n m (hclaim u n hu huw) (hclaim v m hv hvw)
    · rename_i htxn
      rw [if_neg htxn] at hv
      exact h.sole u v i n m hu hv

end

/-! ## Calls -/

section
variable {α : Type} {Q : α → ResolutionStore W → Prop} {P : ResolutionStore W → Prop}

/-- The program, whatever the others do within the discipline, is fenced and returns with `Q`. -/
abbrev FencedTo (w : W) (p : Resolving α) (Q : α → ResolutionStore W → Prop)
    (s : ResolutionStore W) : Prop := p.Safe fencing w Q (fun _ _ => True) s

/-- A call in a state of which is known what the others keep. -/
theorem fenced_call {o : ResolutionOp} {k : ResolutionResp o → Resolving α} (hP : P s)
    (hkeep : ∀ s t, KeepsClaim w s t → P s → P t)
    (h : ∀ t, P t → SoleClaims t → ∀ r, Alone w o t r → resolutionPermits w t o r →
      (SoleClaims (resolutionAfter w t o r) ∧ Fenced w o t r (resolutionAfter w t o r) ∧
        ∀ v, v ≠ w → KeepsClaim v t (resolutionAfter w t o r)) ∧
      FencedTo w (k r) Q (resolutionAfter w t o r)) : FencedTo w (call o k) Q s := by
  rintro t hst hinv r _ ⟨halone, hpermits, rfl⟩
  obtain ⟨⟨hinv', hfenced⟩, hk⟩ := h t (hkeep s t hst hP) hinv r halone hpermits
  exact ⟨⟨hinv', hfenced⟩, hk⟩

/-- A call that changes nothing. -/
theorem fenced_quiet {o : ResolutionOp} {k : ResolutionResp o → Resolving α} (hP : P s)
    (hkeep : ∀ s t, KeepsClaim w s t → P s → P t) (hquiet : ∀ t r, resolutionAfter w t o r = t)
    (hcurrent : ∀ t r, Unsuperseded w o t r)
    (h : ∀ t, P t → SoleClaims t → ∀ r, resolutionPermits w t o r → FencedTo w (k r) Q t) :
    FencedTo w (call o k) Q s := by
  refine fenced_call hP hkeep fun t ht hinv r _ hpermits => ?_
  rw [hquiet t r]
  exact ⟨⟨hinv, ⟨fun _ _ hrecord _ => hrecord, hcurrent t r⟩, fun v _ => .refl v t⟩,
    h t ht hinv r hpermits⟩

theorem fenced_now {f : Timestamp → Resolving α} (hP : P s)
    (hkeep : ∀ s t, KeepsClaim w s t → P s → P t)
    (h : ∀ t time, P t → FencedTo w (f time) Q t) : FencedTo w (Resolving.now >>= f) Q s :=
  fenced_quiet hP hkeep (fun _ _ => rfl) (fun _ _ => trivial) fun t ht _ r _ => h t r ht

/-- What a statement finds, when it does not fail. -/
theorem fenced_raising {β : Type} {value : β} {r : Except PyExc β} {f : β → Resolving α}
    (hfinds : FindsRow value r) (h : FencedTo w (f value) Q s) :
    FencedTo w (Resolving.raising r >>= f) Q s := by
  cases r with
  | ok a =>
      obtain rfl : a = value := hfinds
      exact h
  | error e => exact trivial

theorem fenced_getIncident {id : Int} {f : Option Incident → Resolving α} (hP : P s)
    (hkeep : ∀ s t, KeepsClaim w s t → P s → P t)
    (h : ∀ t incident, P t → FencedTo w (f incident) Q t) :
    FencedTo w (Resolving.getIncident id >>= f) Q s :=
  fenced_quiet hP hkeep (fun _ _ => rfl) (fun _ _ => trivial) fun t ht _ _ hr =>
    fenced_raising hr (h t _ ht)

theorem fenced_selectRecord {id : Int} {f : Option Resolution → Resolving α} (hP : P s)
    (hkeep : ∀ s t, KeepsClaim w s t → P s → P t)
    (h : ∀ t, P t → SoleClaims t → FencedTo w (f (t.records id)) Q t) :
    FencedTo w (Resolving.selectRecord id >>= f) Q s :=
  fenced_quiet hP hkeep (fun _ _ => rfl) (fun _ _ => trivial) fun t ht hinv _ hr =>
    fenced_raising hr (h t ht hinv)

/-- A session is closed in either case, which only its locks depend on. -/
theorem fenced_withSession {body : Resolving α}
    (hkeep : ∀ a s t, KeepsClaim w s t → Q a s → Q a t)
    (hrelease : ∀ a s, Q a s → Q a (s.release w)) (h : FencedTo w body Q s) :
    FencedTo w (Resolving.withSession body) Q s := by
  have hclose : ∀ {P : ResolutionStore W → Prop} {t : ResolutionStore W}, P t →
      (∀ s t, KeepsClaim w s t → P s → P t) → (∀ s, P s → P (s.release w)) →
      (call .closeSession ret : Resolving Unit).Safe fencing w (fun _ => P) (fun _ _ => True) t := by
    intro P t hP hkeep hrelease
    refine fenced_call hP hkeep fun u hu hinv _ _ _ => ⟨⟨hinv.release w, ?_, fun v hv => ?_⟩, ?_⟩
    · exact ⟨fun _ _ hrecord _ => hrecord, trivial⟩
    · exact .release hv.symm u
    · exact hrelease u hu
  refine safe_andFinally (h.mono (fun a t hQ => ?_) fun e t _ => ?_)
  · exact hclose hQ (hkeep a) (hrelease a)
  · exact hclose trivial (fun _ _ _ h => h) fun _ h => h

/-- Taking the lock of a row. -/
theorem fenced_lockRecord {id : Int} {f : Option Resolution → Resolving α} (hs : Unclaimed w s)
    (hnone : ∀ t, Unclaimed w t → FencedTo w (f none) Q t)
    (hsome : ∀ t record, Locking w id record t → record.incidentId = id →
      FencedTo w (f (some record)) Q t) :
    FencedTo w (Resolving.lockRecord id >>= f) Q s := by
  refine fenced_call hs (fun _ _ hst h => h.keep hst) fun t ht hinv r _ hpermits => ?_
  obtain ⟨hfinds, hfree⟩ := hpermits
  cases r with
  | error e =>
      exact ⟨⟨hinv, ⟨fun _ _ hrecord _ => hrecord, trivial⟩, fun v _ => .refl v t⟩, trivial⟩
  | ok found =>
      have hfound : found = t.records id := hfinds
      cases found with
      | none =>
          exact ⟨⟨hinv, ⟨fun _ _ hrecord _ => hrecord, trivial⟩, fun v _ => .refl v t⟩, hnone t ht⟩
      | some record =>
          have hrecord : t.records id = some record := hfound.symm
          have hlocks : ∀ i v, Function.update t.locks id (some w) i = some v →
              i = id ∧ v = w ∨ i ≠ id ∧ t.locks i = some v := by
            intro i v hv
            by_cases hi : i = id
            · rw [hi, Function.update_self] at hv
              exact .inl ⟨hi, (Option.some.inj hv).symm⟩
            · rw [Function.update_of_ne hi] at hv
              exact .inr ⟨hi, hv⟩
          refine ⟨⟨⟨hinv.keyed, fun i v hv => ?_, hinv.sole⟩,
            ⟨fun _ _ hrecord _ => hrecord, trivial⟩, fun v hv => ⟨rfl, fun _ _ _ => rfl,
              fun i hi => ⟨?_, rfl⟩⟩⟩, hsome _ record ⟨ht, ?_, hrecord⟩ (hinv.keyed id record hrecord)⟩
          · rcases hlocks i v hv with ⟨rfl, -⟩ | ⟨-, hold⟩
            · exact fun hnone => Option.some_ne_none record (hrecord.symm.trans hnone)
            · exact hinv.locked i v hold
          · -- a lock of another call is on another row
            have hne : i ≠ id := by
              rintro rfl
              rcases hfree (by rw [hrecord]; exact Option.some_ne_none record) with hnone | hown
              · exact absurd (hi.symm.trans hnone) (Option.some_ne_none v)
              · exact hv (Option.some.inj (hi.symm.trans hown))
            exact (Function.update_of_ne hne _ _).trans hi
          · exact Function.update_self id (some w) t.locks

/-- **A commit** to a row that is not final, by a call whose attempt it is. -/
theorem fenced_commit {txn : ResolutionTransaction} {change : ResolutionChange}
    {Q : Unit → ResolutionStore W → Prop} (hP : P s) (hkeep : ∀ s t, KeepsClaim w s t → P s → P t)
    (hkeyed : change.Keyed)
    (hopen : ∀ t, P t → t.Accepts w change → ∀ record,
      t.records change.incidentId = some record → ¬ record.Final)
    (howns : ∀ t, P t → txn ≠ .claim → ∃ record, t.records change.incidentId = some record ∧
      t.attempts w = some (change.incidentId, record.attemptCount))
    (hdone : ∀ t, P t → t.Accepts w change → Q () (t.settle w txn change)) :
    FencedTo w (Resolving.commit txn change) Q s := by
  have hsettle : ∀ t, P t → SoleClaims t → ∀ r, Alone w (.commit txn change) t r →
      CommitReport.applied r = true → t.Accepts w change →
      SoleClaims (t.settle w txn change) ∧
        Fenced w (.commit txn change) t r (t.settle w txn change) ∧
        ∀ v, v ≠ w → KeepsClaim v t (t.settle w txn change) := by
    intro t ht hinv r halone happlied haccepts
    have hothers : ∀ v, v ≠ w → ∀ n, t.attempts v ≠ some (change.incidentId, n) := by
      intro v hv n hn
      by_cases htxn : txn = .claim
      · subst htxn
        exact halone happlied v hv n hn
      · obtain ⟨record, -, hmine⟩ := howns t ht htxn
        exact hv (hinv.sole v w _ _ _ hn hmine)
    refine ⟨hinv.settle hkeyed hothers, ⟨fun i record hrecord hfinal => ?_, ?_⟩,
      fun v hv => .settle hinv hv haccepts (hothers v hv)⟩
    · by_cases hi : i = change.incidentId
      · exact absurd hfinal (hopen t ht haccepts record (hi ▸ hrecord))
      · rw [records_settle, records_apply_of_ne hi]
        exact hrecord
    · exact fun htxn _ => howns t ht htxn
  refine fenced_call hP hkeep fun t ht hinv r halone hpermits => ?_
  cases r with
  | committed => exact ⟨hsettle t ht hinv _ halone rfl hpermits, hdone t ht hpermits⟩
  | failed e applied =>
      cases applied with
      | true => exact ⟨hsettle t ht hinv _ halone rfl hpermits, trivial⟩
      | false =>
          refine ⟨⟨hinv, ⟨fun _ _ hrecord _ => hrecord, ?_⟩, fun v _ => .refl v t⟩, trivial⟩
          exact fun _ happlied => absurd happlied Bool.false_ne_true

end

/-! ## The workflow -/

theorem Claimed.release (h : Claimed w i s) : Claimed w i (s.release w) := h

/-- A claim that took effect. -/
theorem claimed_settle {change : ResolutionChange}
    (h : ∃ record, (s.apply change).records change.incidentId = some record ∧ ¬ record.Final ∧
      change.attempt = (change.incidentId, record.attemptCount)) :
    Claimed w change.incidentId (s.settle w .claim change) := by
  obtain ⟨record, hrecord, hfinal, hattempt⟩ := h
  refine ⟨record, ?_, hfinal, ?_⟩
  · rw [records_settle]
    exact hrecord
  · rw [attempts_settle, if_pos rfl, Function.update_self, hattempt]

variable (wf : IncidentResolutionWorkflow) (event : IncidentCreatedEvent)

/-- **The claim** is made under the lock of a row that is not final, or adds the row. -/
theorem claim_fenced (hs : Unclaimed w s) : FencedTo w (wf.claim event)
    (fun out t => out.2 = 0 ∨ Claimed w event.incidentId t) s := by
  have hkeep : ∀ s t : ResolutionStore W, KeepsClaim w s t → Unclaimed w s → Unclaimed w t :=
    fun _ _ hst h => h.keep hst
  refine fenced_now hs hkeep fun t time ht => fenced_withSession ?_ ?_ ?_
  · exact fun _ _ _ hst h => h.imp_right fun h => h.keep hst
  · exact fun _ _ h => h
  refine fenced_getIncident ht hkeep fun t incident ht => ?_
  cases incident with
  | none => exact trivial
  | some incident =>
      refine fenced_lockRecord ht (fun t ht => ?_) fun t record ht hid => ?_
      · refine safe_bind.mpr (fenced_commit ht hkeep trivial
          (fun t _ haccepts record hrecord => ?_) (fun _ _ h => absurd rfl h) fun t _ _ => ?_)
        · exact absurd (hrecord.symm.trans haccepts.2) (Option.some_ne_none record)
        · exact .inr (claimed_settle ⟨_, Function.update_self _ _ _, by simp [Resolution.Final,
            IncidentResolutionWorkflow.newRecord], rfl⟩)
      · dsimp only
        by_cases hfinal : record.status ∈ ([.completed, .failed] : List AIResolutionStatus)
        · rw [if_pos hfinal]
          exact .inl rfl
        rw [if_neg hfinal]
        by_cases hcontended : record.status = .processing ∧ wf.contended event record time = true
        · rw [if_pos hcontended]
          exact trivial
        rw [if_neg hcontended]
        have hopen : ¬ record.Final := fun h => hfinal (by simpa [Resolution.Final] using h)
        refine safe_bind.mpr (fenced_commit ht (fun _ _ hst h => h.keep hst) rfl
          (fun t ht _ current hcurrent => ?_) (fun _ _ h => absurd rfl h) fun t ht _ => ?_)
        · have hsame : t.records record.incidentId = some record := hid ▸ ht.2.2
          rw [Option.some.inj (hcurrent.symm.trans hsame)]
          exact hopen
        · refine .inr (hid ▸ claimed_settle ⟨_, ?_, ?_, rfl⟩)
          · show Function.update t.records record.incidentId _ record.incidentId = _
            rw [Function.update_self, hid, ht.2.2, Option.map_some]
            exact congrArg some (Resolution.merge_loaded rfl)
          · simp [Resolution.Final, IncidentResolutionWorkflow.claimedRecord]

/-- **The outcome** is written to the attempt that was claimed. -/
theorem outcome_fenced {α : Type} {txn : ResolutionTransaction}
    (edit : Resolution → Timestamp → Resolution) {next : Resolving α}
    (hedit : ∀ record time, (edit record time).incidentId = record.incidentId)
    (hs : Claimed w i s) (hnext : ∀ t, FencedTo w next (fun _ _ => True) t) :
    FencedTo w (do
      let time ← Resolving.now
      Resolving.withSession do
        match ← Resolving.selectRecord i with
        | none => throw (retryableResolution "Resolution state disappeared")
        | some record => Resolving.commit txn (.update record (edit record time))
      next) (fun _ _ => True) s := by
  have hkeep : ∀ s t : ResolutionStore W, KeepsClaim w s t → Claimed w i s → Claimed w i t :=
    fun _ _ hst h => h.keep hst
  refine fenced_now hs hkeep fun t time ht => safe_bind.mpr ?_
  refine (fenced_withSession (Q := fun _ _ => True) (fun _ _ _ _ _ => trivial)
    (fun _ _ _ => trivial) ?_).mono (fun _ t _ => hnext t) fun _ _ _ => trivial
  refine fenced_selectRecord ht hkeep fun t ht hinv => ?_
  obtain ⟨record, hrecord, hfinal, hattempt⟩ := ht
  rw [hrecord]
  have hid : record.incidentId = i := hinv.keyed i record hrecord
  refine fenced_commit (P := fun t => t.records i = some record ∧
      t.attempts w = some (i, record.attemptCount)) ⟨hrecord, hattempt⟩ ?_
    (hedit record time) (fun t ht _ current hcurrent => ?_) (fun t ht _ => ?_)
    (fun _ _ _ => trivial)
  · rintro s t hst ⟨hrecord, hattempt⟩
    exact ⟨(hst.claimed i _ hattempt).trans hrecord, hst.attempt.trans hattempt⟩
  · have hsame : t.records record.incidentId = some record := hid ▸ ht.1
    rw [Option.some.inj (hcurrent.symm.trans hsame)]
    exact hfinal
  · show ∃ r, t.records record.incidentId = some r ∧
      t.attempts w = some (record.incidentId, r.attemptCount)
    rw [hid]
    exact ⟨record, ht.1, ht.2⟩

theorem complete_fenced (resolution : GeneratedResolution) (context : List RetrievedChunk)
    (hs : Claimed w event.incidentId s) :
    FencedTo w (IncidentResolutionWorkflow.complete event resolution context)
      (fun _ _ => True) s :=
  outcome_fenced (fun record time =>
    IncidentResolutionWorkflow.completedRecord record resolution context time)
    (fun _ _ => rfl) hs fun _ => trivial

theorem recordFailure_fenced (attempt : Nat) (error : ResolutionExc)
    (context : List RetrievedChunk) (canBeTerminal : Bool) (hs : Claimed w event.incidentId s) :
    FencedTo w (wf.recordFailure event attempt error context canBeTerminal)
      (fun _ _ => True) s := by
  refine outcome_fenced (fun record time =>
    IncidentResolutionWorkflow.failedRecord record _ error.message context time)
    (fun _ _ => rfl) hs fun t => ?_
  split <;> exact trivial

variable [Runtime]

/-- Retrieving and generating touch no row. -/
theorem attemptResolution_fenced (incident : Incident) (hs : Claimed w i s) :
    FencedTo w (wf.attemptResolution incident) (fun _ => Claimed w i) s := by
  have hattempt : ∀ {α : Type} {A : ResolutionOp → Prop} {p : Resolving α}, p.Only A →
      (Resolving.attempt p).Only A :=
    fun hp => Only.tryCatch (Only.bind hp fun _ => only_ret _) fun _ => only_ret _
  have hraising : ∀ {α : Type} {A : ResolutionOp → Prop} (x : Except PyExc α),
      (Resolving.raising x).Only A := by
    intro α A x
    cases x <;> exact trivial
  have honly : (wf.attemptResolution incident).Only fun o =>
      (∃ incident, o = .retrieve incident) ∨ ∃ prompt, o = .generateStructured prompt := by
    refine Only.bind (hattempt ⟨.inl ⟨_, rfl⟩, hraising⟩) fun found => ?_
    cases found with
    | error e => exact trivial
    | ok context =>
        refine Only.bind (hattempt ?_) fun generated => ?_
        · unfold IncidentResolutionWorkflow.generate
          split
          · exact trivial
          · exact Only.bind ⟨.inr ⟨_, rfl⟩, hraising⟩ fun _ =>
              Only.bind (only_answer _) fun _ => only_ret _
        · cases generated <;> exact trivial
  refine (Safe.of_only (P := Claimed w i) honly ?_ hs).mono (fun _ _ h => h) fun _ _ _ => trivial
  rintro o ho s t r _ hs hst hinv ⟨-, -, rfl⟩
  rcases ho with ⟨incident, rfl⟩ | ⟨prompt, rfl⟩
  · exact ⟨⟨hinv, ⟨fun _ _ h _ => h, trivial⟩, fun v _ => .refl v t⟩, hs.keep hst⟩
  · exact ⟨⟨hinv, ⟨fun _ _ h _ => h, trivial⟩, fun v _ => .refl v t⟩, hs.keep hst⟩

/-- **A call of `resolve`**, from its claim to its end. -/
theorem calls_fenced (hs : Unclaimed w s) :
    FencedTo w (wf.calls event) (fun _ _ => True) s := by
  have hresolve : FencedTo w (wf.resolve event) (fun _ _ => True) s := by
    refine safe_bind.mpr ((claim_fenced wf event hs).mono (fun out t ht => ?_) fun _ _ _ => trivial)
    obtain ⟨incident, attempt⟩ := out
    dsimp only
    by_cases hzero : attempt = 0
    · rw [if_pos hzero]
      refine fenced_withSession (fun _ _ _ _ _ => trivial) (fun _ _ _ => trivial) ?_
      refine fenced_selectRecord (P := fun _ => True) trivial (fun _ _ _ _ => trivial)
        fun t _ _ => ?_
      cases t.records event.incidentId with
      | none => exact trivial
      | some record =>
          dsimp only
          split <;> exact trivial
    · rw [if_neg hzero]
      have hclaimed : Claimed w event.incidentId t := ht.resolve_left hzero
      refine safe_bind.mpr ((attemptResolution_fenced wf incident hclaimed).mono
        (fun generated t ht => ?_) fun _ _ _ => trivial)
      cases generated with
      | resolved context resolution => exact complete_fenced event resolution context ht
      | failed context e =>
          dsimp only
          split
          · exact recordFailure_fenced wf event attempt e context false ht
          split
          · exact recordFailure_fenced wf event attempt e context true ht
          · exact trivial
  have hended : ∀ t, (call .ended ret : Resolving Unit).Safe fencing w (fun _ _ => True)
      (fun _ _ => True) t := by
    intro t
    refine fenced_call (P := fun _ => True) trivial (fun _ _ _ _ => trivial)
      fun u _ hinv _ _ _ => ⟨⟨hinv.ended w, ⟨fun _ _ h _ => h, trivial⟩, fun v hv => ?_⟩, trivial⟩
    exact .ended hv.symm u
  exact safe_andFinally (hresolve.mono (fun _ t _ => hended t) fun _ t _ => hended t)

end

/-! ## Runs -/

section
variable {W : Type} [DecidableEq W] [Runtime] (wf : IncidentResolutionWorkflow)
  (event : W → IncidentCreatedEvent) (db : Database)

omit [DecidableEq W] [Runtime] in
theorem soleClaims_start : SoleClaims (ResolutionStore.start db : ResolutionStore W) where
  keyed i record h := by
    simpa using List.find?_some (show db.resolutions.find? (fun r => r.incidentId = i) = _ from h)
  locked _ _ h := nomatch h
  sole _ _ _ _ _ h := nomatch h

/-- **Resolutions are fenced** in every run in which each claim is made alone: a row that is
completed or failed stays as it is, and no call writes an outcome to an attempt that is not its
own. -/
theorem resolve_fenced {p : Pool ResolutionResp ResolutionExc ResolutionWorkflowOutcome W
      (ResolutionStore W)}
    (hp : Pool.Reachable (resolutionSystem.restrict Alone) (fun w => wf.calls (event w))
      (.start db) p) :
    (∀ p' w o r, Pool.Step (resolutionSystem.restrict Alone) p (.act w o r) p' →
      Fenced w o p.world r p'.world) ∧
    ∀ p', Relation.ReflTransGen (Pool.Next (resolutionSystem.restrict Alone)) p p' →
      ∀ i record, p.world.records i = some record → record.Final →
        p'.world.records i = some record := by
  have hmain : ∀ w, (wf.calls (event w)).Safe fencing w (fun _ _ => True) (fun _ _ => True)
      (.start db) := fun w => calls_fenced wf (event w) rfl
  refine ⟨fun p' w o r hs => (hp.guar (soleClaims_start db) hmain hs).1, ?_⟩
  intro p' hrun i record hrecord hfinal
  refine hp.stable (soleClaims_start db) hmain (P := fun s => s.records i = some record) ?_ ?_
    hrun hrecord
  · exact fun w o s r s' hg hs => hg.1.final i record hs hfinal
  · exact fun _ _ hs => hs

end

/-! ## Concrete runs -/

section
variable {W : Type} [DecidableEq W]

/-- Whether a statement can be answered so. -/
def decideFindsRow {α : Type} [DecidableEq α] (value : α) (r : Except PyExc α) :
    Decidable (FindsRow value r) :=
  match r with
  | .ok a => inferInstanceAs (Decidable (a = value))
  | .error _ => isTrue trivial

instance (w : W) (s : ResolutionStore W) :
    (o : ResolutionOp) → DecidablePred (resolutionPermits w s o)
  | .getIncident id => decideFindsRow (s.incidents id)
  | .lockRecord id => fun r =>
      have := decideFindsRow (s.records id) r
      inferInstanceAs (Decidable (_ ∧ (s.records id ≠ none → s.Free w id)))
  | .selectRecord id => decideFindsRow (s.records id)
  | .commit _ change => fun r => match r with
      | .committed | .failed _ true => inferInstanceAs (Decidable (s.Accepts w change))
      | .failed _ false => isTrue trivial
  | .now | .closeSession | .retrieve _ | .generateStructured _ | .ended => fun _ => isTrue trivial

/-- The calls as they are run. -/
def resolutionCalls : Runnable ResolutionResp W (ResolutionStore W) where
  permits w s o r := decide (resolutionPermits w s o r)
  after := resolutionAfter
  abort := resolutionSystem.abort

theorem resolutionCalls_system : (resolutionCalls (W := W)).system = resolutionSystem := by
  simp [Runnable.system, resolutionCalls, resolutionSystem]

instance [Fintype W] (w : W) (s : ResolutionStore W) :
    (o : ResolutionOp) → DecidablePred (Alone w o s)
  | .commit .claim change => fun r => decidable_of_iff (CommitReport.applied r = true →
        ∀ v, v ≠ w → ∀ attempt ∈ s.attempts v, attempt.1 ≠ change.incidentId) <|
      forall₃_congr fun _ _ _ => ⟨fun h _ hn => h _ hn rfl, fun h attempt hattempt heq =>
        h attempt.2 (hattempt.trans (congrArg (fun i => some (i, attempt.2)) heq))⟩
  | .commit .completion _ | .commit .failure _ => fun _ => isTrue trivial
  | .now | .getIncident _ | .lockRecord _ | .selectRecord _ | .closeSession | .retrieve _
  | .generateStructured _ | .ended => fun _ => isTrue trivial

/-- The calls as they are run, every claim being made alone. -/
def aloneCalls [Fintype W] : Runnable ResolutionResp W (ResolutionStore W) where
  permits w s o r := decide (Alone w o s r ∧ resolutionPermits w s o r)
  after := resolutionAfter
  abort := resolutionSystem.abort

theorem aloneCalls_system [Fintype W] :
    (aloneCalls (W := W)).system = resolutionSystem.restrict Alone := by
  simp [Runnable.system, aloneCalls, resolutionSystem, System.restrict, and_assoc]

/-- The answers at a time, with one chunk in the knowledge base and this answer of the model. -/
def resolutionAnswer (time : Timestamp) (reply : Except PyExc GeneratedResolution) :
    (o : ResolutionOp) → ResolutionStore W → ResolutionResp o
  | .now, _ => time
  | .getIncident id, s => Except.ok (s.incidents id)
  | .lockRecord id, s | .selectRecord id, s => Except.ok (s.records id)
  | .commit _ _, _ => .committed
  | .closeSession, _ | .ended, _ => ()
  | .retrieve _, _ => Except.ok [⟨3, "api-timeouts", "Timeouts", "http", "Raise the limit.", 1⟩]
  | .generateStructured _, _ => reply

end

/-- An incident. -/
def timedOutIncident : Incident where
  id := 1
  service := "api"
  error := "timeout"
  log := []
  requestedSeverity := none
  resolvedSeverity := .high
  classification := .timeoutError
  probableCause := "slow"
  recommendedActions := []
  createdAt := 0

/-- A database with that incident. -/
def timedOutTables : Database := ⟨[timedOutIncident], [], [], [], [], [], []⟩

theorem timedOutEvent_service : 1 ≤ ("api" : Text).length ∧ ("api" : Text).length ≤ 100 := by decide

/-- An event of that incident. -/
def timedOutEvent (eventId : Uuid) : IncidentCreatedEvent where
  eventId := eventId
  occurredAt := 0
  incidentId := 1
  service := "api"
  classification := .timeoutError
  severity := .high
  occurredAt_mem := Timestamp.epoch_inCalendar
  incidentId_pos := Int.one_pos
  service_length := timedOutEvent_service

theorem citedChunk_pos : 0 < (3 : Int) := by decide

/-- A resolution that cites the chunk. -/
def raisedLimit : GeneratedResolution where
  summary := ⟨"s", by decide⟩
  rootCause := ⟨"c", by decide⟩
  recommendedActions := ⟨[⟨"a", by decide⟩], by decide⟩
  confidence := ⟨1, by decide⟩
  citedSources := ⟨[⟨⟨"api-timeouts", by decide⟩, ⟨3, citedChunk_pos⟩⟩], by decide⟩

/-- A workflow whose claims go stale after a while. -/
def staleWorkflow : IncidentResolutionWorkflow := ⟨3, 300, "ollama", "m", "ollama", "e", "\x7b\x7d"⟩

/-- A call claims, a second one takes over when the claim is stale and completes, and then the
first one gives up. -/
def overtaken : List (Turn ResolutionResp Bool (ResolutionStore Bool)) :=
  [.calls false 6 (resolutionAnswer 0 (.ok raisedLimit)),
    .calls true 12 (resolutionAnswer 1000 (.ok raisedLimit))]

def givesUp : List (Turn ResolutionResp Bool (ResolutionStore Bool)) :=
  [.calls false 4 (resolutionAnswer 2000 (.error ⟨.providerUnavailableError, "timed out"⟩))]

/-- **A superseded call reopens what was completed**: it writes a failure of attempt 1 to the row
that attempt 2 has completed. -/
theorem superseded_call_reopens :
    ∃ p p' : Pool ResolutionResp ResolutionExc ResolutionWorkflowOutcome Bool (ResolutionStore Bool),
      Pool.Reachable resolutionSystem
        (fun w => staleWorkflow.calls (timedOutEvent (if w then 1 else 0)))
        (.start timedOutTables) p ∧
      Relation.ReflTransGen (Pool.Next resolutionSystem) p p' ∧
      p.world.attempts false = some (1, 1) ∧
      (p.world.records 1).map (fun r => (r.status, r.attemptCount)) = some (.completed, 2) ∧
      (p'.world.records 1).map (fun r => (r.status, r.attemptCount)) = some (.retryable, 2) := by
  have hrun : (Pool.replay resolutionCalls overtaken ⟨.start timedOutTables, fun w =>
      some (staleWorkflow.calls (timedOutEvent (if w then 1 else 0)))⟩).any (fun p =>
        (Pool.replay resolutionCalls givesUp p).any fun p' => decide (
          p.world.attempts false = some (1, 1) ∧
          (p.world.records 1).map (fun r => (r.status, r.attemptCount)) = some (.completed, 2) ∧
          (p'.world.records 1).map (fun r => (r.status, r.attemptCount)) =
            some (.retryable, 2))) = true := by
    decide +kernel
  obtain ⟨p, p', hp, hp', hP⟩ := Pool.exists_replays hrun
  rw [resolutionCalls_system] at hp hp'
  exact ⟨p, p', hp, hp', of_decide_eq_true hP⟩

/-- The events of three calls for one incident. -/
def callerEvent : Fin 3 → IncidentCreatedEvent
  | 0 => timedOutEvent 0
  | 1 => timedOutEvent 1
  | 2 => timedOutEvent 2

/-- A call claims and crashes, and a second one claims the incident again when the first claim is
stale. -/
def reclaims : List (Turn ResolutionResp (Fin 3) (ResolutionStore (Fin 3))) :=
  [.calls 0 6 (resolutionAnswer 0 (.ok raisedLimit)), .crash 0,
    .calls 1 6 (resolutionAnswer 1000 (.ok raisedLimit))]

def completes : List (Turn ResolutionResp (Fin 3) (ResolutionStore (Fin 3))) :=
  [.calls 1 6 (resolutionAnswer 1000 (.ok raisedLimit))]

/-- The call that claims attempt 2 after a crash is fenced when it writes, and what it completes
stays, whatever a third call does. -/
theorem resolve_fenced_reclaimed :
    ∃ p p' : Pool ResolutionResp ResolutionExc ResolutionWorkflowOutcome (Fin 3)
        (ResolutionStore (Fin 3)),
      p.world.attempts 0 = none ∧ p.world.attempts 1 = some (1, 2) ∧
      (∀ q w o r, Pool.Step (resolutionSystem.restrict Alone) p (.act w o r) q →
        Fenced w o p.world r q.world) ∧
      Relation.ReflTransGen (Pool.Next (resolutionSystem.restrict Alone)) p p' ∧
      ∃ record, p'.world.records 1 = some record ∧ record.status = .completed ∧
        record.attemptCount = 2 ∧
        ∀ q, Relation.ReflTransGen (Pool.Next (resolutionSystem.restrict Alone)) p' q →
          q.world.records 1 = some record := by
  have hrun : (Pool.replay aloneCalls reclaims ⟨.start timedOutTables, fun w =>
      some (staleWorkflow.calls (callerEvent w))⟩).any (fun p =>
        (Pool.replay aloneCalls completes p).any fun p' =>
          decide (p.world.attempts 0 = none ∧ p.world.attempts 1 = some (1, 2)) &&
            (p'.world.records 1).any fun r =>
              decide (r.status = .completed ∧ r.attemptCount = 2)) = true := by
    decide +kernel
  obtain ⟨p, p', hp, hp', hP⟩ := Pool.exists_replays hrun
  rw [aloneCalls_system] at hp hp'
  obtain ⟨hclaims, hcompletes⟩ := Bool.and_eq_true_iff.mp hP
  obtain ⟨hcrashed, hclaimed⟩ := of_decide_eq_true hclaims
  obtain ⟨record, hrecord, hstatus⟩ := (Option.any_eq_true _ _).mp hcompletes
  obtain ⟨hcompleted, hcount⟩ := of_decide_eq_true hstatus
  have hfenced := resolve_fenced staleWorkflow callerEvent timedOutTables hp
  have hkept := resolve_fenced staleWorkflow callerEvent timedOutTables
    (hp.run hp')
  exact ⟨p, p', hcrashed, hclaimed, hfenced.1, hp', record, hrecord, hcompleted, hcount,
    fun q hq => hkept.2 q hq 1 record hrecord (.inl hcompleted)⟩

end SupportPlatform

