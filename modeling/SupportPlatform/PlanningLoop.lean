import SupportPlatform.WorkflowCalls
import SupportPlatform.Metering

/-! # The planning loop ends

The loop of `_resolve` has no counter of its own.  What ends it is that a round that goes on
either records a succeeded tool call, of which there can be `max_tool_calls`, and resets the
repairs, or uses one of `repair_attempts` repairs (`Advances`).  So `roundsLeft` goes down
with every round, whatever the planner, the resolver and the tools answer.

The model calls are metered: a round asks the planner once, and only a round that ends the
loop asks the resolver, for the first attempt and for each repair.  The same meter shows that the
rounds end before the fuel is spent (`rounds_metered`).
-/
namespace SupportPlatform
open Program ControlledAgentWorkflow

/-- The planner is asked. -/
def isPlannerCall : Op → Bool
  | .chat _ .agentFinalResponse => false
  | .chat _ _ => true
  | _ => false

/-- The resolver is asked. -/
def isResolverCall : Op → Bool
  | .chat _ .agentFinalResponse => true
  | _ => false

/-- A supply of model calls. -/
structure ModelCalls where
  planner : Nat
  resolver : Nat

/-- A call of a model is taken from its supply. -/
def spendModelCall (o : Op) (s : ModelCalls) : Option ModelCalls :=
  if isPlannerCall o then
    if s.planner = 0 then none else some { s with planner := s.planner - 1 }
  else if isResolverCall o then
    if s.resolver = 0 then none else some { s with resolver := s.resolver - 1 }
  else some s

/-- A call that asks no model. -/
def Offline (o : Op) : Prop := ∀ s, spendModelCall o s = some s

theorem spent_le {calls : List Op} : ∀ {s s' : ModelCalls},
    calls.foldlM (fun s o => spendModelCall o s) s = some s' →
      calls.countP isPlannerCall + s'.planner = s.planner ∧
        calls.countP isResolverCall + s'.resolver = s.resolver := by
  induction calls with
  | nil =>
      intro s s' h
      cases h
      simp
  | cons o calls ih =>
      intro s s' h
      rw [List.foldlM_cons] at h
      obtain ⟨t, ht, h⟩ := Option.bind_eq_some_iff.mp h
      obtain ⟨hp, hr⟩ := ih h
      rw [List.countP_cons, List.countP_cons]
      unfold spendModelCall at ht
      cases hplan : isPlannerCall o with
      | true =>
          have hres : isResolverCall o = false := by
            cases o with
            | chat prompt model => cases model <;> first | rfl | cases hplan
            | _ => rfl
          rw [hplan, if_pos rfl] at ht
          split at ht
          · cases ht
          · cases ht
            dsimp only at hp hr
            exact ⟨by simp only [if_true]; omega, by simp [hres]; omega⟩
      | false =>
          rw [hplan, if_neg Bool.false_ne_true] at ht
          cases hres : isResolverCall o with
          | true =>
              rw [hres, if_pos rfl] at ht
              split at ht
              · cases ht
              · cases ht
                dsimp only at hp hr
                exact ⟨by simp; omega, by simp only [if_true]; omega⟩
          | false =>
              rw [hres, if_neg Bool.false_ne_true] at ht
              cases ht
              exact ⟨by simpa using hp, by simpa using hr⟩

section
variable [Runtime] [Pydantic] {x : Uuid}

/-! ## What asks no model -/

/-- A program that asks no model, with what its result is known to be. -/
abbrev OfflineProgram {α : Type} (p : Py α) (Q : α → Prop) : Prop := Uses Offline p Q

omit [Runtime] [Pydantic] in
theorem offline_housekeeping : Housekeeping Offline where
  now _ := rfl
  perfCounter _ _ := rfl
  execution _ _ := rfl
  steps _ _ := rfl
  step _ _ _ := rfl
  resolutionOf _ _ := rfl
  flush _ _ := rfl
  commit _ _ _ := rfl
  closeSession _ := rfl
  render _ _ _ := rfl
  toolTimedOut _ := rfl

omit [Runtime] [Pydantic] in
theorem offline_bookkeeping : Bookkeeping Offline := offline_housekeeping.bookkeeping

variable (wf : ControlledAgentWorkflow)

/-- Running a request asks no model, and a tool runs below the budget only. -/
theorem runRequest_offline (event : IncidentCreatedEvent) (request : ToolRequest)
    (st : LoopState) :
    OfflineProgram (wf.runRequest event request st)
      fun out => ∀ result, out = .ok result → st.toolCalls < wf.limits.maxToolCalls :=
  runRequest_uses offline_bookkeeping wf (fun _ _ => rfl) (fun _ _ _ _ => rfl) event request st

/-! ## A round -/

/-- **A round that goes on** uses up a repair attempt, or a tool call. -/
inductive Advances (limits : AgentLimits) (st st' : LoopState) : Prop
  | retry (toolCalls : st'.toolCalls = st.toolCalls)
      (repairCount : st'.repairCount = st.repairCount + 1)
      (left : st'.repairCount ≤ limits.repairAttempts)
      (steps : st.steps.length ≤ st'.steps.length)
  | success (below : st.toolCalls < limits.maxToolCalls)
      (toolCalls : st'.toolCalls = st.toolCalls + 1)
      (repairCount : st'.repairCount = 0)
      (steps : st.steps.length < st'.steps.length)

variable {wf}

omit [Pydantic] in
theorem reject_offline {decision : PlannerDecision} {request : Option ToolRequest}
    {outcome : StepOutcome} {lastError exhausted : Text} {st : LoopState} :
    OfflineProgram (wf.reject x decision request outcome lastError exhausted st)
      (Advances wf.limits st) := by
  refine (reject_uses offline_bookkeeping wf _ _ _ _ _ _).mono (fun st' h => ?_) fun _ h => h
  exact .retry h.2.1 h.2.2.1 h.2.2.2 (h.1.ge.trans' (Nat.le_succ _))

theorem toolTurn_offline (event : IncidentCreatedEvent) (decision : PlannerDecision)
    (request : ToolRequest) (st : LoopState) :
    OfflineProgram (wf.toolTurn x event decision request st) (Advances wf.limits st) := by
  unfold toolTurn
  split
  · exact reject_offline
  · refine (setStatus_uses offline_bookkeeping _).bind fun _ _ => (runRequest_offline wf event request st).bind
      fun out hout => ?_
    cases out with
    | error exc =>
        exact reject_offline.bind fun st' hst' => (setStatus_uses offline_bookkeeping _).bind fun _ _ => hst'
    | ok result =>
        refine (persistToolStep_uses offline_bookkeeping (offline_housekeeping.flush _)).bind
          fun record _ => ?_
        exact .success (hout result rfl) rfl rfl (by simp [LoopState.record])

/-! ## The metered part -/

/-- What is left after the planner was asked. -/
def ModelCalls.askPlanner (s : ModelCalls) : ModelCalls := { s with planner := s.planner - 1 }

/-- What is left after the resolver was asked. -/
def ModelCalls.askResolver (s : ModelCalls) : ModelCalls := { s with resolver := s.resolver - 1 }

omit [Runtime] [Pydantic] in
theorem spend_planner {s : ModelCalls} (h : 0 < s.planner) (prompt : Text) {model : ResponseModel}
    (hm : model ≠ .agentFinalResponse) :
    spendModelCall (.chat prompt model) s = some s.askPlanner := by
  have hcall : isPlannerCall (.chat prompt model) = true := by
    cases model <;> first | rfl | exact absurd rfl hm
  simp [spendModelCall, hcall, ModelCalls.askPlanner, h.ne']

omit [Runtime] [Pydantic] in
theorem spend_resolver {s : ModelCalls} (h : 0 < s.resolver) (prompt : Text) :
    spendModelCall (.chat prompt .agentFinalResponse) s = some s.askResolver := by
  simp [spendModelCall, isPlannerCall, isResolverCall, ModelCalls.askResolver, h.ne']

variable {s : ModelCalls}

/-- A model call is taken from the supply once. -/
theorem modelCall_metered {s' : ModelCalls} {prompt : Text} {model : ResponseModel}
    (h : spendModelCall (.chat prompt model) s = some s') :
    (modelCall x prompt model).Metered spendModelCall (fun _ t => t = s') (fun _ t => t = s') s := by
  refine ⟨s, rfl, fun started => ⟨s', h, fun reply => ?_⟩⟩
  refine (Metered.of_conforms (Conforms.bind (perfCounterSince_uses offline_bookkeeping started) fun elapsed _ =>
    Conforms.bind (recordModelCall_uses offline_bookkeeping (elapsed * 1000) _ _ _) fun _ _ =>
      answer_uses _)).mono (fun _ _ ht => ht.2) fun _ _ ht => ht.2

theorem plan_metered (h : 0 < s.planner) (prompt : Text) (required : Option Text) :
    (plan x prompt required).Metered spendModelCall (fun _ t => t = s.askPlanner)
      (fun _ t => t = s.askPlanner) s := by
  have hanswer : ∀ (r : Except PyExc PlannerDecision) (t : ModelCalls), t = s.askPlanner →
      (answer r : Py PlannerDecision).Metered spendModelCall (fun _ t => t = s.askPlanner)
        (fun _ t => t = s.askPlanner) t :=
    fun r t ht => metered_answer.mpr ⟨fun _ _ => ht, fun _ _ => ht⟩
  unfold plan
  split
  · exact (modelCall_metered (spend_planner h prompt (by decide))).bind fun raw t => hanswer _ t
  · split
    · exact (modelCall_metered (spend_planner h prompt (by decide))).bind fun raw t => hanswer _ t
    · exact modelCall_metered (spend_planner h prompt (by decide))

/-- The planning of a round asks the planner once; without a decision the round goes on, and
after a failure that is not repaired the decision is final. -/
theorem nextDecision_metered (h : 0 < s.planner) (event : IncidentCreatedEvent) (st : LoopState) :
    (wf.nextDecision x event st).Metered spendModelCall
      (fun out t => t = s.askPlanner ∧ (out.2 = none → Advances wf.limits st out.1) ∧
        ∀ d, out.2 = some d → out.1 = st ∨
          d.nextAction = .final ∧ missingRequiredEvidence out.1.steps = [])
      (fun _ _ => True) s := by
  refine (Metered.of_conforms (buildPlannerPrompt_uses wf
    (fun _ _ => offline_housekeeping.render _ _) event st.steps st.lastError _)).mono
    (fun _ _ h => h) (fun _ _ _ => trivial) |>.bind fun prompt t ht => ?_
  obtain rfl := ht.2
  refine Metered.tryCatch (Y := fun _ u => u = t.askPlanner)
    ((plan_metered h prompt _).bind fun d u hu => ⟨hu, nofun, fun _ _ => .inl rfl⟩) fun e u hu => ?_
  dsimp only
  split
  · split
    · rename_i hleft
      exact ⟨hu, fun _ => .retry rfl rfl hleft le_rfl, nofun⟩
    · split
      · trivial
      · rename_i hstop
        refine ⟨hu, nofun, fun d hd => .inr ?_⟩
        cases hd
        exact ⟨rfl, not_not.mp (not_or.mp hstop).1⟩
  · trivial

theorem attemptFinal_metered (actualTools : List Text) (references : List EvidenceReference) :
    ∀ (attempts : Nat) (prompt detail : Text) (s : ModelCalls), attempts ≤ s.resolver →
      (attemptFinal x actualTools references attempts prompt detail).Metered spendModelCall
        (fun _ _ => True) (fun _ _ => True) s
  | 0, _, _, _, _ => trivial
  | attempts + 1, prompt, _, s, h => by
      have htry : (tryFinal x actualTools references prompt).Metered spendModelCall
          (fun _ t => t = s.askResolver) (fun _ _ => True) s := by
        refine Metered.tryCatch (Y := fun _ t => t = s.askResolver)
          ((modelCall_metered (spend_resolver (by omega) prompt)).bind fun final t ht =>
            Metered.bind (Q := fun _ t => t = s.askResolver)
              (metered_answer.mpr ⟨fun _ _ => ht, fun _ _ => ht⟩) fun _ _ hu => hu)
          fun e t ht => ?_
        split
        · exact ht
        · trivial
      refine htry.bind fun out t ht => ?_
      cases out with
      | ok final => trivial
      | error e =>
          refine attemptFinal_metered actualTools references attempts _ _ t ?_
          rw [ht]
          exact Nat.le_sub_of_add_le h

/-- A final turn asks the resolver only where it ends the loop. -/
theorem finalTurn_metered (hr : wf.limits.repairAttempts + 1 ≤ s.resolver)
    (event : IncidentCreatedEvent) (decision : PlannerDecision) (st : LoopState) :
    (wf.finalTurn x event decision st).Metered spendModelCall
      (fun out t => ∀ st', out = some st' →
        missingRequiredEvidence st.steps ≠ [] ∧ Advances wf.limits st st' ∧ t = s)
      (fun _ _ => True) s := by
  unfold finalTurn
  dsimp only
  split
  · rename_i hmissing
    refine ((Metered.of_conforms reject_offline).mono (fun _ _ h => h) fun _ _ _ => trivial).bind
      fun st' t ht => ?_
    intro st'' h
    cases h
    exact ⟨hmissing, ht⟩
  · have hgenerate : (wf.generateFinal x event st.steps st.results).Metered spendModelCall
        (fun _ _ => True) (fun _ _ => True) s := by
      refine ((Metered.of_conforms (renderPrompt_uses (offline_housekeeping.render _ _))).mono (fun _ _ h => h)
        fun _ _ _ => trivial).bind fun prompt t ht => ?_
      exact attemptFinal_metered _ _ _ _ _ t (ht.2 ▸ hr)
    refine hgenerate.bind fun final t _ => ?_
    have hpersist : OfflineProgram
        (wf.persistFinal x event decision final st.steps st.results) fun _ => True :=
      persistFinal_uses offline_bookkeeping wf event fun _ _ _ _ _ => offline_housekeeping.commit _ _
    refine ((Metered.of_conforms hpersist).mono (fun _ _ h => h) fun _ _ _ => trivial).bind
      fun _ _ _ => ?_
    exact fun _ h => nomatch h

/-- **A round** asks the planner once.  Where it goes on it advances, has not asked the
resolver, and began below the step budget. -/
theorem round_metered (hp : 0 < s.planner) (hr : wf.limits.repairAttempts + 1 ≤ s.resolver)
    (event : IncidentCreatedEvent) (started : Rat) (st : LoopState) :
    (wf.round x event started st).Metered spendModelCall
      (fun out t => ∀ st', out = some st' → st.steps.length < wf.limits.maxSteps ∧
        Advances wf.limits st st' ∧ t = s.askPlanner)
      (fun _ _ => True) s := by
  refine ((Metered.of_conforms (checkBudgets_uses offline_bookkeeping wf started st.steps.length)).mono
    (fun _ _ h => h) fun _ _ _ => trivial).bind fun _ t ht => ?_
  obtain ⟨hsteps, rfl⟩ := ht
  refine (nextDecision_metered hp event st).bind fun out t hout => ?_
  obtain ⟨st₁, decision⟩ := out
  obtain ⟨rfl, hnone, hsome⟩ := hout
  cases decision with
  | none =>
      intro st' h
      cases h
      exact ⟨hsteps, hnone rfl, rfl⟩
  | some d =>
      dsimp only at hsome ⊢
      cases hd : d.nextAction with
      | tool name arguments =>
          -- a decision for a tool is the planner's own
          have hst : st₁ = st := by
            rcases hsome d rfl with h | ⟨h, -⟩
            · exact h
            · rw [hd] at h
              cases h
          subst hst
          refine ((Metered.of_conforms (toolTurn_offline event d ⟨name, arguments⟩ st₁)).mono
            (fun _ _ h => h) fun _ _ _ => trivial).bind fun st' t ht => ?_
          intro st'' h
          cases h
          exact ⟨hsteps, ht⟩
      | final =>
          have hfinal := finalTurn_metered (s := t.askPlanner) (x := x) hr event d st₁
          refine Metered.mono hfinal ?_ fun _ _ _ => trivial
          intro out t hout st' h
          obtain ⟨hmissing, hadvances, ht⟩ := hout st' h
          rcases hsome d rfl with hst | ⟨-, hnil⟩
          · exact ⟨hsteps, hst ▸ hadvances, ht⟩
          · exact absurd hnil hmissing

/-! ## The loop -/

/-- How many rounds there can be, with room for so many succeeded tool calls. -/
def roundsLeft (limits : AgentLimits) (room : Nat) (st : LoopState) : Nat :=
  room * (limits.repairAttempts + 1) + (limits.repairAttempts + 1 - st.repairCount)

/-- The rounds that are left by the tool budget and by the step budget. -/
def toolRounds (limits : AgentLimits) (st : LoopState) : Nat :=
  roundsLeft limits (limits.maxToolCalls - st.toolCalls) st

def stepRounds (limits : AgentLimits) (st : LoopState) : Nat :=
  roundsLeft limits (limits.maxSteps - st.steps.length) st

section
omit [Runtime] [Pydantic]

theorem Advances.repairCount_le {limits : AgentLimits} {st st' : LoopState}
    (h : Advances limits st st') : st'.repairCount ≤ limits.repairAttempts := by
  cases h with
  | retry _ _ left _ => exact left
  | success _ _ repairCount _ => omega

theorem roundsLeft_retry {limits : AgentLimits} {st st' : LoopState} {room room' : Nat}
    (hroom : room' ≤ room) (hrepair : st'.repairCount = st.repairCount + 1)
    (hleft : st'.repairCount ≤ limits.repairAttempts) :
    roundsLeft limits room' st' < roundsLeft limits room st := by
  have := Nat.mul_le_mul_right (limits.repairAttempts + 1) hroom
  simp only [roundsLeft]
  omega

theorem roundsLeft_success {limits : AgentLimits} {st st' : LoopState} {room room' : Nat}
    (hroom : room' < room) (hrepair : st'.repairCount = 0)
    (hleft : st.repairCount ≤ limits.repairAttempts) :
    roundsLeft limits room' st' < roundsLeft limits room st := by
  have := Nat.mul_le_mul_right (limits.repairAttempts + 1) (Nat.succ_le_of_lt hroom)
  rw [Nat.succ_mul] at this
  simp only [roundsLeft]
  omega

theorem Advances.toolRounds_lt {limits : AgentLimits} {st st' : LoopState}
    (h : Advances limits st st') (hleft : st.repairCount ≤ limits.repairAttempts) :
    toolRounds limits st' < toolRounds limits st := by
  cases h with
  | retry toolCalls repairCount left _ =>
      exact roundsLeft_retry (by rw [toolCalls]) repairCount left
  | success below toolCalls repairCount _ =>
      exact roundsLeft_success (by omega) repairCount hleft

theorem Advances.stepRounds_lt {limits : AgentLimits} {st st' : LoopState}
    (h : Advances limits st st') (hsteps : st.steps.length < limits.maxSteps)
    (hleft : st.repairCount ≤ limits.repairAttempts) :
    stepRounds limits st' < stepRounds limits st := by
  cases h with
  | retry _ repairCount left steps => exact roundsLeft_retry (by omega) repairCount left
  | success _ _ repairCount steps => exact roundsLeft_success (by omega) repairCount hleft

theorem roundsLeft_pos {limits : AgentLimits} {st : LoopState} {room : Nat}
    (h : st.repairCount ≤ limits.repairAttempts) : 0 < roundsLeft limits room st := by
  simp only [roundsLeft]
  omega

end

/-- A count of the rounds that are left goes down with every round that goes on. -/
structure CountsRounds (limits : AgentLimits) (left : LoopState → Nat) : Prop where
  pos : ∀ st, st.repairCount ≤ limits.repairAttempts → 0 < left st
  lt : ∀ st st', Advances limits st st' → st.steps.length < limits.maxSteps →
    st.repairCount ≤ limits.repairAttempts → left st' < left st

omit [Runtime] [Pydantic] in
theorem countsRounds_tool (limits : AgentLimits) : CountsRounds limits (toolRounds limits) where
  pos _ h := roundsLeft_pos h
  lt _ _ h _ hrepair := h.toolRounds_lt hrepair

omit [Runtime] [Pydantic] in
theorem countsRounds_step (limits : AgentLimits) : CountsRounds limits (stepRounds limits) where
  pos _ h := roundsLeft_pos h
  lt _ _ h hsteps hrepair := h.stepRounds_lt hsteps hrepair

/-- **The model calls of the loop.** -/
theorem loop_metered (event : IncidentCreatedEvent) (started : Rat) :
    ∀ (fuel : Nat) (st : LoopState) (s : ModelCalls),
      st.repairCount ≤ wf.limits.repairAttempts → toolRounds wf.limits st ≤ s.planner →
      wf.limits.repairAttempts + 1 ≤ s.resolver →
      (wf.loop x event started fuel st).Metered spendModelCall (fun _ _ => True) (fun _ _ => True) s
  | 0, _, _, _, _, _ => trivial
  | fuel + 1, st, s, hrepair, hp, hr => by
      have hpos : 0 < toolRounds wf.limits st := roundsLeft_pos hrepair
      refine (round_metered (by omega) hr event started st).bind fun out t hout => ?_
      cases out with
      | none => trivial
      | some st' =>
          obtain ⟨-, hadvances, rfl⟩ := hout st' rfl
          have hlt := hadvances.toolRounds_lt hrepair
          refine loop_metered event started fuel st' _ hadvances.repairCount_le ?_ hr
          simp only [ModelCalls.askPlanner]
          omega

/-- **More fuel changes nothing** once there is enough of it for the rounds that are left. -/
theorem loop_fuel (event : IncidentCreatedEvent) (started : Rat) {left : LoopState → Nat}
    (hleft : CountsRounds wf.limits left) :
    ∀ (fuel fuel' : Nat) (st : LoopState), st.repairCount ≤ wf.limits.repairAttempts →
      left st ≤ fuel → left st ≤ fuel' →
      wf.loop x event started fuel st = wf.loop x event started fuel' st
  | 0, _, st, hrepair, h, _ => absurd (hleft.pos st hrepair) (by omega)
  | _ + 1, 0, st, hrepair, _, h => absurd (hleft.pos st hrepair) (by omega)
  | fuel + 1, fuel' + 1, st, hrepair, h, h' => by
      have hround := @round_metered _ _ x wf ⟨1, wf.limits.repairAttempts + 1⟩ Nat.one_pos le_rfl
        event started st
      refine hround.bind_congr fun out t hout => ?_
      cases out with
      | none => rfl
      | some st' =>
          obtain ⟨hsteps, hadvances, -⟩ := hout st' rfl
          have hless := hleft.lt st st' hadvances hsteps hrepair
          exact loop_fuel event started hleft fuel fuel' st' hadvances.repairCount_le (by omega)
            (by omega)

/-- The rounds of the loop, for at most so many: the state that is left to go on with, or none
when the resolution is stored. -/
def ControlledAgentWorkflow.rounds (wf : ControlledAgentWorkflow) (x : Uuid)
    (event : IncidentCreatedEvent) (started : Rat) : Nat → LoopState → Py (Option LoopState)
  | 0, st => return some st
  | fuel + 1, st => do
      match ← wf.round x event started st with
      | none => return none
      | some st => wf.rounds x event started fuel st

/-- What the loop does after its rounds: where they leave a state, the fuel is spent. -/
def concluded : Option LoopState → Py ResolutionWorkflowOutcome
  | none => return .completed
  | some _ => throw outOfFuel

theorem loop_eq_rounds (event : IncidentCreatedEvent) (started : Rat) :
    ∀ (fuel : Nat) (st : LoopState),
      wf.loop x event started fuel st = wf.rounds x event started fuel st >>= concluded
  | 0, _ => rfl
  | fuel + 1, st => by
      rw [loop, rounds, bind_bind]
      refine congrArg (wf.round x event started st >>= ·) (funext fun out => ?_)
      cases out with
      | none => rfl
      | some st' => exact loop_eq_rounds event started fuel st'

/-- **The rounds end by themselves** when there is fuel for what is left of them. -/
theorem rounds_metered (event : IncidentCreatedEvent) (started : Rat) {left : LoopState → Nat}
    (hleft : CountsRounds wf.limits left) :
    ∀ (fuel : Nat) (st : LoopState) (s : ModelCalls), st.repairCount ≤ wf.limits.repairAttempts →
      left st ≤ fuel → fuel ≤ s.planner → wf.limits.repairAttempts + 1 ≤ s.resolver →
      (wf.rounds x event started fuel st).Metered spendModelCall (fun out _ => out = none)
        (fun _ _ => True) s
  | 0, st, _, hrepair, h, _, _ => absurd (hleft.pos st hrepair) (by omega)
  | fuel + 1, st, s, hrepair, h, hp, hr => by
      refine (round_metered (by omega) hr event started st).bind fun out t hout => ?_
      cases out with
      | none => exact rfl
      | some st' =>
          obtain ⟨hsteps, hadvances, rfl⟩ := hout st' rfl
          have hless := hleft.lt st st' hadvances hsteps hrepair
          refine rounds_metered event started hleft fuel st' _ hadvances.repairCount_le (by omega)
            ?_ hr
          simp only [ModelCalls.askPlanner]
          omega

/-- With fuel for the rounds that are left, no run of them leaves a state to go on with. -/
theorem rounds_end (event : IncidentCreatedEvent) (started : Rat) {left : LoopState → Nat}
    (hleft : CountsRounds wf.limits left) {fuel : Nat} {st : LoopState}
    (hrepair : st.repairCount ≤ wf.limits.repairAttempts) (hfuel : left st ≤ fuel)
    (st' : LoopState) : ¬ (wf.rounds x event started fuel st).CanReturn (some st') := by
  intro h
  -- the meter holds as many planner calls as there is fuel, so it does not run out first
  obtain ⟨-, hnone⟩ := (rounds_metered event started hleft fuel st
    ⟨fuel, wf.limits.repairAttempts + 1⟩ hrepair hfuel le_rfl le_rfl).returned h
  cases hnone

/-- The succeeded steps of a log. -/
def succeededSteps (steps : List AgentStep) : Nat :=
  (steps.filter fun step => step.outcome = .succeeded).length

/-- A bound on the rounds that start from a log. -/
def plannerBound (limits : AgentLimits) (steps : List AgentStep) : Nat :=
  (limits.maxToolCalls - succeededSteps steps + 1) * (limits.repairAttempts + 1)

/-- **The planning loop ends.**  From every log, whatever is answered: each run of the loop
asks the planner at most `plannerBound` times and the resolver at most once more than there
are repair attempts, however often the loop is unrolled; and unrolling it more often than
`plannerBound` times, or than the fuel of `resolve`, gives the same program.  With that much fuel
the loop never runs out of it: this is where its rounds leave a state to go on with, and in no run
they do. -/
theorem planning_loop_ends (wf : ControlledAgentWorkflow) (x : Uuid) (event : IncidentCreatedEvent)
    (started : Rat) (steps : List AgentStep) (results : Results) :
    (∀ fuel calls, (wf.loop x event started fuel (initialState steps results)).Issues calls →
      calls.countP isPlannerCall ≤ plannerBound wf.limits steps ∧
        calls.countP isResolverCall ≤ wf.limits.repairAttempts + 1) ∧
    (∀ fuel, plannerBound wf.limits steps ≤ fuel →
      wf.loop x event started fuel (initialState steps results) =
        wf.loop x event started (plannerBound wf.limits steps) (initialState steps results)) ∧
    wf.loop x event started wf.fuel (initialState steps results) =
      wf.loop x event started (plannerBound wf.limits steps) (initialState steps results) ∧
    ∀ fuel, plannerBound wf.limits steps ≤ fuel ∨ fuel = wf.fuel →
      wf.loop x event started fuel (initialState steps results) =
        wf.rounds x event started fuel (initialState steps results) >>= concluded ∧
      ∀ st, ¬ (wf.rounds x event started fuel (initialState steps results)).CanReturn
        (some st) := by
  have hrepair : (initialState steps results).repairCount ≤ wf.limits.repairAttempts :=
    Nat.zero_le _
  have hbound : toolRounds wf.limits (initialState steps results) = plannerBound wf.limits steps := by
    rw [plannerBound, Nat.succ_mul]
    rfl
  have hfuel : stepRounds wf.limits (initialState steps results) ≤ wf.fuel := by
    have := Nat.mul_le_mul_right (wf.limits.repairAttempts + 1)
      (Nat.sub_le wf.limits.maxSteps steps.length)
    rw [fuel, Nat.succ_mul]
    simp only [stepRounds, roundsLeft, initialState]
    omega
  have htool := countsRounds_tool wf.limits
  have hstep := countsRounds_step wf.limits
  refine ⟨fun n calls hcalls => ?_, fun n hn => ?_, ?_, fun n hn => ⟨loop_eq_rounds .., ?_⟩⟩
  · obtain ⟨s', hs⟩ := (loop_metered event started n _
      ⟨plannerBound wf.limits steps, wf.limits.repairAttempts + 1⟩ hrepair hbound.le le_rfl).spent
        hcalls
    obtain ⟨hp, hr⟩ := spent_le hs
    dsimp only at hp hr
    omega
  · exact loop_fuel event started htool n _ _ hrepair (hbound.le.trans hn) hbound.le
  · -- both counts have fuel enough in the sum of the two
    have h := loop_fuel (x := x) event started hstep wf.fuel
      (wf.fuel + plannerBound wf.limits steps) _ hrepair hfuel (by omega)
    exact h.trans (loop_fuel event started htool _ _ _ hrepair (by omega) hbound.le)
  · rcases hn with hn | rfl
    · exact rounds_end event started htool hrepair (hbound.le.trans hn)
    · exact rounds_end event started hstep hrepair hfuel

end

end SupportPlatform

