import SupportPlatform.StepBudgets
import SupportPlatform.Substitution

/-! # Repeated tool calls

The guardrail counts signatures: of the planner's own arguments while the loop runs, and of
the stored arguments after a restart.  The two counts agree on every call that a tool
accepted, since the numbers that an input model reads are settled by sanitizing them once.  So
the log holds each call, as it is stored, no more often than the limit allows.  The guardrail
does not look at what the input model makes of the arguments: one incident number can be
written in several ways, and each of them is a call of its own.
-/
namespace SupportPlatform
open Program ControlledAgentWorkflow

/-! ## Numbers in arguments -/

/-- A character of a number that is written as a text. -/
def numeralChar (c : Char) : Bool :=
  c.isDigit || Text.isSpace c || c == '+' || c == '-' || c == '_' || c == '.'

/-- A value that may be read as an integer. -/
def Numeral : Json → Prop
  | .bool _ | .int _ | .float _ => True
  | .str s => ∀ c ∈ s, numeralChar c = true
  | _ => False

/-- What is read as an integer is a number, or the text of one. -/
def ReadsNumerals [Pydantic] : Prop :=
  ∀ (v : Json) (i : Int), Pydantic.intOf v = some i → Numeral v

/-- A letter is no part of a number. -/
theorem numeralChar_of_foldsTo {letter c : Char} (hl : 97 ≤ letter.toNat ∧ letter.toNat ≤ 122)
    (h : Regex.foldsTo letter c = true) : numeralChar c = false := by
  have hrange := Regex.foldsTo_range hl h
  have hne : ∀ d : Char, d.toNat < 65 ∨ d.toNat = 95 → (c == d) = false := by
    intro d hd
    rw [beq_eq_false_iff_ne]
    intro e
    subst e
    omega
  simp only [numeralChar, Bool.or_eq_false_iff]
  refine ⟨⟨⟨⟨⟨?_, ?_⟩, hne '+' (by decide)⟩, hne '-' (by decide)⟩, hne '_' (by decide)⟩,
    hne '.' (by decide)⟩
  · simp only [Char.isDigit, Bool.and_eq_false_iff, decide_eq_false_iff_not]
    show ¬ 48 ≤ c.toNat ∨ ¬ c.toNat ≤ 57
    omega
  · simp only [Text.isSpace, Bool.or_eq_false_iff, Bool.and_eq_false_iff, decide_eq_false_iff_not,
      beq_eq_false_iff_ne]
    omega

/-- No credential pattern matches within a number. -/
theorem patterns_need_letters : ∀ pattern ∈ SensitiveValue.patterns,
    pattern.Needs fun c => !numeralChar c := by
  have hletter : ∀ letter : Char, 97 ≤ letter.toNat ∧ letter.toNat ≤ 122 →
      ∀ c, Regex.foldsTo letter c = true → (!numeralChar c) = true := by
    intro letter hl c hc
    rw [numeralChar_of_foldsTo hl hc]
    rfl
  have he : ∀ c : Char, (c == 'e') = true → (!numeralChar c) = true := by
    intro c hc
    rw [beq_iff_eq.mp hc]
    decide
  intro pattern hp
  simp only [SensitiveValue.patterns, List.mem_cons, List.not_mem_nil, or_false] at hp
  rcases hp with rfl | rfl | rfl
  · exact .inr (.inl (.inl (hletter 'b' (by decide))))
  · exact .inr (.inl ⟨.inl (hletter 'p' (by decide)), .inl (hletter 's' (by decide)),
      .inl (hletter 't' (by decide)), .inl (.inl (hletter 'a' (by decide)))⟩)
  · exact .inr (.inl (.inl he))

section
variable [Runtime]

/-- A number that is written as a text is only cut off, and then left alone. -/
theorem clean_sanitizeText_numeral {s : Text} (h : ∀ c ∈ s, numeralChar c = true) :
    (sanitizeText s).Clean := by
  have hcut : ∀ t : Text, (∀ c ∈ t, numeralChar c = true) → sanitizeText t = t.take 2000 := by
    intro t ht
    refine sanitizeText_of_needs patterns_need_letters fun c hc => ?_
    rw [ht c hc]
    rfl
  rw [Text.Clean, hcut s h, hcut _ fun c hc => h c (List.mem_of_mem_take hc), List.take_take,
    Nat.min_self]

/-- **A number is settled** by sanitizing it. -/
theorem settled_numeral {v : Json} (h : Numeral v) (n : Nat) :
    Settled (n + 1) (sanitizeLevels (n + 1) v) := by
  cases v with
  | bool b => trivial
  | int i => trivial
  | float f => trivial
  | str s => exact clean_sanitizeText_numeral h
  | null | arr | obj => exact h.elim

/-- **A list of numbers is settled** by sanitizing it. -/
theorem settled_numerals {items : List Json} (h : ∀ v ∈ items, Numeral v) (n : Nat) :
    Settled (n + 2) (sanitizeLevels (n + 2) (.arr items)) := by
  refine ⟨?_, fun v hv => ?_⟩
  · rw [List.length_map]
    exact List.length_take_le _ _
  · obtain ⟨raw, hraw, rfl⟩ := List.mem_map.mp hv
    exact settled_numeral (h raw (List.mem_of_mem_take hraw)) n

end

/-! ## The arguments that a tool accepts -/

section
variable [Runtime] [Pydantic]

/-- A number, or a list of numbers. -/
def Numerals (v : Json) : Prop := Numeral v ∨ ∃ items, v = .arr items ∧ ∀ i ∈ items, Numeral i

omit [Runtime] [Pydantic] in
theorem strictEntries_keys {fields : List Text} {entries read : Dict Text Json}
    (h : strictEntries fields (.obj entries) = some read) :
    read = entries ∧ ∀ e ∈ entries, e.1 ∈ fields := by
  refine ⟨strictEntries_obj h, fun e he => ?_⟩
  rw [strictEntries, dictOf, Option.bind_some] at h
  split at h
  · rename_i hall
    exact of_decide_eq_true (List.all_eq_true.mp hall e he)
  · cases h

section
omit [Runtime]

theorem numeral_of_positiveInt (hnumerals : ReadsNumerals) {v : Option Json} {i : PositiveInt}
    (h : v.bind positiveInt = some i) : ∀ w ∈ v, Numeral w := by
  rintro w rfl
  have hread : positiveInt w = some i := h
  obtain ⟨n, hn, -⟩ := Option.bind_eq_some_iff.mp hread
  exact hnumerals w n hn

theorem numeral_of_boundedInt (hnumerals : ReadsNumerals) {low high : Int}
    {default i : BoundedInt low high} {v : Option Json}
    (h : withDefault default (boundedInt low high) v = some i) : ∀ w ∈ v, Numeral w := by
  rintro w rfl
  have hread : boundedInt low high w = some i := h
  obtain ⟨n, hn, -⟩ := Option.bind_eq_some_iff.mp hread
  exact hnumerals w n hn

theorem numerals_of_listOf (hnumerals : ReadsNumerals) {v : Option Json} {numbers : List Int}
    (h : v.bind (listOf Pydantic.intOf) = some numbers) : ∀ w ∈ v, Numerals w := by
  rintro w rfl
  cases w with
  | arr items =>
      refine .inr ⟨items, rfl, fun item hitem => ?_⟩
      obtain ⟨i, -, hi⟩ := exists_of_forall₂_left (forall₂_of_mapM h) hitem
      exact hnumerals item i hi
  | _ => cases h

end

/-- **The arguments that a tool accepts are numbers**, but for the query for runbooks. -/
theorem numerals_of_valid (hnumerals : ReadsNumerals) {tool : AgentTool}
    (htool : tool ∈ ToolRegistry.tools) (hname : tool.name ≠ "retrieve_runbooks")
    {arguments : Dict Text Json} {input : tool.Input}
    (h : tool.validate (.obj arguments) = some input) (hkeys : arguments.keys.Nodup) :
    ∀ e ∈ arguments, Numerals e.2 := by
  -- an entry is under one of the fields, and what is read there is a number
  have hfield : ∀ {fields : List Text} {read : Dict Text Json},
      strictEntries fields (.obj arguments) = some read →
        (∀ key ∈ fields, ∀ v ∈ read.get? key, Numerals v) → ∀ e ∈ arguments, Numerals e.2 := by
    intro fields read hread hall e he
    obtain ⟨rfl, hfields⟩ := strictEntries_keys hread
    exact hall e.1 (hfields e he) e.2 (Dict.get?_of_mem hkeys he)
  have hincident : ∀ {read : Dict Text Json} {i : PositiveInt},
      strictEntries ["incident_id"] (.obj arguments) = some read →
        (read.get? "incident_id").bind positiveInt = some i → ∀ e ∈ arguments, Numerals e.2 := by
    intro read i hread hi
    refine hfield hread fun key hkey v hv => ?_
    obtain rfl := List.mem_singleton.mp hkey
    exact .inl (numeral_of_positiveInt hnumerals hi v hv)
  have hscoped : ∀ {input : IncidentScopedListInput},
      IncidentScopedListInput.ofJson (.obj arguments) = some input →
        ∀ e ∈ arguments, Numerals e.2 := by
    intro input h
    obtain ⟨read, hread, h⟩ := Option.bind_eq_some_iff.mp h
    obtain ⟨i, hi, h⟩ := Option.bind_eq_some_iff.mp h
    obtain ⟨limit, hlimit, -⟩ := Option.bind_eq_some_iff.mp h
    refine hfield hread fun key hkey v hv => ?_
    rcases List.mem_pair.mp hkey with rfl | rfl
    · exact .inl (numeral_of_positiveInt hnumerals hi v hv)
    · exact .inl (numeral_of_boundedInt hnumerals hlimit v hv)
  simp only [ToolRegistry.tools, List.mem_cons, List.not_mem_nil, or_false] at htool
  rcases htool with rfl | rfl | rfl | rfl | rfl | rfl
  · obtain ⟨read, hread, h⟩ := Option.bind_eq_some_iff.mp h
    obtain ⟨i, hi, -⟩ := Option.bind_eq_some_iff.mp h
    exact hincident hread hi
  · exact absurd rfl hname
  · exact hscoped h
  · exact hscoped h
  · obtain ⟨read, hread, h⟩ := Option.bind_eq_some_iff.mp h
    obtain ⟨i, hi, -⟩ := Option.bind_eq_some_iff.mp h
    exact hincident hread hi
  · obtain ⟨read, hread, h⟩ := Option.bind_eq_some_iff.mp h
    obtain ⟨numbers, hnumbers, -⟩ := Option.bind_eq_some_iff.mp h
    refine hfield hread fun key hkey v hv => ?_
    obtain rfl := List.mem_singleton.mp hkey
    exact numerals_of_listOf hnumerals hnumbers v hv

omit [Pydantic] in
/-- **Accepted arguments are settled** by sanitizing them. -/
theorem settled_arguments {arguments : Dict Text Json} (h : ∀ e ∈ arguments, Numerals e.2) :
    sanitizeValue (sanitizeValue (.obj arguments)) = sanitizeValue (.obj arguments) := by
  refine sanitizeLevels_eq_self.mpr (settled_sanitizeEntries fun e he => ?_)
  rcases h e he with hnumeral | ⟨items, hitems, hall⟩
  · exact settled_numeral hnumeral 3
  · rw [hitems]
    exact settled_numerals hall 2

/-! ## The calls in a log -/

/-- The step ran a tool, and its log row says which one. -/
def AgentStep.RanTool (name : Text) (step : AgentStep) : Prop :=
  step.outcome = .succeeded ∧ step.toolName = some name

instance (name : Text) (step : AgentStep) : Decidable (step.RanTool name) :=
  inferInstanceAs (Decidable (_ ∧ _))

/-- The step ran a tool with the arguments that are stored. -/
def AgentStep.RanCall (name : Text) (arguments : Json) (step : AgentStep) : Prop :=
  step.RanTool name ∧ step.sanitizedArguments = some arguments

instance (name : Text) (arguments : Json) (step : AgentStep) :
    Decidable (step.RanCall name arguments) := inferInstanceAs (Decidable (_ ∧ _))

/-- The step ran a tool with arguments that its input model reads as `input`. -/
def AgentStep.RanWith (tool : AgentTool) (input : tool.Input) (step : AgentStep) : Prop :=
  step.RanTool tool.name ∧
    ∃ arguments, step.sanitizedArguments = some arguments ∧ tool.validate arguments = some input

/-- Runbooks are retrieved once, and no tool runs more often than `k` times with the same
validated arguments. -/
def ValidatedCallsLimited (k : Nat) (steps : List AgentStep) : Prop :=
  (steps.countP fun step => step.RanTool "retrieve_runbooks") ≤ 1 ∧
    ∀ tool ∈ ToolRegistry.tools, ∀ (input : tool.Input) (calls : List AgentStep),
      calls.Sublist steps → (∀ step ∈ calls, step.RanWith tool input) → calls.length ≤ k

/-- How often a log ran a tool. -/
def runsOf (name : Text) (steps : List AgentStep) : Nat := steps.countP fun step => step.RanTool name

/-- How often a log made a call. -/
def callsOf (name : Text) (arguments : Json) (steps : List AgentStep) : Nat :=
  steps.countP fun step => step.RanCall name arguments

omit [Runtime] [Pydantic] in
theorem callsOf_le_runsOf (name : Text) (arguments : Json) (steps : List AgentStep) :
    callsOf name arguments steps ≤ runsOf name steps := by
  refine List.countP_mono_left fun step _ hstep => ?_
  rw [decide_eq_true_eq] at hstep ⊢
  exact hstep.1

/-- **The calls of a log are limited**: runbooks are retrieved once, and no call is made more
often than `k` times. -/
structure CallsLimited (k : Nat) (steps : List AgentStep) : Prop where
  retrievals : runsOf "retrieve_runbooks" steps ≤ 1
  repeats : ∀ name arguments, callsOf name arguments steps ≤ k

/-- The counted signatures cover the calls of the log. -/
def SignaturesCover (steps : List AgentStep) (signatures : List Text) : Prop :=
  ∀ name arguments, name ≠ [] → name ≠ "retrieve_runbooks" →
    callsOf name arguments steps ≤ signatures.count (signature name arguments)

omit [Runtime] [Pydantic] in
/-- A step that did not succeed adds no call. -/
theorem CallsLimited.idle {k : Nat} {steps : List AgentStep} (h : CallsLimited k steps)
    {record : AgentStep} (hr : record.outcome ≠ .succeeded) :
    CallsLimited k (steps ++ [record]) ∧
      ∀ name arguments, callsOf name arguments (steps ++ [record]) = callsOf name arguments steps := by
  have hruns : ∀ name, runsOf name (steps ++ [record]) = runsOf name steps := by
    intro name
    have hnot : ¬ record.RanTool name := fun hran => hr hran.1
    simp [runsOf, List.countP_append, hnot]
  have hcalls : ∀ name arguments, callsOf name arguments (steps ++ [record]) =
      callsOf name arguments steps := by
    intro name arguments
    have hnot : ¬ record.RanCall name arguments := fun hran => hr hran.1.1
    simp [callsOf, List.countP_append, hnot]
  refine ⟨⟨?_, fun name arguments => ?_⟩, hcalls⟩
  · rw [hruns]
    exact h.retrievals
  · rw [hcalls]
    exact h.repeats name arguments

section
omit [Pydantic]

/-- **The signatures of a restored log** cover its calls. -/
theorem signaturesCover_restored (steps : List AgentStep) (results : Results) :
    SignaturesCover steps (initialState steps results).signatures := by
  intro name arguments hne _
  unfold initialState callsOf
  dsimp only
  induction steps with
  | nil => exact Nat.zero_le _
  | cons step steps ih =>
      by_cases hstep : step.RanCall name arguments
      · -- the step is restored as its own signature
        have hsucceeded : decide (step.outcome = .succeeded) = true := decide_eq_true hstep.1.1
        have hname : step.toolName.filter (fun name => name ≠ []) = some name := by
          rw [hstep.1.2]
          simp [Option.filter, hne]
        rw [List.countP_cons, if_pos (decide_eq_true hstep), List.filter_cons, if_pos hsucceeded,
          List.filterMap_cons, hname, hstep.2]
        simpa using ih
      · rw [List.countP_cons, if_neg (by simpa using hstep)]
        refine ih.trans ?_
        refine List.Sublist.count_le _ ?_
        refine List.Sublist.filterMap _ ?_
        exact (List.sublist_cons_self step steps).filter _

/-- What the guardrail lets through. -/
theorem not_repeated {wf : ControlledAgentWorkflow} {request : ToolRequest} {st : LoopState}
    (h : wf.repeated request st = false) :
    st.signatures.count (signature request.toolName.1 (.obj request.arguments)) <
        wf.limits.maxRepeatedToolCalls ∧
      (request.toolName.1 = "retrieve_runbooks" → runsOf "retrieve_runbooks" st.steps = 0) := by
  simp only [ControlledAgentWorkflow.repeated, Bool.or_eq_false_iff, decide_eq_false_iff_not] at h
  refine ⟨Nat.lt_of_not_le h.1, fun hname => ?_⟩
  have hnone := h.2
  rw [decide_eq_true hname, Bool.true_and, List.any_eq_false] at hnone
  refine List.countP_eq_zero.mpr fun step hstep hran => ?_
  have hran := of_decide_eq_true hran
  refine hnone step hstep ?_
  rw [decide_eq_true hran.2, decide_eq_true hran.1]
  rfl

/-- **A call that was let through** keeps the calls of the log limited, and its signature covers
it. -/
theorem CallsLimited.call {k : Nat} {st : LoopState} (h : CallsLimited k st.steps)
    (hcover : SignaturesCover st.steps st.signatures) {record : AgentStep} {name sig : Text}
    {arguments : Json} (hran : record.RanCall name arguments) (hname : name ≠ [])
    (hroom : st.signatures.count sig < k)
    (hretrieve : name = "retrieve_runbooks" → runsOf "retrieve_runbooks" st.steps = 0)
    (hsig : name ≠ "retrieve_runbooks" → sig = signature name arguments) :
    CallsLimited k (st.steps ++ [record]) ∧
      SignaturesCover (st.steps ++ [record]) (st.signatures ++ [sig]) := by
  have hruns : ∀ n, runsOf n (st.steps ++ [record]) =
      runsOf n st.steps + if record.RanTool n then 1 else 0 := by
    intro n
    by_cases hn : record.RanTool n <;> simp [runsOf, List.countP_append, hn]
  have hcalls : ∀ n a, callsOf n a (st.steps ++ [record]) =
      callsOf n a st.steps + if record.RanCall n a then 1 else 0 := by
    intro n a
    by_cases hn : record.RanCall n a <;> simp [callsOf, List.countP_append, hn]
  -- the record is a call of the one tool with the one argument
  have honly : ∀ n a, record.RanCall n a → n = name ∧ a = arguments := by
    intro n a hn
    exact ⟨Option.some.inj (hn.1.2.symm.trans hran.1.2), Option.some.inj (hn.2.symm.trans hran.2)⟩
  refine ⟨⟨?_, fun n a => ?_⟩, fun n a hn hne => ?_⟩
  · rw [hruns]
    by_cases hn : record.RanTool "retrieve_runbooks"
    · have hzero := hretrieve (Option.some.inj (hran.1.2.symm.trans hn.2))
      rw [if_pos hn]
      omega
    · rw [if_neg hn]
      exact h.retrievals
  · rw [hcalls]
    by_cases hn : record.RanCall n a
    · obtain ⟨rfl, rfl⟩ := honly n a hn
      rw [if_pos hn]
      by_cases hne : n = "retrieve_runbooks"
      · have hzero := hretrieve hne
        have hle := callsOf_le_runsOf n a st.steps
        rw [hne] at hle ⊢
        omega
      · have hle := hcover n a hname hne
        rw [← hsig hne] at hle
        omega
    · rw [if_neg hn]
      exact h.repeats n a
  · rw [hcalls, List.count_append]
    have hle := hcover n a hn hne
    by_cases hrec : record.RanCall n a
    · obtain ⟨rfl, rfl⟩ := honly n a hrec
      rw [if_pos hrec, hsig hne, List.count_singleton_self]
      omega
    · rw [if_neg hrec]
      omega

/-- The stored arguments of an accepted call have its signature. -/
theorem signature_stored {name : Text} {arguments : Dict Text Json}
    (h : ∀ e ∈ arguments, Numerals e.2) :
    signature name (.obj arguments) = signature name (sanitizeValue (.obj arguments)) := by
  rw [signature, signature, settled_arguments h]

end

/-- **The law of repeated calls.** -/
def repeatLaw (hdicts : ParsesDicts) (hnumerals : ReadsNumerals) (k : Nat) : LogLaw where
  Allows wf := wf.limits.maxRepeatedToolCalls = k
  grounded := False
  Good _ steps := CallsLimited k steps
  Holds _ st := CallsLimited k st.steps ∧ SignaturesCover st.steps st.signatures
  nil _ := ⟨Nat.zero_le _, fun _ _ => Nat.zero_le _⟩
  restored _ steps results hgood _ := ⟨hgood, signaturesCover_restored steps results⟩
  frame _ _ _ _ h := h
  tool wf event x st decision request result hlimits hholds hcall := by
    obtain ⟨hroom, hretrieve⟩ := not_repeated hcall.fresh
    rw [hlimits] at hroom
    obtain ⟨tool, input, htool, hvalid⟩ := hcall.executed.valid
    obtain ⟨hregistered, htoolName⟩ := get?_registered htool
    have hne : request.toolName.1 ≠ [] := List.ne_nil_of_length_pos request.toolName.2.1
    have hran : (toolStepRecord x (st.steps.length + 1) decision request result).RanCall
        request.toolName.1 (sanitizeValue (.obj request.arguments)) := ⟨⟨rfl, rfl⟩, rfl⟩
    have hkept := hholds.1.call hholds.2 hran hne hroom hretrieve fun hname =>
      signature_stored (numerals_of_valid hnumerals hregistered (htoolName ▸ hname) hvalid
        (hcall.keyed hdicts _ _ hcall.action))
    exact ⟨hkept.1, hkept⟩
  rejected wf i x st decision request outcome _ hholds hr := by
    have hrejected : (rejectedStepRecord x (st.steps.length + 1) decision request outcome).outcome ≠
        .succeeded := hr.outcome.1
    have hidle := hholds.1.idle hrejected
    refine ⟨hidle.1, hidle.1, fun name arguments hname hne => ?_⟩
    show callsOf name arguments (st.steps ++ _) ≤ _
    rw [hidle.2]
    exact hholds.2 name arguments hname hne
  final wf i x st decision final _ hholds _ := by
    have hcompleted : (finalStepRecord x (st.steps.length + 1) decision final
        (evidenceReferences st.results)).outcome ≠ .succeeded := nofun
    exact (hholds.1.idle hcompleted).1
  context _ _ _ h := h.elim

variable {W : Type} [DecidableEq W]

end

/-! ## A run -/

/-- A decision for `get_incident` with the number in quotes. -/
def quotedDecision : Text :=
  Text.pieces ["\x7b\"goal\":", "\"Load it.\",", "\"next_action\":", "\"tool\",\"tool_name\":",
    "\"get_incident\",", "\"tool_arguments\":", "\x7b\"incident_id\":",
    "\"1\"\x7d,\"reason_summary\":", "\"Evidence.\",", "\"expected_evidence\":",
    "\"The incident.\"\x7d"]

/-- The two ways in which the run writes the number of the incident. -/
def incidentArguments : List Json :=
  [.obj [("incident_id", .int 1)], .obj [("incident_id", .str "1")]]

/-- The step ran `get_incident` in one of these ways. -/
def ranIncident (step : AgentStep) : Bool :=
  incidentArguments.any fun arguments => step.RanCall "get_incident" arguments

/-- A worker crashes after it loaded the incident; another one retrieves runbooks, and loads the
incident once more, its number now in quotes. -/
theorem exists_quoted : ∃ p : Pool Resp PyExc ResolutionWorkflowOutcome Bool (World Bool),
    Pool.Reachable (platform Environment.calm) (fun _ => plainWorkflow.resolve timeoutEvent)
      (incidentWithLog []) p ∧
    (p.world.db.loadSteps 0).countP ranIncident = 2 := by
  have hplain := conversation_plain quotedDecision []
  obtain ⟨p, hp, hP⟩ := exists_routine_run Environment.calm
    (fun _ => plainWorkflow.resolve timeoutEvent)
    (incidentWithLog []) (fun p => (p.world.db.loadSteps 0).countP ranIncident = 2)
    [.calls true 50 (conversation quotedDecision [] true), .crash true,
      .calls false 80 (conversation quotedDecision [] false)]
    (by simp [hplain]) (by decide +kernel)
  exact ⟨p, hp, of_decide_eq_true hP⟩

end SupportPlatform

