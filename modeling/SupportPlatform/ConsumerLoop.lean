import SupportPlatform.Isolation
import SupportPlatform.ReferenceCodec
import SupportPlatform.Replay
import SupportPlatform.Worker

/-! # The consumer loop skips nothing

Between two messages every position of a consumer stands right after messages that
were handled (`CaughtUp`); while a message is in its hands the position of that one
partition is one further (`InHand`), and each way out of the loop body either records the
message as handled or seeks back to it.  So handling is in order and a committed offset
never passes a message that was not handled, for any number of consumers that crash,
restart or take over partitions from each other.
-/


namespace SupportPlatform
open Program World

section
variable [Runtime] [Pydantic] {W : Type} [DecidableEq W] {env : Environment}

/-! ## Handlers -/

/-- The calls that do not concern the consumer of the worker. -/
def Op.LeavesConsumer : Op → Prop
  | .poll | .seek _ _ | .commitOffset _ _ | .observe _ _ => False
  | _ => True

/-- A handler of messages: it has no access to the consumer. -/
structure MessageHandler where
  handle : Option Bytes → Py MessageOutcome
  leavesConsumer : ∀ value, (handle value).Only Op.LeavesConsumer

/-- Where a consumer stands and what was handled and committed. -/
structure SameConsumption (s t : World W) : Prop where
  position : t.position = s.position
  committed : t.committed = s.committed
  handled : t.hist.handled = s.hist.handled

theorem after_leavesConsumer {w : W} {s : World W} {o : Op} (r : Resp o) (h : o.LeavesConsumer) :
    SameConsumption s (after w s o r) := by
  cases o with
  | poll | seek | commitOffset | observe => exact h.elim
  | lockExecution i => rcases r with e | _ | x <;> exact ⟨rfl, rfl, rfl⟩
  | getForDispatch id => rcases r with e | _ | x <;> exact ⟨rfl, rfl, rfl⟩
  | flushIncident row => rcases r with e | id <;> exact ⟨rfl, rfl, rfl⟩
  | flush cs => rcases r with e | _ <;> exact ⟨rfl, rfl, rfl⟩
  | commit txn cs =>
      have hf : ∀ u : World W, SameConsumption u (u.forfeit w) := fun u => by
        unfold forfeit
        split <;> exact ⟨rfl, rfl, rfl⟩
      rcases r with _ | ⟨e, _ | _⟩
      · exact ⟨rfl, rfl, rfl⟩
      · exact hf s
      · have := hf (s.settle w txn cs)
        exact ⟨this.position, this.committed, this.handled⟩
  | produce event topic =>
      cases r with
      | acknowledged p => exact ⟨rfl, rfl, rfl⟩
      | raised e landed => cases landed <;> exact ⟨rfl, rfl, rfl⟩
      | undelivered n landed => cases landed <;> exact ⟨rfl, rfl, rfl⟩
      | deliveryError t landed => cases landed <;> exact ⟨rfl, rfl, rfl⟩
  | _ => exact ⟨rfl, rfl, rfl⟩

/-! ## The discipline -/

/-- Every offset of the partition from the first one to before `bound` was handled. -/
def HandledBelow (base : TopicPartition → Nat) (s : World W) (source : TopicPartition)
    (bound : Nat) : Prop :=
  ∀ o, base source ≤ o → o < bound → (source, o) ∈ s.hist.handled

/-- **The order of handling**: an offset is handled after every smaller one, and committed
offsets stand after handled ones. -/
structure ConsumerInv (base : TopicPartition → Nat) (s : World W) : Prop where
  ordered : ∀ (i : Nat) source o, s.hist.handled[i]? = some (source, o) →
    ∀ o', base source ≤ o' → o' < o → ∃ j, j < i ∧ s.hist.handled[j]? = some (source, o')
  committed : ∀ source, HandledBelow base s source (s.committed source)

omit [Runtime] [Pydantic] [DecidableEq W] in
theorem SameConsumption.grows {s t : World W} (h : SameConsumption s t) :
    s.hist.handled <+: t.hist.handled :=
  h.handled ▸ List.prefix_rfl

omit [Runtime] [Pydantic] [DecidableEq W] in
theorem SameConsumption.inv {s t : World W} (h : SameConsumption s t)
    {base : TopicPartition → Nat} (hI : ConsumerInv base s) : ConsumerInv base t :=
  ⟨h.handled ▸ hI.ordered, fun source o => by
    rw [h.handled, h.committed]
    exact hI.committed source o⟩

/-- **The discipline of consumption** from the offsets `base` on. -/
def consumption (env : Environment) (base : TopicPartition → Nat) : Protocol env W where
  I := ConsumerInv base
  R _ s t := s.hist.handled <+: t.hist.handled
  G _ _ _ _ _ := True
  refl _ s := List.prefix_refl _
  trans _ _ _ _ h h' := h.trans h'
  crash_inv w s h :=
    ⟨by simpa [World.crash, World.rollback] using h.ordered,
      by simpa [World.crash, World.rollback, HandledBelow] using h.committed⟩
  crash_rely v w s _ _ := by simp [World.crash, World.rollback]

/-- All positions of `w` stand right after handled messages. -/
def CaughtUp (base : TopicPartition → Nat) (w : W) (s : World W) : Prop :=
  ∀ source q, s.position w source = some q → HandledBelow base s source q

/-- `w` has polled `m`: its position there is one further than what was handled. -/
structure InHand (base : TopicPartition → Nat) (w : W) (m : Message) (s : World W) : Prop where
  position : s.position w m.source = some (m.offset + 1)
  below : HandledBelow base s m.source m.offset
  others : ∀ source q, source ≠ m.source → s.position w source = some q →
    HandledBelow base s source q

section
variable {base : TopicPartition → Nat} {w : W} {s t : World W} {m : Message}
  {X : PyExc → World W → Prop}

section
omit [Runtime] [Pydantic] [DecidableEq W]

theorem HandledBelow.mono {source : TopicPartition} {bound : Nat}
    (h : HandledBelow base s source bound) (hp : s.hist.handled <+: t.hist.handled) :
    HandledBelow base t source bound :=
  fun o hb ho => hp.subset (h o hb ho)

theorem CaughtUp.frame (h : CaughtUp base w s) (hf : Frame w s t)
    (hp : s.hist.handled <+: t.hist.handled) : CaughtUp base w t :=
  fun source q hq => (h source q (hf.position ▸ hq)).mono hp

theorem InHand.frame (h : InHand base w m s) (hf : Frame w s t)
    (hp : s.hist.handled <+: t.hist.handled) : InHand base w m t :=
  ⟨hf.position ▸ h.position, h.below.mono hp,
    fun source q hne hq => (h.others source q hne (hf.position ▸ hq)).mono hp⟩

end

/-- A call that does not concern the consumer. -/
theorem safe_other {o : Op} {Q : Resp o → World W → Prop} (ho : o.LeavesConsumer)
    (hQ : ∀ t r, Frame w s t → s.hist.handled <+: t.hist.handled → Q r (after w t o r)) :
    (issue o).Safe (consumption env base).discipline w Q X s := by
  refine Protocol.safe_issue fun t hf hR _ hI r _ => ?_
  have hsame := after_leavesConsumer (w := w) (s := t) r ho
  exact ⟨hsame.inv hI, fun _ _ => hsame.grows, trivial, hQ t r hf hR⟩

/-- Handling leaves the message in hand. -/
theorem handle_safe {α : Type} {p : Py α} (hp : p.Only Op.LeavesConsumer)
    (h : InHand base w m s) :
    p.Safe (consumption env base).discipline w (fun _ => InHand base w m)
      (fun _ => InHand base w m) s := by
  refine Safe.of_only hp (fun o ho s t r u hs ⟨hf, hR⟩ ⟨hL, hI⟩ ⟨_, hperm, hu⟩ => ?_) h
  subst hu
  have hsame := after_leavesConsumer (w := w) (s := t) r ho
  have ht := hs.frame hf hR
  refine ⟨⟨⟨after_locked hL hperm, hsame.inv hI⟩,
    fun v hv => ⟨after_frame hL hperm hv, hsame.grows⟩, trivial⟩, ?_⟩
  exact ⟨hsame.position ▸ ht.position, ht.below.mono hsame.grows, fun source q hne hq =>
    (ht.others source q hne (by rwa [hsame.position] at hq)).mono hsame.grows⟩

/-! ## The loop body -/

/-- Seeking back to the message leaves nothing skipped. -/
theorem seekToMessage_safe (h : InHand base w m s) :
    (KafkaIncidentWorker.seekToMessage m).Safe (consumption env base).discipline w
      (fun _ => CaughtUp base w) (fun _ _ => True) s := by
  refine safe_bind.mpr (Protocol.safe_issue fun t hf hR _ hI r _ => ?_)
  have ht := h.frame hf hR
  rcases r with e | _
  · exact ⟨hI, fun _ _ => List.prefix_rfl, trivial, trivial⟩
  · refine ⟨⟨hI.ordered, hI.committed⟩, fun _ _ => List.prefix_rfl, trivial,
      fun source q hq => ?_⟩
    simp only [after, Function.update_self] at hq
    by_cases hs : source = m.source
    · subst hs
      rw [Function.update_self] at hq
      cases hq
      exact ht.below
    · rw [Function.update_of_ne hs] at hq
      exact ht.others source q hs hq

/-- Recording an outcome other than RETRY: the message is handled, in order. -/
theorem observe_safe {outcome : MessageOutcome} (ho : outcome ≠ .retry)
    (h : InHand base w m s) :
    (issue (.observe m outcome)).Safe (consumption env base).discipline w
      (fun _ t => InHand base w m t ∧ (m.source, m.offset) ∈ t.hist.handled) X s := by
  refine Protocol.safe_issue fun t hf hR _ hI r _ => ?_
  have ht := h.frame hf hR
  have hafter : (after w t (.observe m outcome) r).hist.handled =
      t.hist.handled ++ [(m.source, m.offset)] := by simp [after, ho]
  have hgrows : t.hist.handled <+: (after w t (.observe m outcome) r).hist.handled := by
    rw [hafter]
    exact List.prefix_append _ _
  have hcommitted : (after w t (.observe m outcome) r).committed = t.committed := by
    simp [after, ho]
  refine ⟨⟨fun i source o hi o' hb ho' => ?_, fun source => ?_⟩, fun _ _ => hgrows, trivial, ?_, ?_⟩
  · rw [hafter] at hi ⊢
    by_cases hlt : i < t.hist.handled.length
    · rw [List.getElem?_append_left hlt] at hi
      obtain ⟨j, hj, hj'⟩ := hI.ordered i source o hi o' hb ho'
      exact ⟨j, hj, by rw [List.getElem?_append_left (by omega), hj']⟩
    · -- the new entry: everything below the message in hand is there already
      have hi' : i = t.hist.handled.length ∧ (m.source, m.offset) = (source, o) := by
        rw [List.getElem?_append_right (by omega)] at hi
        have hz : i - t.hist.handled.length = 0 := by
          by_contra hne
          rw [List.getElem?_eq_none (by simp; omega)] at hi
          cases hi
        rw [hz] at hi
        exact ⟨by omega, by simpa using hi⟩
      obtain ⟨rfl, he⟩ := hi'
      cases he
      obtain ⟨j, hj⟩ := List.mem_iff_getElem?.mp (ht.below o' hb ho')
      have hlen : j < t.hist.handled.length := (List.getElem?_eq_some_iff.mp hj).1
      exact ⟨j, hlen, by rw [List.getElem?_append_left hlen, hj]⟩
  · rw [hcommitted]
    exact (hI.committed source).mono hgrows
  · have hposition : (after w t (.observe m outcome) r).position = t.position := by
      simp [after, ho]
    exact ⟨hposition ▸ ht.position, ht.below.mono hgrows, fun source q hne hq =>
      (ht.others source q hne (by rwa [hposition] at hq)).mono hgrows⟩
  · simp [hafter]

/-- A RETRY is not recorded. -/
theorem observe_retry_safe (h : InHand base w m s) :
    (issue (.observe m .retry)).Safe (consumption env base).discipline w
      (fun _ => InHand base w m) X s :=
  Protocol.safe_issue fun _ hf hR _ hI _ _ =>
    ⟨hI, fun _ _ => List.prefix_rfl, trivial, h.frame hf hR⟩

omit [Runtime] [Pydantic] [DecidableEq W] in
/-- A handled message no longer holds its partition back. -/
theorem InHand.caughtUp (h : InHand base w m s) (hm : (m.source, m.offset) ∈ s.hist.handled) :
    CaughtUp base w s := by
  intro source q hq o hb ho
  by_cases hs : source = m.source
  · subst hs
    rw [h.position] at hq
    cases hq
    rcases Nat.lt_succ_iff_lt_or_eq.mp ho with hlt | rfl
    · exact h.below o hb hlt
    · exact hm
  · exact h.others source q hs hq o hb ho

theorem commitMessage_safe (h : InHand base w m s) (hm : (m.source, m.offset) ∈ s.hist.handled) :
    (KafkaIncidentWorker.commitMessage m).Safe (consumption env base).discipline w
      (fun _ => CaughtUp base w) (fun _ => InHand base w m) s := by
  refine safe_bind.mpr (Protocol.safe_issue fun t hf hR _ hI r _ => ?_)
  have ht := h.frame hf hR
  have hm' := hR.subset hm
  have hcommitted : ConsumerInv base
      { t with committed := Function.update t.committed m.source (m.offset + 1) } := by
    refine ⟨hI.ordered, fun source o hb ho => ?_⟩
    by_cases hs : source = m.source
    · subst hs
      simp only [Function.update_self] at ho
      rcases Nat.lt_succ_iff_lt_or_eq.mp ho with hlt | rfl
      · exact ht.below o hb hlt
      · exact hm'
    · simp only [Function.update_of_ne hs] at ho
      exact hI.committed source o hb ho
  rcases r with _ | ⟨e, _ | _⟩
  · exact ⟨hcommitted, fun _ _ => List.prefix_rfl, trivial, ht.caughtUp hm'⟩
  · exact ⟨hI, fun _ _ => List.prefix_rfl, trivial, ht⟩
  · exact ⟨hcommitted, fun _ _ => List.prefix_rfl, trivial, ht.position, ht.below, ht.others⟩

/-- The guarded call of the handler: an exception seeks back. -/
theorem guarded_safe (handler : MessageHandler) (h : InHand base w m s) :
    (tryException (some <$> handler.handle m.value) fun _ => do
      KafkaIncidentWorker.seekToMessage m
      return none).Safe (consumption env base).discipline w
      (fun outcome t => if outcome.isSome then InHand base w m t else CaughtUp base w t)
      (fun _ _ => True) s := by
  have hp : (handler.handle m.value).Safe (consumption env base).discipline w
      (fun _ => InHand base w m) (fun _ => InHand base w m) s :=
    handle_safe (handler.leavesConsumer m.value) h
  refine safe_tryCatch.mpr (safe_map.mpr (hp.mono (fun _ _ ht => ht) fun _ _ ht => ?_))
  exact safe_bind.mpr (seekToMessage_safe ht)

/-- **The loop body** leaves the consumer caught up, whatever the handler does. -/
theorem processMessage_safe (handler : MessageHandler) (h : InHand base w m s) :
    (KafkaIncidentWorker.processMessage handler.handle m).Safe (consumption env base).discipline w
      (fun _ => CaughtUp base w) (fun _ _ => True) s := by
  refine safe_bind.mpr ((guarded_safe handler h).mono (fun outcome t ht => ?_)
    fun _ _ _ => trivial)
  cases outcome with
  | none => exact ht
  | some outcome =>
      by_cases ho : outcome = .retry
      · subst ho
        exact safe_bind.mpr ((observe_retry_safe ht).mono (fun _ u hu => seekToMessage_safe hu)
          fun _ _ hx => hx)
      · refine safe_bind.mpr ((observe_safe ho ht).mono (fun _ u hu => ?_) fun _ _ hx => hx)
        rw [if_neg ho]
        refine safe_tryCatch.mpr ((commitMessage_safe hu.1 hu.2).mono (fun _ _ hv => hv)
          fun e v hv => ?_)
        split
        · exact seekToMessage_safe hv
        · trivial

/-! ## The worker -/

theorem stopRequested_safe (h : CaughtUp base w s) :
    stopRequested.Safe (consumption env base).discipline w (fun _ => CaughtUp base w) X s :=
  safe_other trivial fun _ _ hf hR => h.frame hf hR

theorem waitUntilReady_safe (topic : Text) (fuel : Nat) (h : CaughtUp base w s) :
    (KafkaIncidentWorker.waitUntilReady topic fuel).Safe (consumption env base).discipline w
      (fun _ => CaughtUp base w) (fun _ _ => True) s := by
  induction fuel generalizing s with
  | zero => exact h
  | succ fuel ih =>
      refine safe_bind.mpr ((stopRequested_safe h).mono (fun stop t ht => ?_) fun _ _ hx => hx)
      cases stop with
      | true => exact ht
      | false =>
          refine safe_bind.mpr (safe_tryCatch.mpr (Safe.mono (Q := fun _ => CaughtUp base w)
            (X := fun _ => CaughtUp base w) ?_ ?_ ?_))
          · refine safe_bind.mpr (safe_other trivial fun u r hf hR => ?_)
            have hu := ht.frame hf hR
            refine safe_bind.mpr (safe_answer.mpr ⟨fun _ _ => ?_, fun _ _ => hu⟩)
            exact safe_bind.mpr (safe_other trivial fun v _ hf hR => hu.frame hf hR)
          · intro ready u hu
            cases ready with
            | true => exact hu
            | false => exact ih hu
          · intro e u hu
            split
            · exact ih hu
            · trivial

theorem poll_safe (h : CaughtUp base w s) :
    (issue .poll).Safe (consumption env base).discipline w
      (fun r t => match r with
        | .ok (.message m) => InHand base w m t
        | _ => CaughtUp base w t) X s := by
  refine Protocol.safe_issue fun t hf hR _ hI r hp => ?_
  have ht := h.frame hf hR
  rcases r with e | _ | _ | m
  case ok.message =>
    obtain ⟨-, hposition⟩ := hp
    refine ⟨⟨hI.ordered, hI.committed⟩, fun _ _ => List.prefix_rfl, trivial, ?_, ?_,
      fun source q hne hq => ?_⟩
    · simp [after]
    · -- the position was there, or the partition was resumed at the committed offset
      rcases hposition with hpos | hcom
      · exact ht m.source m.offset hpos
      · exact hcom ▸ hI.committed m.source
    · simp only [after, Function.update_self, Function.update_of_ne hne] at hq
      exact ht source q hq
  all_goals exact ⟨hI, fun _ _ => List.prefix_rfl, trivial, ht⟩

theorem consume_safe (handler : MessageHandler) (fuel : Nat) (h : CaughtUp base w s) :
    (KafkaIncidentWorker.consume handler.handle fuel).Safe (consumption env base).discipline w
      (fun _ => CaughtUp base w) (fun _ _ => True) s := by
  induction fuel generalizing s with
  | zero => exact h
  | succ fuel ih =>
      refine safe_bind.mpr ((stopRequested_safe h).mono (fun stop t ht => ?_) fun _ _ hx => hx)
      cases stop with
      | true => exact ht
      | false =>
          refine safe_bind.mpr ((poll_safe ht).mono (fun r u hu => ?_) fun _ _ hx => hx)
          refine safe_bind.mpr (safe_answer.mpr ⟨fun result hr => ?_, fun _ _ => trivial⟩)
          subst hr
          cases result with
          | nothing => exact ih hu
          | error => exact ih hu
          | message m =>
              exact safe_bind.mpr ((processMessage_safe handler hu).mono (fun _ v hv => ih hv)
                fun _ _ _ => trivial)

/-- **The worker** keeps the discipline, whatever its handler does. -/
theorem run_safe (topic : Text) (handler : MessageHandler) (fuel : Nat)
    (h : CaughtUp base w s) :
    (KafkaIncidentWorker.run topic handler.handle fuel).Safe (consumption env base).discipline w
      (fun _ _ => True) (fun _ _ => True) s := by
  refine safe_bind.mpr ((waitUntilReady_safe topic fuel h).mono (fun ready t ht => ?_)
    fun _ _ _ => trivial)
  cases ready with
  | true => exact (consume_safe handler fuel ht).mono (fun _ _ _ => trivial) fun _ _ _ => trivial
  | false => trivial

end

/-! ## Runs -/

/-- A state before any worker of the group has started: nothing was handled, nobody
holds a position, and no transaction is under way. -/
structure ConsumerStart (s : World W) : Prop where
  handled : s.hist.handled = []
  position : ∀ w source, s.position w source = none
  staged : ∀ w, s.staged w = []

/-- A worker process: the handler it was given, and how long it runs. -/
structure WorkerJob where
  topic : Text
  handler : MessageHandler
  fuel : Nat

/-- Its program. -/
def WorkerJob.main (job : WorkerJob) : Py Unit :=
  KafkaIncidentWorker.run job.topic job.handler.handle job.fuel

/-- **The consumer loop never skips or reorders.**  In every run of any number of workers
that stop, crash and take over each other's partitions: a message is handled to an outcome
other than RETRY after every earlier message of its partition from the initial committed
offset on, and every such message below a committed offset has been handled. -/
theorem handled_in_order (jobs : W → WorkerJob) {s₀ : World W} (h₀ : ConsumerStart s₀)
    {p : Pool Resp PyExc Unit W (World W)}
    (hp : Pool.Reachable (platform env) (fun w => (jobs w).main) s₀ p) :
    (∀ (i : Nat) source o, p.world.hist.handled[i]? = some (source, o) →
      ∀ o', s₀.committed source ≤ o' → o' < o →
        ∃ j, j < i ∧ p.world.hist.handled[j]? = some (source, o')) ∧
    ∀ source o, s₀.committed source ≤ o → o < p.world.committed source →
      (source, o) ∈ p.world.hist.handled := by
  have hstart : (consumption env s₀.committed).discipline.inv s₀ := by
    refine ⟨fun w c hc => ?_, fun i source o hi => ?_, fun source o hb ho => ?_⟩
    · rw [h₀.staged w] at hc
      cases hc
    · rw [h₀.handled] at hi
      cases hi
    · omega
  have hsafe : ∀ w, ((jobs w).main).Safe (consumption env s₀.committed).discipline w
      (fun _ _ => True) (fun _ _ => True) s₀ := fun w =>
    run_safe (jobs w).topic (jobs w).handler (jobs w).fuel fun source q hq => by
      rw [h₀.position w source] at hq
      cases hq
  have hinv := (hp.unrestricted.inv hstart hsafe).2
  exact ⟨hinv.ordered, hinv.committed⟩

end

/-! ## A run -/

/-- Two messages in the one partition of a topic. -/
def twoMessages : World Bool :=
  { World.blank with log := fun source => if source = ⟨"incidents", 0⟩ then [none, none] else [] }

/-- The message at an offset of that partition. -/
def messageAt (offset : Nat) : Message := ⟨⟨"incidents", 0⟩, offset, none⟩

/-- A worker that finds every message processed. -/
def settlingWorker : WorkerJob := ⟨"incidents", ⟨fun _ => ret .processed, fun _ => trivial⟩, 5⟩

/-- The order of a run in which a worker crashes between handling and committing a message,
and another one takes over. -/
theorem handled_in_order_takeover :
    ∃ p : Pool Resp PyExc Unit Bool (World Bool),
      Pool.Reachable (platform Environment.calm) (fun _ => settlingWorker.main) twoMessages p ∧
      p.world.hist.handled.map (·.2) = [0, 0, 1] ∧
      ∀ o, o < p.world.committed ⟨"incidents", 0⟩ →
        (⟨"incidents", 0⟩, o) ∈ p.world.hist.handled := by
  obtain ⟨p, hp, hP⟩ := exists_run Environment.calm (fun _ => settlingWorker.main) twoMessages
    (fun p => p.world.hist.handled.map (·.2) = [0, 0, 1])
    [plain true 4, polls true (messageAt 0), plain true 1, .crash true,
      plain false 4, polls false (messageAt 0), plain false 3, polls false (messageAt 1),
      plain false 2] (by decide +kernel)
  have h₀ : ConsumerStart twoMessages := ⟨rfl, fun _ _ => rfl, fun _ => rfl⟩
  exact ⟨p, hp, of_decide_eq_true hP, fun o ho =>
    (handled_in_order (fun _ => settlingWorker) h₀ hp).2 _ o (Nat.zero_le o) ho⟩

end SupportPlatform

