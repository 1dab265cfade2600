import SupportPlatform.AcceptedIncidents
import SupportPlatform.Ranking

/-! # Listing incidents

`IncidentRepository.list` (`app/repositories/incidents.py`), which `GET /incidents` returns a
page of.  A client turns the pages while incidents go on being accepted: a later page is read
from a later state, where new incidents stand before those it is still to see, or among them,
since identifiers are drawn before the transaction commits.  Incidents are never taken back, so
each only moves to a later place, and none is skipped.
-/
namespace SupportPlatform
open Program World Ranking

/-! ## The statement -/

/-- The optional filters of a listing. -/
structure IncidentFilters where
  service : Option Text
  severity : Option Severity
  classification : Option IncidentClassification

/-- Its WHERE clauses. -/
def IncidentFilters.selects (filters : IncidentFilters) (i : Incident) : Bool :=
  filters.service.all (i.service = ·) && filters.severity.all (i.resolvedSeverity = ·) &&
    filters.classification.all (i.classification = ·)

/-- `IncidentRepository.list`: the selected incidents, the newest first. -/
def IncidentRepository.list (db : Database) (filters : IncidentFilters) (limit offset : Nat) :
    List Incident :=
  (((db.incidents.filter filters.selects).insertionSort fun a b => b.id ≤ a.id).drop offset).take
    limit

/-! ## Its order -/

/-- Newer incidents have greater identifiers, and come first. -/
def Incident.recency (i : Incident) : ℤᵒᵈ := OrderDual.toDual i.id

theorem recency_lt {i j : Incident} : i.recency < j.recency ↔ j.id < i.id := Iff.rfl

section
variable {db : Database} {filters : IncidentFilters} {limit offset : Nat}

theorem nodup_recency (h : (db.incidents.map (·.id)).Nodup) :
    ((db.incidents.filter filters.selects).map Incident.recency).Nodup := by
  have hids : ((db.incidents.filter filters.selects).map (·.id)).Nodup :=
    h.sublist (List.filter_sublist.map _)
  rw [List.Nodup, List.pairwise_map] at hids ⊢
  exact hids.imp fun hne heq => hne (OrderDual.toDual_inj.mp heq)

/-- A listing is a page of the incidents ranked by recency. -/
theorem list_eq_page (h : (db.incidents.map (·.id)).Nodup) :
    IncidentRepository.list db filters limit offset =
      page Incident.recency (db.incidents.filter filters.selects) offset limit := by
  have hperm := List.perm_insertionSort (fun a b : Incident => b.id ≤ a.id)
    (db.incidents.filter filters.selects)
  -- identifiers are distinct, so the order of the statement is strict
  have hsorted : ((db.incidents.filter filters.selects).insertionSort
      fun a b => b.id ≤ a.id).Pairwise fun a b => a.recency < b.recency := by
    have hle := List.pairwise_insertionSort (fun a b : Incident => b.id ≤ a.id)
      (db.incidents.filter filters.selects)
    have hne := (hperm.map Incident.recency).nodup_iff.mpr (nodup_recency h)
    rw [List.Nodup, List.pairwise_map] at hne
    exact hle.imp₂ (fun a b hab hne => lt_of_le_of_ne (α := ℤᵒᵈ) hab hne) hne
  rw [page, rank_eq hperm hsorted, IncidentRepository.list]

end

/-! ## Turning the pages -/

section
variable [Runtime] [Pydantic] {W : Type} [DecidableEq W] {env : Environment} {s₀ : World W}

/-- **Listing skips nothing.**  In every run of the platform, turn the pages of a listing, each
read in a later state, up to one that is not full: every selected incident that was there when
the first page was read is on one of them.  And one that is on two of them has had a new
selected incident with a greater identifier committed in between. -/
theorem listing_skips_nothing [LawfulPydantic] (jobs : W → PlatformJob) (h₀ : PlatformStart s₀)
    (filters : IncidentFilters) {limit last : Nat}
    (pools : Nat → Pool Resp PyExc Unit W (World W))
    (hfirst : Pool.Reachable (platform env) (fun w => (jobs w).main) s₀ (pools 0))
    (hturn : ∀ k < last,
      Relation.ReflTransGen (Pool.Next (platform env)) (pools k) (pools (k + 1)))
    (hlast : (IncidentRepository.list (pools last).world.db filters limit
      (last * limit)).length < limit) :
    (∀ i ∈ (pools 0).world.db.incidents, filters.selects i = true → ∃ k ≤ last,
      i ∈ IncidentRepository.list (pools k).world.db filters limit (k * limit)) ∧
    ∀ j k, j < k → k ≤ last → ∀ i,
      i ∈ IncidentRepository.list (pools j).world.db filters limit (j * limit) →
      i ∈ IncidentRepository.list (pools k).world.db filters limit (k * limit) →
      ∃ new ∈ (pools k).world.db.incidents, new ∉ (pools j).world.db.incidents ∧
        filters.selects new = true ∧ i.id < new.id := by
  -- every page is read in the run, and each from no fewer incidents than the one before
  have hreached : ∀ k ≤ last, Pool.Reachable (platform env) (fun w => (jobs w).main) s₀
      (pools k) := by
    intro k
    induction k with
    | zero => exact fun _ => hfirst
    | succ k ih => exact fun hk => (ih (by omega)).run (hturn k (by omega))
  have hids : ∀ k ≤ last, ((pools k).world.db.incidents.map (·.id)).Nodup := fun k hk =>
    (h₀.delivered jobs (hreached k hk)).incidents
  have hgrow : ∀ k < last, ((pools k).world.db.incidents.filter filters.selects).Sublist
      ((pools (k + 1)).world.db.incidents.filter filters.selects) := by
    intro k hk
    have hprefix := h₀.keepsIncidents jobs (hreached k (by omega)) (hturn k hk)
    exact hprefix.sublist.filter filters.selects
  constructor
  · intro i hi hselects
    rw [list_eq_page (hids last le_rfl)] at hlast
    obtain ⟨k, hk, hmem⟩ := exists_page (fun k hk => nodup_recency (hids k hk))
      hgrow hlast (List.mem_filter.mpr ⟨hi, hselects⟩)
    refine ⟨k, hk, ?_⟩
    rw [list_eq_page (hids k hk)]
    exact hmem
  · intro j k hjk hk i hij hik
    have hj : j ≤ last := by omega
    rw [list_eq_page (hids j hj)] at hij
    rw [list_eq_page (hids k hk)] at hik
    obtain ⟨new, hnew, hold, hlt⟩ := exists_new_of_shown_again hjk (nodup_recency (hids j hj))
      (nodup_recency (hids k hk)) hij hik
    obtain ⟨hmem, hselects⟩ := List.mem_filter.mp hnew
    exact ⟨new, hmem, fun h => hold (List.mem_filter.mpr ⟨h, hselects⟩), hselects,
      recency_lt.mp hlt⟩

end

/-! ## A listing -/

/-- The incidents of one service. -/
def ofService (service : Text) : IncidentFilters := ⟨some service, none, none⟩

/-- Two intakes of the same error. -/
def twoIntakes (_ : Bool) : PlatformJob := intakeAndWorker true

/-- The first calls of one of them, which draws this identifier for its event. -/
def intakeCalls (w : Bool) (eventId : Uuid) : Turn Resp Bool (World Bool) := .calls w 10 fun o s =>
  match o with
  | .uuid4 => eventId
  | o => plainAnswer w o s

/-- The first of three pages is read when one incident was accepted, the others when a second
one was as well: the first incident is on two of them, the new one being in between. -/
theorem listing_skips_nothing_accepted :
    ∃ p q : Pool Resp PyExc Unit Bool (World Bool),
      Pool.Reachable (platform Environment.calm) (fun w => (twoIntakes w).main) World.blank p ∧
      Relation.ReflTransGen (Pool.Next (platform Environment.calm)) p q ∧
      p.world.db.incidents.map (·.id) = [1] ∧ q.world.db.incidents.map (·.id) = [1, 2] ∧
      (∀ i ∈ p.world.db.incidents, ∃ k ≤ 2, i ∈ IncidentRepository.list
        (if k = 0 then p else q).world.db (ofService "api") 1 (k * 1)) ∧
      ∀ i ∈ p.world.db.incidents, ∃ new ∈ q.world.db.incidents,
        new ∉ p.world.db.incidents ∧ (ofService "api").selects new = true ∧ i.id < new.id := by
  obtain ⟨p, q, hp, hq, hP⟩ := exists_runs Environment.calm (fun w => (twoIntakes w).main)
    World.blank (fun p q => p.world.db.incidents.map (·.id) = [1] ∧
      q.world.db.incidents.map (·.id) = [1, 2] ∧
      p.world.db.incidents.all (ofService "api").selects = true ∧
      (IncidentRepository.list q.world.db (ofService "api") 1 2).length < 1 ∧
      p.world.db.incidents.all (fun i => decide (
        i ∈ IncidentRepository.list p.world.db (ofService "api") 1 0 ∧
        i ∈ IncidentRepository.list q.world.db (ofService "api") 1 1)) = true)
    [intakeCalls true 1] [intakeCalls false 2] (by decide +kernel)
  simp only [decide_eq_true_eq] at hP
  obtain ⟨hfirst, hsecond, hselects, hlast, hshown⟩ := hP
  obtain ⟨honce, hagain⟩ := @listing_skips_nothing _ _ Bool _ _ _ _ twoIntakes .blank
    (ofService "api") 1 2 (fun k => if k = 0 then p else q) hp
    (fun k _ => by
      cases k with
      | zero => exact hq
      | succ k => exact .refl) hlast
  refine ⟨p, q, hp, hq, hfirst, hsecond,
    fun i hi => honce i hi (List.all_eq_true.mp hselects i hi), fun i hi => ?_⟩
  obtain ⟨hzero, hone⟩ := of_decide_eq_true (List.all_eq_true.mp hshown i hi)
  exact hagain 0 1 Nat.zero_lt_one (Nat.le_succ 1) i hzero hone

end SupportPlatform
