import SemanticHighlight.Proofs.Session.Workers
import SemanticHighlight.Proofs.Worker.Permits

/-!
# Admission

A buffer's counter is the number of permits it was given since its last shutdown and has not got
back. A request is refused exactly when that is the limit. A request that is admitted gives its
permit back however it ends, so it leaves no trace in any counter, and what is done for one buffer
leaves the counters of the others alone.
-/

set_option autoImplicit false

namespace SemanticHighlight

namespace Worker

def Event.buffer? : Event → Option BufferId
  | .enter b => some b
  | .release permit => some permit.buffer
  | .exchange _ permit _ _ => some permit.buffer
  | .shutdown b => some b
  | .die _ => none

namespace Pool

variable {p : Pool} {l : Ledger} {past : List Event} {m : Moment} {t : Target} {request : Bytes}

theorem inFlight_slotOf (p : Pool) (b : BufferId) : (p.slotOf b).inFlight = p.inFlight b := by
  rw [slotOf, inFlight]
  cases p.slot? b <;> rfl

theorem refused_iff (within : ∀ b, p.inFlight b ≤ p.config.maxInFlight) (b : BufferId) :
    (p.tryAdmit b).1 = none ↔ p.inFlight b = p.config.maxInFlight := by
  have bound := within b
  have counter := inFlight_slotOf p b
  by_cases full : (p.slotOf b).inFlight + 1 > p.config.maxInFlight
  · obtain ⟨p', h, -⟩ := tryAdmit_full full
    simp only [h, true_iff]
    omega
  · obtain ⟨permit, p', h, -⟩ := tryAdmit_free full
    simp only [h, reduceCtorEq, false_iff]
    omega

theorem refused_unchanged (admits : 0 < p.config.maxInFlight) {b : BufferId}
    (refused : (p.tryAdmit b).1 = none) : (p.tryAdmit b).2 = p := by
  cases hc : p.current.get? b with
  | some i =>
    rw [tryAdmit_held hc] at refused ⊢
    split at refused
    · rename_i full
      rw [if_pos full]
    · cases refused
  | none =>
    rw [tryAdmit_unheld hc] at refused
    dsimp only at refused
    split at refused
    · omega
    · cases refused

theorem given_buffer {b : BufferId} {permit : Permit} (h : permit ∈ p.given (.enter b)) :
    permit.buffer = b := by
  rw [given, Option.mem_toList] at h
  exact permit_buffer (Prod.ext h rfl)

theorem recent_elsewhere (l : Ledger) {e : Event} {b : BufferId} (other : e.buffer? ≠ some b) :
    (l.after p e).recent.countP (·.buffer = b) = l.recent.countP (·.buffer = b) := by
  cases e with
  | enter b' =>
    have none : (p.given (.enter b')).countP (·.buffer = b) = 0 := by
      rw [List.countP_eq_zero]
      intro permit hp
      rw [decide_eq_true_eq, given_buffer hp]
      exact fun same => other (same ▸ rfl)
    rw [Ledger.after, List.countP_append, none, Nat.zero_add]
  | release permit =>
    have kept : permit.buffer ≠ b := fun same => other (same ▸ rfl)
    simp [Ledger.after, List.countP_erase, kept]
  | exchange m permit t request => rfl
  | shutdown b' =>
    rw [Ledger.after, List.countP_filter]
    apply List.countP_congr
    intro permit hp
    have kept : b ≠ b' := fun same => other (same ▸ rfl)
    simp only [Bool.and_eq_true, decide_eq_true_eq, and_iff_left_iff_imp]
    rintro rfl
    exact kept
  | die i => rfl

theorem Balanced.inFlight_elsewhere (h : p.Balanced l past) {e : Event}
    (allowed : ∀ permit ∈ e.permit?, permit ∈ l.held) {b : BufferId} (other : e.buffer? ≠ some b) :
    (p.after e).inFlight b = p.inFlight b := by
  rw [(h.after allowed).inFlight_eq, h.inFlight_eq, recent_elsewhere l other]

theorem Balanced.overtaken_inFlight (h : p.Balanced l past) {permit : Permit}
    (held : permit ∈ l.held) (overtaken : permit ∉ l.recent) (b : BufferId) :
    (p.release permit).inFlight b = p.inFlight b := by
  have later := h.after (e := .release permit) (by simpa [Event.permit?] using held)
  change (p.after (.release permit)).inFlight b = _
  rw [later.inFlight_eq, h.inFlight_eq, Ledger.after, List.erase_of_not_mem overtaken]

theorem invocation_owned (p : Pool) (l : Ledger) (m : Moment) (t : Target) (request : Bytes) :
    p.Owned l (p.invocation m t request) ∧ p.ledger l (p.invocation m t request) = l := by
  unfold invocation
  cases admitted : (p.tryAdmit t.buffer).1 with
  | none =>
    have none : p.given (.enter t.buffer) = [] := by rw [given, admitted]; rfl
    simp [Owned, ledger, Ledger.after, Event.permit?, none]
  | some permit =>
    have one : p.given (.enter t.buffer) = [permit] := by rw [given, admitted]; rfl
    simp [Owned, ledger, Ledger.after, Event.permit?, one]

theorem Balanced.invocation_inFlight (h : p.Balanced l past) (m : Moment) (t : Target)
    (request : Bytes) (b : BufferId) :
    (p.run (p.invocation m t request)).inFlight b = p.inFlight b := by
  obtain ⟨owned, returned⟩ := invocation_owned p l m t request
  rw [(h.run owned).inFlight_eq, returned, h.inFlight_eq]

end Pool

end Worker

open Worker Worker.Pool

theorem highlightExternal_inFlight {σ : Type} {p : Pool} {l : Ledger} {past : List Event}
    (h : p.Balanced l past) (host : Host σ) {s : Session σ} {m : Moment} {b : BufferId}
    {content : String} (workers : s.workers? = some p) :
    ∃ p', (s.highlightExternal host m b content).session.workers? = some p' ∧
      ∀ b', p'.inFlight b' = p.inFlight b' := by
  have acted := s.act_workers host (.external m b content)
  rw [workers] at acted
  refine ⟨_, acted, ?_⟩
  intro b'
  dsimp only [Session.workerEvents]
  split
  · rfl
  · exact h.invocation_inFlight _ _ _ b'

/-- What the counters of a pool tell, with at most `limit` permits for each buffer. -/
structure Accounted (p : Pool) (l : Ledger) (limit : Nat) : Prop where
  inFlight : ∀ b, p.inFlight b = l.recent.countP (·.buffer = b)
  within : ∀ b, p.inFlight b ≤ limit
  returned : ∀ permit ∈ l.held,
    (p.release permit).taken permit.slot + 1 = p.taken permit.slot
  refused_iff : ∀ b, (p.tryAdmit b).1 = none ↔ p.inFlight b = limit
  refused : ∀ b, (p.tryAdmit b).1 = none → (p.tryAdmit b).2 = p
  /-- A whole request is a run that uses no permit but its own, and leaves none. -/
  whole : ∀ m t request, ∃ es, (p.invoke m t request).pool = p.run es ∧ p.Owned l es ∧
    p.ledger l es = l
  restored : ∀ m t request b, (p.invoke m t request).pool.inFlight b = p.inFlight b
  /-- Nor does it matter what the host makes of a reply. -/
  passed : ∀ (σ : Type) (host : Host σ) (s : Session σ) m b content, s.workers? = some p →
    ∃ p', (s.highlightExternal host m b content).session.workers? = some p' ∧
      ∀ b', p'.inFlight b' = p.inFlight b'
  overtaken : ∀ permit ∈ l.held, permit ∉ l.recent →
    ∀ b, (p.release permit).inFlight b = p.inFlight b
  elsewhere : ∀ e b, (∀ permit ∈ e.permit?, permit ∈ l.held) → e.buffer? ≠ some b →
    (p.after e).inFlight b = p.inFlight b

/-- The counters are right at every point of a run, whatever the settings allow. -/
theorem admission_accounted (settings : WorkerSettings) (config : WorkerConfig)
    (configured : WorkerConfig.ofSettings? settings = some config) (es : List Event)
    (owned : Owned { config } {} es) :
    Accounted (run { config } es) (ledger { config } {} es) (max settings.maxInFlight.toNat 1) := by
  have balanced := balanced_run owned
  have limit : (run { config } es).config.maxInFlight = max settings.maxInFlight.toNat 1 := by
    obtain ⟨binary, -, rfl⟩ := Option.map_eq_some_iff.mp configured
    rw [run_config]
  have admits : 0 < (run { config } es).config.maxInFlight := by
    rw [limit]
    omega
  rw [← limit]
  exact {
    inFlight := balanced.inFlight_eq
    within := balanced.inFlight_le
    returned := by
      intro permit held
      have counted := balanced.held_counted held
      rw [release_taken, if_pos rfl]
      omega
    refused_iff := refused_iff balanced.inFlight_le
    refused := fun b => refused_unchanged admits
    whole := fun m t request =>
      ⟨_, invoke_pool _ m t request, invocation_owned _ _ m t request⟩
    restored := by
      intro m t request b
      rw [invoke_pool, balanced.invocation_inFlight]
    passed := fun σ host s m b content => highlightExternal_inFlight balanced host
    overtaken := fun permit held overtaken => balanced.overtaken_inFlight held overtaken
    elsewhere := fun e b allowed other => balanced.inFlight_elsewhere allowed other }

/-- A permit is overtaken by a shutdown, and the buffer is given another. -/
def reentered : List Event := [.enter 1, .shutdown 1, .enter 1]

/-- A limit of zero counts as one. -/
theorem reentered_accounted : ∃ config,
    WorkerConfig.ofSettings? { binary := some "reader", maxInFlight := 0 } = some config ∧
    Owned { config } {} reentered ∧
    ledger { config } {} reentered = ⟨[⟨1, 1⟩, ⟨1, 0⟩], [⟨1, 1⟩]⟩ ∧
    (run { config } reentered).inFlight 1 = 1 ∧
    Accounted (run { config } reentered) ⟨[⟨1, 1⟩, ⟨1, 0⟩], [⟨1, 1⟩]⟩ 1 :=
  ⟨_, rfl, by decide, by decide, by decide,
    admission_accounted { binary := some "reader", maxInFlight := 0 } _ rfl reentered (by decide)⟩

end SemanticHighlight
