import SemanticHighlight.Proofs.Worker.Permits
import SemanticHighlight.Proofs.Worker.Replies

/-!
# Whose worker a process is

A process belongs to the buffer whose permit it was started under. As a rule that buffer still has
the slot of the process and reports it. A permit that outlives a shutdown of its buffer can still be
used, though, and what it starts goes to the slot that the buffer has lost; such a process is there
only while such a permit is held.
-/

set_option autoImplicit false

namespace SemanticHighlight.Worker.Pool

variable {p : Pool} {l : Ledger} {past : List Event} {e : Event} {i : SlotId}

def asked (l : Ledger) : Event → List (Permit × Ledger)
  | .exchange _ permit _ _ => [(permit, l)]
  | _ => []

/-- The exchanges of a run in order; a process is known by its starting exchange's place in it. -/
def exchanged (p : Pool) (l : Ledger) : List Event → List (Permit × Ledger)
  | [] => []
  | e :: es => asked l e ++ (p.after e).exchanged (l.after p e) es

theorem exchanged_concat (p : Pool) (l : Ledger) (es : List Event) (e : Event) :
    p.exchanged l (es ++ [e]) = p.exchanged l es ++ asked (p.ledger l es) e := by
  induction es generalizing p l with
  | nil => exact List.append_nil _
  | cons d es ih =>
    change asked l d ++ exchanged _ _ (es ++ [e]) = (asked l d ++ exchanged _ _ es) ++ _
    rw [ih, List.append_assoc]
    rfl

theorem exchanges_after (p : Pool) (l : Ledger) (e : Event) :
    (p.after e).exchanges = p.exchanges + (asked l e).length := by
  cases e with
  | enter b => exact enter_exchanges p b
  | release permit =>
    obtain ⟨slots, h⟩ := release_eq p permit
    rw [after, h]
    rfl
  | exchange m permit t request => rfl
  | shutdown b =>
    obtain ⟨current, slots, h, -⟩ := shutdown_eq p b
    rw [after, h]
    rfl
  | die j =>
    obtain ⟨slots, h⟩ := slotDied_eq p j
    rw [after, h]
    rfl

theorem exchanged_length (p : Pool) (l : Ledger) (es : List Event) :
    (p.run es).exchanges = p.exchanges + (p.exchanged l es).length := by
  induction es using List.reverseRecOn with
  | nil => rfl
  | append_singleton es e ih =>
    rw [run_concat, exchanged_concat, exchanges_after _ (p.ledger l es), ih, List.length_append,
      Nat.add_assoc]

/-- Slot `i` has a process that was started under the permit when the ledger was `l₀`. Either the
buffer had the slot then and still has it, or it had lost the slot before, and a permit over the slot
is still held. -/
inductive Stands (p : Pool) (l : Ledger) (i : SlotId) (permit : Permit) (l₀ : Ledger) : Prop
  | regular (slot : permit.slot = i) (recent : permit ∈ l₀.recent)
    (holder : p.current.get? permit.buffer = some i)
  | late {kept : Permit} (slot : permit.slot = i) (held : permit ∈ l₀.held)
    (overtaken : permit ∉ l₀.recent) (vacant : ∀ b, p.current.get? b ≠ some i)
    (still : kept ∈ l.held) (same : kept.slot = i) (buffer : kept.buffer = permit.buffer)

theorem vacant_after (old : i < p.issued) (vacant : ∀ b, p.current.get? b ≠ some i) (b : BufferId) :
    (p.after e).current.get? b ≠ some i := by
  intro holder
  rcases holder_after holder with ⟨hc, -⟩ | ⟨-, new, -⟩
  · exact vacant b hc
  · exact absurd old (new ▸ Nat.lt_irrefl _)

theorem release_last {permit : Permit} (lost : p.current.get? permit.buffer ≠ some permit.slot)
    (last : p.taken permit.slot - 1 = 0) : (p.release permit).process? permit.slot = none := by
  unfold release
  cases hs : p.slots.get? permit.slot with
  | none => simp [process?, hs]
  | some s =>
    rw [taken_of_get? hs] at last
    simp [last, lost, process?]

/-- A slot that no buffer has keeps a process only as long as a permit over it is held. -/
theorem Balanced.lingers (h : p.Balanced l past) {q : Process}
    (vacant : ∀ b, p.current.get? b ≠ some i) (there : 0 < p.taken i)
    (hq : (p.after e).process? i = some q) : 0 < (p.after e).taken i := by
  cases e with
  | enter b =>
    rw [enter_taken h.fresh]
    exact Nat.lt_add_right _ there
  | release permit =>
    rw [Pool.after, release_taken]
    split
    · rename_i hi
      subst hi
      by_cases last : p.taken permit.slot - 1 = 0
      · rw [Pool.after, release_last (vacant permit.buffer) last] at hq
        cases hq
      · exact Nat.pos_of_ne_zero last
    · exact there
  | exchange m permit t request => exact (exchange_taken h.toTended permit i).symm ▸ there
  | shutdown b => exact (shutdown_taken p b i).symm ▸ there
  | die j => exact (slotDied_taken p i j).symm ▸ there

namespace Stands

variable {permit : Permit} {l₀ : Ledger}

theorem after (stands : Stands p l i permit l₀) (h : p.Balanced l past)
    (allowed : ∀ permit ∈ e.permit?, permit ∈ l.held) {q : Process}
    (hq : (p.after e).process? i = some q)
    (standing : ∀ b, e = .shutdown b → p.current.get? b ≠ some i) :
    Stands (p.after e) (l.after p e) i permit l₀ := by
  cases stands with
  | regular slot recent holder =>
    have kept := current_kept holder fun he => standing permit.buffer he holder
    exact .regular slot recent kept
  | @late kept slot held overtaken vacant still same buffer =>
    have there : 0 < p.taken i := same ▸ h.held_counted still
    have later := h.lingers vacant there hq
    have vacant' := vacant_after (e := e) (same ▸ (h.owned kept still).1) vacant
    rw [h.counted_after allowed, List.countP_pos_iff] at later
    obtain ⟨other, hother, hslot⟩ := later
    rw [decide_eq_true_eq] at hslot
    have old : other ∈ l.held := by
      rcases List.mem_append.mp (Balanced.held_after e hother) with new | old
      · exact absurd (hslot ▸ given_current new) (vacant' _)
      · exact old
    have shared := h.shared other old kept still (hslot.trans same.symm)
    exact .late slot held overtaken vacant' hother hslot (shared.trans buffer)

theorem start {m : Moment} {t : Target} {request : Bytes} (h : p.Balanced l past)
    (held : permit ∈ l.held) :
    Stands (p.after (.exchange m permit t request)) l permit.slot permit l := by
  by_cases holder : p.current.get? permit.buffer = some permit.slot
  · have recent : permit ∈ l.recent := by
      rw [h.recent, List.mem_filter]
      exact ⟨held, decide_eq_true holder⟩
    exact .regular rfl recent holder
  · have overtaken : permit ∉ l.recent := by
      rw [h.recent, List.mem_filter]
      exact fun recent => holder (of_decide_eq_true recent.2)
    have vacant (b : BufferId) : p.current.get? b ≠ some permit.slot := by
      intro hc
      have own := (h.owned permit held).2 b hc
      exact holder (own ▸ hc)
    exact .late rfl held overtaken vacant held rfl rfl

end Stands

def Traced (p : Pool) (l : Ledger) (log : List (Permit × Ledger)) : Prop :=
  ∀ i q, p.process? i = some q →
    ∃ permit l₀, log[q.pid]? = some (permit, l₀) ∧ Stands p l i permit l₀

theorem Traced.after {log : List (Permit × Ledger)} (traced : Traced p l log)
    (h : p.Balanced l past) (length : p.exchanges = log.length)
    (allowed : ∀ permit ∈ e.permit?, permit ∈ l.held) :
    Traced (p.after e) (l.after p e) (log ++ asked l e) := by
  intro i q' hq'
  have kept {q : Process} (was : p.process? i = some q) (pid : q'.pid = q.pid)
      (standing : ∀ b, e = .shutdown b → p.current.get? b ≠ some i) :
      ∃ permit l₀, (log ++ asked l e)[q'.pid]? = some (permit, l₀) ∧
        Stands (p.after e) (l.after p e) i permit l₀ := by
    obtain ⟨permit, l₀, recorded, stands⟩ := traced i q was
    have recorded' : (log ++ asked l e)[q'.pid]? = some (permit, l₀) := by
      have bound := (List.getElem?_eq_some_iff.mp recorded).1
      rw [pid, List.getElem?_append_left bound]
      exact recorded
    exact ⟨permit, l₀, recorded', stands.after h allowed hq' standing⟩
  cases after_leaves hq' with
  | kept was same unasked standing => exact kept was same.pid standing
  | @served m permit t request payload q event slot serving replied process =>
    have same := process ▸ q.roundTrip_same p.config.readTimeout request
    subst event slot
    rcases serving_origin serving with ⟨was, -⟩ | launched
    · exact kept was same.pid nofun
    · have recorded : (log ++ asked l (.exchange m permit t request))[q'.pid]? =
          some (permit, l) := by
        rw [same.pid, launched.pid, length]
        exact List.getElem?_concat_length
      exact ⟨permit, l, recorded, .start h (allowed permit rfl)⟩

theorem Traced.run {config : WorkerConfig} {es : List Event} (owned : Owned { config } {} es) :
    Traced (Pool.run { config } es) (ledger { config } {} es) (exchanged { config } {} es) := by
  induction es using List.reverseRecOn with
  | nil =>
    intro i q h
    cases h
  | append_singleton es e ih =>
    obtain ⟨before, allowed, -⟩ := owned_append.mp owned
    have length := exchanged_length { config } {} es
    rw [Nat.zero_add] at length
    rw [run_concat, ledger_concat, exchanged_concat]
    exact (ih before).after (balanced_run before) length allowed

def StartedFor (config : WorkerConfig) (es : List Event) (b : BufferId) (q : Process) : Prop :=
  ∃ permit l₀, (exchanged { config } {} es)[q.pid]? = some (permit, l₀) ∧ permit.buffer = b

structure Reported (config : WorkerConfig) (es : List Event) (b : BufferId) (i : SlotId)
    (q : Process) : Prop where
  holder : (run { config } es).current.get? b = some i
  pid : (run { config } es).pid? b = some q.pid

/-- The process was started under a permit over slot `i` that had outlived a shutdown of the buffer,
and such a permit is still held. -/
structure Late (config : WorkerConfig) (es : List Event) (b : BufferId) (i : SlotId) (q : Process) :
    Prop where
  started : ∃ permit l₀, (exchanged { config } {} es)[q.pid]? = some (permit, l₀) ∧
    permit.buffer = b ∧ permit.slot = i ∧ permit ∈ l₀.held ∧ permit ∉ l₀.recent
  kept : ∃ permit, permit.buffer = b ∧ permit.slot = i ∧
    permit ∈ (ledger { config } {} es).held ∧ permit ∉ (ledger { config } {} es).recent

theorem Stands.reported_or_late {config : WorkerConfig} {es : List Event}
    (owned : Owned { config } {} es) {permit : Permit} {l₀ : Ledger} {q : Process}
    (hq : (run { config } es).process? i = some q)
    (recorded : (exchanged { config } {} es)[q.pid]? = some (permit, l₀))
    (stands : Stands (run { config } es) (ledger { config } {} es) i permit l₀) :
    Reported config es permit.buffer i q ∨ Late config es permit.buffer i q := by
  cases stands with
  | regular slot recent holder =>
    have shown : (run { config } es).processOf? permit.buffer = some q :=
      processOf?_eq_some.mpr ⟨i, holder, hq⟩
    exact .inl ⟨holder, congrArg (Option.map Process.pid) shown⟩
  | @late kept slot held overtaken vacant still same buffer =>
    refine .inr ⟨⟨permit, l₀, recorded, rfl, slot, held, overtaken⟩,
      ⟨kept, buffer, same, still, ?_⟩⟩
    rw [(balanced_run owned).recent, List.mem_filter]
    exact fun recent => vacant kept.buffer (same ▸ of_decide_eq_true recent.2)

/-- At every point of a run at most as many permits are held over one slot as there may be, and so
for one buffer of those it was given since its last shutdown. Each process has been started for one
buffer, and is the process that this buffer reports, in the slot that it has, or else a late one. A
buffer that was shut down and not entered again reports no process and has none but late ones. No
process is late, and all permits are within the limit, while none is held that was overtaken by a
shutdown. -/
theorem one_worker_one_cap (config : WorkerConfig) (es : List Event)
    (owned : Owned { config } {} es) :
    (∀ i, (ledger { config } {} es).held.countP (·.slot = i) ≤ config.maxInFlight) ∧
    (∀ b, (ledger { config } {} es).recent.countP (·.buffer = b) ≤ config.maxInFlight) ∧
    (∀ i q, (run { config } es).process? i = some q → ∃ b, StartedFor config es b q) ∧
    (∀ b i q, (run { config } es).process? i = some q → StartedFor config es b q →
      Reported config es b i q ∨ Late config es b i q) ∧
    (∀ b done later, es = done ++ .shutdown b :: later → (∀ e ∈ later, e ≠ .enter b) →
      (run { config } es).pid? b = none ∧
      ∀ i q, (run { config } es).process? i = some q → StartedFor config es b q →
        Late config es b i q) ∧
    ∀ b, (∀ permit ∈ (ledger { config } {} es).held, permit.buffer = b →
        permit ∈ (ledger { config } {} es).recent) →
      (ledger { config } {} es).held.countP (·.buffer = b) ≤ config.maxInFlight ∧
      ∀ i q, (run { config } es).process? i = some q → StartedFor config es b q →
        Reported config es b i q := by
  have balanced := balanced_run owned
  have limit : (run { config } es).config = config := run_config { config } es
  have capped (b : BufferId) :
      (ledger { config } {} es).recent.countP (·.buffer = b) ≤ config.maxInFlight := by
    have capped := balanced.inFlight_le b
    rwa [balanced.inFlight_eq, limit] at capped
  have placed (b : BufferId) (i : SlotId) (q : Process)
      (hq : (run { config } es).process? i = some q) (started : StartedFor config es b q) :
      Reported config es b i q ∨ Late config es b i q := by
    obtain ⟨permit, l₀, recorded, rfl⟩ := started
    obtain ⟨permit', l₀', recorded', stands⟩ := Traced.run owned i q hq
    rw [recorded] at recorded'
    cases recorded'
    exact stands.reported_or_late owned hq recorded
  refine ⟨?_, capped, ?_, placed, ?_, ?_⟩
  · intro i
    have capped := balanced.capped i
    rwa [balanced.counted, limit] at capped
  · intro i q hq
    obtain ⟨permit, l₀, recorded, -⟩ := Traced.run owned i q hq
    exact ⟨permit.buffer, permit, l₀, recorded, rfl⟩
  · rintro b done later rfl unentered
    have vacant := vacated config done unentered
    constructor
    · rw [pid?, slot?, vacant]
      rfl
    · intro i q hq started
      rcases placed b i q hq started with reported | late
      · have holder := reported.holder
        rw [vacant] at holder
        cases holder
      · exact late
  · intro b fresh
    constructor
    · rw [balanced.held_recent fresh]
      exact capped b
    · intro i q hq started
      rcases placed b i q hq started with reported | late
      · exact reported
      · obtain ⟨permit, buffer, -, held, overtaken⟩ := late.kept
        exact absurd (fresh permit held buffer) overtaken

def soloConfig : WorkerConfig := { readerConfig with maxInFlight := 1 }

def overtaken : List Event := [.enter 1, .shutdown 1, askFaltering [97], .enter 1,
  .exchange falteringMoment ⟨1, 1⟩ (.ofFile 1 "/p/a.c" "/p") [97]]

/-- Two permits of the buffer are held where one is the limit, and two processes are alive of which
the buffer reports one; the other one was there before the buffer was entered again. -/
theorem overtaken_exceeds_limit :
    Owned { config := soloConfig } {} overtaken ∧ soloConfig.maxInFlight = 1 ∧
    (ledger { config := soloConfig } {} overtaken).held.countP (·.buffer = 1) = 2 ∧
    ((exchanged { config := soloConfig } {} overtaken).map fun x => x.1.buffer) = [1, 1] ∧
    (((run { config := soloConfig } overtaken).process? 0).map fun q => (q.pid, q.alive)) =
      some (0, true) ∧
    (((run { config := soloConfig } overtaken).process? 1).map fun q => (q.pid, q.alive)) =
      some (1, true) ∧
    (run { config := soloConfig } overtaken).pid? 1 = some 1 ∧
    (((run { config := soloConfig } (overtaken.take 3)).process? 0).map fun q =>
      (q.pid, q.alive)) = some (0, true) ∧
    (run { config := soloConfig } (overtaken.take 3)).pid? 1 = none := by
  refine ⟨by decide, rfl, by decide, by decide, by decide, by decide, by decide, by decide,
    by decide⟩

/-- The process in the slot that the buffer has lost is a late one. -/
theorem overtaken_late :
    Owned { config := soloConfig } {} (overtaken.take 3) ∧
    (∀ e ∈ [askFaltering [97]], e ≠ .enter 1) ∧
    ∃ q, (run { config := soloConfig } (overtaken.take 3)).process? 0 = some q ∧
      Late soloConfig (overtaken.take 3) 1 0 q := by
  have owned : Owned { config := soloConfig } {} (overtaken.take 3) := by decide
  have unentered : ∀ e ∈ [askFaltering [97]], e ≠ .enter 1 := by
    intro e he
    rw [List.mem_singleton.mp he]
    nofun
  obtain ⟨-, -, -, -, shut, -⟩ := one_worker_one_cap soloConfig (overtaken.take 3) owned
  exact ⟨owned, unentered, _, rfl,
    (shut 1 [.enter 1] [askFaltering [97]] rfl unentered).2 0 _ rfl ⟨_, _, rfl, rfl⟩⟩

end SemanticHighlight.Worker.Pool
