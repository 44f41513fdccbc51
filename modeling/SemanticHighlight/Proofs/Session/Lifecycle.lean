import SemanticHighlight.Proofs.Host.Display
import SemanticHighlight.Proofs.Session.Workers
import SemanticHighlight.Proofs.Worker.Lifecycle
import SemanticHighlight.Proofs.Worker.Replies

/-!
# Workers in a session

What the host makes of a reply is no concern of the worker: a pass whose batch is refused leaves the
worker that has replied running. Together with what holds at a pool this is the whole life of a
worker.
-/

set_option autoImplicit false

namespace SemanticHighlight.Session

variable {σ : Type} {host : Host σ}

open Worker (Event Pool Slot)

theorem external_refused {s : Session σ} {m : Worker.Moment} {b : BufferId} {content : String}
    {c : HostError} (h : (s.act host (.external m b content)).1 = .failed (.host c)) :
    ∃ p t text, s.workers? = some p ∧ s.attachment? b = some t ∧
      (p.invoke m (Target.ofFile b t.info.path t.info.root) (Text.bytes content)).reply =
        .ok (some text) := by
  change Outcome.ofExternal (s.highlightExternal host m b content).result = _ at h
  unfold highlightExternal at h
  split at h
  · cases h
  · rename_i p hp
    split at h
    · cases h
    · rename_i t ht
      dsimp only at h
      split at h
      · cases h
      · cases h
      · rename_i text hr
        exact ⟨p, t, text, hp, ht, hr⟩

/-- The worker whose reply a pass has read stays with its buffer, even if the host refuses what the
pass makes of the reply. -/
theorem refused_keeps_worker {s : Session σ} {p : Pool} (hp : s.workers? = some p) (h : p.Tended)
    {m : Worker.Moment} {b : BufferId} {content : String} {c : HostError}
    (refused : (s.act host (.external m b content)).1 = .failed (.host c)) :
    ∃ q q' p' slot, s.serving? m b = some q ∧ q'.SameAs q ∧
      (s.act host (.external m b content)).2.workers? = some p' ∧ p'.slot? b = some slot ∧
      slot.phase = .running ∧ slot.process? = some q' := by
  obtain ⟨p₀, t, text, hp₀, ht, hr⟩ := external_refused refused
  rw [hp] at hp₀
  cases hp₀
  obtain ⟨q, q', slot, served, same, hslot, running, process⟩ := Pool.invoke_answered h hr
  have serving : s.serving? m b = some q := by
    rw [serving?, hp, ht]
    exact served
  have workers : (s.act host (.external m b content)).2.workers? =
      some (p.invoke m (Target.ofFile b t.info.path t.info.root) (Text.bytes content)).pool := by
    rw [act_workers, hp, Option.map_some, workerEvents, ht, Pool.invoke_pool]
  exact ⟨q, q', _, slot, serving, same, workers, hslot, running, process⟩

/-- In every run of a pool in which permits are used that were given:

* at every point the slot of a buffer is coherent, and its phase is the first one if and only if no
  exchange has taken place over this slot;
* every exchange ends with a process that has replied, without one after an error of the wire (the
  request cannot be written, or the reply is no frame in time), with a start that failed, or with the
  slot as it was while no start is tried;
* a process that is recorded for a buffer stays recorded, unless on the way there is a shutdown, an
  error of the wire, or an exchange that finds the process dead.

After the run, an external pass of a session over these workers that its host fails leaves the
process that has replied, and its slot running. -/
theorem worker_lifecycle (config : WorkerConfig) (es : List Event)
    (permitted : Pool.Permitted { config } [] es) :
    (∀ done, done <+: es → ∀ b i, (Pool.run { config } done).current.get? b = some i →
      ∃ s, (Pool.run { config } done).slots.get? i = some s ∧ s.Coherent ∧
        (s.phase = .notStarted ↔ ∀ e ∈ done, ¬e.asks i)) ∧
    (∀ done m permit t request, done ++ [.exchange m permit t request] <+: es →
      let p := Pool.run { config } done
      let x := (p.exchange m permit t request).1
      Slot.Ends ((p.slots.get? permit.slot).getD {}) (p.serving? m permit t) x ∧
        (p.exchange m permit t request).2.slots.get? permit.slot = some x.slot) ∧
    (∀ done between, done ++ between <+: es →
      ∀ b q, (Pool.run { config } done).processOf? b = some q →
        (∃ q', (Pool.run { config } (done ++ between)).processOf? b = some q' ∧ q'.SameAs q) ∨
        ∃ mid e, mid ++ [e] <+: between ∧ (Pool.run { config } (done ++ mid)).Loss b e) ∧
    ∀ {σ : Type} (host : Host σ) (s : Session σ) (m : Worker.Moment) (b : BufferId)
      (content : String) (c : HostError), s.workers? = some (Pool.run { config } es) →
      (s.act host (.external m b content)).1 = .failed (.host c) →
      ∃ q q' p' slot, s.serving? m b = some q ∧ q'.SameAs q ∧
        (s.act host (.external m b content)).2.workers? = some p' ∧ p'.slot? b = some slot ∧
        slot.phase = .running ∧ slot.process? = some q' := by
  have tended (done : List Event) : (Pool.run { config } done).Tended :=
    (Pool.Tended.initial config).run done
  have recorded (done rest : List Event) (h : done ++ rest <+: es) :
      ∃ held, (Pool.run { config } done).Recorded held done ∧
        (Pool.run { config } done).Permitted held rest := by
    obtain ⟨later, rfl⟩ := h
    rw [List.append_assoc] at permitted
    obtain ⟨held, hr, permitted'⟩ := (Pool.Recorded.initial config).run permitted
    exact ⟨held, hr, permitted'.before⟩
  refine ⟨?_, ?_, ?_, ?_⟩
  · intro done h b i holder
    obtain ⟨held, hr, -⟩ := recorded done [] (by rwa [List.append_nil])
    obtain ⟨s, hs, started⟩ := hr.started b i holder
    have settled := hr.settled i s hs
    refine ⟨s, hs, settled.coherent (hr.manned b i s holder hs), ?_⟩
    rw [settled.unused, ← Bool.not_eq_true, started]
    simp
  · intro done m permit t request _
    exact ⟨Slot.exchange_ends _ _ _ _ _ ((tended done).settledOf _), by simp [Pool.exchange]⟩
  · intro done between h b q hq
    obtain ⟨held, hr, permitted'⟩ := recorded done between h
    have append (later : List Event) :
        Pool.run { config } (done ++ later) = (Pool.run { config } done).run later :=
      List.foldl_append
    simp only [append]
    exact hr.run_keeps permitted' hq
  · intro σ host s m b content c hs refused
    exact refused_keeps_worker hs (tended es) refused

open Worker.Pool (readerConfig askFaltering)

/-- A reply that is no text, one in two parts, and one that breaks off. -/
def falteringStart : List Event :=
  [.enter 1, askFaltering [97], askFaltering [98], askFaltering [99]]

def deafMoment : Worker.Moment := ⟨0, fun _ _ => .ok fun _ _ _ => { intake := .broken .brokenPipe }⟩

def falteringRun : List Event :=
  falteringStart ++ [.exchange deafMoment ⟨1, 0⟩ (.ofFile 1 "/p/a.c" "/p") [100]]

/-- A session over the workers that have broken off, on a screen that refuses the first batch. -/
def falteringSession : Session Screen :=
  { run screenHost (start plainSettings { refusals := [false, true] }) [.attach ⟨1, "c", "/p/a.c", "/p"⟩]
    with workers? := some (Pool.run { config := readerConfig } falteringRun) }

theorem faltering_lifecycle :
    Pool.Permitted { config := readerConfig } [] falteringRun ∧
    (∃ s, (Pool.run { config := readerConfig } falteringRun).slots.get? 0 = some s ∧ s.Coherent ∧
      (s.phase = .notStarted ↔ ∀ e ∈ falteringRun, ¬e.asks 0)) ∧
    (let p := Pool.run { config := readerConfig } falteringStart
      let x := (p.exchange deafMoment ⟨1, 0⟩ (.ofFile 1 "/p/a.c" "/p") [100]).1
      Slot.Ends ((p.slots.get? 0).getD {})
        (p.serving? deafMoment ⟨1, 0⟩ (.ofFile 1 "/p/a.c" "/p")) x ∧
      x.reply = .error (.protocol (.io .brokenPipe)) ∧ x.slot.phase = .restarting) ∧
    ∃ q q' p' slot, falteringSession.serving? readerMoment 1 = some q ∧ q'.SameAs q ∧
      (falteringSession.act screenHost (.external readerMoment 1 "")).2.workers? = some p' ∧
      p'.slot? 1 = some slot ∧ slot.phase = .running ∧ slot.process? = some q' := by
  have permitted : Pool.Permitted { config := readerConfig } [] falteringRun := by decide +kernel
  have holder : (Pool.run { config := readerConfig } falteringRun).current.get? 1 = some 0 := by
    decide +kernel
  have refused : (falteringSession.act screenHost (.external readerMoment 1 "")).1 =
      .failed (.host (.rejected "no batch")) := by decide +kernel
  obtain ⟨coherent, ends, -, hosted⟩ := worker_lifecycle readerConfig falteringRun permitted
  exact ⟨permitted, coherent _ (List.prefix_refl _) 1 0 holder,
    ⟨(ends falteringStart _ _ _ _ (List.prefix_refl _)).1, rfl, rfl⟩,
    hosted screenHost falteringSession readerMoment 1 "" _ rfl refused⟩

end SemanticHighlight.Session
