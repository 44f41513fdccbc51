import SemanticHighlight.Proofs.Worker.Buffers

/-!
# A buffer's slot by itself

What an invocation comes to is decided by the slot of its buffer alone: neither the slots of other
buffers nor the number under which a process is known play a part in it.
-/

set_option autoImplicit false

namespace SemanticHighlight

namespace Process

def anonymous (q : Process) : Process := { q with pid := 0 }

theorem await_anonymous (q : Process) (timeout : Duration) (available : Bytes) (r : Reaction) :
    q.anonymous.await timeout available r =
      { q.await timeout available r with
        process := (q.await timeout available r).process.anonymous } := by
  unfold await
  split
  · rfl
  · dsimp only
    split <;> rfl

theorem receive_anonymous (q : Process) (timeout : Duration) (request : Bytes) (r : Reaction) :
    q.anonymous.receive timeout request r =
      { q.receive timeout request r with
        process := (q.receive timeout request r).process.anonymous } := by
  unfold receive
  dsimp only [anonymous]
  split
  · rfl
  · exact await_anonymous { q with
      served := q.served ++ [request]
      alive := q.alive && !r.exits } timeout _ _
  · rfl

theorem roundTrip_anonymous (q : Process) (timeout : Duration) (request : Bytes) :
    q.anonymous.roundTrip timeout request =
      { q.roundTrip timeout request with
        process := (q.roundTrip timeout request).process.anonymous } := by
  unfold roundTrip
  split
  · rfl
  · dsimp only [anonymous]
    split
    · rfl
    · exact receive_anonymous q timeout request _

end Process

namespace Worker

namespace Slot

variable {s : Slot}

def anonymous (s : Slot) : Slot := { s with process? := s.process?.map Process.anonymous }

@[simp] theorem anonymous_process (s : Slot) :
    s.anonymous.process? = s.process?.map Process.anonymous := rfl

theorem launch_anonymous (c : WorkerConfig) (m : Moment) (pid : Nat) (t : Target) (s : Slot) :
    s.anonymous.launch c m 0 t = ((s.launch c m pid t).1, (s.launch c m pid t).2.anonymous) := by
  unfold launch
  split <;> rfl

theorem start_anonymous (c : WorkerConfig) (m : Moment) (pid : Nat) (t : Target) (s : Slot) :
    s.anonymous.start c m 0 t = ((s.start c m pid t).1, (s.start c m pid t).2.anonymous) := by
  have retryAt : s.anonymous.retryAt? = s.retryAt? := rfl
  unfold start
  rw [retryAt]
  split
  · split
    · rfl
    · exact launch_anonymous c m pid t s
  · exact launch_anonymous c m pid t s

theorem ensureRunning_anonymous (c : WorkerConfig) (m : Moment) (pid : Nat) (t : Target)
    (s : Slot) :
    s.anonymous.ensureRunning c m 0 t =
      ((s.ensureRunning c m pid t).1, (s.ensureRunning c m pid t).2.anonymous) := by
  have started : s.anonymous.started = s.started := rfl
  unfold ensureRunning
  rw [started]
  split
  · cases hq : s.process? with
    | none =>
      simp only [anonymous_process, hq, Option.map_none]
      exact start_anonymous c m pid t s
    | some q =>
      simp only [anonymous_process, hq, Option.map_some, Process.anonymous]
      split
      · rfl
      · exact start_anonymous c m pid t { s with process? := none, phase := .restarting }
  · exact start_anonymous c m pid t { s with started := true, phase := .starting }

theorem exchange_anonymous (c : WorkerConfig) (m : Moment) (pid : Nat) (t : Target)
    (request : Bytes) (s : Slot) :
    s.anonymous.exchange c m 0 t request =
      { s.exchange c m pid t request with
        slot := (s.exchange c m pid t request).slot.anonymous } := by
  unfold exchange
  rw [ensureRunning_anonymous c m pid t s]
  rcases s.ensureRunning c m pid t with ⟨e | u, s'⟩
  · rfl
  · dsimp only
    cases hq : s'.process? with
    | none =>
      simp only [anonymous_process, hq, Option.map_none]
      rfl
    | some q =>
      simp only [anonymous_process, hq, Option.map_some, Process.roundTrip_anonymous]
      cases (q.roundTrip c.readTimeout request).reply with
      | error e => rfl
      | ok payload =>
        dsimp only
        cases Text.ofBytes? payload <;> rfl

end Slot

/-- What one request to a slot comes to, with its permit taken and given back. -/
structure Visit where
  reply : Except Error (Option String)
  slot : Slot
  finished : Instant
  additions : List Addition

def Visit.anonymous (v : Visit) : Visit := { v with slot := v.slot.anonymous }

def Slot.visit (c : WorkerConfig) (m : Moment) (pid : Nat) (t : Target) (request : Bytes)
    (s : Slot) : Visit :=
  if s.inFlight + 1 > c.maxInFlight then ⟨.ok none, s, m.now, []⟩
  else
    let x := { s with inFlight := s.inFlight + 1 }.exchange c m pid t request
    ⟨x.reply.map some, { x.slot with inFlight := x.slot.inFlight - 1 }, x.finished, x.additions⟩

theorem Slot.visit_anonymous (c : WorkerConfig) (m : Moment) (pid : Nat) (t : Target)
    (request : Bytes) (s : Slot) :
    s.anonymous.visit c m 0 t request = (s.visit c m pid t request).anonymous := by
  have inFlight : s.anonymous.inFlight = s.inFlight := rfl
  unfold visit
  rw [inFlight]
  split
  · rfl
  · have asked : Slot.exchange c m 0 t request { s.anonymous with inFlight := s.inFlight + 1 } = _ :=
      exchange_anonymous c m pid t request { s with inFlight := s.inFlight + 1 }
    simp only [asked]
    rfl

namespace Pool

variable {p : Pool} {m : Moment} {t : Target} {request : Bytes}

def slotOf (p : Pool) (b : BufferId) : Slot := (p.slot? b).getD {}

theorem bind_set (holder : Option SlotId) (slots : Keyed SlotId Slot) (j : SlotId) (s : Slot) :
    holder.bind (slots.set j s).get? = if holder = some j then some s else holder.bind slots.get? := by
  cases holder with
  | none => rfl
  | some i => simp only [Option.bind_some, Keyed.get?_set, Option.some.injEq]

theorem bind_erase (holder : Option SlotId) (slots : Keyed SlotId Slot) (j : SlotId) :
    holder.bind (slots.erase j).get? = if holder = some j then none else holder.bind slots.get? := by
  cases holder with
  | none => rfl
  | some i => simp only [Option.bind_some, Keyed.get?_erase, Option.some.injEq]

theorem tryAdmit_full {b : BufferId} (full : (p.slotOf b).inFlight + 1 > p.config.maxInFlight) :
    ∃ p', p.tryAdmit b = (none, p') ∧ p'.slotOf b = p.slotOf b := by
  cases hc : p.current.get? b with
  | some i =>
    have hs : p.slotOf b = (p.slots.get? i).getD {} := by rw [slotOf, slot?, hc]; rfl
    rw [hs] at full
    exact ⟨p, by rw [tryAdmit_held hc, if_pos full], rfl⟩
  | none =>
    have hs : p.slotOf b = {} := by rw [slotOf, slot?, hc]; rfl
    rw [hs] at full ⊢
    exact ⟨_, (tryAdmit_unheld hc).trans (if_pos full), by simp [slotOf, slot?]⟩

theorem tryAdmit_free {b : BufferId} (free : ¬(p.slotOf b).inFlight + 1 > p.config.maxInFlight) :
    ∃ permit p', p.tryAdmit b = (some permit, p') ∧ p'.slots.get? permit.slot =
      some { p.slotOf b with inFlight := (p.slotOf b).inFlight + 1 } := by
  cases hc : p.current.get? b with
  | some i =>
    have hs : p.slotOf b = (p.slots.get? i).getD {} := by rw [slotOf, slot?, hc]; rfl
    rw [hs] at free ⊢
    exact ⟨_, _, (tryAdmit_held hc).trans (if_neg free), by simp⟩
  | none =>
    have hs : p.slotOf b = {} := by rw [slotOf, slot?, hc]; rfl
    rw [hs] at free ⊢
    exact ⟨_, _, (tryAdmit_unheld hc).trans (if_neg free), by simp⟩

theorem invoke_visit (p : Pool) (m : Moment) (t : Target) (request : Bytes) :
    (p.slotOf t.buffer).visit p.config m p.exchanges t request =
      { reply := (p.invoke m t request).reply
        slot := (p.invoke m t request).pool.slotOf t.buffer
        finished := (p.invoke m t request).finished
        additions := (p.invoke m t request).additions } := by
  have config := after_config p (.enter t.buffer)
  have exchanges := enter_exchanges p t.buffer
  by_cases full : (p.slotOf t.buffer).inFlight + 1 > p.config.maxInFlight
  · obtain ⟨p', henter, kept⟩ := tryAdmit_full full
    simp only [Slot.visit, if_pos full, invoke, henter, kept]
  · obtain ⟨permit, p', henter, hs⟩ := tryAdmit_free full
    have buffer := permit_buffer henter
    have holder : p'.current.get? permit.buffer = some permit.slot := buffer ▸ enter_permit henter
    rw [after, henter] at config exchanges
    have asked : Slot.exchange p.config m p.exchanges t request
        { p.slotOf t.buffer with inFlight := (p.slotOf t.buffer).inFlight + 1 } =
          (p'.exchange m permit t request).1 := by
      rw [exchange, hs, ← config, ← exchanges]
      rfl
    have released : ((p'.exchange m permit t request).2.release permit).slotOf permit.buffer =
        { (p'.exchange m permit t request).1.slot with
          inFlight := (p'.exchange m permit t request).1.slot.inFlight - 1 } := by
      rw [slotOf, slot?_released holder]
      rfl
    rw [buffer] at released
    simp only [Slot.visit, if_neg full, invoke, henter, asked, released]

/-- Pools whose slots for a buffer agree but for the number of the process give it the same answer,
and slots that agree again. -/
theorem invoke_congr {p p' : Pool} (config : p.config = p'.config)
    (slot : (p.slotOf t.buffer).anonymous = (p'.slotOf t.buffer).anonymous) (m : Moment)
    (request : Bytes) :
    (p.invoke m t request).reply = (p'.invoke m t request).reply ∧
      ((p.invoke m t request).pool.slotOf t.buffer).anonymous =
        ((p'.invoke m t request).pool.slotOf t.buffer).anonymous ∧
      (p.invoke m t request).finished = (p'.invoke m t request).finished ∧
      (p.invoke m t request).additions = (p'.invoke m t request).additions := by
  have visits : ((p.slotOf t.buffer).visit p.config m p.exchanges t request).anonymous =
      ((p'.slotOf t.buffer).visit p'.config m p'.exchanges t request).anonymous := by
    rw [← Slot.visit_anonymous, ← Slot.visit_anonymous, slot, config]
  rw [invoke_visit, invoke_visit] at visits
  exact ⟨congrArg Visit.reply visits, congrArg Visit.slot visits, congrArg Visit.finished visits,
    congrArg Visit.additions visits⟩

theorem shutdown_slotOf (p : Pool) (b : BufferId) : (p.shutdown b).slotOf b = {} := by
  unfold slotOf slot? shutdown
  cases hc : p.current.get? b with
  | none => simp [hc]
  | some i =>
    dsimp only
    split
    · simp
    · split <;> simp

theorem enter_slot? (hp : p.Apart) {b b' : BufferId} (hb : b ≠ b') :
    (p.tryAdmit b').2.slot? b = p.slot? b := by
  cases hc : p.current.get? b' with
  | some i =>
    have other : p.current.get? b ≠ some i := fun holder => hb (hp.apart _ _ _ hc holder)
    rw [tryAdmit_held hc]
    split
    · rfl
    · rw [slot?, bind_set, if_neg other, slot?]
  | none =>
    have other : p.current.get? b ≠ some p.issued := fun holder =>
      Nat.lt_irrefl _ (hp.issued _ _ holder)
    rw [tryAdmit_unheld hc]
    dsimp only
    split
    · rw [slot?, Keyed.get?_set, if_neg hb, bind_set, if_neg other, slot?]
    · rw [slot?, Keyed.get?_set, if_neg hb, bind_set, if_neg other, bind_set, if_neg other, slot?]

theorem exchange_slot? {permit : Permit} {b : BufferId}
    (other : p.current.get? b ≠ some permit.slot) :
    (p.exchange m permit t request).2.slot? b = p.slot? b := by
  rw [exchange, slot?, bind_set, if_neg other, slot?]

theorem release_slot? {permit : Permit} {b : BufferId}
    (other : p.current.get? b ≠ some permit.slot) : (p.release permit).slot? b = p.slot? b := by
  unfold release
  split
  · rfl
  · dsimp only
    split
    · rw [slot?, bind_erase, if_neg other, slot?]
    · rw [slot?, bind_set, if_neg other, slot?]

theorem invoke_slot? (hp : p.Apart) {b : BufferId} (hb : b ≠ t.buffer) :
    (p.invoke m t request).pool.slot? b = p.slot? b := by
  have entered := enter_slot? hp hb
  rw [invoke]
  rcases henter : p.tryAdmit t.buffer with ⟨_ | permit, p'⟩
  · rwa [henter] at entered
  · have apart : p'.Apart := by
      have := hp.after (.enter t.buffer)
      rwa [after, henter] at this
    have other : p'.current.get? b ≠ some permit.slot := fun holder =>
      hb (apart.apart _ _ _ (enter_permit henter) holder)
    rw [henter] at entered
    change ((p'.exchange m permit t request).2.release permit).slot? b = _
    rw [release_slot? (p := (p'.exchange m permit t request).2) other, exchange_slot? other, entered]

theorem shutdown_slot? (hp : p.Apart) {b b' : BufferId} (hb : b ≠ b') :
    (p.shutdown b').slot? b = p.slot? b := by
  unfold shutdown
  cases hc : p.current.get? b' with
  | none => rfl
  | some i =>
    have other : p.current.get? b ≠ some i := fun holder => hb (hp.apart _ _ _ hc holder)
    dsimp only
    split
    · rw [slot?, Keyed.get?_erase, if_neg hb, slot?]
    · split
      · rw [slot?, Keyed.get?_erase, if_neg hb, bind_erase, if_neg other, slot?]
      · rw [slot?, Keyed.get?_erase, if_neg hb, bind_set, if_neg other, slot?]

end Pool

end Worker

end SemanticHighlight
