import SemanticHighlight.Proofs.Worker.Pool

/-!
# The worker of a buffer

Buffers have slots of their own, so an event at one buffer leaves the processes of the others as
they are. A buffer's process changes only if it is shut down or serves an exchange; an invocation is
served by the process the buffer has, or starts one.
-/

set_option autoImplicit false

namespace SemanticHighlight.Worker.Pool

variable {p : Pool} {m : Moment} {t : Target} {request : Bytes}

theorem current_after {e : Event} {b : BufferId} {i : SlotId}
    (h : (p.after e).current.get? b = some i) :
    p.current.get? b = some i ∧ e ≠ .shutdown b ∨
      e = .enter b ∧ i = p.issued ∧ (p.after e).process? i = none := by
  cases e with
  | enter b' =>
    rcases enter_eq p b' with ⟨slots, hp⟩ | ⟨slots, hp, new⟩
    · rw [after, hp] at h
      exact .inl ⟨h, by simp⟩
    · rw [after, hp, Keyed.get?_set] at h
      split at h
      · rename_i hb
        cases h
        exact .inr ⟨by rw [hb], rfl, new⟩
      · exact .inl ⟨h, by simp⟩
  | release permit =>
    obtain ⟨slots, hp⟩ := release_eq p permit
    rw [after, hp] at h
    exact .inl ⟨h, by simp⟩
  | exchange m permit t request => exact .inl ⟨h, by simp⟩
  | shutdown b' =>
    obtain ⟨current, slots, hp, kept⟩ := shutdown_eq p b'
    rw [after, hp] at h
    obtain ⟨was, hb⟩ := kept b i h
    have standing : Event.shutdown b' ≠ .shutdown b := by
      intro heq
      exact hb (Event.shutdown.inj heq).symm
    exact .inl ⟨was, standing⟩
  | die j =>
    obtain ⟨slots, hp⟩ := slotDied_eq p j
    rw [after, hp] at h
    exact .inl ⟨h, by simp⟩

/-- Each buffer has a slot of its own, which was made before. -/
structure Apart (p : Pool) : Prop where
  issued : ∀ b i, p.current.get? b = some i → i < p.issued
  apart : ∀ b b' i, p.current.get? b = some i → p.current.get? b' = some i → b' = b

namespace Apart

theorem initial (config : WorkerConfig) : Apart { config } where
  issued b i h := by cases h
  apart b b' i h := by cases h

theorem of_kept {p' : Pool} (hp : p.Apart) (hi : p'.issued = p.issued)
    (hc : ∀ b i, p'.current.get? b = some i → p.current.get? b = some i) : p'.Apart where
  issued b i h := hi ▸ hp.issued b i (hc b i h)
  apart b b' i h h' := hp.apart b b' i (hc b i h) (hc b' i h')

theorem after (hp : p.Apart) (e : Event) : (p.after e).Apart := by
  cases e with
  | enter b =>
    rcases enter_eq p b with ⟨slots, h⟩ | ⟨slots, h, -⟩
    · rw [Pool.after, h]
      exact hp.of_kept rfl fun _ _ => id
    · rw [Pool.after, h]
      have old (b' : BufferId) : p.current.get? b' ≠ some p.issued :=
        fun hb => Nat.lt_irrefl _ (hp.issued b' _ hb)
      constructor
      · intro b' i hb
        rw [Keyed.get?_set] at hb
        split at hb
        · cases hb
          exact Nat.lt_succ_self _
        · exact Nat.lt_succ_of_lt (hp.issued b' i hb)
      · intro b₁ b₂ i h₁ h₂
        rw [Keyed.get?_set] at h₁ h₂
        split at h₁ <;> split at h₂
        · simp [*]
        · cases h₁
          exact absurd h₂ (old b₂)
        · cases h₂
          exact absurd h₁ (old b₁)
        · exact hp.apart b₁ b₂ i h₁ h₂
  | release permit =>
    obtain ⟨slots, h⟩ := release_eq p permit
    rw [Pool.after, h]
    exact hp.of_kept rfl fun _ _ => id
  | exchange m permit t request => exact hp.of_kept rfl fun _ _ => id
  | shutdown b =>
    obtain ⟨current, slots, h, kept⟩ := shutdown_eq p b
    rw [Pool.after, h]
    exact hp.of_kept rfl fun b' i hb => (kept b' i hb).1
  | die i =>
    obtain ⟨slots, h⟩ := slotDied_eq p i
    rw [Pool.after, h]
    exact hp.of_kept rfl fun _ _ => id

theorem run (hp : p.Apart) (es : List Event) : (p.run es).Apart := by
  induction es generalizing p with
  | nil => exact hp
  | cons e es ih => exact ih (hp.after e)

end Apart

def processOf? (p : Pool) (b : BufferId) : Option Process := (p.slot? b).bind Slot.process?

theorem processOf?_eq_some {b : BufferId} {q : Process} :
    p.processOf? b = some q ↔ ∃ i, p.current.get? b = some i ∧ p.process? i = some q := by
  simp only [processOf?, slot?, process?, Option.bind_eq_some_iff]
  constructor
  · rintro ⟨s, ⟨i, hi, hs⟩, hq⟩
    exact ⟨i, hi, s, hs, hq⟩
  · rintro ⟨i, hi, s, hs, hq⟩
    exact ⟨s, ⟨i, hi, hs⟩, hq⟩

theorem after_processOf {e : Event} {b : BufferId} {q' : Process}
    (h : (p.after e).processOf? b = some q') :
    (∃ q, p.processOf? b = some q ∧ q'.SameAs q ∧ e ≠ .shutdown b) ∨
    ∃ m permit t request q, e = .exchange m permit t request ∧
      p.current.get? b = some permit.slot ∧ p.serving? m permit t = some q ∧ q'.SameAs q := by
  obtain ⟨i, hi, hq⟩ := processOf?_eq_some.mp h
  rcases current_after hi with ⟨hc, standing⟩ | ⟨-, -, new⟩
  · cases after_leaves hq with
    | kept was same => exact .inl ⟨_, processOf?_eq_some.mpr ⟨i, hc, was⟩, same.toSameAs, standing⟩
    | served event slot serving replied process =>
      have same := process ▸ Process.roundTrip_same _ _ _
      exact .inr ⟨_, _, _, _, _, event, slot ▸ hc, serving, same⟩
  · rw [new] at hq
    cases hq

theorem processDied_eq (p : Pool) (b : BufferId) : p.processDied b =
    p.run (match p.current.get? b with
      | none => []
      | some i => [.die i]) := by
  unfold processDied
  cases p.current.get? b <;> rfl

def invocation (p : Pool) (m : Moment) (t : Target) (request : Bytes) : List Event :=
  .enter t.buffer ::
    match (p.tryAdmit t.buffer).1 with
    | none => []
    | some permit => [.exchange m permit t request, .release permit]

theorem invoke_pool (p : Pool) (m : Moment) (t : Target) (request : Bytes) :
    (p.invoke m t request).pool = p.run (p.invocation m t request) := by
  unfold invoke invocation
  rcases henter : p.tryAdmit t.buffer with ⟨_ | permit, p'⟩
  · simp [run, after, henter]
  · simp [run, after, henter]

def servingFor? (p : Pool) (m : Moment) (t : Target) : Option Process :=
  match p.tryAdmit t.buffer with
  | (none, _) => none
  | (some permit, p) => p.serving? m permit t

theorem enter_permit {b : BufferId} {permit : Permit} {p' : Pool}
    (h : p.tryAdmit b = (some permit, p')) : p'.current.get? b = some permit.slot := by
  unfold tryAdmit claim at h
  cases hc : p.current.get? b with
  | some i =>
    rw [hc] at h
    dsimp only at h
    split at h <;> cases h
    exact hc
  | none =>
    rw [hc] at h
    dsimp only at h
    split at h <;> cases h
    simp

theorem permit_buffer {b : BufferId} {permit : Permit} {p' : Pool}
    (h : p.tryAdmit b = (some permit, p')) : permit.buffer = b := by
  unfold tryAdmit at h
  dsimp only at h
  split at h <;> cases h
  rfl

theorem slot?_released {permit : Permit}
    (holder : p.current.get? permit.buffer = some permit.slot) :
    ((p.exchange m permit t request).2.release permit).slot? permit.buffer =
      some { (p.exchange m permit t request).1.slot with
        inFlight := (p.exchange m permit t request).1.slot.inFlight - 1 } := by
  have hs : (p.exchange m permit t request).2.slots.get? permit.slot =
      some (p.exchange m permit t request).1.slot := by simp [exchange]
  have hc : (p.exchange m permit t request).2.current.get? permit.buffer = some permit.slot :=
    holder
  simp [release, hs, hc, slot?]

theorem invoke_reply {q : Process} (h : p.servingFor? m t = some q) (request : Bytes) :
    (p.invoke m t request).reply =
      (Slot.answer (q.roundTrip p.config.readTimeout request)).map some := by
  rw [invoke]
  rw [servingFor?] at h
  rcases henter : p.tryAdmit t.buffer with ⟨_ | permit, p'⟩
  · simp only [henter] at h
    cases h
  · simp only [henter] at h ⊢
    have hconfig : p'.config = p.config := by
      have := after_config p (.enter t.buffer)
      rwa [after, henter] at this
    change (Slot.exchange _ m _ t request _).reply.map some = _
    rw [Slot.exchange_reply h, hconfig]

theorem invoke_unserved (h : p.servingFor? m t = none) (request : Bytes) :
    (p.invoke m t request).reply = .ok none ∨
      ∃ e, (p.invoke m t request).reply = .error e ∧ Slot.unsent e := by
  rw [invoke]
  rw [servingFor?] at h
  rcases henter : p.tryAdmit t.buffer with ⟨_ | permit, p'⟩
  · exact .inl rfl
  · simp only [henter] at h
    obtain ⟨e, hr, he⟩ := Slot.exchange_unserved h request
    have reply := congrArg (Except.map some) he
    exact .inr ⟨e, reply, (Slot.ensureRunning_error hr).1⟩

theorem enter_processOf {b b' : BufferId} {q : Process}
    (h : (p.after (.enter b)).processOf? b' = some q) : p.processOf? b' = some q := by
  obtain ⟨i, hi, hq⟩ := processOf?_eq_some.mp h
  rcases current_after hi with ⟨hc, -⟩ | ⟨-, -, new⟩
  · exact processOf?_eq_some.mpr ⟨i, hc, enter_process hq⟩
  · rw [new] at hq
    cases hq

theorem enter_exchanges (p : Pool) (b : BufferId) :
    (p.after (.enter b)).exchanges = p.exchanges := by
  rcases enter_eq p b with ⟨slots, h⟩ | ⟨slots, h, -⟩
  all_goals rw [after, h]

theorem servingFor_origin {q : Process} (h : p.servingFor? m t = some q) :
    p.processOf? t.buffer = some q ∨ Slot.Launched p.config m p.exchanges t q := by
  unfold servingFor? at h
  split at h
  · cases h
  · rename_i permit p' henter
    have hp' : p.after (.enter t.buffer) = p' := by rw [after, henter]
    rcases serving_origin h with ⟨hq, -⟩ | hl
    · have was : (p.after (.enter t.buffer)).processOf? t.buffer = some q := by
        rw [hp']
        exact processOf?_eq_some.mpr ⟨permit.slot, enter_permit henter, hq⟩
      exact .inl (enter_processOf was)
    · rw [← hp', after_config, enter_exchanges] at hl
      exact .inr hl

/-- The process a buffer has after an invocation is the one it had, or has served the invocation. -/
theorem invoke_processOf (hp : p.Apart) {b : BufferId} {q' : Process}
    (h : (p.invoke m t request).pool.processOf? b = some q') :
    (∃ q, p.processOf? b = some q ∧ q'.SameAs q) ∨
    b = t.buffer ∧ ∃ q, p.servingFor? m t = some q ∧ q'.SameAs q := by
  rw [invoke_pool, invocation] at h
  rcases henter : p.tryAdmit t.buffer with ⟨_ | permit, p'⟩
  · rw [henter] at h
    exact .inl ⟨q', enter_processOf h, .refl q'⟩
  · rw [henter] at h
    have hp' : p.after (.enter t.buffer) = p' := by rw [after, henter]
    change (((p.after (.enter t.buffer)).after (.exchange m permit t request)).after
      (.release permit)).processOf? b = some q' at h
    rcases after_processOf h with ⟨q₁, h₁, same₁, -⟩ | ⟨_, _, _, _, _, ⟨⟩, -⟩
    rcases after_processOf h₁ with ⟨q₂, h₂, same₂, -⟩ | ⟨_, _, _, _, q₂, ⟨⟩, hc, hs, same₂⟩
    · exact .inl ⟨q₂, enter_processOf h₂, same₁.trans same₂⟩
    · have apart := (hp.after (.enter t.buffer)).apart
      rw [hp'] at hc hs apart
      have hb : b = t.buffer := apart _ _ _ (enter_permit henter) hc
      have served : p.servingFor? m t = some q₂ := by
        rw [servingFor?, henter]
        exact hs
      exact .inr ⟨hb, q₂, served, same₁.trans same₂⟩

end SemanticHighlight.Worker.Pool
