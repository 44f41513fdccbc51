import SemanticHighlight.Proofs.Worker.Slot
import SemanticHighlight.Worker.Pool

/-!
# Events at a pool

Whatever is done with a pool is made of five events. `after_leaves` says which process each of them
leaves in a slot: one that was there, perhaps dead by now, or the one that has just served an
exchange.
-/

set_option autoImplicit false

namespace SemanticHighlight.Worker

inductive Event where
  | enter (b : BufferId)
  | release (permit : Permit)
  | exchange (m : Moment) (permit : Permit) (t : Target) (request : Bytes)
  | shutdown (b : BufferId)
  | die (i : SlotId)

namespace Pool

variable {p : Pool} {m : Moment} {t : Target} {request : Bytes}

def slotDied (p : Pool) (i : SlotId) : Pool :=
  match p.slots.get? i with
  | none => p
  | some s =>
    let process? := s.process?.map fun q => { q with alive := false }
    { p with slots := p.slots.set i { s with process? } }

def after (p : Pool) : Event → Pool
  | .enter b => (p.tryAdmit b).2
  | .release permit => p.release permit
  | .exchange m permit t request => (p.exchange m permit t request).2
  | .shutdown b => p.shutdown b
  | .die i => p.slotDied i

def run (p : Pool) (es : List Event) : Pool := es.foldl after p

def process? (p : Pool) (i : SlotId) : Option Process := (p.slots.get? i).bind Slot.process?

def serving? (p : Pool) (m : Moment) (permit : Permit) (t : Target) : Option Process :=
  ((p.slots.get? permit.slot).getD {}).serving? p.config m p.exchanges t

theorem getD_process? (p : Pool) (i : SlotId) :
    ((p.slots.get? i).getD {}).process? = p.process? i := by
  unfold process?
  cases p.slots.get? i <;> rfl

theorem process?_set {p' : Pool} {j : SlotId} {s : Slot} (h : p'.slots = p.slots.set j s)
    (i : SlotId) : p'.process? i = if i = j then s.process? else p.process? i := by
  rw [process?, h, Keyed.get?_set]
  split <;> rfl

theorem process?_erase {p' : Pool} {j : SlotId} (h : p'.slots = p.slots.erase j) (i : SlotId) :
    p'.process? i = if i = j then none else p.process? i := by
  rw [process?, h, Keyed.get?_erase]
  split <;> rfl

theorem serving_origin {permit : Permit} {q : Process} (h : p.serving? m permit t = some q) :
    p.process? permit.slot = some q ∧ q.alive ∨ Slot.Launched p.config m p.exchanges t q := by
  rw [← getD_process?]
  exact Slot.serving_origin h

theorem claim_process {b : BufferId} {i : SlotId} {q : Process}
    (h : (p.claim b).2.2.process? i = some q) : p.process? i = some q := by
  unfold claim at h
  split at h
  · exact h
  · rw [process?_set (p := p) rfl] at h
    split at h
    · cases h
    · exact h

theorem claim_slot {b : BufferId} {q : Process} (h : (p.claim b).2.1.process? = some q) :
    p.process? (p.claim b).1 = some q := by
  unfold claim at h ⊢
  split at h
  · rename_i i hi
    rw [getD_process?] at h
    simpa only [hi] using h
  · cases h

theorem enter_process {b : BufferId} {i : SlotId} {q : Process}
    (h : (p.tryAdmit b).2.process? i = some q) : p.process? i = some q := by
  unfold tryAdmit at h
  dsimp only at h
  split at h
  · exact claim_process h
  · rw [process?_set (p := (p.claim b).2.2) rfl] at h
    split at h
    · rename_i hi
      rw [hi]
      exact claim_slot h
    · exact claim_process h

theorem release_process {permit : Permit} {i : SlotId} {q : Process}
    (h : (p.release permit).process? i = some q) : p.process? i = some q := by
  unfold release at h
  split at h
  · exact h
  · rename_i s hs
    dsimp only at h
    split at h
    · rw [process?_erase (p := p) rfl] at h
      split at h
      · cases h
      · exact h
    · rw [process?_set (p := p) rfl] at h
      split at h
      · rename_i hi
        rw [hi, process?, hs]
        exact h
      · exact h

theorem shutdown_process {b : BufferId} {i : SlotId} {q : Process}
    (h : (p.shutdown b).process? i = some q) :
    p.process? i = some q ∧ p.current.get? b ≠ some i := by
  unfold shutdown at h
  split at h
  · rename_i hc
    rw [hc]
    exact ⟨h, nofun⟩
  · rename_i j hc
    rw [hc]
    dsimp only at h
    split at h
    · rename_i hs
      constructor
      · exact h
      · intro heq
        cases heq
        rw [process?, hs] at h
        cases h
    · split at h
      · rw [process?_erase (p := p) rfl] at h
        split at h
        · cases h
        · rename_i hi
          exact ⟨h, fun heq => hi (Option.some.inj heq).symm⟩
      · rw [process?_set (p := p) rfl] at h
        split at h
        · cases h
        · rename_i hi
          exact ⟨h, fun heq => hi (Option.some.inj heq).symm⟩

theorem slotDied_process {i j : SlotId} {q' : Process} (h : (p.slotDied j).process? i = some q') :
    ∃ q, p.process? i = some q ∧ q'.Untouched q := by
  unfold slotDied at h
  split at h
  · exact ⟨q', h, .refl q'⟩
  · rename_i s hs
    rw [process?_set (p := p) rfl] at h
    split at h
    · rename_i hi
      obtain ⟨q, hq, rfl⟩ := Option.map_eq_some_iff.mp h
      have was : p.process? i = some q := by
        rw [hi, process?, hs]
        exact hq
      exact ⟨q, was, ⟨rfl, rfl, rfl⟩, rfl, rfl, nofun⟩
    · exact ⟨q', h, .refl q'⟩

inductive Leaves (p : Pool) (e : Event) (i : SlotId) (q' : Process) : Prop
  | kept {q : Process} (was : p.process? i = some q) (same : q'.Untouched q)
    (unasked : ∀ m permit t request, e = .exchange m permit t request → permit.slot = i →
      p.serving? m permit t = none) (standing : ∀ b, e = .shutdown b → p.current.get? b ≠ some i) :
    Leaves p e i q'
  | served {m : Moment} {permit : Permit} {t : Target} {request payload : Bytes} {q : Process}
    (event : e = .exchange m permit t request) (slot : permit.slot = i)
    (serving : p.serving? m permit t = some q)
    (replied : (q.roundTrip p.config.readTimeout request).reply = .ok payload)
    (process : q' = (q.roundTrip p.config.readTimeout request).process) : Leaves p e i q'

theorem after_leaves {e : Event} {i : SlotId} {q' : Process}
    (h : (p.after e).process? i = some q') : Leaves p e i q' := by
  cases e with
  | enter b => exact .kept (enter_process h) (.refl q') nofun nofun
  | release permit => exact .kept (release_process h) (.refl q') nofun nofun
  | exchange m permit t request =>
    simp only [after, exchange] at h
    rw [process?_set (p := p) rfl] at h
    split at h
    · rename_i hi
      rcases Slot.exchange_leaves h with ⟨unserved, hq⟩ | ⟨q, payload, serving, replied, hq⟩
      · rw [getD_process?] at hq
        have unasked (m' : Moment) (permit' : Permit) (t' : Target) (request' : Bytes)
            (h : Event.exchange m permit t request = .exchange m' permit' t' request')
            (_ : permit'.slot = i) : p.serving? m' permit' t' = none := by
          cases h
          exact unserved
        exact .kept (hi ▸ hq) (.refl q') unasked nofun
      · exact .served rfl hi.symm serving replied hq
    · rename_i hi
      have unasked (m' : Moment) (permit' : Permit) (t' : Target) (request' : Bytes)
          (h : Event.exchange m permit t request = .exchange m' permit' t' request')
          (hslot : permit'.slot = i) : p.serving? m' permit' t' = none := by
        cases h
        exact absurd hslot.symm hi
      exact .kept h (.refl q') unasked nofun
  | shutdown b =>
    obtain ⟨was, off⟩ := shutdown_process h
    have standing (b' : BufferId) (hb : Event.shutdown b = .shutdown b') :
        p.current.get? b' ≠ some i := by
      cases hb
      exact off
    exact .kept was (.refl q') nofun standing
  | die j =>
    obtain ⟨q, hq, same⟩ := slotDied_process h
    exact .kept hq same nofun nofun

theorem tryAdmit_held {b : BufferId} {i : SlotId} (h : p.current.get? b = some i) :
    p.tryAdmit b =
      if ((p.slots.get? i).getD {}).inFlight + 1 > p.config.maxInFlight then (none, p)
      else (some ⟨b, i⟩, { p with slots := p.slots.set i { (p.slots.get? i).getD {} with
        inFlight := ((p.slots.get? i).getD {}).inFlight + 1 } }) := by
  rw [tryAdmit, claim, h]

theorem tryAdmit_unheld {b : BufferId} (h : p.current.get? b = none) :
    p.tryAdmit b =
      let p' := { p with current := p.current.set b p.issued, issued := p.issued + 1 }
      if 1 > p.config.maxInFlight then (none, { p' with slots := p.slots.set p.issued {} })
      else (some ⟨b, p.issued⟩, { p' with
        slots := (p.slots.set p.issued {}).set p.issued { inFlight := 1 } }) := by
  rw [tryAdmit, claim, h]

theorem enter_eq (p : Pool) (b : BufferId) :
    (∃ slots, (p.tryAdmit b).2 = { p with slots }) ∨
    ∃ slots, (p.tryAdmit b).2 =
        { p with slots, current := p.current.set b p.issued, issued := p.issued + 1 } ∧
      (p.tryAdmit b).2.process? p.issued = none := by
  unfold tryAdmit claim
  cases p.current.get? b with
  | some i =>
    dsimp only
    split
    · exact .inl ⟨p.slots, rfl⟩
    · exact .inl ⟨_, rfl⟩
  | none =>
    dsimp only
    split
    · exact .inr ⟨_, rfl, by simp [process?]⟩
    · exact .inr ⟨_, rfl, by simp [process?]⟩

theorem release_eq (p : Pool) (permit : Permit) : ∃ slots, p.release permit = { p with slots } := by
  unfold release
  split
  · exact ⟨p.slots, rfl⟩
  · dsimp only
    split <;> exact ⟨_, rfl⟩

theorem shutdown_eq (p : Pool) (b : BufferId) :
    ∃ current slots, p.shutdown b = { p with current, slots } ∧
      ∀ b' i, current.get? b' = some i → p.current.get? b' = some i ∧ b' ≠ b := by
  have erased : ∀ b' i, (p.current.erase b).get? b' = some i →
      p.current.get? b' = some i ∧ b' ≠ b := by
    intro b' i hi
    rw [Keyed.get?_erase] at hi
    split at hi
    · cases hi
    · rename_i hb
      exact ⟨hi, hb⟩
  unfold shutdown
  split
  · rename_i hc
    have kept (b' : BufferId) (i : SlotId) (hi : p.current.get? b' = some i) :
        p.current.get? b' = some i ∧ b' ≠ b := by
      constructor
      · exact hi
      · rintro rfl
        rw [hc] at hi
        cases hi
    exact ⟨p.current, p.slots, rfl, kept⟩
  · dsimp only
    split
    · exact ⟨_, p.slots, rfl, erased⟩
    · split <;> exact ⟨_, _, rfl, erased⟩

theorem slotDied_eq (p : Pool) (i : SlotId) : ∃ slots, p.slotDied i = { p with slots } := by
  unfold slotDied
  split
  · exact ⟨p.slots, rfl⟩
  · exact ⟨_, rfl⟩

theorem after_config (p : Pool) (e : Event) : (p.after e).config = p.config := by
  cases e with
  | enter b =>
    rcases enter_eq p b with ⟨slots, h⟩ | ⟨slots, h, -⟩
    all_goals rw [after, h]
  | release permit =>
    obtain ⟨slots, h⟩ := release_eq p permit
    rw [after, h]
  | exchange m permit t request => rfl
  | shutdown b =>
    obtain ⟨current, slots, h, -⟩ := shutdown_eq p b
    rw [after, h]
  | die i =>
    obtain ⟨slots, h⟩ := slotDied_eq p i
    rw [after, h]

theorem run_config (p : Pool) (es : List Event) : (p.run es).config = p.config := by
  induction es generalizing p with
  | nil => rfl
  | cons e es ih => exact (ih (p.after e)).trans (after_config p e)

theorem exchanges_le (p : Pool) (e : Event) : p.exchanges ≤ (p.after e).exchanges := by
  cases e with
  | enter b =>
    rcases enter_eq p b with ⟨slots, h⟩ | ⟨slots, h, -⟩
    all_goals exact Nat.le_of_eq (by rw [after, h])
  | release permit =>
    obtain ⟨slots, h⟩ := release_eq p permit
    exact Nat.le_of_eq (by rw [after, h])
  | exchange m permit t request => exact Nat.le_succ _
  | shutdown b =>
    obtain ⟨current, slots, h, -⟩ := shutdown_eq p b
    exact Nat.le_of_eq (by rw [after, h])
  | die i =>
    obtain ⟨slots, h⟩ := slotDied_eq p i
    exact Nat.le_of_eq (by rw [after, h])

end Pool

end SemanticHighlight.Worker
