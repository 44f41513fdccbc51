import SemanticHighlight.Proofs.Worker.Buffers
import SemanticHighlight.Proofs.Worker.Phases

/-!
# The life of a worker

Whatever happens at a pool, the slot of every buffer is coherent, and a recorded process gives way
only to an error of the wire, to its own death or to a shutdown. `after_becomes` says what an
event can make of a slot; a slot that was forgotten loses its process and is then only settled.
-/

set_option autoImplicit false

namespace SemanticHighlight.Worker

def Event.permit? : Event → Option Permit
  | .release permit => some permit
  | .exchange _ permit _ _ => some permit
  | _ => none

def Event.asks (i : SlotId) : Event → Prop
  | .exchange _ permit _ _ => permit.slot = i
  | _ => False

namespace Pool

variable {p : Pool} {m : Moment} {t : Target} {request : Bytes}

/-- The event does not ask slot `i`, nor take it from its buffer, nor make it. -/
def Spares (p : Pool) (i : SlotId) : Event → Prop
  | .exchange _ permit _ _ => permit.slot ≠ i
  | .shutdown b => p.current.get? b ≠ some i
  | .enter b => p.current.get? b = none → i ≠ p.issued
  | _ => True

inductive Becomes (p : Pool) (e : Event) (i : SlotId) (s' : Slot) : Prop
  | counted {s : Slot} {n : Nat} (was : p.slots.get? i = some s) (now : s' = { s with inFlight := n })
    (spared : p.Spares i e)
  | made {b : BufferId} {n : Nat} (event : e = .enter b)
    (vacant : p.current.get? b = some i ∧ p.slots.get? i = none ∨
      p.current.get? b = none ∧ i = p.issued) (now : s' = { inFlight := n })
  | asked {m : Moment} {permit : Permit} {t : Target} {request : Bytes}
    (event : e = .exchange m permit t request) (slot : permit.slot = i)
    (now : s' = (((p.slots.get? i).getD {}).exchange p.config m p.exchanges t request).slot)
  | stopped {b : BufferId} {s : Slot} (event : e = .shutdown b) (holder : p.current.get? b = some i)
    (was : p.slots.get? i = some s) (now : s' = { s with process? := none })
  | died {s : Slot} (event : e = .die i) (was : p.slots.get? i = some s)
    (now : s' = { s with process? := s.process?.map fun q => { q with alive := false } })

theorem enter_becomes {b : BufferId} {i : SlotId} {s' : Slot}
    (h : (p.after (.enter b)).slots.get? i = some s') : Becomes p (.enter b) i s' := by
  cases hc : p.current.get? b with
  | some j =>
    have spared : p.Spares i (.enter b) := by
      intro vacant
      rw [hc] at vacant
      cases vacant
    rw [after, tryAdmit_held hc] at h
    split at h
    · exact .counted h rfl spared
    · rw [Keyed.get?_set] at h
      split at h
      · rename_i hi
        subst hi
        cases h
        cases hs : p.slots.get? i with
        | some s => exact .counted hs rfl spared
        | none => exact .made rfl (.inl ⟨hc, hs⟩) rfl
      · exact .counted h rfl spared
  | none =>
    rw [after, tryAdmit_unheld hc] at h
    dsimp only at h
    split at h
    · rw [Keyed.get?_set] at h
      split at h
      · rename_i hi
        cases h
        exact .made (n := 0) rfl (.inr ⟨hc, hi⟩) rfl
      · rename_i hi
        exact .counted h rfl fun _ => hi
    · rw [Keyed.get?_set, Keyed.get?_set] at h
      split at h
      · rename_i hi
        cases h
        exact .made rfl (.inr ⟨hc, hi⟩) rfl
      · rename_i hi
        exact .counted h rfl fun _ => hi

theorem release_becomes {permit : Permit} {i : SlotId} {s' : Slot}
    (h : (p.release permit).slots.get? i = some s') : Becomes p (.release permit) i s' := by
  unfold release at h
  split at h
  · exact .counted h rfl trivial
  · rename_i s hs
    dsimp only at h
    split at h
    · rw [Keyed.get?_erase] at h
      split at h
      · cases h
      · exact .counted h rfl trivial
    · rw [Keyed.get?_set] at h
      split at h
      · rename_i hi
        cases h
        exact .counted (hi ▸ hs) rfl trivial
      · exact .counted h rfl trivial

theorem shutdown_becomes {b : BufferId} {i : SlotId} {s' : Slot}
    (h : (p.shutdown b).slots.get? i = some s') : Becomes p (.shutdown b) i s' := by
  have kept (hi : p.current.get? b ≠ some i) (hs : p.slots.get? i = some s') :
      Becomes p (.shutdown b) i s' := .counted hs rfl hi
  unfold shutdown at h
  split at h
  · rename_i hc
    exact kept (by simp [hc]) h
  · rename_i j hc
    dsimp only at h
    split at h
    · rename_i hs
      refine kept ?_ h
      rintro hi
      rw [hc] at hi
      cases hi
      rw [hs] at h
      cases h
    · rename_i s hs
      split at h
      · rw [Keyed.get?_erase] at h
        split at h
        · cases h
        · rename_i hi
          exact kept (fun hj => hi (Option.some.inj (hc.symm.trans hj)).symm) h
      · rw [Keyed.get?_set] at h
        split at h
        · rename_i hi
          subst hi
          cases h
          exact .stopped rfl hc hs rfl
        · rename_i hi
          exact kept (fun hj => hi (Option.some.inj (hc.symm.trans hj)).symm) h

theorem slotDied_becomes {i j : SlotId} {s' : Slot} (h : (p.slotDied j).slots.get? i = some s') :
    Becomes p (.die j) i s' := by
  unfold slotDied at h
  split at h
  · exact .counted h rfl trivial
  · rename_i s hs
    rw [Keyed.get?_set] at h
    split at h
    · rename_i hi
      subst hi
      cases h
      exact .died rfl hs rfl
    · exact .counted h rfl trivial

theorem after_becomes {e : Event} {i : SlotId} {s' : Slot}
    (h : (p.after e).slots.get? i = some s') : Becomes p e i s' := by
  cases e with
  | enter b => exact enter_becomes h
  | release permit => exact release_becomes h
  | exchange m permit t request =>
    simp only [after, exchange] at h
    rw [Keyed.get?_set] at h
    split at h
    · rename_i hi
      subst hi
      cases h
      exact .asked rfl rfl rfl
    · rename_i hi
      exact .counted h rfl (Ne.symm hi)
  | shutdown b => exact shutdown_becomes h
  | die j => exact slotDied_becomes h

theorem holder_after {e : Event} {b : BufferId} {i : SlotId}
    (h : (p.after e).current.get? b = some i) :
    p.current.get? b = some i ∧ e ≠ .shutdown b ∨
      e = .enter b ∧ i = p.issued ∧ p.current.get? b = none := by
  rcases current_after h with kept | ⟨rfl, hi, -⟩
  · exact .inl kept
  · cases hc : p.current.get? b with
    | none => exact .inr ⟨rfl, hi, rfl⟩
    | some j =>
      rw [after, tryAdmit_held hc] at h
      split at h <;> exact .inl ⟨hc ▸ h, by simp⟩

inductive Holds (p : Pool) (e : Event) (b : BufferId) (i : SlotId) (s' : Slot) : Prop
  | counted {s : Slot} {n : Nat} (held : p.current.get? b = some i) (was : p.slots.get? i = some s)
    (now : s' = { s with inFlight := n }) (quiet : ¬e.asks i)
  | made {b' : BufferId} {n : Nat} (event : e = .enter b')
    (vacant : p.current.get? b' = some i ∧ p.slots.get? i = none ∨
      p.current.get? b' = none ∧ i = p.issued) (now : s' = { inFlight := n })
  | asked {m : Moment} {permit : Permit} {t : Target} {request : Bytes}
    (held : p.current.get? b = some i) (event : e = .exchange m permit t request)
    (slot : permit.slot = i)
    (now : s' = (((p.slots.get? i).getD {}).exchange p.config m p.exchanges t request).slot)
  | died {s : Slot} (held : p.current.get? b = some i) (event : e = .die i)
    (was : p.slots.get? i = some s)
    (now : s' = { s with process? := s.process?.map fun q => { q with alive := false } })

theorem after_holds (hp : p.Apart) {e : Event} {b : BufferId} {i : SlotId} {s' : Slot}
    (holder : (p.after e).current.get? b = some i) (hs' : (p.after e).slots.get? i = some s') :
    Holds p e b i s' := by
  have was := holder_after holder
  have held (old : ∀ b', e ≠ .enter b') : p.current.get? b = some i := by
    rcases was with ⟨hc, -⟩ | ⟨event, -⟩
    · exact hc
    · exact absurd event (old b)
  cases after_becomes hs' with
  | counted prior now spared =>
    rcases was with ⟨hc, -⟩ | ⟨rfl, hi, hc⟩
    · refine .counted hc prior now ?_
      cases e with
      | exchange m permit t request => exact spared
      | _ => exact id
    · exact absurd hi (spared hc)
  | made event vacant now => exact .made event vacant now
  | asked event slot now => exact .asked (held (by simp [event])) event slot now
  | stopped event stopped prior now =>
    -- the slot of the buffer that is shut down is no buffer's slot any more
    rcases was with ⟨hc, standing⟩ | ⟨event', -⟩
    · exact absurd (hp.apart _ _ i hc stopped ▸ event) standing
    · rw [event] at event'
      cases event'
  | died event prior now => exact .died (held (by simp [event])) event prior now

/-- Every slot is settled, and the slot of a buffer that is running has its process. -/
structure Tended (p : Pool) : Prop extends p.Apart where
  settled : ∀ i s, p.slots.get? i = some s → s.Settled
  manned : ∀ b i s, p.current.get? b = some i → p.slots.get? i = some s → s.phase = .running →
    s.process?.isSome

namespace Tended

theorem initial (config : WorkerConfig) : Tended { config } where
  toApart := .initial config
  settled i s h := by cases h
  manned b i s h := by cases h

theorem settledOf (h : p.Tended) (i : SlotId) : ((p.slots.get? i).getD {}).Settled := by
  cases hs : p.slots.get? i with
  | none => exact .fresh 0
  | some s => exact h.settled i s hs

theorem mannedOf (h : p.Tended) {b : BufferId} {i : SlotId} (holder : p.current.get? b = some i) :
    ((p.slots.get? i).getD {}).phase = .running → ((p.slots.get? i).getD {}).process?.isSome := by
  cases hs : p.slots.get? i with
  | none =>
    intro running
    cases running
  | some s => exact h.manned b i s holder hs

theorem after (h : p.Tended) (e : Event) : (p.after e).Tended where
  toApart := h.toApart.after e
  settled i s' hs' := by
    cases after_becomes hs' with
    | counted was now => exact now ▸ (h.settled i _ was).counted _
    | made event vacant now => exact now ▸ .fresh _
    | asked event slot now =>
      exact now ▸ (Slot.exchange_ends _ _ _ _ _ (h.settledOf i)).settled (h.settledOf i)
    | stopped event holder was now => exact now ▸ (h.settled i _ was).withoutProcess
    | died event was now => exact now ▸ (h.settled i _ was).mapProcess _
  manned b i s' hb hs' running := by
    cases after_holds h.toApart hb hs' with
    | counted held was now quiet =>
      have manned := h.manned b i _ held was
      rw [now] at running ⊢
      exact manned running
    | made event vacant now =>
      rw [now] at running
      cases running
    | @asked m permit t request held event slot now =>
      have ends := Slot.exchange_ends p.config m p.exchanges t request (h.settledOf i)
      rw [now] at running ⊢
      exact ends.manned (h.mannedOf held) running
    | died held event was now =>
      have manned := h.manned b i _ held was
      rw [now] at running ⊢
      simpa using manned running

theorem run (h : p.Tended) (es : List Event) : (p.run es).Tended := by
  induction es generalizing p with
  | nil => exact h
  | cons e es ih => exact ih (h.after e)

end Tended

def given (p : Pool) : Event → List Permit
  | .enter b => (p.tryAdmit b).1.toList
  | _ => []

/-- Every permit that is used was given before, in this run or as one of `held`. -/
def Permitted (p : Pool) (held : List Permit) : List Event → Prop
  | [] => True
  | e :: es => (∀ permit ∈ e.permit?, permit ∈ held) ∧ (p.after e).Permitted (p.given e ++ held) es

instance decidablePermitted (p : Pool) (held : List Permit) :
    (es : List Event) → Decidable (p.Permitted held es)
  | [] => .isTrue trivial
  | e :: es =>
    have := decidablePermitted (p.after e) (p.given e ++ held) es
    inferInstanceAs (Decidable (_ ∧ _))

theorem Permitted.before {held : List Permit} {done es : List Event}
    (h : p.Permitted held (done ++ es)) : p.Permitted held done := by
  induction done generalizing p held with
  | nil => trivial
  | cons e done ih => exact ⟨h.1, ih h.2⟩

theorem issued_le (p : Pool) (e : Event) : p.issued ≤ (p.after e).issued := by
  cases e with
  | enter b =>
    rcases enter_eq p b with ⟨slots, h⟩ | ⟨slots, h, -⟩
    · exact Nat.le_of_eq (by rw [after, h])
    · rw [after, h]
      exact Nat.le_succ _
  | release permit =>
    obtain ⟨slots, h⟩ := release_eq p permit
    exact Nat.le_of_eq (by rw [after, h])
  | exchange m permit t request => exact Nat.le_refl _
  | shutdown b =>
    obtain ⟨current, slots, h, -⟩ := shutdown_eq p b
    exact Nat.le_of_eq (by rw [after, h])
  | die i =>
    obtain ⟨slots, h⟩ := slotDied_eq p i
    exact Nat.le_of_eq (by rw [after, h])

theorem given_current {e : Event} {permit : Permit} (h : permit ∈ p.given e) :
    (p.after e).current.get? permit.buffer = some permit.slot := by
  cases e with
  | enter b =>
    rw [given, Option.mem_toList] at h
    have entered : p.tryAdmit b = (some permit, p.after (.enter b)) := Prod.ext h rfl
    rw [permit_buffer entered]
    exact enter_permit entered
  | _ => cases h

theorem slot_after (hp : p.Apart) {e : Event} {b : BufferId} {i : SlotId}
    (own : ∀ permit, e = .release permit → permit.slot = i → permit.buffer = b)
    (there : p.current.get? b = some i → (p.slots.get? i).isSome)
    (holder : (p.after e).current.get? b = some i) : ((p.after e).slots.get? i).isSome := by
  rcases holder_after holder with ⟨hc, standing⟩ | ⟨rfl, rfl, hc⟩
  · have there := there hc
    cases e with
    | enter b' =>
      cases hb : p.current.get? b' with
      | some j =>
        rw [after, tryAdmit_held hb]
        split
        · exact there
        · rw [Keyed.get?_set]
          split <;> simp [there]
      | none =>
        rw [after, tryAdmit_unheld hb]
        dsimp only
        split
        · rw [Keyed.get?_set]
          split <;> simp [there]
        · rw [Keyed.get?_set, Keyed.get?_set]
          split <;> simp [there]
    | release permit =>
      simp only [after, release]
      split
      · exact there
      · split
        · rename_i gone
          rw [Keyed.get?_erase, if_neg]
          · exact there
          · rintro rfl
            exact gone.2 (own permit rfl rfl ▸ hc)
        · rw [Keyed.get?_set]
          split <;> simp [there]
    | exchange m permit t request =>
      simp only [after, exchange]
      rw [Keyed.get?_set]
      split <;> simp [there]
    | shutdown b' =>
      simp only [after, shutdown]
      split
      · exact there
      · rename_i j hj
        have other : i ≠ j := by
          rintro rfl
          exact standing (hp.apart _ _ _ hc hj ▸ rfl)
        split
        · exact there
        · split
          · rw [Keyed.get?_erase, if_neg other, there]
          · rw [Keyed.get?_set, if_neg other, there]
    | die j =>
      simp only [after, slotDied]
      split
      · exact there
      · rw [Keyed.get?_set]
        split <;> simp [there]
  · rw [after, tryAdmit_unheld hc]
    split <;> simp

structure Recorded (p : Pool) (held : List Permit) (past : List Event) : Prop extends p.Tended where
  owned : ∀ permit ∈ held, permit.slot < p.issued ∧
    ∀ b, p.current.get? b = some permit.slot → permit.buffer = b
  old : ∀ e ∈ past, ∀ i, e.asks i → i < p.issued
  started : ∀ b i, p.current.get? b = some i →
    ∃ s, p.slots.get? i = some s ∧ (s.started = true ↔ ∃ e ∈ past, e.asks i)

namespace Recorded

variable {held : List Permit} {past : List Event} {e : Event}

theorem initial (config : WorkerConfig) : Recorded { config } [] [] where
  toTended := .initial config
  owned permit h := by cases h
  old e h := by cases h
  started b i h := by cases h

theorem asked_old (h : p.Recorded held past) (allowed : ∀ permit ∈ e.permit?, permit ∈ held)
    {d : Event} (hd : d ∈ past ++ [e]) {i : SlotId} (hi : d.asks i) : i < p.issued := by
  rcases List.mem_append.mp hd with hd | hd
  · exact h.old d hd i hi
  · rw [List.mem_singleton] at hd
    subst hd
    cases d with
    | exchange m permit t request => exact hi ▸ (h.owned permit (allowed permit rfl)).1
    | _ => cases hi

theorem started_after (h : p.Recorded held past) (allowed : ∀ permit ∈ e.permit?, permit ∈ held)
    {b : BufferId} {i : SlotId} (holder : (p.after e).current.get? b = some i) {s' : Slot}
    (hs' : (p.after e).slots.get? i = some s') :
    s'.started = true ↔ ∃ d ∈ past ++ [e], d.asks i := by
  simp only [List.mem_append, List.mem_singleton, or_and_right, exists_or, exists_eq_left]
  have prior {s : Slot} (hc : p.current.get? b = some i) (hs : p.slots.get? i = some s) :
      s.started = true ↔ ∃ d ∈ past, d.asks i := by
    obtain ⟨s₀, hs₀, started⟩ := h.started b i hc
    rw [hs] at hs₀
    cases hs₀
    exact started
  cases after_holds h.toApart holder hs' with
  | counted hc was now quiet => simp only [now, prior hc was, quiet, or_false]
  | @made b' n event vacant now =>
    subst event now
    have new : i = p.issued := by
      rcases vacant with ⟨hc, gone⟩ | ⟨-, hi⟩
      · obtain ⟨s, hs, -⟩ := h.started b' i hc
        rw [gone] at hs
        cases hs
      · exact hi
    -- every slot that was ever asked has a smaller number
    have fresh : ¬∃ d ∈ past, d.asks i := fun ⟨d, hd, hi⟩ =>
      Nat.lt_irrefl _ (new ▸ h.old d hd i hi)
    constructor
    · intro started
      cases started
    · rintro (asked | asked)
      · exact absurd asked fresh
      · exact asked.elim
  | @asked m permit t request hc event slot now =>
    subst event
    have ends := Slot.exchange_ends p.config m p.exchanges t request (h.settledOf i)
    have asked : Event.asks i (.exchange m permit t request) := slot
    simp only [now, ends.started (h.settledOf i), asked, or_true]
  | died hc event was now =>
    subst event
    simp only [now, prior hc was, Event.asks, or_false]

theorem after (h : p.Recorded held past) (allowed : ∀ permit ∈ e.permit?, permit ∈ held) :
    (p.after e).Recorded (p.given e ++ held) (past ++ [e]) where
  toTended := h.toTended.after e
  owned permit hpermit := by
    rcases List.mem_append.mp hpermit with new | old
    · have apart := h.toApart.after e
      have holder := given_current new
      exact ⟨apart.issued _ _ holder, fun b hb => apart.apart _ _ _ hb holder⟩
    · obtain ⟨issued, own⟩ := h.owned permit old
      constructor
      · exact Nat.lt_of_lt_of_le issued (issued_le p e)
      · intro b hb
        rcases holder_after hb with ⟨hc, -⟩ | ⟨-, hi, -⟩
        · exact own b hc
        · exact absurd issued (hi ▸ Nat.lt_irrefl _)
  old d hd i hi := Nat.lt_of_lt_of_le (h.asked_old allowed hd hi) (issued_le p e)
  started b i holder := by
    -- a permit over the slot that `b` holds is one of `b`, so `release` leaves the slot there
    have own (permit : Permit) (he : e = .release permit) (hslot : permit.slot = i) :
        permit.buffer = b := by
      obtain ⟨issued, own⟩ := h.owned permit (allowed permit (by rw [he]; rfl))
      rcases holder_after holder with ⟨hc, -⟩ | ⟨event, -⟩
      · exact own b (hslot ▸ hc)
      · rw [he] at event
        cases event
    have there (hc : p.current.get? b = some i) : (p.slots.get? i).isSome := by
      obtain ⟨s, hs, -⟩ := h.started b i hc
      rw [hs]
      rfl
    obtain ⟨s', hs'⟩ := Option.isSome_iff_exists.mp (slot_after h.toApart own there holder)
    exact ⟨s', hs', h.started_after allowed holder hs'⟩

theorem run (h : p.Recorded held past) {es rest : List Event}
    (permitted : p.Permitted held (es ++ rest)) :
    ∃ held', (p.run es).Recorded held' (past ++ es) ∧ (p.run es).Permitted held' rest := by
  induction es generalizing p held past with
  | nil => exact ⟨held, by rwa [List.append_nil], permitted⟩
  | cons e es ih =>
    obtain ⟨held', later, permitted'⟩ := ih (h.after permitted.1) permitted.2
    rw [List.append_assoc] at later
    exact ⟨held', later, permitted'⟩

end Recorded

/-- What can cost a buffer its process: a shutdown, an error of the wire, or an exchange that finds the
process dead. -/
inductive Loss (p : Pool) (b : BufferId) : Event → Prop
  | shutdown : Loss p b (.shutdown b)
  | broken {m : Moment} {permit : Permit} {t : Target} {request : Bytes} {e : Frame.Error}
    (holder : p.current.get? b = some permit.slot)
    (reply : (p.exchange m permit t request).1.reply = .error (.protocol e)) :
    Loss p b (.exchange m permit t request)
  | dead {m : Moment} {permit : Permit} {t : Target} {request : Bytes} {q : Process}
    (holder : p.current.get? b = some permit.slot) (recorded : p.processOf? b = some q)
    (dead : q.alive = false) : Loss p b (.exchange m permit t request)

theorem current_kept {e : Event} {b : BufferId} {i : SlotId} (h : p.current.get? b = some i)
    (standing : e ≠ .shutdown b) : (p.after e).current.get? b = some i := by
  cases e with
  | enter b' =>
    cases hb : p.current.get? b' with
    | some j =>
      rw [after, tryAdmit_held hb]
      split <;> exact h
    | none =>
      have other : b ≠ b' := by
        rintro rfl
        rw [h] at hb
        cases hb
      rw [after, tryAdmit_unheld hb]
      dsimp only
      split <;> rw [Keyed.get?_set, if_neg other, h]
  | release permit =>
    obtain ⟨slots, hp⟩ := release_eq p permit
    rw [after, hp]
    exact h
  | exchange m permit t request => exact h
  | shutdown b' =>
    have other : b ≠ b' := by
      rintro rfl
      exact standing rfl
    simp only [after, shutdown]
    split
    · exact h
    · split
      · rw [Keyed.get?_erase, if_neg other, h]
      · split <;> rw [Keyed.get?_erase, if_neg other, h]
  | die j =>
    obtain ⟨slots, hp⟩ := slotDied_eq p j
    rw [after, hp]
    exact h

namespace Recorded

variable {held : List Permit} {past : List Event}

/-- A process that is recorded for a buffer stays with it, unless an event costs it the process. -/
theorem keeps (h : p.Recorded held past) {e : Event}
    (allowed : ∀ permit ∈ e.permit?, permit ∈ held) {b : BufferId} {q : Process}
    (hq : p.processOf? b = some q) :
    (∃ q', (p.after e).processOf? b = some q' ∧ q'.SameAs q) ∨ p.Loss b e := by
  by_cases he : e = .shutdown b
  · exact .inr (he ▸ .shutdown)
  obtain ⟨i, hc, hi⟩ := processOf?_eq_some.mp hq
  obtain ⟨s, hs, hsq⟩ := Option.bind_eq_some_iff.mp hi
  have hc' := current_kept hc he
  obtain ⟨s', hs', -⟩ := (h.after allowed).started b i hc'
  have found (q' : Process) (now : s'.process? = some q') (same : q'.SameAs q) :
      (∃ q', (p.after e).processOf? b = some q' ∧ q'.SameAs q) ∨ p.Loss b e :=
    .inl ⟨q', processOf?_eq_some.mpr ⟨i, hc', by rw [process?, hs']; exact now⟩, same⟩
  cases after_holds h.toApart hc' hs' with
  | counted held was now quiet =>
    rw [hs] at was
    cases was
    exact found q (now ▸ hsq) (.refl q)
  | made event vacant now =>
    rcases vacant with ⟨-, gone⟩ | ⟨-, new⟩
    · rw [hs] at gone
      cases gone
    · exact absurd (h.issued b i hc) (new ▸ Nat.lt_irrefl _)
  | @asked m permit t request held event slot now =>
    subst event slot
    have ends := Slot.exchange_ends p.config m p.exchanges t request (h.settledOf permit.slot)
    have hs₀ : ((p.slots.get? permit.slot).getD {}).process? = some q := by rw [hs]; exact hsq
    cases ends with
    | @replied q₁ q' served recorded reply same slot =>
      cases alive : q.alive with
      | true => exact found q' (by rw [now, slot]) (recorded q hs₀ alive ▸ same)
      | false => exact .inr (.dead hc hq alive)
    | broken served reply slot => exact .inr (.broken hc reply)
    | failed unserved reply counted gone slot => exact .inr (.dead hc hq (gone q hs₀))
    | waiting unserved reply pending slot => exact found q (by rw [now, slot, hs₀]) (.refl q)
  | died held event was now =>
    rw [hs] at was
    cases was
    exact found { q with alive := false } (by rw [now, hsq]; rfl) ⟨rfl, rfl, rfl⟩

theorem run_keeps (h : p.Recorded held past) {es : List Event} (permitted : p.Permitted held es)
    {b : BufferId} {q : Process} (hq : p.processOf? b = some q) :
    (∃ q', (p.run es).processOf? b = some q' ∧ q'.SameAs q) ∨
    ∃ done e, done ++ [e] <+: es ∧ (p.run done).Loss b e := by
  induction es generalizing p held past q with
  | nil => exact .inl ⟨q, hq, .refl q⟩
  | cons e es ih =>
    rcases h.keeps permitted.1 hq with ⟨q₁, hq₁, same₁⟩ | loss
    · rcases ih (h.after permitted.1) permitted.2 hq₁ with ⟨q', hq', same⟩ | ⟨done, d, hd, loss⟩
      · exact .inl ⟨q', hq', same.trans same₁⟩
      · exact .inr ⟨e :: done, d, (List.prefix_cons_inj e).mpr hd, loss⟩
    · exact .inr ⟨[], e, by simp, loss⟩

end Recorded

theorem invoke_answered (h : p.Tended) {text : String}
    (hr : (p.invoke m t request).reply = .ok (some text)) :
    ∃ q q' s, p.servingFor? m t = some q ∧ q'.SameAs q ∧
      (p.invoke m t request).pool.slot? t.buffer = some s ∧ s.phase = .running ∧
      s.process? = some q' := by
  rcases henter : p.tryAdmit t.buffer with ⟨_ | permit, p'⟩
  · simp only [invoke, henter] at hr
    cases hr
  · have hp' : p.after (.enter t.buffer) = p' := by rw [after, henter]
    have settled : ((p'.slots.get? permit.slot).getD {}).Settled :=
      hp' ▸ (h.after (.enter t.buffer)).settledOf permit.slot
    have buffer := permit_buffer henter
    have holder := enter_permit henter
    have ends := Slot.exchange_ends p'.config m p'.exchanges t request settled
    have released : ((p'.exchange m permit t request).2.release permit).slot? permit.buffer = _ :=
      slot?_released (buffer ▸ holder)
    simp only [invoke, henter, servingFor?] at hr ⊢
    change (Slot.exchange _ m _ t request _).reply.map some = _ at hr
    cases ends with
    | @replied q q' served recorded reply same slot =>
      have running := congrArg Slot.phase slot
      have process := congrArg Slot.process? slot
      rw [buffer] at released
      exact ⟨q, q', _, served, same, released, running, process⟩
    | broken served reply slot =>
      rw [reply] at hr
      cases hr
    | failed unserved reply counted gone slot =>
      rw [reply] at hr
      cases hr
    | waiting unserved reply pending slot =>
      rw [reply] at hr
      cases hr

end Pool

end SemanticHighlight.Worker
