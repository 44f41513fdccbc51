import Mathlib.Data.List.Count
import Mathlib.Data.List.Induction
import SemanticHighlight.Proofs.Worker.Isolation
import SemanticHighlight.Proofs.Worker.Lifecycle

/-!
# Outstanding permits

The ledger of a run says which permits are held, as their holders see it. The counter of a slot
agrees with it at every point of the run: it goes up by one with a permit that is given and down by
one with a permit that is returned, and nothing else changes it. A shutdown does not take permits
back, so the slot that a buffer is given afterwards starts its count anew.
-/

set_option autoImplicit false

namespace SemanticHighlight.Worker

namespace Slot.Ends

theorem inFlight {s : Slot} {serving? : Option Process} {x : Exchange} (e : Ends s serving? x) :
    x.slot.inFlight = s.inFlight := by
  cases e with
  | replied served recorded reply same slot => rw [slot]
  | broken served reply slot => rw [slot]
  | failed unserved reply counted gone slot => rw [slot]
  | waiting unserved reply pending slot => rw [slot]

end Slot.Ends

/-- The permits that are held at a point of a run. -/
structure Ledger where
  held : List Permit := []
  /-- The held ones that were given since the last shutdown of their buffer. -/
  recent : List Permit := []
  deriving DecidableEq, Repr

def Ledger.after (l : Ledger) (p : Pool) : Event → Ledger
  | .enter b => ⟨p.given (.enter b) ++ l.held, p.given (.enter b) ++ l.recent⟩
  | .release permit => ⟨l.held.erase permit, l.recent.erase permit⟩
  | .shutdown b => { l with recent := l.recent.filter (·.buffer ≠ b) }
  | _ => l

namespace Pool

variable {p : Pool} {l : Ledger} {m : Moment} {t : Target} {request : Bytes}

def ledger (p : Pool) (l : Ledger) : List Event → Ledger
  | [] => l
  | e :: es => (p.after e).ledger (l.after p e) es

/-- Every permit that is used is held at the time. -/
def Owned (p : Pool) (l : Ledger) : List Event → Prop
  | [] => True
  | e :: es => (∀ permit ∈ e.permit?, permit ∈ l.held) ∧ (p.after e).Owned (l.after p e) es

instance decidableOwned (p : Pool) (l : Ledger) : (es : List Event) → Decidable (p.Owned l es)
  | [] => .isTrue trivial
  | e :: es =>
    have := decidableOwned (p.after e) (l.after p e) es
    inferInstanceAs (Decidable (_ ∧ _))

theorem run_concat (p : Pool) (es : List Event) (e : Event) :
    p.run (es ++ [e]) = (p.run es).after e := by
  rw [run, List.foldl_append]
  rfl

theorem ledger_concat (p : Pool) (l : Ledger) (es : List Event) (e : Event) :
    p.ledger l (es ++ [e]) = (p.ledger l es).after (p.run es) e := by
  induction es generalizing p l with
  | nil => rfl
  | cons d es ih => exact ih (p.after d) (l.after p d)

theorem owned_append {es es' : List Event} :
    p.Owned l (es ++ es') ↔ p.Owned l es ∧ (p.run es).Owned (p.ledger l es) es' := by
  induction es generalizing p l with
  | nil => simp [Owned, run, ledger]
  | cons e es ih =>
    change (_ ∧ Owned _ _ (es ++ es')) ↔ (_ ∧ Owned _ _ es) ∧ _
    rw [ih, and_assoc]
    rfl

theorem Owned.before {es done : List Event} (h : p.Owned l es) (hd : done <+: es) :
    p.Owned l done := by
  obtain ⟨later, rfl⟩ := hd
  exact (owned_append.mp h).1

/-- How many permits over a slot have been given and not returned, by its counter. -/
def taken (p : Pool) (i : SlotId) : Nat := ((p.slots.get? i).getD {}).inFlight

theorem taken_set {p' : Pool} {j : SlotId} {s : Slot} (h : p'.slots = p.slots.set j s)
    (i : SlotId) : p'.taken i = if i = j then s.inFlight else p.taken i := by
  rw [taken, h, Keyed.get?_set]
  split <;> rfl

theorem taken_erase {p' : Pool} {j : SlotId} (h : p'.slots = p.slots.erase j) (i : SlotId) :
    p'.taken i = if i = j then 0 else p.taken i := by
  rw [taken, h, Keyed.get?_erase]
  split <;> rfl

theorem taken_of_get? {i : SlotId} {s : Slot} (h : p.slots.get? i = some s) :
    p.taken i = s.inFlight := by
  rw [taken, h]
  rfl

theorem inFlight_holder {b : BufferId} {i : SlotId} (hc : p.current.get? b = some i) :
    p.inFlight b = p.taken i := by
  rw [inFlight, slot?, hc, taken]
  cases hs : p.slots.get? i <;> simp [hs]

theorem inFlight_vacant {b : BufferId} (hc : p.current.get? b = none) : p.inFlight b = 0 := by
  rw [inFlight, slot?, hc]
  rfl

theorem enter_given (fresh : p.taken p.issued = 0) (b : BufferId) :
    p.given (.enter b) = [] ∨
      ∃ permit, p.given (.enter b) = [permit] ∧ p.taken permit.slot < p.config.maxInFlight := by
  cases hc : p.current.get? b with
  | some j =>
    rw [given, tryAdmit_held hc]
    split
    · exact .inl rfl
    · rename_i free
      exact .inr ⟨⟨b, j⟩, rfl, Nat.not_lt.mp free⟩
  | none =>
    rw [given, tryAdmit_unheld hc]
    dsimp only
    split
    · exact .inl rfl
    · rename_i free
      refine .inr ⟨⟨b, p.issued⟩, rfl, ?_⟩
      rw [fresh]
      exact Nat.not_lt.mp free

theorem enter_taken (fresh : p.taken p.issued = 0) (b : BufferId) (i : SlotId) :
    (p.after (.enter b)).taken i = p.taken i + (p.given (.enter b)).countP (·.slot = i) := by
  cases hc : p.current.get? b with
  | some j =>
    rw [after, given, tryAdmit_held hc]
    split
    · rfl
    · rw [taken_set (p := p) rfl]
      by_cases hi : i = j
      · simp [hi, taken]
      · simp [hi, Ne.symm hi]
  | none =>
    rw [after, given, tryAdmit_unheld hc]
    dsimp only
    split
    · rw [taken_set (p := p) rfl]
      by_cases hi : i = p.issued
      · simp [hi, fresh]
      · simp [hi]
    · rw [taken_set (p := { p with slots := p.slots.set p.issued {} }) rfl, taken_set (p := p) rfl]
      by_cases hi : i = p.issued
      · simp [hi, fresh]
      · simp [hi, Ne.symm hi]

theorem release_taken (p : Pool) (permit : Permit) (i : SlotId) :
    (p.release permit).taken i = if i = permit.slot then p.taken i - 1 else p.taken i := by
  unfold release
  split
  · rename_i hs
    split
    · rename_i hi
      rw [hi, taken, hs]
      rfl
    · rfl
  · rename_i s hs
    dsimp only
    split
    · rename_i gone
      rw [taken_erase (p := p) rfl]
      split
      · rename_i hi
        rw [hi, taken_of_get? hs, gone.1]
      · rfl
    · rw [taken_set (p := p) rfl]
      split
      · rename_i hi
        rw [hi, taken_of_get? hs]
      · rfl

theorem exchange_taken (hp : p.Tended) (permit : Permit) (i : SlotId) :
    (p.exchange m permit t request).2.taken i = p.taken i := by
  have ends := Slot.exchange_ends p.config m p.exchanges t request (hp.settledOf permit.slot)
  rw [exchange, taken_set (p := p) rfl]
  split
  · rename_i hi
    rw [hi]
    exact ends.inFlight
  · rfl

theorem shutdown_taken (p : Pool) (b : BufferId) (i : SlotId) :
    (p.shutdown b).taken i = p.taken i := by
  unfold shutdown
  split
  · rfl
  · dsimp only
    split
    · rfl
    · rename_i j hc s hs
      split
      · rename_i idle
        rw [taken_erase (p := p) rfl]
        split
        · rename_i hi
          rw [hi, taken_of_get? hs, idle]
        · rfl
      · rw [taken_set (p := p) rfl]
        split
        · rename_i hi
          rw [hi, taken_of_get? hs]
        · rfl

theorem slotDied_taken (p : Pool) (i j : SlotId) : (p.slotDied j).taken i = p.taken i := by
  unfold slotDied
  split
  · rfl
  · rename_i s hs
    rw [taken_set (p := p) rfl]
    split
    · rename_i hi
      rw [hi, taken_of_get? hs]
    · rfl

theorem Recorded.fewer {held held' : List Permit} {past : List Event} (h : p.Recorded held past)
    (sub : held' ⊆ held) : p.Recorded held' past where
  toTended := h.toTended
  owned permit hp := h.owned permit (sub hp)
  old := h.old
  started := h.started

/-- An event takes the slot of a held permit from the buffer only if it shuts the buffer down. -/
theorem Recorded.current_iff {held : List Permit} {past : List Event} (h : p.Recorded held past)
    {permit : Permit} (hp : permit ∈ held) (e : Event) :
    (p.after e).current.get? permit.buffer = some permit.slot ↔
      p.current.get? permit.buffer = some permit.slot ∧ e ≠ .shutdown permit.buffer := by
  constructor
  · intro hc
    rcases holder_after hc with kept | ⟨-, new, -⟩
    · exact kept
    · have old := (h.owned permit hp).1
      exact absurd old (new ▸ Nat.lt_irrefl _)
  · rintro ⟨hc, standing⟩
    exact current_kept hc standing

abbrev Current (p : Pool) (permit : Permit) : Prop :=
  p.current.get? permit.buffer = some permit.slot

theorem Recorded.filter_current {held held' : List Permit} {past : List Event}
    (h : p.Recorded held past) (sub : held' ⊆ held) {e : Event}
    (standing : ∀ permit ∈ held', e ≠ .shutdown permit.buffer) :
    held'.filter (p.after e).Current = held'.filter p.Current := by
  apply List.filter_congr
  intro permit hp
  have kept := h.current_iff (sub hp) e
  simp [Current, kept, standing permit hp]

/-- The ledger is right: each counter shows how many of the held permits are over its slot, and the
recent permits are those over the slot that their buffer has. -/
structure Balanced (p : Pool) (l : Ledger) (past : List Event) : Prop
    extends p.Recorded l.held past where
  counted : ∀ i, p.taken i = l.held.countP (·.slot = i)
  capped : ∀ i, p.taken i ≤ p.config.maxInFlight
  recent : l.recent = l.held.filter p.Current
  shared : ∀ permit ∈ l.held, ∀ permit' ∈ l.held, permit.slot = permit'.slot →
    permit.buffer = permit'.buffer

namespace Balanced

variable {past : List Event} {e : Event}

theorem initial (config : WorkerConfig) : Balanced { config } {} [] where
  toRecorded := .initial config
  counted _ := rfl
  capped _ := Nat.zero_le _
  recent := rfl
  shared permit h := by cases h

theorem fresh (h : p.Balanced l past) : p.taken p.issued = 0 := by
  rw [h.counted, List.countP_eq_zero]
  intro permit hp
  have old := (h.owned permit hp).1
  simpa using Nat.ne_of_lt old

theorem held_after (e : Event) : (l.after p e).held ⊆ p.given e ++ l.held := by
  cases e with
  | enter b => exact List.Subset.refl _
  | release permit => exact List.erase_subset
  | exchange m permit t request => exact List.Subset.refl _
  | shutdown b => exact List.Subset.refl _
  | die i => exact List.Subset.refl _

theorem counted_after (h : p.Balanced l past) (allowed : ∀ permit ∈ e.permit?, permit ∈ l.held)
    (i : SlotId) : (p.after e).taken i = (l.after p e).held.countP (·.slot = i) := by
  cases e with
  | enter b =>
    rw [enter_taken h.fresh, h.counted, Nat.add_comm]
    exact List.countP_append.symm
  | release permit =>
    have held := allowed permit rfl
    rw [after, release_taken, h.counted, Ledger.after, List.countP_erase]
    by_cases hi : i = permit.slot
    · simp [hi, held]
    · simp [hi, Ne.symm hi]
  | exchange m permit t request => exact (exchange_taken h.toTended permit i).trans (h.counted i)
  | shutdown b => exact (shutdown_taken p b i).trans (h.counted i)
  | die j => exact (slotDied_taken p i j).trans (h.counted i)

theorem capped_after (h : p.Balanced l past) (i : SlotId) :
    (p.after e).taken i ≤ p.config.maxInFlight := by
  have capped := h.capped i
  cases e with
  | enter b =>
    rw [enter_taken h.fresh]
    rcases enter_given h.fresh b with none | ⟨permit, one, free⟩
    · simpa [none] using capped
    · rw [one]
      by_cases hi : permit.slot = i
      · subst hi
        simpa using Nat.succ_le_of_lt free
      · simpa [hi] using capped
  | release permit =>
    rw [after, release_taken]
    split <;> omega
  | exchange m permit t request => exact (exchange_taken h.toTended permit i).symm ▸ capped
  | shutdown b => exact (shutdown_taken p b i).symm ▸ capped
  | die j => exact (slotDied_taken p i j).symm ▸ capped

theorem recent_after (h : p.Balanced l past) :
    (l.after p e).recent = (l.after p e).held.filter (p.after e).Current := by
  have recent := h.recent
  cases e with
  | enter b =>
    have new : (p.given (.enter b)).filter (p.after (.enter b)).Current = p.given (.enter b) := by
      apply List.filter_eq_self.mpr
      intro permit hp
      exact decide_eq_true (given_current hp)
    have kept := h.filter_current (List.Subset.refl _) (e := .enter b) (by simp)
    rw [Ledger.after, List.filter_append, new, kept, recent]
  | release permit =>
    have kept := h.filter_current (List.erase_subset (a := permit)) (e := .release permit) (by simp)
    rw [Ledger.after, kept, recent, List.erase_filter]
  | exchange m permit t request => exact recent
  | shutdown b =>
    rw [Ledger.after, recent, List.filter_filter]
    apply List.filter_congr
    intro permit hp
    have kept := h.current_iff hp (.shutdown b)
    simp [Current, kept, eq_comm, and_comm]
  | die j =>
    have kept := h.filter_current (List.Subset.refl _) (e := .die j) (by simp)
    exact recent.trans kept.symm

theorem shared_after (h : p.Balanced l past) (allowed : ∀ permit ∈ e.permit?, permit ∈ l.held)
    {permit permit' : Permit} (hp : permit ∈ p.given e ++ l.held)
    (hp' : permit' ∈ p.given e ++ l.held) (same : permit.slot = permit'.slot) :
    permit.buffer = permit'.buffer := by
  -- one that is new is over the slot its buffer has, which is the buffer of every permit over it
  have owned := (h.toRecorded.after allowed).owned
  rcases List.mem_append.mp hp with new | old
  · exact ((owned permit' hp').2 _ (same ▸ given_current new)).symm
  · rcases List.mem_append.mp hp' with new' | old'
    · exact (owned permit hp).2 _ (same ▸ given_current new')
    · exact h.shared permit old permit' old' same

theorem after (h : p.Balanced l past) (allowed : ∀ permit ∈ e.permit?, permit ∈ l.held) :
    (p.after e).Balanced (l.after p e) (past ++ [e]) where
  toRecorded := (h.toRecorded.after allowed).fewer (held_after e)
  counted := h.counted_after allowed
  capped i := by
    rw [after_config]
    exact h.capped_after i
  recent := h.recent_after
  shared permit hp permit' hp' := h.shared_after allowed (held_after e hp) (held_after e hp')

theorem run (h : p.Balanced l past) {es : List Event} (owned : p.Owned l es) :
    (p.run es).Balanced (p.ledger l es) (past ++ es) := by
  induction es generalizing p l past with
  | nil => rwa [List.append_nil]
  | cons e es ih =>
    have later := ih (h.after owned.1) owned.2
    rwa [List.append_assoc] at later

theorem inFlight_eq (h : p.Balanced l past) (b : BufferId) :
    p.inFlight b = l.recent.countP (·.buffer = b) := by
  rw [h.recent, List.countP_filter]
  cases hc : p.current.get? b with
  | none =>
    rw [inFlight_vacant hc, eq_comm, List.countP_eq_zero]
    intro permit hp
    simp only [Current, Bool.and_eq_true, decide_eq_true_eq, not_and]
    rintro rfl
    simp [hc]
  | some i =>
    rw [inFlight_holder hc, h.counted]
    apply List.countP_congr
    intro permit hp
    simp only [Current, Bool.and_eq_true, decide_eq_true_eq]
    constructor
    · rintro rfl
      have own := (h.owned permit hp).2 b hc
      exact ⟨own, own ▸ hc⟩
    · rintro ⟨rfl, holder⟩
      rw [hc] at holder
      exact (Option.some.inj holder).symm

theorem inFlight_le (h : p.Balanced l past) (b : BufferId) :
    p.inFlight b ≤ p.config.maxInFlight := by
  cases hc : p.current.get? b with
  | none => simp [inFlight_vacant hc]
  | some i => exact inFlight_holder hc ▸ h.capped i

theorem held_recent (h : p.Balanced l past) {b : BufferId}
    (fresh : ∀ permit ∈ l.held, permit.buffer = b → permit ∈ l.recent) :
    l.held.countP (·.buffer = b) = l.recent.countP (·.buffer = b) := by
  rw [h.recent, List.countP_filter]
  apply List.countP_congr
  intro permit hp
  simp only [Bool.and_eq_true, decide_eq_true_eq]
  constructor
  · intro buffer
    have recent := fresh permit hp buffer
    rw [h.recent, List.mem_filter] at recent
    exact ⟨buffer, of_decide_eq_true recent.2⟩
  · exact And.left

theorem held_counted (h : p.Balanced l past) {permit : Permit} (hp : permit ∈ l.held) :
    0 < p.taken permit.slot := by
  rw [h.counted, List.countP_pos_iff]
  exact ⟨permit, hp, by simp⟩

end Balanced

theorem balanced_run {config : WorkerConfig} {es : List Event} (owned : Owned { config } {} es) :
    (run { config } es).Balanced (ledger { config } {} es) es :=
  (Balanced.initial config).run owned

theorem vacated (config : WorkerConfig) (done : List Event) {later : List Event} {b : BufferId}
    (unentered : ∀ e ∈ later, e ≠ .enter b) :
    (run { config } (done ++ .shutdown b :: later)).current.get? b = none := by
  rw [run, List.foldl_append]
  change ((run { config } done).shutdown b |>.run later).current.get? b = none
  induction later using List.reverseRecOn with
  | nil =>
    obtain ⟨current, slots, shut, kept⟩ := shutdown_eq (run { config } done) b
    cases hc : current.get? b with
    | none => rw [run, List.foldl_nil, shut, hc]
    | some i => exact absurd rfl (kept b i hc).2
  | append_singleton later e ih =>
    rw [run_concat, Option.eq_none_iff_forall_not_mem]
    intro i holder
    rcases current_after holder with ⟨hc, -⟩ | ⟨event, -⟩
    · rw [ih fun d hd => unentered d (List.mem_append_left _ hd)] at hc
      cases hc
    · exact unentered e (by simp) event

end Pool

end SemanticHighlight.Worker
