import Mathlib.Data.List.Induction
import SemanticHighlight.Proofs.Worker.Permits
import SemanticHighlight.Proofs.Worker.Replies

/-!
# Contention for permits

Requests for the permits of a buffer may be under way at the same time, and each of them changes the
counter of its slot by steps of its own. A request is counted before it is compared with the limit,
and one that is over the limit is taken from the count again. In between it is counted although it
holds no permit, so that another one may be refused on its account. `Effect` is everything a step
can do; from it follows what the counter shows, and what a refusal says about the permits.

A request keeps to the slot it has found. If the buffer is shut down meanwhile, later requests find
another slot, and the two slots have nothing to do with each other.
-/

set_option autoImplicit false

namespace SemanticHighlight.Worker

namespace Pool

variable {p : Pool} {b : BufferId}

/-- One more is counted over a slot. Over a slot that is gone nothing was counted any more. -/
def countUp (p : Pool) (i : SlotId) : Pool :=
  let s := (p.slots.get? i).getD {}
  { p with slots := p.slots.set i { s with inFlight := s.inFlight + 1 } }

theorem countUp_taken (p : Pool) (i j : SlotId) :
    (p.countUp i).taken j = if j = i then p.taken j + 1 else p.taken j := by
  rw [countUp, taken_set (p := p) rfl]
  split
  · rename_i same
    rw [same]
    rfl
  · rfl

theorem claim_held {i : SlotId} (h : p.current.get? b = some i) :
    p.claim b = (i, (p.slots.get? i).getD {}, p) := by
  rw [claim, h]

theorem claim_unheld (h : p.current.get? b = none) :
    p.claim b = (p.issued, {}, { p with
      current := p.current.set b p.issued
      slots := p.slots.set p.issued {}
      issued := p.issued + 1 }) := by
  rw [claim, h]

theorem claim_config (p : Pool) (b : BufferId) : (p.claim b).2.2.config = p.config := by
  cases hc : p.current.get? b with
  | some i => rw [claim_held hc]
  | none => rw [claim_unheld hc]

theorem claim_current (p : Pool) (b : BufferId) :
    (p.claim b).2.2.current.get? b = some (p.claim b).1 := by
  cases hc : p.current.get? b with
  | some i => rw [claim_held hc, hc]
  | none => rw [claim_unheld hc, Keyed.get?_set, if_pos rfl]

theorem issued_le_claim (p : Pool) (b : BufferId) : p.issued ≤ (p.claim b).2.2.issued := by
  cases hc : p.current.get? b with
  | some i => exact Nat.le_of_eq (by rw [claim_held hc])
  | none =>
    rw [claim_unheld hc]
    exact Nat.le_succ _

theorem claim_lt_issued (holder : ∀ i, p.current.get? b = some i → i < p.issued) :
    (p.claim b).1 < (p.claim b).2.2.issued := by
  cases hc : p.current.get? b with
  | some i =>
    rw [claim_held hc]
    exact holder i hc
  | none =>
    rw [claim_unheld hc]
    exact Nat.lt_succ_self _

theorem tryAdmit_eq (p : Pool) (b : BufferId) :
    p.tryAdmit b =
      if (p.claim b).2.2.taken (p.claim b).1 + 1 > (p.claim b).2.2.config.maxInFlight then
        (none, (p.claim b).2.2)
      else (some ⟨b, (p.claim b).1⟩, (p.claim b).2.2.countUp (p.claim b).1) := by
  cases hc : p.current.get? b with
  | some i => rw [tryAdmit, claim_held hc]; rfl
  | none =>
    rw [tryAdmit, claim_unheld hc, taken, countUp, Keyed.get?_set, if_pos rfl]
    rfl

theorem claim_taken (fresh : p.taken p.issued = 0) (b : BufferId) (i : SlotId) :
    (p.claim b).2.2.taken i = p.taken i := by
  cases hc : p.current.get? b with
  | some j => rw [claim_held hc]
  | none =>
    rw [claim_unheld hc, taken_set (p := p) rfl]
    split
    · rename_i new
      rw [new, fresh]
    · rfl

end Pool

inductive Attempt where
  | called (slot : SlotId)
  | exceeding (slot : SlotId)
  | refused (slot : SlotId)
  | granted (slot : SlotId)
  | dropped (slot : SlotId)
  deriving DecidableEq, Repr

namespace Attempt

def slot : Attempt → SlotId
  | .called i | .exceeding i | .refused i | .granted i | .dropped i => i

def underWay : Attempt → Bool
  | .called _ | .exceeding _ => true
  | _ => false

def holds (i : SlotId) : Attempt → Bool
  | .granted j => i = j
  | _ => false

/-- It is counted over the slot without holding a permit. -/
def exceeds (i : SlotId) : Attempt → Bool
  | .exceeding j => i = j
  | _ => false

def counts (i : SlotId) : Attempt → Bool
  | .exceeding j | .granted j => i = j
  | _ => false

theorem eq_of_exceeds {i : SlotId} {a : Attempt} (h : a.exceeds i) : a = .exceeding i := by
  cases a with
  | exceeding j => rw [of_decide_eq_true h]
  | _ => cases h

theorem slot_of_counts {i : SlotId} {a : Attempt} (h : a.counts i) : i = a.slot := by
  cases a with
  | exceeding j | granted j => exact of_decide_eq_true h
  | _ => cases h

end Attempt

/-- The pool and the requests for permits of one buffer, in the order in which they were made. -/
structure Contention where
  pool : Pool
  attempts : List Attempt := []

namespace Contention

/-- A step of one of the requests, the drop of its permit, or a shutdown of the buffer. -/
inductive Step where
  | call
  | count (n : Nat)
  | takeBack (n : Nat)
  | drop (n : Nat)
  | shutdown
  deriving DecidableEq, Repr

def held (w : Contention) (i : SlotId) : Nat := w.attempts.countP (·.holds i)

def excess (w : Contention) (i : SlotId) : Nat := w.attempts.countP (·.exceeds i)

def permits (w : Contention) : Nat := w.attempts.countP fun a => a.holds a.slot

def Quiet (w : Contention) : Prop := ∀ a ∈ w.attempts, a.underWay = false

def after (b : BufferId) (w : Contention) : Step → Contention
  | .call => ⟨(w.pool.claim b).2.2, w.attempts ++ [.called (w.pool.claim b).1]⟩
  | .count n =>
    match w.attempts[n]? with
    | some (.called i) =>
      if w.pool.taken i + 1 > w.pool.config.maxInFlight then
        ⟨w.pool.countUp i, w.attempts.set n (.exceeding i)⟩
      else ⟨w.pool.countUp i, w.attempts.set n (.granted i)⟩
    | _ => w
  | .takeBack n =>
    match w.attempts[n]? with
    | some (.exceeding i) => ⟨w.pool.release ⟨b, i⟩, w.attempts.set n (.refused i)⟩
    | _ => w
  | .drop n =>
    match w.attempts[n]? with
    | some (.granted i) => ⟨w.pool.release ⟨b, i⟩, w.attempts.set n (.dropped i)⟩
    | _ => w
  | .shutdown => { w with pool := w.pool.shutdown b }

def run (config : WorkerConfig) (b : BufferId) (steps : List Step) : Contention :=
  steps.foldl (after b) { pool := { config } }

theorem run_concat (config : WorkerConfig) (b : BufferId) (steps : List Step) (e : Step) :
    run config b (steps ++ [e]) = (run config b steps).after b e := by
  rw [run, List.foldl_append]
  rfl

theorem alone_granted {b : BufferId} {w : Contention} {permit : Permit} {p : Pool}
    (h : w.pool.tryAdmit b = (some permit, p)) :
    (w.after b .call).after b (.count w.attempts.length) =
      ⟨p, w.attempts ++ [.granted permit.slot]⟩ := by
  rw [Pool.tryAdmit_eq] at h
  split at h
  · cases h
  · rename_i room
    cases h
    simp [after, room]

theorem alone_refused {b : BufferId} {w : Contention} {p : Pool}
    (h : w.pool.tryAdmit b = (none, p)) :
    ∃ p', ((w.after b .call).after b (.count w.attempts.length)).after b
          (.takeBack w.attempts.length) = ⟨p', w.attempts ++ [.refused (w.pool.claim b).1]⟩ ∧
      p'.current = p.current ∧ ∀ i, p'.taken i = p.taken i := by
  rw [Pool.tryAdmit_eq] at h
  split at h
  · rename_i full
    cases h
    generalize hc : w.pool.claim b = c at full ⊢
    obtain ⟨i, s, p⟩ := c
    have counted : (w.after b .call).after b (.count w.attempts.length) =
        ⟨p.countUp i, w.attempts ++ [.exceeding i]⟩ := by
      simpa [after, hc] using full
    obtain ⟨slots, released⟩ := (p.countUp i).release_eq ⟨b, i⟩
    refine ⟨(p.countUp i).release ⟨b, i⟩, ?_, ?_, fun j => ?_⟩
    · rw [counted]
      simp [after]
    · rw [released]
      rfl
    · rw [Pool.release_taken, Pool.countUp_taken]
      split <;> rfl
  · cases h

variable {b : BufferId} {w w' : Contention} {e : Step} {p p' : Pool} {n : Nat} {x y : Attempt}
  {i : SlotId}

/-- How a request comes further: what it was, what it is then, and what becomes of the pool. -/
inductive Advance (b : BufferId) (p : Pool) : Step → Nat → Attempt → Attempt → Pool → Prop
  | granted {n : Nat} {i : SlotId} (room : p.taken i < p.config.maxInFlight) :
    Advance b p (.count n) n (.called i) (.granted i) (p.countUp i)
  | counted {n : Nat} {i : SlotId} (full : p.config.maxInFlight ≤ p.taken i) :
    Advance b p (.count n) n (.called i) (.exceeding i) (p.countUp i)
  | refused {n : Nat} {i : SlotId} :
    Advance b p (.takeBack n) n (.exceeding i) (.refused i) (p.release ⟨b, i⟩)
  | dropped {n : Nat} {i : SlotId} :
    Advance b p (.drop n) n (.granted i) (.dropped i) (p.release ⟨b, i⟩)

namespace Advance

theorem same_slot (h : Advance b p e n x y p') : x.slot = y.slot := by
  cases h <;> rfl

theorem only_slots (h : Advance b p e n x y p') : ∃ slots, p' = { p with slots } := by
  cases h with
  | granted | counted => exact ⟨_, rfl⟩
  | refused | dropped => exact p.release_eq _

theorem room_of_holds (h : Advance b p e n x y p') (holds : y.holds i) :
    p.taken i < p.config.maxInFlight := by
  cases h with
  | granted room => exact of_decide_eq_true holds ▸ room
  | _ => cases holds

theorem of_exceeding (h : Advance b p e n x (.exceeding i) p') :
    e = .count n ∧ x = .called i ∧ p.config.maxInFlight ≤ p.taken i := by
  cases h with
  | counted full => exact ⟨rfl, rfl, full⟩

theorem of_refused (h : Advance b p e n x (.refused i) p') : x = .exceeding i := by
  cases h with
  | refused => rfl

theorem taken (h : Advance b p e n x y p') (counted : x.counts i → 0 < p.taken i) :
    p'.taken i + (x.counts i).toNat = p.taken i + (y.counts i).toNat := by
  cases h with
  | @granted n j | @counted n j =>
    rw [Pool.countUp_taken]
    by_cases same : i = j <;> simp [Attempt.counts, same]
  | @refused n j | @dropped n j =>
    rw [Pool.release_taken]
    by_cases same : i = j
    · have positive := counted (decide_eq_true same)
      simp only [Attempt.counts, same, if_true, decide_true, Bool.toNat_true, Bool.toNat_false]
      exact Nat.sub_add_cancel (same ▸ positive)
    · simp [Attempt.counts, same]

end Advance

inductive Effect (b : BufferId) (w : Contention) : Step → Contention → Prop
  | idle (e : Step) : Effect b w e w
  | called : Effect b w .call ⟨(w.pool.claim b).2.2, w.attempts ++ [.called (w.pool.claim b).1]⟩
  | advanced {e : Step} {n : Nat} {x y : Attempt} {p : Pool} (was : w.attempts[n]? = some x)
    (advance : Advance b w.pool e n x y p) : Effect b w e ⟨p, w.attempts.set n y⟩
  | shutdown : Effect b w .shutdown { w with pool := w.pool.shutdown b }

theorem after_effect (b : BufferId) (w : Contention) (e : Step) : Effect b w e (w.after b e) := by
  cases e with
  | call => exact .called
  | count n =>
    simp only [after]
    split
    · rename_i i was
      split
      · rename_i full
        exact .advanced was (.counted (Nat.le_of_lt_succ full))
      · rename_i room
        exact .advanced was (.granted (Nat.lt_of_succ_le (Nat.le_of_not_gt room)))
    · exact .idle _
  | takeBack n =>
    simp only [after]
    split
    · rename_i i was
      exact .advanced was .refused
    · exact .idle _
  | drop n =>
    simp only [after]
    split
    · rename_i i was
      exact .advanced was .dropped
    · exact .idle _
  | shutdown => exact .shutdown

theorem Effect.called_or_kept (h : Effect b w e w') :
    e = .call ∧ w' = ⟨(w.pool.claim b).2.2, w.attempts ++ [.called (w.pool.claim b).1]⟩ ∨
    ∃ current slots, w'.pool = { w.pool with current, slots } ∧
      (∀ i, current.get? b = some i → w.pool.current.get? b = some i) ∧
      (e = .shutdown ∨ current = w.pool.current) ∧
      ∀ a ∈ w'.attempts, ∃ a₀ ∈ w.attempts, a₀.slot = a.slot := by
  cases h with
  | idle => exact .inr ⟨_, _, rfl, fun _ => id, .inr rfl, fun a ha => ⟨a, ha, rfl⟩⟩
  | called => exact .inl ⟨rfl, rfl⟩
  | @advanced _ n x y p was advance =>
    obtain ⟨slots, pool⟩ := advance.only_slots
    refine .inr ⟨_, slots, pool, fun _ => id, .inr rfl, fun a ha => ?_⟩
    rcases List.mem_or_eq_of_mem_set ha with old | rfl
    · exact ⟨a, old, rfl⟩
    · exact ⟨x, List.mem_of_getElem? was, advance.same_slot⟩
  | shutdown =>
    obtain ⟨current, slots, shut, kept⟩ := w.pool.shutdown_eq b
    exact .inr ⟨_, _, shut, fun i hi => (kept b i hi).1, .inl rfl, fun a ha => ⟨a, ha, rfl⟩⟩

theorem Effect.config (h : Effect b w e w') : w'.pool.config = w.pool.config := by
  rcases h.called_or_kept with ⟨-, rfl⟩ | ⟨current, slots, kept, -⟩
  · exact w.pool.claim_config b
  · rw [kept]

theorem countP_set {l : List Attempt} (was : l[n]? = some x) (y : Attempt) (q : Attempt → Bool) :
    (l.set n y).countP q + (q x).toNat = l.countP q + (q y).toNat := by
  obtain ⟨hn, rfl⟩ := List.getElem?_eq_some_iff.mp was
  have counted : (q l[n]).toNat ≤ l.countP q := by
    cases counts : q l[n] with
    | true => exact List.countP_pos_iff.mpr ⟨_, List.getElem_mem hn, counts⟩
    | false => exact Nat.zero_le _
  have as_toNat (c : Bool) : (if c then 1 else 0) = c.toNat := by cases c <;> rfl
  rw [List.countP_set hn, as_toNat, as_toNat]
  omega

theorem countP_counts (w : Contention) (i : SlotId) :
    w.attempts.countP (·.counts i) = w.held i + w.excess i := by
  rw [held, excess]
  induction w.attempts with
  | nil => rfl
  | cons a l ih =>
    have one : (if a.counts i then 1 else 0) =
        (if a.holds i then 1 else 0) + if a.exceeds i then 1 else 0 := by
      cases a <;> simp [Attempt.counts, Attempt.holds, Attempt.exceeds]
    rw [List.countP_cons, List.countP_cons, List.countP_cons, ih, one, Nat.add_add_add_comm]

structure Tallied (b : BufferId) (w : Contention) : Prop where
  counted : ∀ i, w.pool.taken i = w.attempts.countP (·.counts i)
  capped : ∀ i, w.held i ≤ w.pool.config.maxInFlight
  made : ∀ a ∈ w.attempts, a.slot < w.pool.issued
  holder : ∀ i, w.pool.current.get? b = some i → i < w.pool.issued

namespace Tallied

theorem initial (config : WorkerConfig) (b : BufferId) : Tallied b { pool := { config } } where
  counted _ := rfl
  capped _ := Nat.zero_le _
  made a h := by cases h
  holder i h := by cases h

theorem taken_eq (h : Tallied b w) (i : SlotId) : w.pool.taken i = w.held i + w.excess i := by
  rw [h.counted, countP_counts]

theorem fresh (h : Tallied b w) : w.pool.taken w.pool.issued = 0 := by
  rw [h.counted, List.countP_eq_zero]
  intro a ha counts
  exact Nat.ne_of_gt (h.made a ha) (Attempt.slot_of_counts counts)

theorem counted_after (h : Tallied b w) (effect : Effect b w e w') (i : SlotId) :
    w'.pool.taken i = w'.attempts.countP (·.counts i) := by
  cases effect with
  | idle => exact h.counted i
  | called =>
    rw [Pool.claim_taken h.fresh, h.counted, List.countP_append]
    rfl
  | @advanced _ n x y p was advance =>
    have there : x.counts i → 0 < w.pool.taken i := fun counts => by
      rw [h.counted, List.countP_pos_iff]
      exact ⟨x, List.mem_of_getElem? was, counts⟩
    have taken := advance.taken there
    rw [h.counted, ← countP_set was y (·.counts i)] at taken
    exact Nat.add_right_cancel taken
  | shutdown => exact (w.pool.shutdown_taken b i).trans (h.counted i)

theorem capped_after (h : Tallied b w) (effect : Effect b w e w') (i : SlotId) :
    w'.held i ≤ w'.pool.config.maxInFlight := by
  have capped := h.capped i
  rw [effect.config]
  cases effect with
  | idle | shutdown => exact capped
  | called =>
    rw [held, List.countP_append]
    exact capped
  | @advanced _ n x y p was advance =>
    have held' : held ⟨p, w.attempts.set n y⟩ i + (x.holds i).toNat =
        w.held i + (y.holds i).toNat := countP_set was y (·.holds i)
    cases holds : y.holds i with
    | true =>
      have room := advance.room_of_holds holds
      have taken := h.taken_eq i
      rw [holds, Bool.toNat_true] at held'
      omega
    | false =>
      rw [holds, Bool.toNat_false] at held'
      omega

theorem after (h : Tallied b w) (effect : Effect b w e w') : Tallied b w' := by
  refine ⟨h.counted_after effect, h.capped_after effect, ?_, ?_⟩
  all_goals rcases effect.called_or_kept with ⟨-, rfl⟩ | ⟨current, slots, pool, holder, -, kept⟩
  · intro a ha
    rcases List.mem_append.mp ha with old | new
    · exact Nat.lt_of_lt_of_le (h.made a old) (w.pool.issued_le_claim b)
    · rw [List.mem_singleton.mp new]
      exact Pool.claim_lt_issued h.holder
  · intro a ha
    obtain ⟨a₀, old, same⟩ := kept a ha
    rw [pool, ← same]
    exact h.made a₀ old
  · intro i hi
    rw [w.pool.claim_current b] at hi
    cases hi
    exact Pool.claim_lt_issued h.holder
  · intro i hi
    rw [pool] at hi ⊢
    exact h.holder i (holder i hi)

end Tallied

theorem tallied_run (config : WorkerConfig) (b : BufferId) (steps : List Step) :
    Tallied b (run config b steps) := by
  induction steps using List.reverseRecOn with
  | nil => exact .initial config b
  | append_singleton steps e ih =>
    rw [run_concat]
    exact ih.after (after_effect b _ e)

theorem run_config (config : WorkerConfig) (b : BufferId) (steps : List Step) :
    (run config b steps).pool.config = config := by
  induction steps using List.reverseRecOn with
  | nil => rfl
  | append_singleton steps e ih =>
    rw [run_concat, (after_effect b _ e).config, ih]

/-- A request is counted over the limit only where the counter has reached it. -/
theorem Effect.full_of_excess (h : Effect b w e w') (none : w.excess i = 0)
    (some : 0 < w'.excess i) : w.pool.config.maxInFlight ≤ w.pool.taken i := by
  cases h with
  | idle | shutdown => exact absurd some (none ▸ Nat.lt_irrefl _)
  | called =>
    rw [excess, List.countP_append] at some
    exact absurd some (none ▸ Nat.lt_irrefl _)
  | @advanced _ n x y p was advance =>
    have excess' : excess ⟨p, w.attempts.set n y⟩ i + (x.exceeds i).toNat =
        w.excess i + (y.exceeds i).toNat := countP_set was y (·.exceeds i)
    cases exceeds : y.exceeds i with
    | true =>
      rw [Attempt.eq_of_exceeds exceeds] at advance
      exact advance.of_exceeding.2.2
    | false =>
      rw [exceeds, none, Bool.toNat_false] at excess'
      omega

/-- At the moment `full` of a run all permits over the slot were held, and since then there was
always a request counted over it that held none. -/
structure Pressed (config : WorkerConfig) (b : BufferId) (i : SlotId) (full steps : List Step) :
    Prop where
  earlier : full <+: steps
  held : (run config b full).held i = config.maxInFlight
  since : ∀ mid, full <+: mid → mid <+: steps → mid = full ∨ 0 < (run config b mid).excess i

variable {config : WorkerConfig} {steps : List Step}

theorem Pressed.now (held : (run config b steps).held i = config.maxInFlight) :
    Pressed config b i steps steps where
  earlier := List.prefix_rfl
  held := held
  since _ after before := .inl (before.eq_of_length_le after.length_le)

theorem Pressed.concat {full : List Step} (h : Pressed config b i full steps)
    (counted : 0 < (run config b (steps ++ [e])).excess i) :
    Pressed config b i full (steps ++ [e]) where
  earlier := h.earlier.trans (List.prefix_append _ _)
  held := h.held
  since mid after before := by
    rcases List.prefix_concat_iff.mp before with rfl | before
    · exact .inr counted
    · exact h.since mid after before

theorem held_of_full (full : config.maxInFlight ≤ (run config b steps).pool.taken i)
    (none : (run config b steps).excess i = 0) :
    (run config b steps).held i = config.maxInFlight := by
  have tallied := tallied_run config b steps
  have capped := tallied.capped i
  rw [run_config] at capped
  rw [tallied.taken_eq, none] at full
  exact Nat.le_antisymm capped full

theorem pressed_of_excess (counted : 0 < (run config b steps).excess i) :
    ∃ full, Pressed config b i full steps := by
  -- either a request was counted over the limit before the last step too, or the last step counts
  -- the first one, and before it the counter shows nothing but permits
  induction steps using List.reverseRecOn with
  | nil => cases counted
  | append_singleton steps e ih =>
    by_cases before : 0 < (run config b steps).excess i
    · obtain ⟨full, pressed⟩ := ih before
      exact ⟨full, pressed.concat counted⟩
    · have none : (run config b steps).excess i = 0 := Nat.eq_zero_of_not_pos before
      have effect := after_effect b (run config b steps) e
      rw [← run_concat] at effect
      have full := effect.full_of_excess none counted
      rw [run_config] at full
      exact ⟨steps, (Pressed.now (held_of_full full none)).concat counted⟩

theorem pressed_of_full (full : config.maxInFlight ≤ (run config b steps).pool.taken i) :
    ∃ full, Pressed config b i full steps := by
  by_cases counted : 0 < (run config b steps).excess i
  · exact pressed_of_excess counted
  · exact ⟨steps, .now (held_of_full full (Nat.eq_zero_of_not_pos counted))⟩

/-- A request that is over the limit or refused was counted when the counter had reached it. -/
def Beyond (w : Contention) (n : Nat) (i : SlotId) : Prop :=
  w.attempts[n]? = some (.exceeding i) ∨ w.attempts[n]? = some (.refused i)

theorem Effect.beyond (h : Effect b w e w') (beyond : w'.Beyond n i) :
    w.Beyond n i ∨ e = .count n ∧ w.attempts[n]? = some (.called i) ∧
      w.pool.config.maxInFlight ≤ w.pool.taken i := by
  cases h with
  | idle | shutdown => exact .inl beyond
  | called =>
    simp only [Beyond, List.getElem?_append] at beyond ⊢
    grind
  | @advanced _ m x y p was advance =>
    by_cases same : m = n
    · subst same
      obtain ⟨there, -⟩ := List.getElem?_eq_some_iff.mp was
      rw [Beyond, List.getElem?_set_self there] at beyond
      rcases beyond with now | now
      · rw [Option.some.inj now] at advance
        obtain ⟨count, called, full⟩ := advance.of_exceeding
        exact .inr ⟨count, called ▸ was, full⟩
      · rw [Option.some.inj now] at advance
        exact .inl (.inl (advance.of_refused ▸ was))
    · rw [Beyond, List.getElem?_set_ne same] at beyond
      exact .inl beyond

theorem counted_of_beyond (beyond : (run config b steps).Beyond n i) :
    ∃ counted, counted ++ [.count n] <+: steps ∧
      (run config b counted).attempts[n]? = some (.called i) ∧
      config.maxInFlight ≤ (run config b counted).pool.taken i := by
  induction steps using List.reverseRecOn with
  | nil => rcases beyond with h | h <;> cases h
  | append_singleton steps e ih =>
    rw [run_concat] at beyond
    rcases (after_effect b _ e).beyond beyond with before | ⟨rfl, was, full⟩
    · obtain ⟨counted, earlier, was, full⟩ := ih before
      exact ⟨counted, earlier.trans (List.prefix_append _ _), was, full⟩
    · rw [run_config] at full
      exact ⟨steps, List.prefix_rfl, was, full⟩

def firstSlot : SlotId := 0

structure OneSlot (b : BufferId) (w : Contention) : Prop where
  slot : ∀ a ∈ w.attempts, a.slot = firstSlot
  holder : ∀ i, w.pool.current.get? b = some i → i = firstSlot
  vacant : w.pool.current.get? b = none → w.pool.issued = firstSlot ∧ w.attempts = []

theorem OneSlot.claimed (h : OneSlot b w) : (w.pool.claim b).1 = firstSlot := by
  cases hc : w.pool.current.get? b with
  | some i =>
    rw [Pool.claim_held hc]
    exact h.holder i hc
  | none =>
    rw [Pool.claim_unheld hc]
    exact (h.vacant hc).1

theorem OneSlot.after (h : OneSlot b w) (effect : Effect b w e w') (standing : e ≠ .shutdown) :
    OneSlot b w' := by
  rcases effect.called_or_kept with ⟨-, rfl⟩ | ⟨current, slots, pool, -, same, kept⟩
  · have found := w.pool.claim_current b
    refine ⟨fun a ha => ?_, fun i hi => ?_, fun vacant => ?_⟩
    · rcases List.mem_append.mp ha with old | new
      · exact h.slot a old
      · rw [List.mem_singleton.mp new]
        exact h.claimed
    · rw [found] at hi
      cases hi
      exact h.claimed
    · rw [found] at vacant
      cases vacant
  · have same : current = w.pool.current := same.resolve_left standing
    subst same
    refine ⟨fun a ha => ?_, fun i hi => ?_, fun vacant => ?_⟩
    · obtain ⟨a₀, old, same⟩ := kept a ha
      rw [← same, h.slot a₀ old]
    · rw [pool] at hi
      exact h.holder i hi
    · rw [pool] at vacant ⊢
      obtain ⟨first, none⟩ := h.vacant vacant
      refine ⟨first, List.eq_nil_iff_forall_not_mem.mpr fun a ha => ?_⟩
      obtain ⟨a₀, old, -⟩ := kept a ha
      rw [none] at old
      cases old

theorem oneSlot_run (standing : .shutdown ∉ steps) : OneSlot b (run config b steps) := by
  induction steps using List.reverseRecOn with
  | nil => exact ⟨fun a h => (by cases h), fun i h => (by cases h), fun _ => ⟨rfl, rfl⟩⟩
  | append_singleton steps e ih =>
    rw [List.mem_append, not_or, List.mem_singleton] at standing
    rw [run_concat]
    exact (ih standing.1).after (after_effect b _ e) (Ne.symm standing.2)

theorem OneSlot.permits_eq (h : OneSlot b w) : w.permits = w.held firstSlot :=
  List.countP_congr fun a ha => by rw [h.slot a ha]

theorem OneSlot.inFlight_eq (h : OneSlot b w) (tallied : Tallied b w) :
    w.pool.inFlight b = w.held firstSlot + w.excess firstSlot := by
  cases hc : w.pool.current.get? b with
  | some i => rw [Pool.inFlight_holder hc, h.holder i hc, tallied.taken_eq]
  | none =>
    rw [Pool.inFlight_vacant hc, held, excess, (h.vacant hc).2]
    rfl

theorem Quiet.excess (quiet : w.Quiet) (i : SlotId) : w.excess i = 0 :=
  List.countP_eq_zero.mpr fun a ha => by
    have still := quiet a ha
    cases a with
    | exceeding j => cases still
    | _ => exact Bool.false_ne_true

/-- However the steps of the requests are interleaved, at most as many permits are held over a slot
as there may be, and the counter shows them together with the requests that are counted over the
limit, so it shows the permits when no request is under way. Without a shutdown these are all the
permits of the buffer. A request is refused only if permits and such requests together have reached
the limit when it is counted. Then all permits were held at some moment, the same or an earlier one
since which there was always a request counted over the limit. -/
theorem permits_under_contention (config : WorkerConfig) (b : BufferId) (steps : List Step) :
    (∀ i, (run config b steps).held i ≤ config.maxInFlight) ∧
    (∀ i, (run config b steps).pool.taken i =
      (run config b steps).held i + (run config b steps).excess i) ∧
    ((run config b steps).Quiet →
      ∀ i, (run config b steps).pool.taken i = (run config b steps).held i) ∧
    (.shutdown ∉ steps →
      (∀ a ∈ (run config b steps).attempts, a.slot = firstSlot) ∧
      (run config b steps).permits ≤ config.maxInFlight ∧
      ((run config b steps).Quiet →
        (run config b steps).pool.inFlight b = (run config b steps).permits)) ∧
    ∀ n i, (run config b steps).Beyond n i →
      ∃ counted, counted ++ [.count n] <+: steps ∧
        (run config b counted).attempts[n]? = some (.called i) ∧
        config.maxInFlight ≤ (run config b counted).held i + (run config b counted).excess i ∧
        ∃ full, Pressed config b i full counted := by
  have tallied := tallied_run config b steps
  have capped (i : SlotId) : (run config b steps).held i ≤ config.maxInFlight := by
    have capped := tallied.capped i
    rwa [run_config] at capped
  refine ⟨capped, tallied.taken_eq, fun quiet i => ?_, fun standing => ?_, fun n i beyond => ?_⟩
  · rw [tallied.taken_eq, quiet.excess, Nat.add_zero]
  · have one : OneSlot b (run config b steps) := oneSlot_run standing
    refine ⟨one.slot, one.permits_eq ▸ capped firstSlot, fun quiet => ?_⟩
    rw [one.inFlight_eq tallied, quiet.excess, one.permits_eq, Nat.add_zero]
  · obtain ⟨counted, earlier, was, full⟩ := counted_of_beyond beyond
    exact ⟨counted, earlier, was, (tallied_run config b counted).taken_eq i ▸ full,
      pressed_of_full full⟩

def lonePermit : WorkerConfig := { Pool.readerConfig with maxInFlight := 1 }

/-- Request 1 is refused while request 0 holds the permit, and is counted until after request 2,
which is called and refused when the permit has been dropped. Request 3 is granted. -/
def crossed : List Step := [
  .call, .count 0, .call, .count 1, .drop 0,
  .call, .count 2, .takeBack 2,
  .takeBack 1, .call, .count 3]

instance (w : Contention) : Decidable w.Quiet :=
  inferInstanceAs (Decidable (∀ a ∈ w.attempts, a.underWay = false))

theorem crossed_contended :
    .shutdown ∉ crossed ∧ (run lonePermit 1 crossed).Quiet ∧
    (run lonePermit 1 crossed).Beyond 2 firstSlot ∧
    (run lonePermit 1 crossed).permits = 1 ∧
    (run lonePermit 1 crossed).pool.inFlight 1 = (run lonePermit 1 crossed).permits ∧
    (run lonePermit 1 crossed).pool.taken firstSlot = (run lonePermit 1 crossed).held firstSlot ∧
    ∃ counted full, counted ++ [.count 2] <+: crossed ∧
      Pressed lonePermit 1 firstSlot full counted := by
  have standing : .shutdown ∉ crossed := by decide
  have quiet : (run lonePermit 1 crossed).Quiet := by decide
  have beyond : (run lonePermit 1 crossed).Beyond 2 firstSlot := .inr (by decide)
  obtain ⟨-, -, still, unshut, refused⟩ := permits_under_contention lonePermit 1 crossed
  obtain ⟨counted, earlier, -, -, full, pressed⟩ := refused 2 firstSlot beyond
  exact ⟨standing, quiet, beyond, by decide, (unshut standing).2.2 quiet, still quiet _,
    counted, full, earlier, pressed⟩

/-- From before its call to after its end no permit is held, and yet request 2 is refused. -/
theorem refused_without_permits :
    lonePermit.maxInFlight = 1 ∧ .shutdown ∉ crossed ∧
    (run lonePermit 1 (crossed.take 5)).attempts.length = 2 ∧ crossed[5]? = some .call ∧
    crossed[7]? = some (.takeBack 2) ∧
    (run lonePermit 1 (crossed.take 8)).attempts[2]? = some (.refused firstSlot) ∧
    ∀ k ∈ [5, 6, 7, 8], (run lonePermit 1 (crossed.take k)).permits = 0 := by
  refine ⟨rfl, by decide, by decide, by decide, by decide, by decide, by decide⟩

def twoPermits : WorkerConfig := { Pool.readerConfig with maxInFlight := 2 }

/-- The buffer is shut down while its two permits are held, and the next request finds a new slot. -/
def renewed : List Step := [.call, .count 0, .call, .count 1, .shutdown, .call, .count 2]

/-- Without a shutdown the permits of a buffer stay within the limit. With one, three are held where
two are the limit, and the counter shows one of them. -/
theorem renewed_exceeds : .shutdown ∈ renewed ∧
    (run twoPermits 1 renewed).Quiet ∧ (run twoPermits 1 renewed).permits = 3 ∧
    (run twoPermits 1 renewed).pool.inFlight 1 = 1 := by
  refine ⟨by decide, by decide, by decide, by decide⟩

end Contention

end SemanticHighlight.Worker
