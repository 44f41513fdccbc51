import Mathlib.Algebra.Group.Nat.Defs
import SemanticHighlight.Proofs.Worker.Permits
import SemanticHighlight.Proofs.Worker.Replies

/-!
# Restart delays

A streak is what the replies over a slot tell of its starts: how many have failed in a row, and when
the last one did. The count and the time that are kept in the slot are those of its streak, although
the one saturates and the other is computed with a capped shift. So a slot whose starts have failed
is left alone until the delay has passed, and is tried again by the first exchange after that.
-/

set_option autoImplicit false

namespace SemanticHighlight.Worker

namespace Slot

variable {c : WorkerConfig} {m : Moment} {pid : Nat} {t : Target} {request : Bytes} {s s' : Slot}

/-- The delay after the `n`-th failed start in a row. -/
def delay (n : Nat) : Duration := Duration.ofMillis (min 5000 (200 * 2 ^ (n - 1)))

theorem delay_le (n : Nat) : delay n ≤ Duration.ofMillis 5000 :=
  Nat.mul_le_mul_right _ (Nat.min_le_left _ _)

theorem capped_shift (n : Nat) :
    min (200 * 2 ^ min (min n maxFailures - 1) 6) 5000 = min 5000 (200 * 2 ^ (n - 1)) := by
  have room : 7 ≤ maxFailures := by decide
  by_cases small : n ≤ 7
  · have shift : min (min n maxFailures - 1) 6 = n - 1 := by omega
    rw [shift, Nat.min_comm]
  · have shift : min (min n maxFailures - 1) 6 = 6 := by omega
    have large : 2 ^ 7 ≤ 2 ^ (n - 1) := Nat.pow_le_pow_right (by omega) (by omega)
    rw [shift]
    omega

theorem backoff_eq_delay (n : Nat) : backoff (min n maxFailures) = delay n :=
  congrArg Duration.ofMillis (capped_shift n)

/-- The number, if a word of so many values holds it. -/
def word? (size n : Nat) : Option Nat := if n < size then some n else none

/-- The next count of failures and the delay in milliseconds, in words of 32 and 64 bits. The count
saturates; none if any other step overflows. -/
def checkedDelay (failures : Nat) : Option (Nat × Nat) := do
  let count := (word? UInt32.size (failures + 1)).getD maxFailures
  let factor ← word? UInt64.size (2 ^ min (count - 1) 6)
  let millis ← word? UInt64.size (200 * factor)
  return (count, min millis 5000)

theorem word?_saturated (n : Nat) :
    (word? UInt32.size (min n maxFailures + 1)).getD maxFailures = min (n + 1) maxFailures := by
  have size : UInt32.size = maxFailures + 1 := by decide
  rw [word?, size]
  split
  · rw [Option.getD_some]
    omega
  · rw [Option.getD_none]
    omega

theorem checkedDelay_eq (n : Nat) :
    checkedDelay (min n maxFailures) =
      some (min (n + 1) maxFailures, min 5000 (200 * 2 ^ n)) := by
  have shift : min (min (n + 1) maxFailures - 1) 6 ≤ 6 := Nat.min_le_right _ _
  have factor : 2 ^ min (min (n + 1) maxFailures - 1) 6 ≤ 2 ^ 6 :=
    Nat.pow_le_pow_right (by omega) shift
  have holds (k : Nat) (hk : k ≤ 200 * 2 ^ 6) : word? UInt64.size k = some k :=
    if_pos (Nat.lt_of_le_of_lt hk (by decide))
  have millis := capped_shift (n + 1)
  rw [Nat.add_sub_cancel] at millis
  rw [checkedDelay, word?_saturated]
  simp only [holds _ (Nat.le_trans factor (by decide)), holds _ (Nat.mul_le_mul_left 200 factor),
    Option.bind_eq_bind, Option.bind_some, Option.pure_def, millis]

structure Failed (c : WorkerConfig) (m : Moment) (t : Target) (before : Nat) (e : IoError)
    (s' : Slot) : Prop where
  cause : m.launch c.binary (c.arguments t) = .error e
  failures : s'.failures = min (before + 1) maxFailures
  retryAt : s'.retryAt? = some (m.now + backoff (min (before + 1) maxFailures))

theorem launch_failed {e : IoError} (h : launch c m pid t s = (.error (.spawn e), s')) :
    Failed c m t s.failures e s' := by
  unfold launch at h
  split at h
  · cases h
  · rename_i cause
    cases h
    exact ⟨cause, rfl, rfl⟩

theorem start_failed {e : IoError} (h : start c m pid t s = (.error (.spawn e), s')) :
    Failed c m t s.failures e s' := by
  unfold start at h
  split at h
  · split at h
    · cases h
    · exact launch_failed h
  · exact launch_failed h

theorem ensureRunning_failed {e : IoError}
    (h : ensureRunning c m pid t s = (.error (.spawn e), s')) :
    Failed c m t s.failures e s' := by
  unfold ensureRunning at h
  split at h
  · split at h
    · split at h
      · cases h
      · have failed := start_failed h
        exact failed
    · exact start_failed h
  · have failed := start_failed h
    exact failed

theorem exchange_failed {e : IoError}
    (h : (s.exchange c m pid t request).reply = .error (.spawn e)) :
    Failed c m t s.failures e (s.exchange c m pid t request).slot := by
  cases served : s.serving? c m pid t with
  | none =>
    obtain ⟨e', ready, reply⟩ := exchange_unserved served request
    rw [h] at reply
    cases reply
    exact ensureRunning_failed ready
  | some q =>
    rw [exchange_reply served, answer] at h
    split at h
    · cases h
    · split at h <;> cases h

theorem ensureRunning_failing (h : s.Settled) {retryAt : Instant} (hr : s.retryAt? = some retryAt)
    (c : WorkerConfig) (m : Moment) (pid : Nat) (t : Target) :
    ensureRunning c m pid t s =
      if m.now < retryAt then (.error (.unavailable (retryAt - m.now)), s)
      else launch c m pid t s := by
  have failing := h.failing.mpr (h.waiting.mpr (by rw [hr]; rfl))
  have started : s.started = true := by
    rw [← Bool.not_eq_false, ← h.unused, failing]
    decide
  have process : s.process? = none := by
    cases hq : s.process? with
    | none => rfl
    | some q =>
      have running := h.holding (by rw [hq]; rfl)
      rw [failing] at running
      cases running
  rw [ensureRunning, if_pos started, process]
  simp only [start, hr]

theorem exchange_waiting (h : s.Settled) {retryAt : Instant} (hr : s.retryAt? = some retryAt)
    (early : m.now < retryAt) :
    s.exchange c m pid t request =
      { reply := .error (.unavailable (retryAt - m.now)), slot := s, finished := m.now } := by
  rw [exchange, ensureRunning_failing h hr c m pid t, if_pos early]

end Slot

def Event.time? : Event → Option Instant
  | .exchange m _ _ _ => some m.now
  | _ => none

/-- The failed starts in a row that the replies over a slot tell of. -/
structure Streak where
  failures : Nat := 0
  last : Instant := 0
  deriving DecidableEq, Repr

namespace Streak

/-- A reply that tells neither of a failed start nor of a wait is that of a worker that runs. -/
def next (k : Streak) (now : Instant) : Except Error String → Streak
  | .error (.spawn _) => ⟨k.failures + 1, now⟩
  | .error (.unavailable _) => k
  | _ => {}

def due (k : Streak) : Instant := k.last + Slot.delay k.failures

theorem next_answer (k : Streak) (now : Instant) (trip : RoundTrip) :
    k.next now (Slot.answer trip) = {} := by
  unfold Slot.answer
  split
  · rfl
  · split <;> rfl

end Streak

/-- The count and the time that the slot keeps are those of the streak. -/
structure Slot.Keeps (s : Slot) (k : Streak) : Prop where
  failures : s.failures = min k.failures maxFailures
  retryAt : s.retryAt? = if k.failures = 0 then none else some k.due

namespace Slot.Keeps

variable {s : Slot} {k : Streak}

theorem retryAt_due (kept : s.Keeps k) (failing : 0 < k.failures) : s.retryAt? = some k.due := by
  rw [kept.retryAt, if_neg (Nat.ne_of_gt failing)]

theorem next (kept : s.Keeps k) (h : s.Settled) (c : WorkerConfig) (m : Moment) (pid : Nat)
    (t : Target) (request : Bytes) :
    (s.exchange c m pid t request).slot.Keeps
      (k.next m.now (s.exchange c m pid t request).reply) := by
  have ends := exchange_ends c m pid t request h
  cases ends with
  | replied served recorded reply same slot =>
    have reset : k.next m.now (s.exchange c m pid t request).reply = {} := by
      rcases reply with ⟨text, reply⟩ | reply <;> rw [reply] <;> rfl
    rw [reset, slot]
    exact ⟨rfl, rfl⟩
  | broken served reply slot =>
    rw [reply, slot]
    exact ⟨rfl, rfl⟩
  | failed unserved reply counted gone slot =>
    have failed := exchange_failed reply
    have count : min (s.failures + 1) maxFailures = min (k.failures + 1) maxFailures := by
      rw [kept.failures]
      omega
    rw [reply]
    exact ⟨failed.failures.trans count, by rw [failed.retryAt, count, backoff_eq_delay]; rfl⟩
  | waiting unserved reply pending slot =>
    rw [reply, slot]
    exact kept

end Slot.Keeps

namespace Pool

variable {p : Pool} {l : Ledger} {past : List Event} {e : Event} {i : SlotId}

def streakAfter (p : Pool) (i : SlotId) (k : Streak) : Event → Streak
  | .exchange m permit t request =>
    if permit.slot = i then k.next m.now (p.exchange m permit t request).1.reply else k
  | _ => k

def streakFrom (p : Pool) (i : SlotId) (k : Streak) : List Event → Streak
  | [] => k
  | e :: es => (p.after e).streakFrom i (p.streakAfter i k e) es

theorem streakFrom_append (p : Pool) (i : SlotId) (k : Streak) (es es' : List Event) :
    p.streakFrom i k (es ++ es') = (p.run es).streakFrom i (p.streakFrom i k es) es' := by
  induction es generalizing p k with
  | nil => rfl
  | cons e es ih => exact ih (p.after e) (p.streakAfter i k e)

theorem streakAfter_quiet (quiet : ¬e.asks i) (k : Streak) : p.streakAfter i k e = k := by
  cases e with
  | exchange m permit t request => exact if_neg quiet
  | _ => rfl

/-- The slots of a pool keep the streaks, and those that are still to be made have none. -/
structure Paced (p : Pool) (streak : SlotId → Streak) : Prop where
  kept : ∀ i s, p.slots.get? i = some s → s.Keeps (streak i)
  unmade : ∀ i, p.issued ≤ i → streak i = {}

namespace Paced

variable {streak : SlotId → Streak}

theorem initial (config : WorkerConfig) : Paced { config } fun _ => {} where
  kept i s h := by cases h
  unmade i _ := rfl

theorem after (paced : p.Paced streak) (h : p.Balanced l past)
    (allowed : ∀ permit ∈ e.permit?, permit ∈ l.held) :
    (p.after e).Paced fun i => p.streakAfter i (streak i) e where
  kept i s' hs' := by
    cases after_becomes hs' with
    | counted was now spared =>
      have quiet : ¬e.asks i := by
        cases e with
        | exchange m permit t request => exact spared
        | _ => exact id
      have kept := paced.kept i _ was
      rw [streakAfter_quiet quiet, now]
      exact ⟨kept.failures, kept.retryAt⟩
    | @made b n event vacant now =>
      subst event now
      have new : p.issued = i := by
        rcases vacant with ⟨holder, gone⟩ | ⟨-, hi⟩
        · obtain ⟨s, hs, -⟩ := h.started b i holder
          rw [gone] at hs
          cases hs
        · exact hi.symm
      have unmade := paced.unmade i (Nat.le_of_eq new)
      simp only [streakAfter, unmade]
      exact ⟨rfl, rfl⟩
    | @asked m permit t request event slot now =>
      subst event slot
      have there := h.held_counted (allowed permit rfl)
      cases hs : p.slots.get? permit.slot with
      | none => simp [taken, hs] at there
      | some s =>
        have next := (paced.kept _ s hs).next (h.settled _ s hs) p.config m p.exchanges t request
        simpa [streakAfter, exchange, now, hs] using next
    | stopped event holder was now =>
      have kept := paced.kept i _ was
      rw [streakAfter_quiet (by simp [event, Event.asks]), now]
      exact ⟨kept.failures, kept.retryAt⟩
    | died event was now =>
      have kept := paced.kept i _ was
      rw [streakAfter_quiet (by simp [event, Event.asks]), now]
      exact ⟨kept.failures, kept.retryAt⟩
  unmade i hi := by
    have old := issued_le p e
    have quiet : ¬e.asks i := by
      intro asked
      cases e with
      | exchange m permit t request =>
        have made := (h.owned permit (allowed permit rfl)).1
        change permit.slot = i at asked
        exact absurd (asked ▸ made) (Nat.not_lt.mpr (Nat.le_trans old hi))
      | _ => exact asked
    rw [streakAfter_quiet quiet]
    exact paced.unmade i (Nat.le_trans old hi)

theorem run (paced : p.Paced streak) (h : p.Balanced l past) {es : List Event}
    (owned : p.Owned l es) : (p.run es).Paced fun i => p.streakFrom i (streak i) es := by
  induction es generalizing p l past streak with
  | nil => exact paced
  | cons e es ih => exact ih (paced.after h owned.1) (h.after owned.1) owned.2

theorem slot (paced : p.Paced streak) (h : p.Balanced l past) {permit : Permit}
    (held : permit ∈ l.held) :
    ∃ s, p.slots.get? permit.slot = some s ∧ s.Settled ∧ s.Keeps (streak permit.slot) := by
  have there := h.held_counted held
  cases hs : p.slots.get? permit.slot with
  | none => simp [taken, hs] at there
  | some s => exact ⟨s, rfl, h.settled _ s hs, paced.kept _ s hs⟩

end Paced

variable {m : Moment} {permit : Permit} {t : Target} {request : Bytes}

/-- An exchange over a slot that is not tried again yet: nothing is started, and nothing changes. -/
structure HeldBack (p : Pool) (due : Instant) (m : Moment) (permit : Permit) (t : Target)
    (request : Bytes) : Prop where
  reply : (p.exchange m permit t request).1.reply = .error (.unavailable (due - m.now))
  remaining : 0 < due - m.now ∧ due - m.now ≤ Duration.ofMillis 5000
  unattempted : ∀ launch,
    p.exchange ⟨m.now, launch⟩ permit t request = p.exchange m permit t request
  at_once : (p.exchange m permit t request).1.finished = m.now
  unseen : (p.exchange m permit t request).1.additions = []
  slots : ∀ i, (p.exchange m permit t request).2.slots.get? i = p.slots.get? i
  holders : (p.exchange m permit t request).2.current = p.current

theorem exchange_waiting {s : Slot} (hs : p.slots.get? permit.slot = some s) (h : s.Settled)
    {retryAt : Instant} (hr : s.retryAt? = some retryAt) (early : m.now < retryAt) :
    p.exchange m permit t request =
      ({ reply := .error (.unavailable (retryAt - m.now)), slot := s, finished := m.now },
        { p with slots := p.slots.set permit.slot s, exchanges := p.exchanges + 1 }) := by
  rw [exchange, hs, Option.getD_some, Slot.exchange_waiting h hr early]

theorem Paced.heldBack {streak : SlotId → Streak} (paced : p.Paced streak) (h : p.Balanced l past)
    (held : permit ∈ l.held) (failing : 0 < (streak permit.slot).failures)
    (early : m.now < (streak permit.slot).due) (since : (streak permit.slot).last ≤ m.now) :
    HeldBack p (streak permit.slot).due m permit t request := by
  obtain ⟨s, hs, settled, kept⟩ := paced.slot h held
  have waiting (m' : Moment) (same : m'.now = m.now) : p.exchange m' permit t request = _ :=
    exchange_waiting hs settled (kept.retryAt_due failing) (same ▸ early)
  have limit := Slot.delay_le (streak permit.slot).failures
  have pause : (streak permit.slot).due - m.now ≤ Slot.delay (streak permit.slot).failures := by
    rw [Streak.due, Nat.sub_le_iff_le_add, Nat.add_comm]
    exact Nat.add_le_add_left since _
  constructor
  · rw [waiting m rfl]
  · exact ⟨Nat.sub_pos_of_lt early, Nat.le_trans pause limit⟩
  · intro launch
    rw [waiting m rfl, waiting ⟨m.now, launch⟩ rfl]
  · rw [waiting m rfl]
  · rw [waiting m rfl]
  · intro i
    rw [waiting m rfl, Keyed.get?_set]
    split
    · rename_i hi
      rw [hi, hs]
    · rfl
  · rfl

theorem Paced.waits {streak : SlotId → Streak} (paced : p.Paced streak) (h : p.Balanced l past)
    {es : List Event} (owned : p.Owned l es) (failing : 0 < (streak i).failures)
    (early : ∀ m permit t request, .exchange m permit t request ∈ es → permit.slot = i →
      m.now < (streak i).due) : p.streakFrom i (streak i) es = streak i := by
  induction es generalizing p l past streak with
  | nil => rfl
  | cons e es ih =>
    have same : p.streakAfter i (streak i) e = streak i := by
      by_cases asked : e.asks i
      · cases e with
        | exchange m permit t request =>
          change permit.slot = i at asked
          subst asked
          obtain ⟨s, hs, settled, kept⟩ := paced.slot h (owned.1 permit rfl)
          have now := early m permit t request List.mem_cons_self rfl
          rw [streakAfter, if_pos rfl,
            exchange_waiting hs settled (kept.retryAt_due failing) now]
          rfl
        | _ => exact asked.elim
      · exact streakAfter_quiet asked _
    have later := ih (paced.after h owned.1) (h.after owned.1) owned.2
    rw [streakFrom]
    simp only [same] at later ⊢
    exact later failing fun m permit t request he =>
      early m permit t request (List.mem_cons_of_mem e he)

structure Attempted (p : Pool) (m : Moment) (permit : Permit) (t : Target) (request : Bytes) :
    Prop where
  failing : ∀ e, m.launch p.config.binary (p.config.arguments t) = .error e →
    (p.exchange m permit t request).1.reply = .error (.spawn e)
  starting : ∀ program, m.launch p.config.binary (p.config.arguments t) = .ok program →
    p.serving? m permit t =
      some { pid := p.exchanges, program, args := p.config.arguments t }

theorem Paced.attempted {streak : SlotId → Streak} (paced : p.Paced streak) (h : p.Balanced l past)
    (held : permit ∈ l.held) (failing : 0 < (streak permit.slot).failures)
    (due : (streak permit.slot).due ≤ m.now) : Attempted p m permit t request := by
  obtain ⟨s, hs, settled, kept⟩ := paced.slot h held
  have ready :=
    Slot.ensureRunning_failing settled (kept.retryAt_due failing) p.config m p.exchanges t
  rw [if_neg (Nat.not_lt.mpr due)] at ready
  constructor
  · intro e failed
    rw [exchange, hs, Option.getD_some, Slot.exchange, ready, Slot.launch, failed]
  · intro program started
    rw [serving?, hs, Option.getD_some, Slot.serving?, ready, Slot.launch, started]

def streak (config : WorkerConfig) (es : List Event) (i : SlotId) : Streak :=
  streakFrom { config } i {} es

theorem paced_run {config : WorkerConfig} {es : List Event} (owned : Owned { config } {} es) :
    (Pool.run { config } es).Paced (streak config es) :=
  (Paced.initial config).run (.initial config) owned

theorem streak_waits {config : WorkerConfig} {done mid : List Event}
    (owned : Owned { config } {} (done ++ mid)) (failing : 0 < (streak config done i).failures)
    (early : ∀ m permit t request, .exchange m permit t request ∈ mid → permit.slot = i →
      m.now < (streak config done i).due) :
    streak config (done ++ mid) i = streak config done i := by
  obtain ⟨before, later⟩ := owned_append.mp owned
  rw [streak, streakFrom_append]
  exact (paced_run before).waits (balanced_run before) later failing early

theorem streakFrom_last_le {k : Streak} {es : List Event} {bound : Instant} (start : k.last ≤ bound)
    (times : ∀ m permit t request, .exchange m permit t request ∈ es → m.now ≤ bound) :
    (p.streakFrom i k es).last ≤ bound := by
  induction es generalizing p k with
  | nil => exact start
  | cons e es ih =>
    apply ih
    · cases e with
      | exchange m permit t request =>
        have now := times m permit t request List.mem_cons_self
        rw [streakAfter]
        split
        · unfold Streak.next
          split
          · exact now
          · exact start
          · exact Nat.zero_le _
        · exact start
      | _ => exact start
    · exact fun m permit t request he => times m permit t request (List.mem_cons_of_mem e he)

def Timely (es : List Event) : Prop := (es.filterMap Event.time?).Pairwise (· ≤ ·)

instance (es : List Event) : Decidable (Timely es) :=
  inferInstanceAs (Decidable (List.Pairwise _ _))

theorem Timely.earlier {done later : List Event}
    (h : Timely (done ++ [.exchange m permit t request] ++ later)) {m' : Moment} {permit' : Permit}
    {t' : Target} {request' : Bytes} (he : .exchange m' permit' t' request' ∈ done) :
    m'.now ≤ m.now := by
  rw [Timely, List.append_assoc, List.filterMap_append, List.pairwise_append] at h
  apply h.2.2
  · exact List.mem_filterMap.mpr ⟨_, he, rfl⟩
  · simp [Event.time?]

theorem owned_exchange {done later : List Event}
    (owned : p.Owned l (done ++ [.exchange m permit t request] ++ later)) :
    p.Owned l done ∧ permit ∈ (p.ledger l done).held := by
  rw [List.append_assoc, owned_append] at owned
  exact ⟨owned.1, owned.2.1 permit rfl⟩

/-- What a run does with workers that cannot be started. -/
structure PacedRun (config : WorkerConfig) (es : List Event) : Prop where
  kept (done : List Event) (i : SlotId) (s : Slot) : done <+: es →
    (run { config } done).slots.get? i = some s → s.Keeps (streak config done i)
  waits (done mid : List Event) (m : Moment) (permit : Permit) (t : Target) (request : Bytes) :
    done ++ mid ++ [.exchange m permit t request] <+: es →
    0 < (streak config done permit.slot).failures → m.now < (streak config done permit.slot).due →
    HeldBack (run { config } (done ++ mid)) (streak config done permit.slot).due m permit t request
  /-- The first exchange after that starts the program. -/
  resumes (done mid : List Event) (m : Moment) (permit : Permit) (t : Target) (request : Bytes) :
    done ++ mid ++ [.exchange m permit t request] <+: es →
    0 < (streak config done permit.slot).failures → (streak config done permit.slot).due ≤ m.now →
    (∀ m' permit' t' request', .exchange m' permit' t' request' ∈ mid →
      permit'.slot = permit.slot → m'.now < (streak config done permit.slot).due) →
    Attempted (run { config } (done ++ mid)) m permit t request
  failed (done : List Event) (m : Moment) (permit : Permit) (t : Target) (request : Bytes)
    (e : IoError) : done ++ [.exchange m permit t request] <+: es →
    ((run { config } done).exchange m permit t request).1.reply = .error (.spawn e) →
    m.launch config.binary (config.arguments t) = .error e
  reached (done : List Event) (m : Moment) (permit : Permit) (t : Target) (request : Bytes)
    (q : Process) : done ++ [.exchange m permit t request] <+: es →
    (run { config } done).serving? m permit t = some q →
    streak config (done ++ [.exchange m permit t request]) permit.slot = {}
  /-- After a shutdown the buffer is given a slot without a streak. -/
  renewed (done : List Event) (b : BufferId) (later : List Event) (permit : Permit) :
    done ++ .shutdown b :: later <+: es → (∀ e ∈ later, e ≠ .enter b) →
    ((run { config } (done ++ .shutdown b :: later)).tryAdmit b).1 = some permit →
    streak config (done ++ .shutdown b :: later ++ [.enter b]) permit.slot = {}

/-- In every run in which time does not go back, failed starts hold back new ones for the delay that
their number asks for. The delay is exact for every number, and no step of its computation
overflows. -/
theorem restarts_paced (config : WorkerConfig) (es : List Event)
    (owned : Owned { config } {} es) (timely : Timely es) :
    PacedRun config es ∧
    ∀ n : Nat, Slot.checkedDelay (min n Slot.maxFailures) =
        some (min (n + 1) Slot.maxFailures, min 5000 (200 * 2 ^ n)) ∧
      Slot.backoff (min (n + 1) Slot.maxFailures) =
        Duration.ofMillis (min 5000 (200 * 2 ^ n)) := by
  refine ⟨⟨?_, ?_, ?_, ?_, ?_, ?_⟩,
    fun n => ⟨Slot.checkedDelay_eq n, Slot.backoff_eq_delay (n + 1)⟩⟩
  · intro done i s hd hs
    exact (paced_run (owned.before hd)).kept i s hs
  · rintro done mid m permit t request ⟨later, rfl⟩ failing early
    obtain ⟨before, held⟩ := owned_exchange owned
    have past (m' : Moment) (permit' : Permit) (t' : Target) (request' : Bytes)
        (he : .exchange m' permit' t' request' ∈ done ++ mid) : m'.now ≤ m.now := timely.earlier he
    have same := streak_waits before failing fun m' permit' t' request' he _ =>
      Nat.lt_of_le_of_lt (past m' permit' t' request' (List.mem_append_right _ he)) early
    have since : (streak config (done ++ mid) permit.slot).last ≤ m.now :=
      streakFrom_last_le (Nat.zero_le _) past
    rw [← same]
    exact (paced_run before).heldBack (balanced_run before) held (same ▸ failing)
      (same ▸ early) since
  · rintro done mid m permit t request ⟨later, rfl⟩ failing due first
    obtain ⟨before, held⟩ := owned_exchange owned
    have same := streak_waits before failing first
    exact (paced_run before).attempted (balanced_run before) held (same ▸ failing)
      (same ▸ due)
  · intro done m permit t request e hd reply
    have failed := Slot.exchange_failed reply
    have cause := failed.cause
    rwa [run_config] at cause
  · intro done m permit t request q hd served
    rw [streak, streakFrom_append]
    have reply : ((run { config } done).exchange m permit t request).1.reply = _ :=
      Slot.exchange_reply served request
    simp only [streakFrom, streakAfter, reply, if_true, Streak.next_answer]
  · intro done b later permit hd unentered admitted
    have paced := paced_run (owned.before hd)
    have vacant := vacated config done unentered
    have new : permit.slot = (run { config } (done ++ .shutdown b :: later)).issued := by
      rw [tryAdmit_unheld vacant] at admitted
      dsimp only at admitted
      split at admitted <;> cases admitted
      rfl
    rw [streak, streakFrom_append]
    exact paced.unmade permit.slot (Nat.le_of_eq new.symm)

def absentMoment (millis : Nat) : Moment :=
  ⟨Duration.ofMillis millis, fun _ _ => .error .noEntry⟩

def askAbsent (millis : Nat) : Event :=
  .exchange (absentMoment millis) ⟨1, 0⟩ (.ofFile 1 "/p/a.c" "/p") []

def absences : List Event := [.enter 1, askAbsent 0, askAbsent 199, askAbsent 200]

/-- After the second failure the next start is due four tenths of a second later. -/
theorem absences_held_back :
    Owned { config := readerConfig } {} (absences ++ [askAbsent 599]) ∧
    Timely (absences ++ [askAbsent 599]) ∧
    streak readerConfig absences 0 = ⟨2, Duration.ofMillis 200⟩ ∧
    (streak readerConfig absences 0).due = Duration.ofMillis 600 ∧
    HeldBack (run { config := readerConfig } absences) (streak readerConfig absences 0).due
      (absentMoment 599) ⟨1, 0⟩ (.ofFile 1 "/p/a.c" "/p") [] := by
  have owned : Owned { config := readerConfig } {} (absences ++ [askAbsent 599]) := by decide
  have timely : Timely (absences ++ [askAbsent 599]) := by decide
  have paced := (restarts_paced readerConfig (absences ++ [askAbsent 599]) owned timely).1
  have held := paced.waits absences [] (absentMoment 599) ⟨1, 0⟩ (.ofFile 1 "/p/a.c" "/p") []
    (List.prefix_refl _) (by decide) (by decide)
  exact ⟨owned, timely, by decide, by decide, held⟩

end Pool

end SemanticHighlight.Worker
