import SemanticHighlight.Proofs.Worker.Slot

/-!
# The phases of a slot

Between exchanges the phase of a slot agrees with what is kept for its worker: the process, the
failed starts in a row and the time before which no new start is tried. An exchange ends in one of
four ways: with a process that has replied, without one after an error of the wire, with a start that
failed, or, while a start is not tried again yet, with the slot as it was.
-/

set_option autoImplicit false

namespace SemanticHighlight.Worker.Slot

variable {c : WorkerConfig} {m : Moment} {pid : Nat} {t : Target} {s : Slot}

/-- What holds of a slot between exchanges, also of one that was forgotten and so has lost its
process. -/
structure Settled (s : Slot) : Prop where
  never_starting : s.phase ≠ .starting
  unused : s.phase = .notStarted ↔ s.started = false
  failing : s.phase = .failed ↔ 0 < s.failures
  waiting : 0 < s.failures ↔ s.retryAt?.isSome
  holding : s.process?.isSome → s.phase = .running

namespace Settled

theorem fresh (n : Nat) : Settled { inFlight := n } := by
  constructor <;> simp

theorem counted (h : s.Settled) (n : Nat) : Settled { s with inFlight := n } :=
  ⟨h.never_starting, h.unused, h.failing, h.waiting, h.holding⟩

theorem withoutProcess (h : s.Settled) : Settled { s with process? := none } :=
  ⟨h.never_starting, h.unused, h.failing, h.waiting, nofun⟩

theorem mapProcess (h : s.Settled) (f : Process → Process) :
    Settled { s with process? := s.process?.map f } :=
  ⟨h.never_starting, h.unused, h.failing, h.waiting, fun hq => h.holding (by simpa using hq)⟩

theorem clear (h : s.Settled) (hp : s.phase ≠ .failed) : s.failures = 0 ∧ s.retryAt? = none := by
  have hf : ¬0 < s.failures := fun hf => hp (h.failing.mpr hf)
  exact ⟨Nat.eq_zero_of_not_pos hf, by simpa using fun hr => hf (h.waiting.mpr hr)⟩

theorem unstarted_process (h : s.Settled) (hs : s.started = false) : s.process? = none := by
  have hp := h.unused.mpr hs
  cases hq : s.process? with
  | none => rfl
  | some q =>
    rw [h.holding (by rw [hq]; rfl)] at hp
    cases hp

end Settled

inductive Readied (c : WorkerConfig) (m : Moment) (pid : Nat) (t : Target) (s : Slot) :
    Except Error Unit × Slot → Prop
  | standing {q : Process} (was : s.process? = some q) (alive : q.alive = true) :
    Readied c m pid t s (.ok (), s)
  | launched {q : Process} (new : Launched c m pid t q)
    (gone : ∀ q', s.process? = some q' → q'.alive = false) :
    Readied c m pid t s (.ok (), { s with
      started := true, phase := .running, process? := some q, failures := 0, retryAt? := none })
  | failed {e : IoError} {n : Nat} {retryAt : Instant} (counted : 0 < n)
    (gone : ∀ q, s.process? = some q → q.alive = false) :
    Readied c m pid t s (.error (.spawn e), { s with
      started := true, phase := .failed, process? := none, failures := n, retryAt? := some retryAt })
  | waiting {d : Duration} (pending : s.retryAt?.isSome) :
    Readied c m pid t s (.error (.unavailable d), s)

theorem launch_readied (c : WorkerConfig) (m : Moment) (pid : Nat) (t : Target) (s : Slot) :
    (∃ q, Launched c m pid t q ∧ launch c m pid t s =
      (.ok (), { s with process? := some q, phase := .running, failures := 0, retryAt? := none })) ∨
    ∃ e n retryAt, 0 < n ∧ launch c m pid t s =
      (.error (.spawn e), { s with phase := .failed, failures := n, retryAt? := some retryAt }) := by
  unfold launch
  cases hp : m.launch c.binary (c.arguments t) with
  | ok program => exact .inl ⟨_, ⟨rfl, rfl, hp, rfl, rfl⟩, rfl⟩
  | error e =>
    have counted : 0 < min (s.failures + 1) maxFailures := by
      rw [Nat.lt_min]
      exact ⟨Nat.succ_pos _, by decide⟩
    exact .inr ⟨e, _, _, counted, rfl⟩

/-- A slot without a process that is otherwise like `s`, up to what a start sets anew. -/
structure Vacated (s s₀ : Slot) : Prop where
  started : s₀.started = true
  process : s₀.process? = none
  rest : { s₀ with started := true, phase := .running, process? := none } =
    { s with started := true, phase := .running, process? := none }

theorem Vacated.launch {s₀ : Slot} (h : s.Vacated s₀)
    (gone : ∀ q, s.process? = some q → q.alive = false) :
    Readied c m pid t s (launch c m pid t s₀) := by
  obtain ⟨inFlight₀, started₀, phase₀, process₀, failures₀, retryAt₀⟩ := s₀
  obtain ⟨inFlight, started, phase, process, failures, retryAt⟩ := s
  obtain ⟨rfl, rfl, rest⟩ := h
  cases rest
  rcases launch_readied c m pid t ⟨inFlight₀, true, phase₀, none, failures₀, retryAt₀⟩ with
    ⟨q, new, hl⟩ | ⟨e, n, retryAt, counted, hl⟩
  · rw [hl]
    exact .launched new gone
  · rw [hl]
    exact .failed counted gone

theorem Vacated.start {s₀ : Slot} (h : s.Vacated s₀) (clear : s.retryAt? = none)
    (gone : ∀ q, s.process? = some q → q.alive = false) :
    Readied c m pid t s (start c m pid t s₀) := by
  have hr : s₀.retryAt? = none := (congrArg Slot.retryAt? h.rest).trans clear
  rw [Slot.start, hr]
  exact h.launch gone

theorem none_alive (hq : s.process? = none) (q : Process) (hq' : s.process? = some q) :
    q.alive = false := by
  rw [hq] at hq'
  cases hq'

theorem ensureRunning_readied (c : WorkerConfig) (m : Moment) (pid : Nat) (t : Target)
    (h : s.Settled) : Readied c m pid t s (ensureRunning c m pid t s) := by
  unfold ensureRunning
  split
  · rename_i started
    split
    · rename_i q hq
      split
      · rename_i alive
        exact .standing hq alive
      · rename_i dead
        -- a slot that had a process was running, so a new start is not held back
        have running := h.holding (by rw [hq]; rfl)
        have clear := h.clear (by rw [running]; decide)
        have gone (q' : Process) (hq' : s.process? = some q') : q'.alive = false := by
          rw [hq] at hq'
          cases hq'
          exact Bool.eq_false_iff.mpr dead
        exact Vacated.start ⟨started, rfl, rfl⟩ clear.2 gone
    · rename_i hq
      have gone := none_alive hq
      have vacated : s.Vacated s := ⟨started, hq, rfl⟩
      unfold Slot.start
      split
      · rename_i retryAt hr
        split
        · exact .waiting (by rw [hr]; rfl)
        · exact vacated.launch gone
      · exact vacated.launch gone
  · rename_i unstarted
    rw [Bool.not_eq_true] at unstarted
    have hq := h.unstarted_process unstarted
    have clear := h.clear (by rw [h.unused.mpr unstarted]; decide)
    exact Vacated.start ⟨rfl, hq, rfl⟩ clear.2 (none_alive hq)

/-- How an exchange over a slot `s` ends that `serving?` has been asked in. -/
inductive Ends (s : Slot) (serving? : Option Process) (x : Exchange) : Prop
  | replied {q q' : Process} (served : serving? = some q)
    (recorded : ∀ q₀, s.process? = some q₀ → q₀.alive = true → q = q₀)
    (reply : (∃ text, x.reply = .ok text) ∨ x.reply = .error .invalidUtf8) (same : q'.SameAs q)
    (slot : x.slot = { s with
      started := true, phase := .running, process? := some q', failures := 0, retryAt? := none })
  | broken {q : Process} {e : Frame.Error} (served : serving? = some q)
    (reply : x.reply = .error (.protocol e))
    (slot : x.slot = { s with
      started := true, phase := .restarting, process? := none, failures := 0, retryAt? := none })
  | failed {e : IoError} {n : Nat} {retryAt : Instant} (unserved : serving? = none)
    (reply : x.reply = .error (.spawn e)) (counted : 0 < n)
    (gone : ∀ q, s.process? = some q → q.alive = false)
    (slot : x.slot = { s with
      started := true, phase := .failed, process? := none, failures := n, retryAt? := some retryAt })
  | waiting {d : Duration} (unserved : serving? = none) (reply : x.reply = .error (.unavailable d))
    (pending : s.retryAt?.isSome) (slot : x.slot = s)

theorem served_ends {q : Process} (request : Bytes) (hs : s.serving? c m pid t = some q)
    (recorded : ∀ q₀, s.process? = some q₀ → q₀.alive = true → q = q₀)
    (ready : ensureRunning c m pid t s = (.ok (), { s with
      started := true, phase := .running, process? := some q, failures := 0, retryAt? := none })) :
    Ends s (some q) (s.exchange c m pid t request) := by
  have reply := exchange_reply hs request
  have same := q.roundTrip_same c.readTimeout request
  rw [exchange, ready] at reply ⊢
  unfold answer at reply
  dsimp only at reply ⊢
  cases hr : (q.roundTrip c.readTimeout request).reply with
  | error e => exact .broken rfl rfl rfl
  | ok payload =>
    dsimp only
    cases Text.ofBytes? payload with
    | some text => exact .replied rfl recorded (.inl ⟨text, rfl⟩) same rfl
    | none => exact .replied rfl recorded (.inr rfl) same rfl

theorem exchange_ends (c : WorkerConfig) (m : Moment) (pid : Nat) (t : Target) (request : Bytes)
    (h : s.Settled) : Ends s (s.serving? c m pid t) (s.exchange c m pid t request) := by
  have ready := ensureRunning_readied c m pid t h
  rcases hr : ensureRunning c m pid t s with ⟨r, s'⟩
  rw [hr] at ready
  cases ready with
  | @standing q was alive =>
    have served : s.serving? c m pid t = some q := by
      rw [serving?, hr]
      exact was
    have running := h.holding (by rw [was]; rfl)
    have clear := h.clear (by rw [running]; decide)
    have started : s.started = true := by
      rw [← Bool.not_eq_false, ← h.unused, running]
      decide
    have recorded (q₀ : Process) (hq₀ : s.process? = some q₀) (_ : q₀.alive = true) : q = q₀ := by
      rw [was] at hq₀
      exact Option.some.inj hq₀
    rw [served]
    refine served_ends request served recorded (hr.trans ?_)
    rw [← was, ← started, ← running, ← clear.1, ← clear.2]
  | @launched q new gone =>
    have served : s.serving? c m pid t = some q := by rw [serving?, hr]
    have recorded (q₀ : Process) (hq₀ : s.process? = some q₀) (alive : q₀.alive = true) :
        q = q₀ := by
      rw [gone q₀ hq₀] at alive
      cases alive
    rw [served]
    exact served_ends request served recorded hr
  | failed counted gone =>
    have unserved : s.serving? c m pid t = none := by rw [serving?, hr]
    rw [exchange, hr]
    exact .failed unserved rfl counted gone rfl
  | waiting pending =>
    have unserved : s.serving? c m pid t = none := by rw [serving?, hr]
    rw [exchange, hr]
    exact .waiting unserved rfl pending rfl

namespace Ends

variable {serving? : Option Process} {x : Exchange}

theorem settled (h : s.Settled) (e : Ends s serving? x) : x.slot.Settled := by
  cases e with
  | replied served recorded reply same slot =>
    rw [slot]
    constructor <;> simp
  | broken served reply slot =>
    rw [slot]
    constructor <;> simp
  | failed unserved reply counted gone slot =>
    rw [slot]
    constructor <;> simp [counted]
  | waiting unserved reply pending slot =>
    rw [slot]
    exact h

theorem started (h : s.Settled) (e : Ends s serving? x) : x.slot.started = true := by
  cases e with
  | replied served recorded reply same slot => rw [slot]
  | broken served reply slot => rw [slot]
  | failed unserved reply counted gone slot => rw [slot]
  | waiting unserved reply pending slot =>
    have failing := h.failing.mpr (h.waiting.mpr pending)
    rw [slot, ← Bool.not_eq_false, ← h.unused, failing]
    decide

theorem manned (manned : s.phase = .running → s.process?.isSome) (e : Ends s serving? x) :
    x.slot.phase = .running → x.slot.process?.isSome := by
  cases e with
  | replied served recorded reply same slot => simp [slot]
  | broken served reply slot => simp [slot]
  | failed unserved reply counted gone slot => simp [slot]
  | waiting unserved reply pending slot => rwa [slot]

end Ends

/-- The phase of a slot, the process recorded in it, its count of failed starts and the time before
which no new start is tried agree with each other. -/
structure Coherent (s : Slot) : Prop where
  never_starting : s.phase ≠ .starting
  running_iff : s.phase = .running ↔ s.process?.isSome
  failed_iff : s.phase = .failed ↔ 0 < s.failures
  failures_iff : 0 < s.failures ↔ s.retryAt?.isSome
  restarting : s.phase = .restarting → s.process? = none ∧ s.failures = 0 ∧ s.retryAt? = none

theorem Settled.coherent (h : s.Settled) (manned : s.phase = .running → s.process?.isSome) :
    s.Coherent where
  never_starting := h.never_starting
  running_iff := ⟨manned, h.holding⟩
  failed_iff := h.failing
  failures_iff := h.waiting
  restarting hp := by
    have clear := h.clear (by rw [hp]; decide)
    cases hq : s.process? with
    | none => exact ⟨rfl, clear⟩
    | some q =>
      have running := h.holding (by rw [hq]; rfl)
      rw [hp] at running
      cases running

end SemanticHighlight.Worker.Slot
