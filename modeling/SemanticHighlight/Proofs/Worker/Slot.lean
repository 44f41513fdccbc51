import SemanticHighlight.Proofs.Worker.Process
import SemanticHighlight.Worker.Slot

/-!
# Who serves an exchange

An exchange sends its request to the process of its slot, if that is alive, or to a process it
starts. It answers with the round trip of that process, and keeps the process if the round trip gave
a reply.
-/

set_option autoImplicit false

namespace SemanticHighlight.Worker.Slot

variable {c : WorkerConfig} {m : Moment} {pid : Nat} {t : Target} {s s' : Slot}

def answer (trip : RoundTrip) : Except Error String :=
  match trip.reply with
  | .error e => .error (.protocol e)
  | .ok payload =>
    match Text.ofBytes? payload with
    | some text => .ok text
    | none => .error .invalidUtf8

theorem answer_ok {trip : RoundTrip} {text : String} (h : answer trip = .ok text) :
    ∃ payload, trip.reply = .ok payload ∧ Text.ofBytes? payload = some text := by
  unfold answer at h
  split at h
  · cases h
  · rename_i payload hr
    split at h
    · rename_i text' ht
      cases h
      exact ⟨payload, hr, ht⟩
    · cases h

structure Launched (c : WorkerConfig) (m : Moment) (pid : Nat) (t : Target) (q : Process) :
    Prop where
  pid : q.pid = pid
  args : q.args = c.arguments t
  program : m.launch c.binary (c.arguments t) = .ok q.program
  served : q.served = []
  pending : q.pending = []

def unsent : Error → Bool
  | .spawn _ => true
  | .unavailable _ => true
  | _ => false

theorem launch_ok (h : launch c m pid t s = (.ok (), s')) :
    ∃ q, s'.process? = some q ∧ Launched c m pid t q := by
  unfold launch at h
  split at h
  · rename_i program hp
    cases h
    exact ⟨_, rfl, rfl, rfl, hp, rfl, rfl⟩
  · cases h

theorem launch_error {e : Error} (h : launch c m pid t s = (.error e, s')) :
    unsent e ∧ s'.process? = s.process? := by
  unfold launch at h
  split at h <;> cases h
  exact ⟨rfl, rfl⟩

theorem start_ok (h : start c m pid t s = (.ok (), s')) :
    ∃ q, s'.process? = some q ∧ Launched c m pid t q := by
  unfold start at h
  split at h
  · split at h
    · cases h
    · exact launch_ok h
  · exact launch_ok h

theorem start_error {e : Error} (h : start c m pid t s = (.error e, s')) :
    unsent e ∧ s'.process? = s.process? := by
  unfold start at h
  split at h
  · split at h
    · cases h
      exact ⟨rfl, rfl⟩
    · exact launch_error h
  · exact launch_error h

theorem ensureRunning_ok (h : ensureRunning c m pid t s = (.ok (), s')) :
    ∃ q, s'.process? = some q ∧ (s.process? = some q ∧ q.alive ∨ Launched c m pid t q) := by
  unfold ensureRunning at h
  split at h
  · split at h
    · rename_i q hq
      split at h
      · rename_i alive
        cases h
        exact ⟨q, hq, .inl ⟨hq, alive⟩⟩
      · obtain ⟨q, hs, hl⟩ := start_ok h
        exact ⟨q, hs, .inr hl⟩
    · obtain ⟨q, hs, hl⟩ := start_ok h
      exact ⟨q, hs, .inr hl⟩
  · obtain ⟨q, hs, hl⟩ := start_ok h
    exact ⟨q, hs, .inr hl⟩

theorem ensureRunning_error {e : Error} (h : ensureRunning c m pid t s = (.error e, s')) :
    unsent e ∧ ∀ q, s'.process? = some q → s.process? = some q := by
  unfold ensureRunning at h
  split at h
  · split at h
    · split at h
      · cases h
      · obtain ⟨he, hs⟩ := start_error h
        constructor
        · exact he
        · intro q hq
          rw [hs] at hq
          cases hq
    · obtain ⟨he, hs⟩ := start_error h
      exact ⟨he, fun q hq => hs ▸ hq⟩
  · obtain ⟨he, hs⟩ := start_error h
    exact ⟨he, fun q hq => hs ▸ hq⟩

theorem serving_origin {q : Process} (h : s.serving? c m pid t = some q) :
    s.process? = some q ∧ q.alive ∨ Launched c m pid t q := by
  unfold serving? at h
  split at h
  · rename_i s' hr
    obtain ⟨q', hs, origin⟩ := ensureRunning_ok hr
    rw [hs] at h
    cases h
    exact origin
  · cases h

theorem exchange_reply {q : Process} (h : s.serving? c m pid t = some q) (request : Bytes) :
    (s.exchange c m pid t request).reply = answer (q.roundTrip c.readTimeout request) := by
  rw [exchange, answer]
  rw [serving?] at h
  rcases hr : ensureRunning c m pid t s with ⟨e | u, s'⟩
  · simp only [hr] at h
    cases h
  · simp only [hr] at h ⊢
    simp only [h]
    cases hreply : (q.roundTrip c.readTimeout request).reply with
    | error e => rfl
    | ok payload =>
      dsimp only
      cases Text.ofBytes? payload <;> rfl

theorem exchange_unserved (h : s.serving? c m pid t = none) (request : Bytes) :
    ∃ e, ensureRunning c m pid t s = (.error e, (s.exchange c m pid t request).slot) ∧
      (s.exchange c m pid t request).reply = .error e := by
  rw [exchange]
  rw [serving?] at h
  rcases hr : ensureRunning c m pid t s with ⟨e | u, s'⟩
  · exact ⟨e, rfl, rfl⟩
  · obtain ⟨q, hs, -⟩ := ensureRunning_ok hr
    simp only [hr, hs] at h
    cases h

theorem exchange_process {q : Process} (h : s.serving? c m pid t = some q) (request : Bytes) :
    (s.exchange c m pid t request).slot.process? =
      (q.roundTrip c.readTimeout request).reply.toOption.map fun _ =>
        (q.roundTrip c.readTimeout request).process := by
  rw [exchange]
  rw [serving?] at h
  rcases hr : ensureRunning c m pid t s with ⟨e | u, s'⟩
  · simp only [hr] at h
    cases h
  · simp only [hr] at h ⊢
    simp only [h]
    cases hreply : (q.roundTrip c.readTimeout request).reply with
    | error e => rfl
    | ok payload =>
      dsimp only
      cases Text.ofBytes? payload <;> rfl

/-- The process that an exchange leaves behind was there before and not asked, or has served the
request and replied. -/
theorem exchange_leaves {request : Bytes} {q' : Process}
    (h : (s.exchange c m pid t request).slot.process? = some q') :
    s.serving? c m pid t = none ∧ s.process? = some q' ∨
    ∃ q payload, s.serving? c m pid t = some q ∧
      (q.roundTrip c.readTimeout request).reply = .ok payload ∧
      q' = (q.roundTrip c.readTimeout request).process := by
  cases hs : s.serving? c m pid t with
  | none =>
    obtain ⟨e, hr, -⟩ := exchange_unserved hs request
    exact .inl ⟨rfl, (ensureRunning_error hr).2 q' h⟩
  | some q =>
    rw [exchange_process hs] at h
    cases hr : (q.roundTrip c.readTimeout request).reply with
    | error e =>
      rw [hr] at h
      cases h
    | ok payload =>
      rw [hr] at h
      cases h
      exact .inr ⟨q, payload, rfl, hr, rfl⟩

end SemanticHighlight.Worker.Slot
