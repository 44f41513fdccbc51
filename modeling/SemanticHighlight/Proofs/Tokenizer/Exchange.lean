import SemanticHighlight.Proofs.Frame.Split
import SemanticHighlight.Proofs.Text.Utf8
import SemanticHighlight.Proofs.Tokenizer.Turn
import SemanticHighlight.Proofs.Worker.Isolation
import SemanticHighlight.Proofs.Worker.Phases

/-!
# The tokenizer as the worker of a slot

A slot whose worker is the tokenizer gets the tokens of each request back, until the tokenizer quits:
because its number of requests is served, or because the tokens do not fit into a frame. The exchange
in which it quits finds the end of its output and takes the process away, so that the next exchange
starts a new one at once.
-/

set_option autoImplicit false

namespace SemanticHighlight

namespace Frame

theorem read_silent (timeout : Duration) :
    read (.untilDeadline [] timeout) = (.error (.timeout timeout), []) := by
  unfold Source.untilDeadline
  split <;> rfl

theorem read_piped {payload : Bytes} (fits : payload.length ≤ maxLength) {timeout : Duration}
    (time : 0 < timeout) :
    ∃ s', read (.untilDeadline (frameOf payload) timeout) = (.ok payload, s') ∧ s'.pending = [] := by
  have pending : (Source.closed (frameOf payload)).pending = frameOf payload ++ [] := by simp
  obtain ⟨s', hr, hs, -⟩ := read_flowing (flowing_closed _) (encode_fits fits) pending
  have open' : Source.untilDeadline (frameOf payload) timeout =
      Source.closed (frameOf payload) ++ [.failure (.expired timeout)] := if_neg (Nat.ne_of_gt time)
  refine ⟨s' ++ [.failure (.expired timeout)], ?_, ?_⟩
  · rw [open', read_append hr]
  · rw [pending_append, hs]
    rfl

end Frame

namespace Tokenizer

def failure? (k : Knobs) (served : Nat) (request : Bytes) : Option Frame.Error :=
  if Frame.maxLength < request.length then some (.tooLarge request.length)
  else if k.Spent served ∨ Frame.maxLength < (reply request).length then
    some (.unexpectedEof Frame.fieldLength 0)
  else none

theorem program_reacts {k : Knobs} (clean : k.Clean) (args : List String) (served : List Bytes)
    (request : Bytes) :
    let r := program k args served request
    r.intake = .whole ∧ r.early = [] ∧ r.delay ≤ k.delay ∧
      (¬k.Spent served.length ∧ (reply request).length ≤ Frame.maxLength ∧
          r.output = Frame.frameOf (reply request) ∧ r.exits = false ∨
        (k.Spent served.length ∨ Frame.maxLength < (reply request).length) ∧
          r.output = [] ∧ r.exits = true) := by
  intro r
  obtain ⟨early, ends⟩ := turn_ends clean args served.length request
  have greeted : (if served = [] then greeting k args else {} : Turn).early = [] := by
    split
    · exact Turn.early_traced _ _ clean.hidden
    · rfl
  have quiet : r.early = [] := by
    change (if served = [] then greeting k args else {} : Turn).early ++ _ = _
    rw [greeted, early]
    rfl
  have exits : r.exits = (turn k args served.length request).exit?.isSome := rfl
  have delayed : r.delay = (turn k args served.length request).delay := rfl
  cases ends with
  | quits spent output exit delay =>
    exact ⟨rfl, quiet, by simp [delayed, delay],
      .inr ⟨.inl spent, output, by rw [exits, exit]; rfl⟩⟩
  | answers lasting fits output exit delay =>
    exact ⟨rfl, quiet, by simp [delayed, delay],
      .inl ⟨lasting, fits, output, by rw [exits, exit]; rfl⟩⟩
  | refuses lasting long output exit delay =>
    exact ⟨rfl, quiet, by simp [delayed, delay],
      .inr ⟨.inr long, output, by rw [exits, exit]; rfl⟩⟩

end Tokenizer

namespace Process

variable {k : Tokenizer.Knobs} {n : Nat} {q : Process}

/-- The process is the tokenizer, alive and read to the end, with a number of requests served. -/
structure Tokenizes (k : Tokenizer.Knobs) (n : Nat) (q : Process) : Prop where
  program : q.program = Tokenizer.program k
  served : q.served.length = n
  pending : q.pending = []
  alive : q.alive = true

inductive Tokenized (k : Tokenizer.Knobs) (n : Nat) (request : Bytes) (trip : RoundTrip) : Prop
  | replied (fine : Tokenizer.failure? k n request = none)
    (reply : trip.reply = .ok (Tokenizer.reply request))
    (serves : trip.process.Tokenizes k (n + 1))
  | failed {e : Frame.Error} (failure : Tokenizer.failure? k n request = some e)
    (reply : trip.reply = .error e)

theorem roundTrip_tokenized (clean : k.Clean) (h : q.Tokenizes k n) {timeout : Duration}
    (prompt : k.delay < timeout) (request : Bytes) :
    Tokenized k n request (q.roundTrip timeout request) := by
  by_cases long : Frame.maxLength < request.length
  · have failure : Tokenizer.failure? k n request = some (.tooLarge request.length) := if_pos long
    refine .failed failure ?_
    rw [roundTrip, Frame.encode_long long]
  obtain ⟨taken, early, delay, reacts⟩ := Tokenizer.program_reacts clean q.args q.served request
  rw [h.served] at reacts
  have inTime : ¬timeout ≤ (q.program q.args q.served request).delay := by
    rw [h.program]
    exact Nat.not_le.mpr (Nat.lt_of_le_of_lt delay prompt)
  have frame := Frame.encode_fits (Nat.not_lt.mp long)
  have trip : q.roundTrip timeout request =
      { q with
        served := q.served ++ [request]
        alive := q.alive && !(Tokenizer.program k q.args q.served request).exits }.await timeout []
        (Tokenizer.program k q.args q.served request) := by
    simp only [roundTrip, receive, frame, h.program, h.pending, taken, Intake.failure?, early,
      List.nil_append, Frame.read_silent]
  rw [h.program] at inTime
  rw [trip, await, if_neg inTime]
  rcases reacts with ⟨lasting, fits, output, stays⟩ | ⟨ended, output, exits⟩
  · have fine : Tokenizer.failure? k n request = none := by
      rw [Tokenizer.failure?, if_neg long, if_neg]
      rintro (spent | long)
      · exact lasting spent
      · omega
    obtain ⟨s', hr, hs⟩ := Frame.read_piped fits (Nat.lt_of_le_of_lt (Nat.zero_le _) prompt)
    simp only [stays, output, List.nil_append, Bool.false_eq_true, if_false, hr]
    refine .replied fine rfl ⟨h.program, ?_, hs, ?_⟩
    · simp [h.served]
    · simp [h.alive]
  · have failure : Tokenizer.failure? k n request = some (.unexpectedEof Frame.fieldLength 0) := by
      rw [Tokenizer.failure?, if_neg long, if_pos ended]
    obtain ⟨s', hr⟩ := Frame.read_drained (Frame.flowing_closed []) (Frame.pending_closed [])
    simp only [exits, output, List.nil_append, if_true, hr]
    exact .failed failure rfl

end Process

namespace Worker

namespace Slot

variable {k : Tokenizer.Knobs} {n : Nat} {c : WorkerConfig} {m : Moment} {t : Target}
  {s : Slot}

/-- Between exchanges: the tokenizer runs and has served a number of requests, or there is no
process and nothing keeps a new one from being started. -/
structure Tokenizes (k : Tokenizer.Knobs) (n : Nat) (s : Slot) : Prop where
  settled : s.Settled
  clear : s.retryAt? = none
  process : s.process? = none ∧ n = 0 ∨ ∃ q, s.process? = some q ∧ q.Tokenizes k n

theorem Tokenizes.fresh (k : Tokenizer.Knobs) : Tokenizes k 0 {} where
  settled := .fresh 0
  clear := rfl
  process := .inl ⟨rfl, rfl⟩

theorem Tokenizes.counted (h : s.Tokenizes k n) (i : Nat) : Tokenizes k n { s with inFlight := i } :=
  ⟨h.settled.counted i, h.clear, h.process⟩

def left (s : Slot) (process? : Option Process) (phase : Phase) : Slot :=
  { s with started := true, phase, process?, failures := 0, retryAt? := none }

theorem left_settled (s : Slot) (q : Process) :
    (s.left (some q) .running).Settled ∧ (s.left none .restarting).Settled := by
  constructor <;> constructor <;> simp [left]

theorem Tokenizes.ready (h : s.Tokenizes k n) (pid : Nat)
    (launch : m.launch c.binary (c.arguments t) = .ok (Tokenizer.program k)) :
    ∃ q, ensureRunning c m pid t s = (.ok (), s.left (some q) .running) ∧ q.Tokenizes k n := by
  rcases h.process with ⟨gone, rfl⟩ | ⟨q, was, tokenizes⟩
  · refine ⟨⟨pid, Tokenizer.program k, c.arguments t, [], [], true⟩, ?_, ⟨rfl, rfl, rfl, rfl⟩⟩
    unfold ensureRunning
    split
    · rename_i started
      simp [gone, start, h.clear, Slot.launch, launch, left, started]
    · simp [start, h.clear, Slot.launch, launch, left]
  · have running := h.settled.holding (by rw [was]; rfl)
    have unfailed := (h.settled.clear (by rw [running]; decide)).1
    have started : s.started = true := by
      rw [← Bool.not_eq_false, ← h.settled.unused, running]
      decide
    refine ⟨q, ?_, tokenizes⟩
    have same : s.left (some q) .running = s := by
      rw [left, ← was, ← started, ← running, ← unfailed, ← h.clear]
    simp only [ensureRunning, started, was, tokenizes.alive, if_true, same]

inductive Tokenized (k : Tokenizer.Knobs) (n : Nat) (request : Bytes) (reply : Except Error String)
    (s' : Slot) : Prop
  | replied (fine : Tokenizer.failure? k n request = none)
    (reply : reply = .ok (Tokenizer.tokenize (Text.lossy request))) (running : s'.phase = .running)
    (next : s'.Tokenizes k (n + 1))
  | failed {e : Frame.Error} (failure : Tokenizer.failure? k n request = some e)
    (reply : reply = .error (.protocol e)) (restarting : s'.phase = .restarting)
    (next : s'.Tokenizes k 0)

theorem exchange_tokenized (clean : k.Clean) (h : s.Tokenizes k n)
    (prompt : k.delay < c.readTimeout) (pid : Nat)
    (launch : m.launch c.binary (c.arguments t) = .ok (Tokenizer.program k)) (request : Bytes) :
    let x := s.exchange c m pid t request
    Tokenized k n request x.reply x.slot ∧ x.slot.inFlight = s.inFlight := by
  obtain ⟨q, ready, tokenizes⟩ := h.ready pid launch
  have process : (s.left (some q) .running).process? = some q := rfl
  cases q.roundTrip_tokenized clean tokenizes prompt request with
  | replied fine reply serves =>
    simp only [exchange, ready, process, reply, Tokenizer.reply, Text.ofBytes?_bytes]
    exact ⟨.replied fine rfl rfl ⟨(left_settled s _).1, rfl, .inr ⟨_, rfl, serves⟩⟩, rfl⟩
  | failed failure reply =>
    simp only [exchange, ready, process, reply]
    exact ⟨.failed failure rfl rfl ⟨(left_settled s q).2, rfl, .inl ⟨rfl, rfl⟩⟩, rfl⟩

theorem Tokenized.counted {request : Bytes} {reply : Except Error String} {s' : Slot}
    (h : Tokenized k n request reply s') (i : Nat) :
    Tokenized k n request reply { s' with inFlight := i } := by
  cases h with
  | replied fine reply running next => exact .replied fine reply running (next.counted i)
  | failed failure reply restarting next => exact .failed failure reply restarting (next.counted i)

end Slot

theorem Pool.invoke_tokenized {k : Tokenizer.Knobs} {n : Nat} {p : Pool} {m : Moment} {t : Target}
    (clean : k.Clean) (h : (p.slotOf t.buffer).Tokenizes k n)
    (free : (p.slotOf t.buffer).inFlight < p.config.maxInFlight)
    (prompt : k.delay < p.config.readTimeout)
    (launch : m.launch p.config.binary (p.config.arguments t) = .ok (Tokenizer.program k))
    (request : Bytes) :
    ∃ reply, (p.invoke m t request).reply = reply.map some ∧
      Slot.Tokenized k n request reply ((p.invoke m t request).pool.slotOf t.buffer) ∧
      ((p.invoke m t request).pool.slotOf t.buffer).inFlight = (p.slotOf t.buffer).inFlight := by
  have visit := Pool.invoke_visit p m t request
  rw [Slot.visit, if_neg (by omega)] at visit
  obtain ⟨tokenized, counted⟩ := Slot.exchange_tokenized clean
    (h.counted ((p.slotOf t.buffer).inFlight + 1)) prompt p.exchanges launch request
  have slot := congrArg Visit.slot visit
  dsimp only at slot
  refine ⟨_, (congrArg Visit.reply visit).symm, slot ▸ tokenized.counted _, ?_⟩
  rw [← slot]
  dsimp only
  rw [counted]
  rfl

end Worker

end SemanticHighlight
