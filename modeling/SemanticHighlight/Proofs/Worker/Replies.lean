import SemanticHighlight.Proofs.Worker.Pool

/-!
# Replies and requests

Replies are told apart by their order only. With workers that keep to frames this is enough: between
two exchanges nothing is left to be read from a process, so the reply of an exchange is what the
process wrote for the request of that exchange, after the requests it was sent before.
-/

set_option autoImplicit false

namespace SemanticHighlight.Worker

def Event.Framed (binary : String) : Event → Prop
  | .exchange m _ _ _ => ∀ args program, m.launch binary args = .ok program → program.Framed
  | _ => True

namespace Pool

variable {p : Pool} {log : List (Nat × Bytes)}

def sent (p : Pool) : Event → List (Nat × Bytes)
  | .exchange m permit t request =>
    match p.serving? m permit t, Frame.encode request with
    | some q, .ok _ => [(q.pid, request)]
    | _, _ => []
  | _ => []

def requests (p : Pool) : List Event → List (Nat × Bytes)
  | [] => []
  | e :: es => p.sent e ++ (p.after e).requests es

def sentTo (pid : Nat) (log : List (Nat × Bytes)) : List Bytes :=
  (log.filter (·.1 = pid)).map Prod.snd

theorem sentTo_append (pid : Nat) (log log' : List (Nat × Bytes)) :
    sentTo pid (log ++ log') = sentTo pid log ++ sentTo pid log' := by
  simp [sentTo]

theorem sentTo_other {pid : Nat} {log : List (Nat × Bytes)} (h : ∀ x ∈ log, x.1 ≠ pid) :
    sentTo pid log = [] := by
  rw [sentTo, List.filter_eq_nil_iff.mpr fun x hx => by simpa using h x hx]
  rfl

theorem sent_cases {e : Event} {x : Nat × Bytes} (h : x ∈ p.sent e) :
    ∃ m permit t request q, e = .exchange m permit t request ∧
      p.serving? m permit t = some q ∧ x.1 = q.pid := by
  unfold sent at h
  split at h
  · rename_i m permit t request
    split at h
    · rename_i q frame hq hf
      rw [List.mem_singleton] at h
      exact ⟨m, permit, t, request, q, rfl, hq, by rw [h]⟩
    · cases h
  · cases h

theorem sent_serving {m : Moment} {permit : Permit} {t : Target} {request payload : Bytes}
    {q : Process} (hs : p.serving? m permit t = some q)
    (hr : (q.roundTrip p.config.readTimeout request).reply = .ok payload) :
    p.sent (.exchange m permit t request) = [(q.pid, request)] := by
  obtain ⟨frame, hf⟩ := Process.roundTrip_sent hr
  simp only [sent, hs, hf]

/-- The process keeps to frames, has nothing left to be read, and has been asked what the record of
requests says. -/
structure AtRest (log : List (Nat × Bytes)) (exchanges : Nat) (q : Process) : Prop where
  framed : q.program.Framed
  empty : q.pending = []
  served : q.served = sentTo q.pid log
  started : q.pid < exchanges

structure InStep (p : Pool) (log : List (Nat × Bytes)) : Prop where
  atRest : ∀ i q, p.process? i = some q → AtRest log p.exchanges q
  apart : ∀ i j q q', p.process? i = some q → p.process? j = some q' → q.pid = q'.pid → i = j
  past : ∀ x ∈ log, x.1 < p.exchanges

namespace InStep

variable {m : Moment} {permit : Permit} {t : Target} {request : Bytes} {e : Event} {q : Process}

theorem initial (config : WorkerConfig) : InStep { config } [] where
  atRest i q h := by cases h
  apart i j q q' h := by cases h
  past x h := by cases h

theorem serving (hp : InStep p log)
    (framed : Event.Framed p.config.binary (.exchange m permit t request))
    (hs : p.serving? m permit t = some q) : AtRest log (p.exchanges + 1) q := by
  rcases serving_origin hs with ⟨hq, -⟩ | hl
  · have old := hp.atRest permit.slot q hq
    exact ⟨old.framed, old.empty, old.served, Nat.lt_succ_of_lt old.started⟩
  · have unasked : sentTo q.pid log = [] := by
      apply sentTo_other
      intro x hx
      rw [hl.pid]
      exact Nat.ne_of_lt (hp.past x hx)
    have started : q.pid < p.exchanges + 1 := by
      rw [hl.pid]
      exact Nat.lt_succ_self _
    exact ⟨framed _ _ hl.program, hl.pending, hl.served.trans unasked.symm, started⟩

theorem serving_slot (hp : InStep p log) (hs : p.serving? m permit t = some q) {i : SlotId}
    {q' : Process} (hq' : p.process? i = some q') (hpid : q'.pid = q.pid) : i = permit.slot := by
  rcases serving_origin hs with ⟨hq, -⟩ | hl
  · exact hp.apart i permit.slot q' q hq' hq hpid
  · have hlt := (hp.atRest i q' hq').started
    rw [hpid, hl.pid] at hlt
    exact absurd hlt (Nat.lt_irrefl _)

theorem unsent (hp : InStep p log) {i : SlotId} (was : p.process? i = some q)
    (unasked : ∀ m permit t request, e = .exchange m permit t request → permit.slot = i →
      p.serving? m permit t = none) : sentTo q.pid (p.sent e) = [] := by
  apply sentTo_other
  intro x hx hpid
  obtain ⟨m, permit, t, request, q₀, rfl, hs, hx⟩ := sent_cases hx
  have hslot := hp.serving_slot hs was (hpid.symm.trans hx)
  rw [unasked m permit t request rfl hslot.symm] at hs
  cases hs

theorem recorded (hp : InStep p log) (framed : e.Framed p.config.binary) {i : SlotId}
    {q' : Process} (h : (p.after e).process? i = some q') :
    AtRest (log ++ p.sent e) (p.after e).exchanges q' := by
  cases after_leaves h with
  | @kept q was same unasked standing =>
    have old := hp.atRest i q was
    have served : q'.served = sentTo q'.pid (log ++ p.sent e) := by
      rw [sentTo_append, same.pid, hp.unsent was unasked, List.append_nil, same.served]
      exact old.served
    have started : q'.pid < (p.after e).exchanges := by
      rw [same.pid]
      exact Nat.lt_of_lt_of_le old.started (exchanges_le p e)
    exact ⟨same.program ▸ old.framed, same.pending.trans old.empty, served, started⟩
  | @served m permit t request payload q event slot serving replied process =>
    subst event process
    have asked := hp.serving framed serving
    have same := q.roundTrip_same p.config.readTimeout request
    have empty := (Process.roundTrip_framed asked.framed asked.empty replied).1
    rw [sent_serving serving replied]
    have served : (q.roundTrip p.config.readTimeout request).process.served =
        sentTo (q.roundTrip p.config.readTimeout request).process.pid
          (log ++ [(q.pid, request)]) := by
      rw [(Process.roundTrip_ok replied).1, same.pid, asked.served, sentTo_append]
      simp [sentTo]
    exact ⟨same.program ▸ asked.framed, empty, served, same.pid ▸ asked.started⟩

theorem after (hp : InStep p log) (framed : e.Framed p.config.binary) :
    InStep (p.after e) (log ++ p.sent e) where
  atRest i q h := hp.recorded framed h
  apart i j q q' h h' hpid := by
    cases after_leaves h with
    | @kept r was same unasked standing =>
      cases after_leaves h' with
      | @kept r' was' same' unasked' standing' =>
        exact hp.apart i j r r' was was' (same.pid.symm.trans (hpid.trans same'.pid))
      | @served m permit t request payload r' event slot serving replied process =>
        subst event process slot
        have hr' := r'.roundTrip_same p.config.readTimeout request
        exact hp.serving_slot serving was (same.pid.symm.trans (hpid.trans hr'.pid))
    | @served m permit t request payload r event slot serving replied process =>
      subst event process slot
      have hr := r.roundTrip_same p.config.readTimeout request
      cases after_leaves h' with
      | @kept r' was' same' unasked' standing' =>
        have hslot := hp.serving_slot serving was' (same'.pid.symm.trans (hpid.symm.trans hr.pid))
        exact hslot.symm
      | @served m' permit' t' request' payload' r' event' slot' serving' replied' process' =>
        cases event'
        exact slot'
  past x hx := by
    rcases List.mem_append.mp hx with hx | hx
    · exact Nat.lt_of_lt_of_le (hp.past x hx) (exchanges_le p e)
    · obtain ⟨m, permit, t, request, q, rfl, hs, hpid⟩ := sent_cases hx
      rw [hpid]
      exact (hp.serving framed hs).started

theorem run (hp : InStep p log) (es : List Event) (framed : ∀ e ∈ es, e.Framed p.config.binary) :
    InStep (p.run es) (log ++ p.requests es) := by
  induction es generalizing p log with
  | nil => simpa [Pool.run, requests] using hp
  | cons e es ih =>
    have h := ih (hp.after (framed e List.mem_cons_self)) fun d hd => by
      rw [after_config]
      exact framed d (List.mem_cons_of_mem e hd)
    rw [List.append_assoc] at h
    exact h

end InStep

/-- In every run of a pool whose workers keep to frames, between the events nothing is left to be
read from a recorded process, and an exchange that replies gives exactly what the serving process
wrote for the request, after the requests it was sent before. -/
theorem no_stale_replies (config : WorkerConfig) (es : List Event)
    (framed : ∀ e ∈ es, e.Framed config.binary) :
    (∀ done i q, done <+: es → (run { config } done).process? i = some q → q.pending = []) ∧
    ∀ done m permit t request text, done ++ [.exchange m permit t request] <+: es →
      ((run { config } done).exchange m permit t request).1.reply = .ok text →
      ∃ q payload, (run { config } done).serving? m permit t = some q ∧
        q.served = sentTo q.pid (requests { config } done) ∧
        Frame.encode payload = .ok (q.program q.args q.served request).emitted ∧
        Text.ofBytes? payload = some text := by
  have inStep (done : List Event) (h : done <+: es) :
      InStep (run { config } done) (requests { config } done) :=
    (InStep.initial config).run done fun e he => framed e (h.subset he)
  constructor
  · intro done i q h hq
    exact ((inStep done h).atRest i q hq).empty
  intro done m permit t request text h hr
  have hdone := inStep done (List.IsPrefix.trans (List.prefix_append _ _) h)
  have hconfig : (run { config } done).config = config := run_config { config } done
  have hframed : Event.Framed (run { config } done).config.binary
      (.exchange m permit t request) := by
    rw [hconfig]
    exact framed _ (h.subset (by simp))
  change (Slot.exchange _ m _ t request _).reply = _ at hr
  cases hs : (run { config } done).serving? m permit t with
  | none =>
    obtain ⟨e, -, he⟩ := Slot.exchange_unserved hs request
    rw [he] at hr
    cases hr
  | some q =>
    rw [Slot.exchange_reply hs] at hr
    obtain ⟨payload, hreply, htext⟩ := Slot.answer_ok hr
    have asked := hdone.serving hframed hs
    have emitted := (Process.roundTrip_framed asked.framed asked.empty hreply).2
    exact ⟨q, payload, rfl, asked.served, emitted, htext⟩

/-- A worker whose first reply is no text, whose second one comes in two parts, and which then breaks
off and quits. -/
def faltering : Program := fun _ served _ =>
  match served with
  | [] => { output := Frame.lastDigits 10 1 ++ [255] }
  | [_] => { early := Frame.lastDigits 5 0, output := Frame.lastDigits 5 2 ++ [111, 107] }
  | _ => { output := Frame.lastDigits 5 0, exits := true }

theorem faltering_framed : faltering.Framed := by
  intro args served request
  match served with
  | [] => exact .whole (show Frame.encode [255] = _ from rfl)
  | [_] => exact .whole (show Frame.encode [111, 107] = _ from rfl)
  | _ :: _ :: _ =>
    exact .cut (show Frame.encode [] = .ok (_ ++ Frame.lastDigits 5 0) from rfl) (by decide)

def readerConfig : WorkerConfig where
  binary := "reader"
  invokerName := "tool"
  debug := false
  readTimeout := Duration.ofMillis 500
  maxInFlight := 2
  pipeBufferSize := none

def falteringMoment : Moment := ⟨0, fun _ _ => .ok faltering⟩

def askFaltering (request : Bytes) : Event :=
  .exchange falteringMoment ⟨1, 0⟩ (.ofFile 1 "/p/a.c" "/p") request

theorem faltering_replies_in_step :
    ∃ q payload, (run { config := readerConfig } [.enter 1, askFaltering [97]]).serving?
        falteringMoment ⟨1, 0⟩ (.ofFile 1 "/p/a.c" "/p") = some q ∧
      q.served = sentTo q.pid (requests { config := readerConfig } [.enter 1, askFaltering [97]]) ∧
      Frame.encode payload = .ok (q.program q.args q.served [98]).emitted ∧
      Text.ofBytes? payload = some "ok" := by
  have framed : ∀ e ∈ [.enter 1, askFaltering [97], askFaltering [98]],
      Event.Framed readerConfig.binary e := by
    intro e he
    simp only [List.mem_cons, List.not_mem_nil, or_false] at he
    rcases he with rfl | rfl | rfl
    · trivial
    all_goals
      rintro args program ⟨⟩
      exact faltering_framed
  have reply : ((run { config := readerConfig } [.enter 1, askFaltering [97]]).exchange
      falteringMoment ⟨1, 0⟩ (.ofFile 1 "/p/a.c" "/p") [98]).1.reply = .ok "ok" := rfl
  exact (no_stale_replies readerConfig _ framed).2 [.enter 1, askFaltering [97]] _ _ _ _ _
    (List.prefix_refl _) reply

end Pool

end SemanticHighlight.Worker
