import SemanticHighlight.Proofs.Session.Isolation
import SemanticHighlight.Proofs.Tokenizer.Exchange

/-!
# A worker that quits again and again

The tokenizer that serves `k` requests quits in the exchange after them, and the next pass starts it
anew. So of the passes over a buffer every one whose number leaves the remainder `k` by `k + 1`
fails, and each of the others hands over the highlights of its own text: no reply is lost to the
start of a process and none comes late. A text, or a reply, that no frame can hold ends the life of
the process early, and the count of its requests begins again.
-/

set_option autoImplicit false

namespace SemanticHighlight

namespace Tokenizer

variable {k : Nat} {n : Nat}

/-- What comes of one request after the other, the tokenizer being started again whenever it fails:
for each request, why it has no reply, if it has none. -/
def fates (k : Knobs) : Nat → List Bytes → List (Option Frame.Error)
  | _, [] => []
  | served, request :: requests =>
    failure? k served request ::
      fates k (if (failure? k served request).isSome then 0 else served + 1) requests

/-- How many requests the process has served that is there after some fates, the first of them met by
one that had served `n`. -/
def servedSince (n : Nat) (fates : List (Option Frame.Error)) : Nat :=
  fates.foldl (fun served fate => if fate.isSome then 0 else served + 1) n

theorem fates_since {knobs : Knobs} {requests : List Bytes} {i : Nat} {request : Bytes}
    (h : requests[i]? = some request) :
    (fates knobs n requests)[i]? =
      some (failure? knobs (servedSince n ((fates knobs n requests).take i)) request) := by
  induction requests generalizing n i with
  | nil => cases h
  | cons r rs ih =>
    cases i with
    | zero =>
      cases h
      rfl
    | succ i => exact ih h

theorem failure?_limited (request : Bytes) :
    failure? { exitAfter? := some k } n request =
      if 9999999999 < request.length then some (.tooLarge request.length)
      else if k ≤ n ∨ 9999999999 < (reply request).length then some (.unexpectedEof 10 0)
      else none := by
  have spent : Knobs.Spent { exitAfter? := some k } n ↔ k ≤ n := by simp [Knobs.Spent]
  simp only [failure?, spent, Frame.maxLength, Frame.fieldLength]

/-- The request and its reply are no longer than a frame can hold. -/
structure Fits (request : Bytes) : Prop where
  asked : request.length ≤ 9999999999
  answered : (reply request).length ≤ 9999999999

theorem failure?_fits {knobs : Knobs} {request : Bytes} (fits : Fits request) :
    failure? knobs n request = if knobs.Spent n then some (.unexpectedEof 10 0) else none := by
  have short : ¬Frame.maxLength < request.length := Nat.not_lt.mpr fits.asked
  have brief : ¬Frame.maxLength < (reply request).length := Nat.not_lt.mpr fits.answered
  simp only [failure?, if_neg short, brief, or_false, Frame.fieldLength]

theorem fates_periodic {requests : List Bytes} {i : Nat} (hn : n ≤ k) (hi : i < requests.length)
    (fits : ∀ r ∈ requests.take (i + 1), Fits r) :
    (fates { exitAfter? := some k } n requests)[i]? =
      some (if (n + i) % (k + 1) = k then some (.unexpectedEof 10 0) else none) := by
  induction requests generalizing n i with
  | nil => exact absurd hi (Nat.not_lt_zero i)
  | cons r rs ih =>
    have spent : Knobs.Spent { exitAfter? := some k } n ↔ k ≤ n := by simp [Knobs.Spent]
    rw [fates, failure?_fits (fits r List.mem_cons_self)]
    simp only [spent]
    cases i with
    | zero =>
      have residue : n % (k + 1) = n := Nat.mod_eq_of_lt (by omega)
      have last : k ≤ n ↔ n = k := by omega
      simp [residue, last]
    | succ i =>
      have later := fun n hn => ih (n := n) (i := i) hn (Nat.lt_of_succ_lt_succ hi)
        fun r' hr => fits r' (List.mem_cons_of_mem r hr)
      rw [List.getElem?_cons_succ]
      by_cases last : k ≤ n
      · obtain rfl : n = k := Nat.le_antisymm hn last
        have turned : (n + (i + 1)) % (n + 1) = (0 + i) % (n + 1) := by
          rw [show n + (i + 1) = 0 + i + (n + 1) by omega, Nat.add_mod_right]
        rw [if_pos last, turned]
        exact later 0 (Nat.zero_le n)
      · have moved : n + (i + 1) = n + 1 + i := by omega
        rw [if_neg last, moved]
        exact later (n + 1) (by omega)

end Tokenizer

namespace Session

variable {σ : Type} {host : Host σ} {ready : σ → Prop} {k : Tokenizer.Knobs} {n : Nat}
  {b : BufferId} {info : BufferInfo} {table : GroupTable} {config : WorkerConfig} {s : Session σ}

open Worker (Pool)

def phase? (s : Session σ) (b : BufferId) : Option Worker.Phase := s.workers?.map (·.phase b)

theorem phase_slotOf (p : Pool) (b : BufferId) : p.phase b = (p.slotOf b).phase := by
  unfold Pool.phase Pool.slotOf
  cases p.slot? b <;> rfl

/-- The buffer is attached, its worker is the tokenizer, and a request to it is admitted. -/
structure Tokenizes (k : Tokenizer.Knobs) (n : Nat) (b : BufferId) (info : BufferInfo)
    (table : GroupTable) (config : WorkerConfig) (s : Session σ) : Prop where
  attachment : ∃ space?, s.attachment? b = some ⟨info, table, space?⟩
  workers : ∃ p, s.workers? = some p ∧ p.config = config ∧ (p.slotOf b).Tokenizes k n ∧
    (p.slotOf b).inFlight < config.maxInFlight

/-- How a pass over a text fares: it fails without a call to the host, or it hands over the
highlights of this text, in a new namespace or after a clear. -/
inductive Fares (host : Host σ) (b : BufferId) (table : GroupTable) (content : String)
    (step : Step σ) : Option Frame.Error → Prop
  | failed {e : Frame.Error} (outcome : step.outcome = .failed (.worker (.protocol e)))
    (calls : step.calls host = []) (phase : step.after.phase? b = some .restarting) :
    Fares host b table content step (some e)
  | first {space : NamespaceId} {ops : List Op} (unset : step.before.namespace? b = none)
    (highlights : ops = Record.ops table b space (Tokenizer.tokenize content))
    (outcome : step.outcome = .sent ops.length)
    (calls : step.calls host = [.create b (.ok space), .batch ops (.ok ())])
    (phase : step.after.phase? b = some .running) : Fares host b table content step none
  | later {space : NamespaceId} {ops : List Op} (set : step.before.namespace? b = some space)
    (highlights : ops = Record.ops table b space (Tokenizer.tokenize content))
    (outcome : step.outcome = .sent (ops.length + 1))
    (calls : step.calls host = [.batch (.clearAll b space :: ops) (.ok ())])
    (phase : step.after.phase? b = some .running) : Fares host b table content step none

theorem act_leaves {s' : Session σ} {t : Attachment} {a : Action} {o : Outcome}
    {space? : Option NamespaceId} {h : σ}
    (acts : s.act host a =
      (o, { s' with buffers := s'.buffers.set b { t with space? }, host := h })) :
    (s.step host a).outcome = o ∧ (s.step host a).after.phase? b = s'.phase? b ∧
      (s.act host a).2.workers? = s'.workers? ∧
      (s.act host a).2.attachment? b = some { t with space? } := by
  have after : (s.step host a).after = (s.act host a).2 := rfl
  rw [after, acts]
  exact ⟨congrArg Prod.fst acts, rfl, rfl, by simp [attachment?]⟩

theorem pass_fares (accepts : host.Accepts ready) (s' : Session σ) {t : Attachment} {a : Action}
    {content : String} (hr : ready s'.host) (attached : s.attachment? b = some t)
    (running : s'.phase? b = some .running)
    (acts : s.act host a = (.ofSent (s'.pass host b t fun space =>
      Record.into t.table b space (Tokenizer.tokenize content)).1, (s'.pass host b t fun space =>
      Record.into t.table b space (Tokenizer.tokenize content)).2))
    (calls : s.calls host a = passCalls host s' b t fun space =>
      Record.into t.table b space (Tokenizer.tokenize content)) :
    Fares host b t.table content (s.step host a) none ∧
      (s.act host a).2.workers? = s'.workers? ∧
      ∃ space?, (s.act host a).2.attachment? b = some { t with space? } := by
  have collects (space : NamespaceId) (batch : Batch) :
      (Record.into t.table b space (Tokenizer.tokenize content) batch).1.toList =
        batch.toList ++ Record.ops t.table b space (Tokenizer.tokenize content) :=
    Record.toList_into ..
  have named : s.namespace? b = t.space? := namespace?_of_attachment attached
  cases ht : t.space? with
  | none =>
    obtain ⟨space, h₁, create, hr₁⟩ := accepts.create b s'.host hr
    obtain ⟨h', flush, -⟩ := accepts.call
      (Record.ops t.table b space (Tokenizer.tokenize content)) h₁ hr₁
    obtain ⟨ends, made⟩ := pass_first collects ht create flush
    rw [ends] at acts
    rw [made] at calls
    obtain ⟨outcome, phase, workers, attachment⟩ := act_leaves acts
    exact ⟨.first (named.trans ht) rfl outcome calls (phase.trans running), workers, _, attachment⟩
  | some space =>
    obtain ⟨h', flush, -⟩ := accepts.call
      (.clearAll b space :: Record.ops t.table b space (Tokenizer.tokenize content)) s'.host hr
    obtain ⟨ends, made⟩ := pass_later collects ht flush
    rw [ends] at acts
    rw [made] at calls
    obtain ⟨outcome, phase, workers, attachment⟩ := act_leaves acts
    exact ⟨.later (named.trans ht) rfl outcome calls (phase.trans running), workers, _, attachment⟩

theorem external_tokenized (clean : k.Clean) (accepts : host.Accepts ready) (hr : ready s.host)
    (h : s.Tokenizes k n b info table config) (prompt : k.delay < config.readTimeout)
    {m : Worker.Moment} (launch : m.launch config.binary
      (config.arguments (Target.ofFile b info.path info.root)) = .ok (Tokenizer.program k))
    (content : String) :
    let failure? := Tokenizer.failure? k n (Text.bytes content)
    Fares host b table content (s.step host (.external m b content)) failure? ∧
      (s.act host (.external m b content)).2.Tokenizes k (if failure?.isSome then 0 else n + 1) b
        info table config := by
  obtain ⟨⟨space?, attached⟩, p, workers, rfl, slot, free⟩ := h
  obtain ⟨reply, hreply, tokenized, inFlight⟩ := Pool.invoke_tokenized
    (t := Target.ofFile b info.path info.root) clean slot free prompt launch (Text.bytes content)
  have buffer : (Target.ofFile b info.path info.root).buffer = b := rfl
  rw [buffer] at tokenized inFlight
  generalize hi : p.invoke m _ _ = i at hreply tokenized inFlight
  obtain ⟨fails, -, passes⟩ := external_asked host m content workers attached hi
  have kept : i.pool.config = p.config := by
    rw [← hi, Pool.invoke_pool, Pool.run_config]
  have free' : (i.pool.slotOf b).inFlight < p.config.maxInFlight := inFlight ▸ free
  have phase : Session.phase? { s with workers? := some i.pool } b =
      some (i.pool.slotOf b).phase := congrArg some (phase_slotOf i.pool b)
  cases tokenized with
  | failed failure error restarting next =>
    rw [error] at hreply
    have acts := fails _ hreply
    have early : (s.act host (.external m b content)).1.isEarly := by
      rw [acts]
      rfl
    rw [failure]
    refine ⟨.failed (congrArg Prod.fst acts) (act_early early).2 ?_, ?_⟩
    · change (s.act host (.external m b content)).2.phase? b = _
      rw [acts, phase, restarting]
    · rw [acts]
      exact ⟨⟨space?, attached⟩, i.pool, rfl, kept, next, free'⟩
  | replied fine text running next =>
    rw [text] at hreply
    obtain ⟨acts, calls⟩ := passes _ hreply
    rw [Text.lossy_bytes] at acts calls
    obtain ⟨fares, workers', attachment⟩ := pass_fares accepts { s with workers? := some i.pool }
      hr attached (phase.trans (congrArg some running)) acts calls
    rw [fine]
    exact ⟨fares, attachment, i.pool, workers', kept, next, free'⟩

theorem passes_fare (clean : k.Clean) (accepts : host.Accepts ready) (hr : ready s.host)
    (h : s.Tokenizes k n b info table config) (prompt : k.delay < config.readTimeout)
    {passes : List (Worker.Moment × String)}
    (launch : ∀ pass ∈ passes, pass.1.launch config.binary
      (config.arguments (Target.ofFile b info.path info.root)) = .ok (Tokenizer.program k))
    {i : Nat} {m : Worker.Moment} {content : String} {step : Step σ}
    (pass : passes[i]? = some (m, content))
    (taken : (trace host s (passes.map fun pass => .external pass.1 b pass.2))[i]? = some step) :
    ∃ fate, (Tokenizer.fates k n (passes.map fun pass => Text.bytes pass.2))[i]? = some fate ∧
      Fares host b table content step fate := by
  induction passes generalizing s n i with
  | nil => cases pass
  | cons first rest ih =>
    obtain ⟨fares, next⟩ := external_tokenized clean accepts hr h prompt
      (launch first List.mem_cons_self) first.2
    cases i with
    | zero =>
      cases pass
      cases taken
      exact ⟨_, rfl, fares⟩
    | succ i =>
      exact ih (act_ready accepts hr _) next (fun pass hp => launch pass (List.mem_cons_of_mem _ hp))
        pass taken

theorem run_ready (accepts : host.Accepts ready) (hr : ready s.host) (as : List Action) :
    ready (run host s as).host := by
  induction as generalizing s with
  | nil => exact hr
  | cons a as ih => exact ih (act_ready accepts hr a)

theorem run_workers_config (host : Host σ) (s : Session σ) (as : List Action) :
    (run host s as).workers?.map Pool.config = s.workers?.map Pool.config := by
  induction as generalizing s with
  | nil => rfl
  | cons a as ih => exact (ih _).trans (workers_config host s a)

theorem ofSettings?_limits {settings : WorkerSettings}
    (h : WorkerConfig.ofSettings? settings = some config) :
    0 < config.maxInFlight ∧ 0 < config.readTimeout := by
  obtain ⟨binary, -, rfl⟩ := Option.map_eq_some_iff.mp h
  refine ⟨Nat.lt_of_lt_of_le Nat.zero_lt_one (Nat.le_max_right _ 1), Nat.mul_pos ?_ (by decide)⟩
  split
  · decide
  · rename_i positive
    exact Nat.pos_of_ne_zero fun none => positive (UInt64.toNat_inj.mp none)

/-- A buffer that has no worker yet will be served by the tokenizer, if that is what can be started. -/
theorem unused_tokenizes (k : Tokenizer.Knobs) {settings : Settings} {h : σ}
    (configured : WorkerConfig.ofSettings? settings.worker = some config)
    (earlier : List Action) {t : Attachment}
    (attached : (run host (start settings h) earlier).attachment? b = some t)
    (unused : ∀ p, (run host (start settings h) earlier).workers? = some p → p.slot? b = none) :
    (run host (start settings h) earlier).Tokenizes k 0 b t.info t.table config := by
  have kept := run_workers_config host (start settings h) earlier
  obtain ⟨p, workers, rfl⟩ : ∃ p, (run host (start settings h) earlier).workers? = some p ∧
      p.config = config :=
    Option.map_eq_some_iff.mp (kept.trans (by rw [start, configured]; rfl))
  have fresh : p.slotOf b = {} := by
    rw [Pool.slotOf, unused p workers]
    rfl
  refine ⟨⟨t.space?, attached⟩, p, workers, rfl, ?_, ?_⟩
  · rw [fresh]
    exact .fresh k
  · rw [fresh]
    exact (ofSettings?_limits configured).1

theorem length_trace (host : Host σ) (s : Session σ) (as : List Action) :
    (trace host s as).length = as.length := by
  induction as generalizing s with
  | nil => rfl
  | cons a as ih => rw [trace, List.length_cons, List.length_cons, ih]

/-- A buffer that has no worker yet, in any session, is passed over again and again with texts of any
kind. Its worker is the tokenizer that quits after `k` requests, every start of it succeeds, and the
host accepts every call. Then every pass has one of two ends: it fails with an error of the wire,
makes no call and leaves the worker to be started again; or it gives the host one batch, the
highlights of its own text, and the worker runs on. A text that no frame can hold fails as too large;
any other fails if and only if `k` requests have been served since the last pass that failed, or no
frame can hold its tokens, and then the end of the output is found where a length field should begin.
So as long as the texts and their tokens fit into frames, the passes that fail are those whose number,
from zero, leaves `k` when divided by `k + 1`. -/
theorem quitting_worker_started_again (accepts : host.Accepts ready) (settings : Settings) {h : σ}
    (hr : ready h) (configured : WorkerConfig.ofSettings? settings.worker = some config)
    (earlier : List Action) {t : Attachment}
    (attached : (run host (start settings h) earlier).attachment? b = some t)
    (unused : ∀ p, (run host (start settings h) earlier).workers? = some p → p.slot? b = none)
    (k : Nat) (passes : List (Worker.Moment × String))
    (launch : ∀ pass ∈ passes, pass.1.launch config.binary
      (config.arguments (Target.ofFile b t.info.path t.info.root)) =
        .ok (Tokenizer.program { exitAfter? := some k })) :
    let steps := trace host (run host (start settings h) earlier)
      (passes.map fun pass => .external pass.1 b pass.2)
    let fates := Tokenizer.fates { exitAfter? := some k } 0
      (passes.map fun pass => Text.bytes pass.2)
    steps.length = passes.length ∧
    ∀ i m content step, passes[i]? = some (m, content) → steps[i]? = some step →
      ∃ fate, fates[i]? = some fate ∧ Fares host b t.table content step fate ∧
        (fate =
          let request := Text.bytes content
          if 9999999999 < request.length then some (.tooLarge request.length)
          else if k ≤ Tokenizer.servedSince 0 (fates.take i) ∨
            9999999999 < (Tokenizer.reply request).length then some (.unexpectedEof 10 0)
          else none) ∧
        ((∀ pass ∈ passes.take (i + 1), Tokenizer.Fits (Text.bytes pass.2)) →
          fate = if i % (k + 1) = k then some (.unexpectedEof 10 0) else none) := by
  intro steps fates
  have clean : Tokenizer.Knobs.Clean { exitAfter? := some k } := ⟨rfl, nofun⟩
  have ready' : ready (run host (start settings h) earlier).host := run_ready accepts hr earlier
  have tokenizes := unused_tokenizes { exitAfter? := some k } configured earlier attached unused
  have prompt := (ofSettings?_limits configured).2
  refine ⟨by simp [steps, length_trace], ?_⟩
  intro i m content step pass taken
  obtain ⟨fate, hfate, fares⟩ := passes_fare clean accepts ready' tokenizes prompt launch pass taken
  have asked : (passes.map fun pass => Text.bytes pass.2)[i]? = some (Text.bytes content) := by
    rw [List.getElem?_map, pass]
    rfl
  refine ⟨fate, hfate, fares, ?_, fun fits => ?_⟩
  · have since : fates[i]? = _ := Tokenizer.fates_since asked
    rw [Tokenizer.failure?_limited] at since
    exact Option.some.inj (hfate.symm.trans since)
  · have inside := (List.getElem?_eq_some_iff.mp asked).1
    have requests : ∀ r ∈ (passes.map fun pass => Text.bytes pass.2).take (i + 1),
        Tokenizer.Fits r := by
      intro r hr
      rw [← List.map_take] at hr
      obtain ⟨pass, hp, rfl⟩ := List.mem_map.mp hr
      exact fits pass hp
    have periodic := Tokenizer.fates_periodic (Nat.zero_le k) inside requests
    rw [Nat.zero_add] at periodic
    exact Option.some.inj (hfate.symm.trans periodic)

def servesOne : Machine where
  environment := .ofList [("TAGHL_STUB_EXIT_AFTER", "1")]

def oneServed : Worker.Moment :=
  ⟨0, fun _ _ => .ok (Tokenizer.program (Tokenizer.Knobs.ofMachine servesOne))⟩

theorem oneServed_launch (binary : String) (arguments : List String) :
    oneServed.launch binary arguments = .ok (Tokenizer.program { exitAfter? := some 1 }) := by
  have knobs : Tokenizer.Knobs.ofMachine servesOne = { exitAfter? := some 1 } := by decide +kernel
  rw [oneServed, knobs]

def attachedOnce : List Action := [.attach ⟨1, "c", "/p/a.c", "/p"⟩]

theorem attachedOnce_unused (p : Pool)
    (h : (run lineHost (start plainSettings {}) attachedOnce).workers? = some p) :
    p.slot? 1 = none := by
  cases h
  rfl

def threeTexts : List (Worker.Moment × String) :=
  [(oneServed, "a();"), (oneServed, "b();"), (oneServed, "struct c;")]

def threePasses : List (Step LineHost) :=
  trace lineHost (run lineHost (start plainSettings {}) attachedOnce)
    (threeTexts.map fun pass => .external pass.1 1 pass.2)

theorem servesOne_started_again :
    Tokenizer.Knobs.ofMachine servesOne = { exitAfter? := some 1 } ∧
    (∀ pass ∈ threeTexts, Tokenizer.Fits (Text.bytes pass.2)) ∧
    ∃ t step₁ step₂,
      (run lineHost (start plainSettings {}) attachedOnce).attachment? 1 = some t ∧
      threePasses[1]? = some step₁ ∧ threePasses[2]? = some step₂ ∧
      Fares lineHost 1 t.table "b();" step₁ (some (.unexpectedEof 10 0)) ∧
      Fares lineHost 1 t.table "struct c;" step₂ none := by
  have knobs : Tokenizer.Knobs.ofMachine servesOne = { exitAfter? := some 1 } := by decide +kernel
  obtain ⟨t, attached⟩ : ∃ t,
      (run lineHost (start plainSettings {}) attachedOnce).attachment? 1 = some t := ⟨_, rfl⟩
  have launch : ∀ pass ∈ threeTexts, ∀ binary arguments,
      pass.1.launch binary arguments = .ok (Tokenizer.program { exitAfter? := some 1 }) := by
    simp [threeTexts, oneServed_launch]
  have fits : ∀ pass ∈ threeTexts, Tokenizer.Fits (Text.bytes pass.2) := by
    simp only [threeTexts, List.forall_mem_cons, List.not_mem_nil, false_imp_iff, implies_true,
      and_true]
    refine ⟨⟨?_, ?_⟩, ⟨?_, ?_⟩, ?_, ?_⟩ <;> decide +kernel
  obtain ⟨length, fares⟩ := quitting_worker_started_again lineHost_accepts plainSettings ⟨rfl, rfl⟩
    rfl attachedOnce attached attachedOnce_unused 1 threeTexts fun pass hp => launch pass hp _ _
  have step (i : Nat) (hi : i < 3) : ∃ step, threePasses[i]? = some step := by
    have inside : i < threePasses.length := length.symm ▸ hi
    exact ⟨_, List.getElem?_eq_getElem inside⟩
  obtain ⟨step₁, taken₁⟩ := step 1 (by decide)
  obtain ⟨step₂, taken₂⟩ := step 2 (by decide)
  obtain ⟨_, -, fails, -, periodic⟩ := fares 1 _ _ _ rfl taken₁
  obtain ⟨_, -, lasts, -, periodic'⟩ := fares 2 _ _ _ rfl taken₂
  rw [periodic fun pass hp => fits pass (List.mem_of_mem_take hp)] at fails
  rw [periodic' fun pass hp => fits pass (List.mem_of_mem_take hp)] at lasts
  exact ⟨knobs, fits, t, step₁, step₂, attached, taken₁, taken₂, fails, lasts⟩

def beforeShort (text : String) : List (Step LineHost) :=
  trace lineHost (run lineHost (start plainSettings {}) attachedOnce)
    [.external oneServed 1 text, .external oneServed 1 "b();"]

theorem overlong_first {text : String} (long : 9999999999 < (Text.bytes text).length) :
    ∃ t step₀ step₁, (run lineHost (start plainSettings {}) attachedOnce).attachment? 1 = some t ∧
      (beforeShort text)[0]? = some step₀ ∧ (beforeShort text)[1]? = some step₁ ∧
      Fares lineHost 1 t.table text step₀ (some (.tooLarge (Text.bytes text).length)) ∧
      Fares lineHost 1 t.table "b();" step₁ none := by
  have clean : Tokenizer.Knobs.Clean { exitAfter? := some 1 } := ⟨rfl, nofun⟩
  obtain ⟨t, attached⟩ : ∃ t,
      (run lineHost (start plainSettings {}) attachedOnce).attachment? 1 = some t := ⟨_, rfl⟩
  have tokenizes := unused_tokenizes { exitAfter? := some 1 } rfl attachedOnce attached
    attachedOnce_unused
  have launch : ∀ pass ∈ [(oneServed, text), (oneServed, "b();")], ∀ binary arguments,
      pass.1.launch binary arguments = .ok (Tokenizer.program { exitAfter? := some 1 }) := by
    simp [oneServed_launch]
  have ready := run_ready lineHost_accepts (s := start plainSettings {}) ⟨rfl, rfl⟩ attachedOnce
  have fails : Tokenizer.failure? { exitAfter? := some 1 } 0 (Text.bytes text) =
      some (.tooLarge (Text.bytes text).length) := by
    rw [Tokenizer.failure?_limited, if_pos long]
  have lasts : Tokenizer.failure? { exitAfter? := some 1 } 0 (Text.bytes "b();") = none := by
    decide +kernel
  obtain ⟨fate₀, hfate₀, fares₀⟩ := passes_fare (i := 0) clean lineHost_accepts ready tokenizes
    (by decide +kernel) (fun pass hp => launch pass hp _ _) rfl rfl
  obtain ⟨fate₁, hfate₁, fares₁⟩ := passes_fare (i := 1) clean lineHost_accepts ready tokenizes
    (by decide +kernel) (fun pass hp => launch pass hp _ _) rfl rfl
  simp only [List.map_cons, List.map_nil, Tokenizer.fates, fails, Option.isSome_some, if_true, lasts,
    List.getElem?_cons_zero, List.getElem?_cons_succ, Option.some.injEq] at hfate₀ hfate₁
  subst hfate₀ hfate₁
  exact ⟨t, _, _, attached, rfl, rfl, fares₀, fares₁⟩

def overlongText : String := String.ofList (List.replicate 10000000000 'x')

/-- The tokenizer is to serve one request, and it is the first pass that fails, not the second. -/
theorem overlong_out_of_turn :
    ∃ t step₀ step₁, (run lineHost (start plainSettings {}) attachedOnce).attachment? 1 = some t ∧
      (beforeShort overlongText)[0]? = some step₀ ∧ (beforeShort overlongText)[1]? = some step₁ ∧
      Fares lineHost 1 t.table overlongText step₀ (some (.tooLarge 10000000000)) ∧ 0 % 2 ≠ 1 ∧
      Fares lineHost 1 t.table "b();" step₁ none ∧ 1 % 2 = 1 := by
  have length : (Text.bytes overlongText).length = 10000000000 :=
    Text.length_bytes_replicate 10000000000 rfl
  obtain ⟨t, step₀, step₁, attached, taken₀, taken₁, fails, lasts⟩ :=
    overlong_first (length ▸ by decide : 9999999999 < (Text.bytes overlongText).length)
  rw [length] at fails
  exact ⟨t, step₀, step₁, attached, taken₀, taken₁, fails, by decide, lasts, by decide⟩

end Session

end SemanticHighlight
