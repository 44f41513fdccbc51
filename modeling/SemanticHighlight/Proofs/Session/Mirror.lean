import SemanticHighlight.Proofs.Highlight.Renaming
import SemanticHighlight.Proofs.Session.Failures
import SemanticHighlight.Proofs.Session.Shared

/-!
# One buffer in two sessions

Two sessions that know the same of a buffer, but for the names of its namespaces, give the same
answer to an operation on it and make the same calls, and know the same of it afterwards. The host of
the second session numbers the namespaces.
-/

set_option autoImplicit false

namespace SemanticHighlight

/-- A host that accepts every call and numbers the namespaces from zero. -/
def ordinalHost : Host Nat where
  createNamespace _ k := (.ok k, k + 1)
  callAtomic _ k := (.ok (), k)

def HostCall.rename (ρ : NamespaceId → NamespaceId) : HostCall → HostCall
  | .create b answer => .create b (answer.map ρ)
  | .batch ops answer => .batch (ops.map (Op.rename ρ)) answer

theorem HostCall.rename_rename (ρ ρ' : NamespaceId → NamespaceId) (call : HostCall) :
    (call.rename ρ').rename ρ = call.rename (ρ ∘ ρ') := by
  cases call with
  | create b answer => cases answer <;> rfl
  | batch ops answer => simp [rename, Function.comp_def, Op.rename_rename]

def Attachment.rename (ρ : NamespaceId → NamespaceId) (t : Attachment) : Attachment :=
  { t with space? := t.space?.map ρ }

namespace Session

variable {σ τ : Type} {host : Host σ} {ready : σ → Prop} {ρ : NamespaceId → NamespaceId}
  {b : BufferId}

open Worker (Pool)

def work? (s : Session σ) : Action → Option (Instant × List Addition)
  | .external m b content => (s.invocation? m b content).map fun i => (i.finished, i.additions)
  | _ => none

def Step.answer (t : Step σ) : Outcome × Option (Instant × List Addition) :=
  (t.outcome, t.before.work? t.action)

def workerOf (s : Session σ) (b : BufferId) : Option Worker.Slot :=
  s.workers?.map fun p => (p.slotOf b).anonymous

/-- The session `s` knows of buffer `b` what `c` knows of it, with the namespaces renamed. -/
structure Mirrors (ρ : NamespaceId → NamespaceId) (b : BufferId) (s : Session σ) (c : Session τ) :
    Prop where
  settings : s.settings = c.settings
  attachment : s.attachment? b = (c.attachment? b).map (Attachment.rename ρ)
  config : s.workers?.map Pool.config = c.workers?.map Pool.config
  worker : s.workerOf b = c.workerOf b

theorem workers_config (host : Host σ) (s : Session σ) (a : Action) :
    (s.act host a).2.workers?.map Pool.config = s.workers?.map Pool.config := by
  rw [act_workers, Option.map_map]
  congr 1
  funext p
  exact p.run_config _

theorem Mirrors.act_other {s : Session σ} {c : Session τ} (hm : Mirrors ρ b s c) (hs : s.Sound)
    {a : Action} {b' : BufferId} (ha : a.on? = some b') (hb : b ≠ b') :
    Mirrors ρ b (s.act host a).2 c where
  settings := (act_shared hs host a).1.trans hm.settings
  attachment := (attachment_other host s ha hb).trans hm.attachment
  config := (workers_config host s a).trans hm.config
  worker := by
    rw [← hm.worker, workerOf, act_workers, Option.map_map, workerOf]
    cases hp : s.workers? with
    | none => rfl
    | some p =>
      have kept := slot_other s (hs.apart p hp) ha hb
      simp only [Option.map_some, Function.comp_apply, Pool.slotOf, kept]

section

variable {s : Session σ} {t : Attachment} {collect : NamespaceId → Batch → Batch × Nat}
  {adds : NamespaceId → List Op}

def passCalls (host : Host σ) (s : Session σ) (b : BufferId) (t : Attachment)
    (collect : NamespaceId → Batch → Batch × Nat) : List HostCall :=
  ((s.logged []).pass host.logged b t collect).2.host.2

theorem pass_first
    (hc : ∀ space batch, (collect space batch).1.toList = batch.toList ++ adds space) {h₁ h' : σ}
    {n : NamespaceId} (unset : t.space? = none)
    (create : host.createNamespace b s.host = (.ok n, h₁))
    (flush : host.callAtomic (adds n) h₁ = (.ok (), h')) :
    s.pass host b t collect = (.ok (adds n).length,
      { s with buffers := s.buffers.set b { t with space? := some n }, host := h' }) ∧
    passCalls host s b t collect = [.create b (.ok n), .batch (adds n) (.ok ())] := by
  have create' := Host.createNamespace_logged create []
  have flush' := Host.callAtomic_logged flush [.create b (.ok n)]
  have here : (s.logged []).host = (s.host, []) := rfl
  constructor
  · simp only [pass, beginBatch, unset, create, flush_eq, hc, Batch.toList_empty, List.nil_append,
      flush]
  · simp only [passCalls, pass, beginBatch, unset, here, create', flush_eq, hc, Batch.toList_empty,
      List.nil_append, flush', List.singleton_append]

theorem pass_later
    (hc : ∀ space batch, (collect space batch).1.toList = batch.toList ++ adds space) {h' : σ}
    {n : NamespaceId} (set : t.space? = some n)
    (flush : host.callAtomic (.clearAll b n :: adds n) s.host = (.ok (), h')) :
    s.pass host b t collect = (.ok ((adds n).length + 1),
      { s with buffers := s.buffers.set b { t with space? := some n }, host := h' }) ∧
    passCalls host s b t collect = [.batch (.clearAll b n :: adds n) (.ok ())] := by
  have flush' := Host.callAtomic_logged flush []
  have here : (s.logged []).host = (s.host, []) := rfl
  constructor
  · simp only [pass, beginBatch, set, flush_eq, hc, Batch.toList_push, Batch.toList_empty,
      List.nil_append, List.singleton_append, flush, List.length_cons]
  · simp only [passCalls, pass, beginBatch, set, here, flush_eq, hc, Batch.toList_push,
      Batch.toList_empty, List.nil_append, List.singleton_append, flush']

/-- What two passes over a buffer have in common, the second one on the host that numbers. -/
structure SamePass (ρ : NamespaceId → NamespaceId) (b : BufferId) (host : Host σ) (s : Session σ)
    (c : Session Nat) (t : Attachment) (collect : NamespaceId → Batch → Batch × Nat) : Prop where
  result : (s.pass host b (t.rename ρ) collect).1 = (c.pass ordinalHost b t collect).1
  calls : passCalls host s b (t.rename ρ) collect =
    (passCalls ordinalHost c b t collect).map (HostCall.rename ρ)
  mirrors : Mirrors ρ b (s.pass host b (t.rename ρ) collect).2 (c.pass ordinalHost b t collect).2
  counted : (c.pass ordinalHost b t collect).2.host = c.host +
    ((passCalls ordinalHost c b t collect).filterMap (HostCall.granted? b)).length

theorem Mirrors.put {c : Session τ} (hm : Mirrors ρ b s c) {t t' : Attachment}
    (same : t' = t.rename ρ) (tables tables' : Keyed String GroupTable) (h : σ) (h' : τ) :
    Mirrors ρ b { s with tables, buffers := s.buffers.set b t', host := h }
      { c with tables := tables', buffers := c.buffers.set b t, host := h' } where
  settings := hm.settings
  attachment := by simp [attachment?, same]
  config := hm.config
  worker := hm.worker

theorem Mirrors.pass {c : Session Nat} (hm : Mirrors ρ b s c) (accepts : host.Accepts ready)
    (hr : ready s.host)
    (hc : ∀ space batch, (collect space batch).1.toList = batch.toList ++ adds space)
    (renamed : ∀ space, adds (ρ space) = (adds space).map (Op.rename ρ))
    (new : ∀ n, .create b (.ok n) ∈ passCalls host s b (t.rename ρ) collect → n = ρ c.host) :
    SamePass ρ b host s c t collect := by
  cases ht : t.space? with
  | none =>
    have unset : (t.rename ρ).space? = none := by rw [Attachment.rename, ht]; rfl
    obtain ⟨n, h₁, create, hr₁⟩ := accepts.create b s.host hr
    obtain ⟨h', flush, -⟩ := accepts.call (adds n) h₁ hr₁
    obtain ⟨ends, made⟩ := pass_first hc unset create flush
    have create' : ordinalHost.createNamespace b c.host = (.ok c.host, c.host + 1) := rfl
    obtain ⟨ends', made'⟩ := pass_first hc ht create' rfl
    obtain rfl := new n (by rw [made]; exact List.mem_cons_self)
    constructor
    · rw [ends, ends', renamed, List.length_map]
    · rw [made, made', renamed]
      rfl
    · have same : ({ t.rename ρ with space? := some (ρ c.host) } : Attachment) =
          ({ t with space? := some (c.host : NamespaceId) } : Attachment).rename ρ := rfl
      rw [ends, ends']
      exact hm.put same _ _ _ _
    · rw [ends', made']
      simp [HostCall.granted?]
  | some space =>
    have set : (t.rename ρ).space? = some (ρ space) := by rw [Attachment.rename, ht]; rfl
    obtain ⟨h', flush, -⟩ := accepts.call (.clearAll b (ρ space) :: adds (ρ space)) s.host hr
    obtain ⟨ends, made⟩ := pass_later hc set flush
    have flush' : ordinalHost.callAtomic (.clearAll b space :: adds space) c.host =
        (.ok (), c.host) := rfl
    obtain ⟨ends', made'⟩ := pass_later hc ht flush'
    constructor
    · rw [ends, ends', renamed, List.length_map]
    · rw [made, made', renamed]
      rfl
    · have same : ({ t.rename ρ with space? := some (ρ space) } : Attachment) =
          ({ t with space? := some space } : Attachment).rename ρ := rfl
      rw [ends, ends']
      exact hm.put same _ _ _ _
    · rw [ends', made']
      simp [HostCall.granted?]

end

/-- What an operation on the buffer has in common in two runs, the second one on the host that
numbers. -/
structure SameStep (ρ : NamespaceId → NamespaceId) (b : BufferId) (host : Host σ) (s : Session σ)
    (c : Session Nat) (a : Action) : Prop where
  answer : (s.step host a).answer = (c.step ordinalHost a).answer
  calls : s.calls host a = (c.calls ordinalHost a).map (HostCall.rename ρ)
  mirrors : Mirrors ρ b (s.act host a).2 (c.act ordinalHost a).2
  counted : (c.act ordinalHost a).2.host =
    c.host + ((c.calls ordinalHost a).filterMap (HostCall.granted? b)).length

theorem calls_silent {s : Session σ} {a : Action} (h : a.passOn? = none) : s.calls host a = [] := by
  have hc := act_calls host s a
  generalize s.calls host a = calls at hc
  cases hc with
  | silent => rfl
  | refused pass =>
    rw [h] at pass
    cases pass
  | first pass =>
    rw [h] at pass
    cases pass
  | later pass =>
    rw [h] at pass
    cases pass

theorem tokens_unattached (host : Host σ) {s : Session σ} (stream : TokenStream)
    (ht : s.attachment? b = none) :
    s.act host (.tokens b stream) = (.failed (.unknownBuffer b), s) := by
  simp only [act, highlightTokens, ht, Outcome.ofSent]

theorem tokens_attached (host : Host σ) {s : Session σ} {t : Attachment} (stream : TokenStream)
    (ht : s.attachment? b = some t) :
    let collect := fun space => Classify.into stream.frontend t.table b space stream.tokens
    s.act host (.tokens b stream) =
        (.ofSent (s.pass host b t collect).1, (s.pass host b t collect).2) ∧
      s.calls host (.tokens b stream) = passCalls host s b t collect := by
  constructor
  · simp only [act, highlightTokens, ht]
  · simp only [calls, act, highlightTokens, attachment?_logged, ht, passCalls]

theorem external_workerless (host : Host σ) {s : Session σ} (m : Worker.Moment) (content : String)
    (hp : s.workers? = none) :
    s.act host (.external m b content) = (.failed .noWorkerBinary, s) := by
  simp only [act, highlightExternal, hp, Outcome.ofExternal]

theorem external_unattached (host : Host σ) {s : Session σ} {p : Pool} (m : Worker.Moment)
    (content : String) (hp : s.workers? = some p) (ht : s.attachment? b = none) :
    s.act host (.external m b content) = (.failed (.unknownBuffer b), s) := by
  simp only [act, highlightExternal, hp, ht, Outcome.ofExternal]

theorem external_asked (host : Host σ) {s : Session σ} {p : Pool} {t : Attachment}
    (m : Worker.Moment) (content : String) {i : Worker.Invocation} (hp : s.workers? = some p)
    (ht : s.attachment? b = some t)
    (hi : p.invoke m (Target.ofFile b t.info.path t.info.root) (Text.bytes content) = i) :
    let s' := { s with workers? := some i.pool }
    (∀ e, i.reply = .error e → s.act host (.external m b content) = (.failed (.worker e), s')) ∧
    (i.reply = .ok none → s.act host (.external m b content) = (.dropped, s')) ∧
    ∀ payload, i.reply = .ok (some payload) →
      let collect := fun space => Record.into t.table b space payload
      s.act host (.external m b content) =
          (.ofSent (s'.pass host b t collect).1, (s'.pass host b t collect).2) ∧
        s.calls host (.external m b content) = passCalls host s' b t collect := by
  refine ⟨?_, ?_, ?_⟩
  · intro e hr
    simp only [act, highlightExternal, hp, ht, hi, hr, Outcome.ofExternal]
  · intro hr
    simp only [act, highlightExternal, hp, ht, hi, hr, Outcome.ofExternal]
  · intro payload hr
    have workers : (s.logged []).workers? = some p := hp
    constructor
    · simp only [act, highlightExternal, hp, ht, hi, hr, Outcome.ofExternal_map]
    · simp only [calls, act, highlightExternal, workers, attachment?_logged, ht, hi, hr]
      rfl

theorem SameStep.silent {s : Session σ} {c : Session Nat} {a : Action}
    (outcome : (s.act host a).1 = (c.act ordinalHost a).1) (work : s.work? a = c.work? a)
    (calls : s.calls host a = []) (calls' : c.calls ordinalHost a = [])
    (mirrors : Mirrors ρ b (s.act host a).2 (c.act ordinalHost a).2)
    (untouched : (c.act ordinalHost a).2.host = c.host) : SameStep ρ b host s c a where
  answer := Prod.ext outcome work
  calls := by rw [calls, calls']; rfl
  mirrors := mirrors
  counted := by rw [calls', untouched]; rfl

theorem SameStep.early {s s' : Session σ} {c c' : Session Nat} {a : Action} {o : Outcome}
    (acts : s.act host a = (o, s')) (acts' : c.act ordinalHost a = (o, c')) (early : o.isEarly)
    (mirrors : Mirrors ρ b s' c') (untouched : c'.host = c.host) (work : s.work? a = c.work? a) :
    SameStep ρ b host s c a := by
  refine .silent ?_ work (act_early (by rwa [acts])).2 (act_early (by rwa [acts'])).2 ?_ ?_
  · rw [acts, acts']
  · rwa [acts, acts']
  · rwa [acts']

theorem SamePass.step {s s' : Session σ} {c c' : Session Nat} {a : Action} {t : Attachment}
    {collect : NamespaceId → Batch → Batch × Nat} (same : SamePass ρ b host s' c' t collect)
    (acts : s.act host a = (.ofSent (s'.pass host b (t.rename ρ) collect).1,
      (s'.pass host b (t.rename ρ) collect).2))
    (calls : s.calls host a = passCalls host s' b (t.rename ρ) collect)
    (acts' : c.act ordinalHost a = (.ofSent (c'.pass ordinalHost b t collect).1,
      (c'.pass ordinalHost b t collect).2))
    (calls' : c.calls ordinalHost a = passCalls ordinalHost c' b t collect)
    (untouched : c'.host = c.host) (work : s.work? a = c.work? a) : SameStep ρ b host s c a where
  answer := by
    refine Prod.ext ?_ work
    change (s.act host a).1 = (c.act ordinalHost a).1
    rw [acts, acts', same.result]
  calls := by rw [calls, calls', same.calls]
  mirrors := by
    rw [acts, acts']
    exact same.mirrors
  counted := by
    rw [acts', calls', ← untouched]
    exact same.counted

namespace Mirrors

variable {s : Session σ} {c : Session Nat}

theorem attach (hm : Mirrors ρ b s c) (hs : s.Sound) (hc : c.Sound) {info : BufferInfo}
    (hb : info.id = b) : SameStep ρ b host s c (.attach info) := by
  subst hb
  have table : s.table? info.filetype = c.table? info.filetype := by
    rw [table?, hm.settings, table?]
  obtain ⟨tables, -, hs⟩ := hs.tableFor info.filetype
  obtain ⟨tables', -, hc⟩ := hc.tableFor info.filetype
  have acts : (s.act host (.attach info)).1 = (c.act ordinalHost (.attach info)).1 ∧
      Mirrors ρ info.id (s.act host (.attach info)).2 (c.act ordinalHost (.attach info)).2 ∧
      (c.act ordinalHost (.attach info)).2.host = c.host := by
    simp only [act, Session.attach, hs, hc, table]
    cases c.table? info.filetype with
    | none => exact ⟨rfl, hm, rfl⟩
    | some table =>
      have same : (Attachment.mk info table ((s.attachment? info.id).bind Attachment.space?)) =
          (Attachment.mk info table ((c.attachment? info.id).bind Attachment.space?)).rename ρ := by
        rw [hm.attachment]
        cases c.attachment? info.id <;> rfl
      exact ⟨rfl, hm.put same tables tables' _ _, rfl⟩
  exact .silent acts.1 rfl (calls_silent rfl) (calls_silent rfl) acts.2.1 acts.2.2

theorem detach (hm : Mirrors ρ b s c) : SameStep ρ b host s c (.detach b) := by
  have info : (s.attachment? b).map Attachment.info = (c.attachment? b).map Attachment.info := by
    rw [hm.attachment, Option.map_map]
    rfl
  have outcome : (s.act host (.detach b)).1 = (c.act ordinalHost (.detach b)).1 :=
    congrArg Outcome.detached info
  have gone {υ : Type} {host : Host υ} {s : Session υ} :
      (s.act host (.detach b)).2.attachment? b = none ∧
        (s.act host (.detach b)).2.workerOf b = s.workers?.map fun _ => ({} : Worker.Slot) := by
    constructor
    · simp [act, Session.detach, attachment?]
    · simp only [act, Session.detach, workerOf, Option.map_map]
      congr 1
      funext p
      rw [Function.comp_apply, Pool.shutdown_slotOf]
      rfl
  have mirrors : Mirrors ρ b (s.act host (.detach b)).2 (c.act ordinalHost (.detach b)).2 := by
    constructor
    · exact hm.settings
    · rw [gone.1, gone.1]
      rfl
    · rw [workers_config, workers_config, hm.config]
    · rw [gone.2, gone.2]
      have config := congrArg (Option.map fun _ => ({} : Worker.Slot)) hm.config
      rwa [Option.map_map, Option.map_map] at config
  exact .silent outcome rfl (calls_silent rfl) (calls_silent rfl) mirrors rfl

theorem tokens (hm : Mirrors ρ b s c) (accepts : host.Accepts ready) (hr : ready s.host)
    {stream : TokenStream}
    (new : ∀ n, .create b (.ok n) ∈ s.calls host (.tokens b stream) → n = ρ c.host) :
    SameStep ρ b host s c (.tokens b stream) := by
  have attached := hm.attachment
  cases ht : c.attachment? b with
  | none =>
    rw [ht] at attached
    exact .early (tokens_unattached host stream attached) (tokens_unattached ordinalHost stream ht)
      rfl hm rfl rfl
  | some t =>
    rw [ht] at attached
    obtain ⟨acts, calls⟩ := tokens_attached host stream attached
    obtain ⟨acts', calls'⟩ := tokens_attached ordinalHost stream ht
    rw [calls] at new
    have same := hm.pass accepts hr
      (fun space => Classify.toList_into stream.frontend t.table b space stream.tokens)
      (fun space => Classify.ops_rename stream.frontend t.table b space stream.tokens) new
    exact same.step acts calls acts' calls' rfl rfl

theorem asked (hm : Mirrors ρ b s c) {p p' : Pool} (hp : s.workers? = some p)
    (hp' : c.workers? = some p') (m : Worker.Moment) (path root : String) (content : Bytes) :
    let i := p.invoke m (Target.ofFile b path root) content
    let i' := p'.invoke m (Target.ofFile b path root) content
    i.reply = i'.reply ∧ i.finished = i'.finished ∧ i.additions = i'.additions ∧
      Mirrors ρ b { s with workers? := some i.pool } { c with workers? := some i'.pool } := by
  have config := hm.config
  have worker := hm.worker
  rw [workerOf, workerOf, hp, hp'] at worker
  rw [hp, hp'] at config
  obtain ⟨reply, slot, finished, additions⟩ := Pool.invoke_congr (t := Target.ofFile b path root)
    (Option.some.inj config) (Option.some.inj worker) m content
  refine ⟨reply, finished, additions, hm.settings, hm.attachment, ?_, congrArg some slot⟩
  simp only [Option.map_some, Pool.invoke_pool, Pool.run_config]
  exact config

theorem external (hm : Mirrors ρ b s c) (accepts : host.Accepts ready) (hr : ready s.host)
    {m : Worker.Moment} {content : String}
    (new : ∀ n, .create b (.ok n) ∈ s.calls host (.external m b content) → n = ρ c.host) :
    SameStep ρ b host s c (.external m b content) := by
  have attached := hm.attachment
  have config := hm.config
  cases hp' : c.workers? with
  | none =>
    have hp : s.workers? = none := by
      rw [hp', Option.map_none, Option.map_eq_none_iff] at config
      exact config
    have work : s.work? (.external m b content) = c.work? (.external m b content) := by
      rw [work?, work?, invocation?, invocation?, hp, hp']
      rfl
    exact .early (external_workerless host m content hp)
      (external_workerless ordinalHost m content hp') rfl hm rfl work
  | some p' =>
    obtain ⟨p, hp, -⟩ : ∃ p, s.workers? = some p ∧ p.config = p'.config := by
      rw [hp', Option.map_some, Option.map_eq_some_iff] at config
      exact config
    cases ht : c.attachment? b with
    | none =>
      rw [ht] at attached
      have work : s.work? (.external m b content) = c.work? (.external m b content) := by
        rw [work?, work?, invocation?, invocation?, hp, hp', ht, attached]
        rfl
      exact .early (external_unattached host m content hp attached)
        (external_unattached ordinalHost m content hp' ht) rfl hm rfl work
    | some t =>
      rw [ht] at attached
      obtain ⟨reply, finished, additions, after⟩ :=
        hm.asked hp hp' m t.info.path t.info.root (Text.bytes content)
      have work : s.work? (.external m b content) = c.work? (.external m b content) := by
        rw [work?, work?, invocation?, invocation?, hp, hp', ht, attached]
        exact congrArg some (Prod.ext finished additions)
      generalize hi : p.invoke m _ _ = i at reply after
      generalize hi' : p'.invoke m _ _ = i' at reply after
      obtain ⟨failed, dropped, passed⟩ := external_asked host m content hp attached hi
      obtain ⟨failed', dropped', passed'⟩ := external_asked ordinalHost m content hp' ht hi'
      rcases hreply : i'.reply with e | _ | payload
      · exact .early (failed e (reply.trans hreply)) (failed' e hreply) rfl after rfl work
      · exact .early (dropped (reply.trans hreply)) (dropped' hreply) rfl after rfl work
      · obtain ⟨acts, calls⟩ := passed payload (reply.trans hreply)
        obtain ⟨acts', calls'⟩ := passed' payload hreply
        rw [calls] at new
        have same := after.pass accepts hr
          (fun space => Record.toList_into t.table b space payload)
          (fun space => Record.ops_rename t.table b space payload) new
        exact same.step acts calls acts' calls' rfl work

theorem act_own (hm : Mirrors ρ b s c) (hs : s.Sound) (hc : c.Sound) (accepts : host.Accepts ready)
    (hr : ready s.host) {a : Action} (ha : a.on? = some b)
    (new : ∀ n, .create b (.ok n) ∈ s.calls host a → n = ρ c.host) : SameStep ρ b host s c a := by
  cases a with
  | attach info => exact hm.attach hs hc (Option.some.inj ha)
  | detach b' =>
    cases ha
    exact hm.detach
  | tokens b' stream =>
    cases ha
    exact hm.tokens accepts hr new
  | external m b' content =>
    cases ha
    exact hm.external accepts hr new
  | _ => cases ha

end Mirrors

end Session

end SemanticHighlight
