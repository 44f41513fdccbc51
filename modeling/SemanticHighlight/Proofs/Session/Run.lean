import SemanticHighlight.Proofs.Highlight.Adds
import SemanticHighlight.Session.Pass

/-!
# Runs of a session

What can happen to a session is an action: its own operations, and three events at its workers that
come from outside. `run` takes one action after the other, `trace` records each of them with the
sessions before and after it. `act_effect` says everything an action can do to the attached buffers
and to the host; what holds at every point of a run is derived from it.
-/

set_option autoImplicit false

namespace SemanticHighlight

namespace Session

variable {σ : Type}

structure TokenStream : Type 1 where
  Cursor : Type
  Ty : Type
  [decEq : DecidableEq Cursor]
  frontend : Frontend Cursor Ty
  tokens : List (Token Cursor Ty)

attribute [instance] TokenStream.decEq

inductive Action : Type 1 where
  | attach (info : BufferInfo)
  | detach (b : BufferId)
  | tokens (b : BufferId) (stream : TokenStream)
  | external (m : Worker.Moment) (b : BufferId) (content : String)
  | hold (b : BufferId)
  | release (permit : Worker.Permit)
  | workerDies (b : BufferId)

def Action.passOn? : Action → Option BufferId
  | .tokens b _ => some b
  | .external _ b _ => some b
  | _ => none

inductive Outcome where
  | done
  | failed (cause : Error)
  | detached (info? : Option BufferInfo)
  | sent (count : Nat)
  | dropped
  | admitted (permit? : Option Worker.Permit)
  deriving DecidableEq

namespace Outcome

def ofSent : Except Error Nat → Outcome
  | .ok n => .sent n
  | .error e => .failed e

def ofExternal : Except Error External → Outcome
  | .ok (.flushed n) => .sent n
  | .ok .dropped => .dropped
  | .error e => .failed e

def isSent : Outcome → Bool
  | .sent _ => true
  | _ => false

theorem ofExternal_map (r : Except Error Nat) : ofExternal (r.map .flushed) = ofSent r := by
  cases r <;> rfl

end Outcome

def withWorkers (s : Session σ) (f : Worker.Pool → Worker.Pool) : Session σ :=
  { s with workers? := s.workers?.map f }

def act (host : Host σ) (s : Session σ) : Action → Outcome × Session σ
  | .attach info =>
    match s.attach info with
    | (.ok (), s) => (.done, s)
    | (.error e, s) => (.failed e, s)
  | .detach b => (.detached (s.detach b).1, (s.detach b).2)
  | .tokens b t =>
    let (r, s) := s.highlightTokens host b t.frontend t.tokens
    (.ofSent r, s)
  | .external m b content =>
    let p := s.highlightExternal host m b content
    (.ofExternal p.result, p.session)
  | .hold b =>
    (.admitted (s.workers?.bind fun p => (p.tryAdmit b).1), s.withWorkers fun p => (p.tryAdmit b).2)
  | .release permit => (.done, s.withWorkers (·.release permit))
  | .workerDies b => (.done, s.withWorkers (·.processDied b))

structure Step (σ : Type) : Type 1 where
  before : Session σ
  action : Action
  outcome : Outcome
  after : Session σ

def step (host : Host σ) (s : Session σ) (a : Action) : Step σ :=
  ⟨s, a, (s.act host a).1, (s.act host a).2⟩

def run (host : Host σ) : Session σ → List Action → Session σ
  | s, [] => s
  | s, a :: as => run host (s.act host a).2 as

def trace (host : Host σ) : Session σ → List Action → List (Step σ)
  | _, [] => []
  | s, a :: as => s.step host a :: trace host (s.act host a).2 as

theorem run_append (host : Host σ) (s : Session σ) (as bs : List Action) :
    run host s (as ++ bs) = run host (run host s as) bs := by
  induction as generalizing s with
  | nil => rfl
  | cons a as ih => exact ih _

theorem trace_append (host : Host σ) (s : Session σ) (as bs : List Action) :
    trace host s (as ++ bs) = trace host s as ++ trace host (run host s as) bs := by
  induction as generalizing s with
  | nil => rfl
  | cons a as ih => simp [trace, run, ih]

def history (host : Host σ) (s : Session σ) (as : List Action) : List (Step σ) :=
  (trace host s as).reverse

theorem run_concat (host : Host σ) (s : Session σ) (as : List Action) (a : Action) :
    run host s (as ++ [a]) = ((run host s as).act host a).2 := by
  rw [run_append]
  rfl

theorem history_concat (host : Host σ) (s : Session σ) (as : List Action) (a : Action) :
    history host s (as ++ [a]) = (run host s as).step host a :: history host s as := by
  simp [history, trace_append, trace]

/-- What every step keeps of a session and its past is kept by a whole run. -/
theorem run_keeps (host : Host σ) {P : Session σ → List (Step σ) → Prop}
    (next : ∀ s past a, P s past → P (s.act host a).2 (s.step host a :: past)) {s : Session σ}
    {past : List (Step σ)} (h : P s past) (as : List Action) :
    P (run host s as) (history host s as ++ past) := by
  induction as generalizing s past with
  | nil => exact h
  | cons a as ih => simpa [history, trace, run] using ih (next s past a h)

theorem run_induction (host : Host σ) {P : Session σ → List (Step σ) → Prop}
    (next : ∀ s past a, P s past → P (s.act host a).2 (s.step host a :: past)) {s : Session σ}
    (initial : P s []) (as : List Action) : P (run host s as) (history host s as) := by
  simpa using run_keeps host next initial as

def invocation? (s : Session σ) (m : Worker.Moment) (b : BufferId) (content : String) :
    Option Worker.Invocation := do
  let workers ← s.workers?
  let t ← s.attachment? b
  some (workers.invoke m (Target.ofFile b t.info.path t.info.root) (Text.bytes content))

def reply? (s : Session σ) (m : Worker.Moment) (b : BufferId) (content : String) : Option String :=
  (s.invocation? m b content).bind fun i => i.reply.toOption.join

def highlights (s : Session σ) (space : NamespaceId) : Action → List Op
  | .tokens b t =>
    match s.attachment? b with
    | some a => Classify.ops t.frontend a.table b space t.tokens
    | none => []
  | .external m b content =>
    match s.attachment? b, s.reply? m b content with
    | some a, some payload => Record.ops a.table b space payload
    | _, _ => []
  | _ => []

theorem highlights_add_to {s : Session σ} {space : NamespaceId} {a : Action} {b : BufferId}
    (h : a.passOn? = some b) : ∀ op ∈ s.highlights space a, op.AddsTo b space := by
  cases a with
  | tokens b' t =>
    cases h
    simp only [highlights]
    split
    · exact Classify.ops_add_to t.frontend _ _ _ _
    · simp
  | external m b' content =>
    cases h
    simp only [highlights]
    split
    · exact Record.ops_add_to _ _ _ _
    · simp
  | _ => cases h

/-- How a pass over buffer `b` ends that computes the highlights `adds`: with which outcome, with
which namespace kept, and in which state of the host. -/
inductive PassEnd (host : Host σ) (b : BufferId) (adds : NamespaceId → List Op) :
    Option NamespaceId → σ → Except Error Nat → Option NamespaceId → σ → Prop
  | refused {h h' : σ} {e : HostError} (create : host.createNamespace b h = (.error e, h')) :
    PassEnd host b adds none h (.error (.host e)) none h'
  | firstFailed {h h₁ h' : σ} {space : NamespaceId} {e : HostError}
    (create : host.createNamespace b h = (.ok space, h₁))
    (flush : host.callAtomic (adds space) h₁ = (.error e, h')) :
    PassEnd host b adds none h (.error (.host e)) (some space) h'
  | first {h h₁ h' : σ} {space : NamespaceId}
    (create : host.createNamespace b h = (.ok space, h₁))
    (flush : host.callAtomic (adds space) h₁ = (.ok (), h')) :
    PassEnd host b adds none h (.ok (adds space).length) (some space) h'
  | laterFailed {h h' : σ} {space : NamespaceId} {e : HostError}
    (flush : host.callAtomic (.clearAll b space :: adds space) h = (.error e, h')) :
    PassEnd host b adds (some space) h (.error (.host e)) (some space) h'
  | later {h h' : σ} {space : NamespaceId}
    (flush : host.callAtomic (.clearAll b space :: adds space) h = (.ok (), h')) :
    PassEnd host b adds (some space) h (.ok ((adds space).length + 1)) (some space) h'

theorem flush_eq (batch : Batch) (host : Host σ) (h : σ) :
    batch.flush host h = match host.callAtomic batch.toList h with
      | (.ok (), h) => (.ok batch.toList.length, h)
      | (.error e, h) => (.error e, h) := by
  unfold Batch.flush
  split <;> simp_all [Batch.size, Batch.toList]

theorem pass_end (host : Host σ) {s : Session σ} {b : BufferId} {t : Attachment}
    (collect : NamespaceId → Batch → Batch × Nat) (adds : NamespaceId → List Op)
    (ht : s.attachment? b = some t)
    (hc : ∀ space batch, (collect space batch).1.toList = batch.toList ++ adds space) :
    ∃ space?, PassEnd host b adds t.space? s.host (s.pass host b t collect).1 space?
        (s.pass host b t collect).2.host ∧
      ∀ b', (s.pass host b t collect).2.attachment? b' =
        if b' = b then some { t with space? } else s.attachment? b' := by
  unfold pass beginBatch
  cases hs : t.space? with
  | some space =>
    refine ⟨some space, ?_⟩
    rcases hf : host.callAtomic (.clearAll b space :: adds space) s.host with ⟨_ | _, h⟩
    all_goals simp only [flush_eq, hc, Batch.toList_push, Batch.toList_empty, List.nil_append,
      List.singleton_append, hf, attachment?, Keyed.get?_set, implies_true, and_true]
    · exact .laterFailed hf
    · exact .later hf
  | none =>
    rcases hn : host.createNamespace b s.host with ⟨_ | space, h₁⟩
    · refine ⟨none, .refused hn, fun b' => ?_⟩
      change s.attachment? b' = _
      by_cases hb : b' = b
      · rw [if_pos hb, hb, ht, ← hs]
      · rw [if_neg hb]
    · refine ⟨some space, ?_⟩
      rcases hf : host.callAtomic (adds space) h₁ with ⟨_ | _, h⟩
      all_goals simp only [flush_eq, hc, Batch.toList_empty, List.nil_append, hf, attachment?,
        Keyed.get?_set, implies_true, and_true]
      · exact .firstFailed hn hf
      · exact .first hn hf

/-- Everything an action can do to the attached buffers and to the host. -/
inductive Effect (host : Host σ) (s : Session σ) (a : Action) (o : Outcome) (s' : Session σ) : Prop
  | idle (unsent : o.isSent = false) (quiet : ∀ c, o ≠ .failed (.host c))
    (buffers : ∀ b, s'.attachment? b = s.attachment? b) (untouched : s'.host = s.host)
  | attached {info : BufferInfo} {table : GroupTable} (action : a = .attach info)
    (outcome : o = .done)
    (buffers : ∀ b, s'.attachment? b =
      if b = info.id then some { info, table, space? := s.namespace? b } else s.attachment? b)
    (untouched : s'.host = s.host)
  | detached {b : BufferId} (action : a = .detach b) (outcome : o = .detached (s.buffer? b))
    (buffers : ∀ b', s'.attachment? b' = if b' = b then none else s.attachment? b')
    (untouched : s'.host = s.host)
  | passed {b : BufferId} {t : Attachment} {r : Except Error Nat} {space? : Option NamespaceId}
    (action : a.passOn? = some b) (outcome : o = .ofSent r) (before : s.attachment? b = some t)
    (buffers : ∀ b', s'.attachment? b' = if b' = b then some { t with space? } else s.attachment? b')
    (ends : PassEnd host b (s.highlights · a) t.space? s.host r space? s'.host)

theorem namespace?_of_attachment {s : Session σ} {b : BufferId} {t : Attachment}
    (h : s.attachment? b = some t) : s.namespace? b = t.space? := by
  rw [namespace?, h]
  rfl

theorem buffer?_of_attachment {s : Session σ} {b : BufferId} {t : Attachment}
    (h : s.attachment? b = some t) : s.buffer? b = some t.info := by
  rw [buffer?, h]
  rfl

theorem namespace?_update {s s' : Session σ} {b : BufferId} {t? : Option Attachment}
    (h : ∀ b', s'.attachment? b' = if b' = b then t? else s.attachment? b') (b' : BufferId) :
    s'.namespace? b' = if b' = b then t?.bind Attachment.space? else s.namespace? b' := by
  rw [namespace?, h]
  split <;> rfl

theorem namespace?_detached {s s' : Session σ} {b : BufferId}
    (h : ∀ b', s'.attachment? b' = if b' = b then none else s.attachment? b') {b' : BufferId}
    {n : NamespaceId} (hn : s'.namespace? b' = some n) : s.namespace? b' = some n := by
  rw [namespace?_update h] at hn
  split at hn
  · cases hn
  · exact hn

theorem namespace?_attached {s s' : Session σ} {info : BufferInfo} {table : GroupTable}
    (h : ∀ b, s'.attachment? b =
      if b = info.id then some { info, table, space? := s.namespace? b } else s.attachment? b)
    (b : BufferId) : s'.namespace? b = s.namespace? b := by
  rw [namespace?, h]
  split <;> rfl

theorem tableFor_some {s s' : Session σ} {filetype : String} {table : GroupTable}
    (h : s.tableFor filetype = some (table, s')) : ∃ tables, s' = { s with tables } := by
  unfold tableFor at h
  split at h
  · cases h
    exact ⟨s.tables, rfl⟩
  · obtain ⟨table', -, h⟩ := Option.map_eq_some_iff.mp h
    cases h
    exact ⟨_, rfl⟩

theorem tokens_effect (host : Host σ) (s : Session σ) (b : BufferId) (t : TokenStream) :
    Effect host s (.tokens b t) (s.act host (.tokens b t)).1 (s.act host (.tokens b t)).2 := by
  simp only [act, highlightTokens]
  cases ha : s.attachment? b with
  | none => exact .idle rfl nofun (fun _ => rfl) rfl
  | some at' =>
    obtain ⟨space?, ends, buffers⟩ := pass_end host
      (fun space => Classify.into t.frontend at'.table b space t.tokens)
      (fun space => s.highlights space (.tokens b t)) ha
      (fun space batch => by simp [Classify.into, highlights, ha])
    exact .passed rfl rfl ha buffers ends

theorem external_effect (host : Host σ) (s : Session σ) (m : Worker.Moment) (b : BufferId)
    (content : String) :
    Effect host s (.external m b content) (s.act host (.external m b content)).1
      (s.act host (.external m b content)).2 := by
  change Effect host s _ (.ofExternal (s.highlightExternal host m b content).result)
    (s.highlightExternal host m b content).session
  unfold highlightExternal
  split
  · exact .idle rfl nofun (fun _ => rfl) rfl
  · rename_i workers hw
    split
    · exact .idle rfl nofun (fun _ => rfl) rfl
    · rename_i t ht
      dsimp only
      split
      · exact .idle rfl nofun (fun _ => rfl) rfl
      · exact .idle rfl nofun (fun _ => rfl) rfl
      · rename_i payload hr
        have hp : s.reply? m b content = some payload := by
          simp [reply?, invocation?, hw, ht, hr, Except.toOption]
        obtain ⟨space?, ends, buffers⟩ := pass_end host (s := { s with workers? := some _ })
          (fun space => Record.into t.table b space payload)
          (fun space => s.highlights space (.external m b content)) ht
          (fun space batch => by simp [Record.into, highlights, ht, hp])
        exact .passed rfl (Outcome.ofExternal_map _) ht buffers ends

theorem act_effect (host : Host σ) (s : Session σ) (a : Action) :
    Effect host s a (s.act host a).1 (s.act host a).2 := by
  cases a with
  | attach info =>
    rcases ht : s.tableFor info.filetype with _ | ⟨table, s'⟩
    · simp only [act, attach, ht]
      exact .idle rfl nofun (fun _ => rfl) rfl
    · obtain ⟨tables, rfl⟩ := tableFor_some ht
      simp only [act, attach, ht]
      refine .attached rfl rfl (show ∀ b, _ = if b = info.id then
        some (Attachment.mk info table (s.namespace? b)) else s.attachment? b from fun b => ?_) rfl
      by_cases hb : b = info.id
      · subst hb
        simp [attachment?, namespace?]
      · simp [attachment?, hb]
  | detach b => exact .detached rfl rfl (fun b' => Keyed.get?_erase s.buffers b' b) rfl
  | tokens b t => exact tokens_effect host s b t
  | external m b content => exact external_effect host s m b content
  | hold b => exact .idle rfl nofun (fun _ => rfl) rfl
  | release permit => exact .idle rfl nofun (fun _ => rfl) rfl
  | workerDies b => exact .idle rfl nofun (fun _ => rfl) rfl

def structName : TokenStream where
  Cursor := Unit
  Ty := Unit
  frontend := {
    kind := fun _ => .structDecl
    spelling := fun _ => "Point"
    displayName := fun _ => "Point"
    referenced := fun _ => none
    typeKind := fun _ => .other
    canonicalKind := fun _ => .other
    declaration := fun _ => none }
  tokens := [{
    cursor := ()
    type? := none
    kind := .identifier
    text := "Point"
    line? := some 3
    start := 1
    stop := 6 }]

def plainSettings : Settings where
  worker := { binary := some "reader" }
  filetypes := .ofList [("c", { order := "sf", groups := .ofList [("s", "Type"), ("f", "Function")] })]

def functionReader : Program := fun _ _ _ =>
  { output := (Frame.encode (Text.bytes "f\t7\t0\t7\t3\t3\tbar")).toOption.getD [] }

def readerMoment : Worker.Moment := ⟨0, fun _ _ => .ok functionReader⟩

end Session

end SemanticHighlight
