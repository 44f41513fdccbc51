import SemanticHighlight.Proofs.Session.Concurrent
import SemanticHighlight.Proofs.Session.Mirror
import SemanticHighlight.Proofs.Session.Workers

/-!
# One call after the other

While no other call takes a step, a call does what the operation of the session does that it stands
for. Calls that are made one after the other come to what a run of the session comes to: the same
outcomes, the same attachments and workers, and the same calls of the host.
-/

set_option autoImplicit false

namespace SemanticHighlight

variable {σ : Type}

namespace Session

theorem beginBatch_recorded (host : Host σ) (b : BufferId) (space? : Option NamespaceId) (h : σ)
    (log : List HostCall) :
    beginBatch host.logged b space? (h, log) =
      let r := beginBatch host.logged b space? (h, [])
      (r.1, r.2.1, log ++ r.2.2) := by
  cases space? with
  | some n => simp [beginBatch]
  | none =>
    rcases hn : host.createNamespace b h with ⟨_ | n, h'⟩ <;>
      simp [beginBatch, Host.createNamespace_logged hn]

theorem flush_recorded (host : Host σ) (batch : Batch) (h : σ) (log : List HostCall) :
    batch.flush host.logged (h, log) =
      let r := batch.flush host.logged (h, [])
      (r.1, r.2.1, log ++ r.2.2) := by
  rcases hf : host.callAtomic batch.toList h with ⟨_ | _, h'⟩ <;>
    simp [flush_eq, Host.callAtomic_logged hf]

end Session

namespace Concurrent

variable {host : Host σ} {i : CallId} {b : BufferId} {m : Worker.Moment} {s : Store σ}
  {t : Session (σ × List HostCall)}

def Note.call? : Note → Option HostCall
  | .asked _ what => some what
  | _ => none

def Log.calls (log : Log) : List HostCall := log.filterMap Note.call?

theorem Log.calls_told (log : Log) (calls : List HostCall) :
    Log.calls (log ++ calls.map (.asked i)) = log.calls ++ calls := by
  simp [Log.calls, List.filterMap_append, Function.comp_def, Note.call?]

/-- The store is that of a session, apart from its workers. The cells are apart, and a cell that no
buffer has had has no namespace. -/
structure Store.Shows (s : Store σ) (t : Session (σ × List HostCall)) : Prop where
  settings : t.settings = s.settings
  tables : t.tables = s.tables
  attached : ∀ b, t.attachment? b = (s.buffers.get? b).map s.attachment
  host : t.host = (s.host, s.log.calls)
  distinct : ∀ b e b' e', s.buffers.get? b = some e → s.buffers.get? b' = some e' →
    e.cell = e'.cell → b = b'
  made : ∀ b e, s.buffers.get? b = some e → e.cell < s.cells
  fresh : ∀ k, s.cells ≤ k → s.spaces.get? k = none

structure Store.Rests (s : Store σ) (t : Session (σ × List HostCall)) : Prop extends
    s.Shows t where
  workers : t.workers? = s.workers?
  passes : ∀ k, s.passLocks.get? k = none
  slots : ∀ k, s.slotLocks.get? k = none

theorem Store.rests_start (settings : Settings) (h : σ) :
    (Store.start settings h).Rests ((Session.start settings h).logged []) where
  settings := rfl
  tables := rfl
  attached _ := rfl
  host := rfl
  distinct _ _ _ _ he := nomatch he
  made _ _ he := nomatch he
  fresh _ _ := rfl
  workers := rfl
  passes _ := rfl
  slots _ := rfl

theorem Store.Shows.exchanged (shows : s.Shows t) (reply : Except Worker.Error String) :
    Store.Shows { s with log := s.log ++ [.exchanged i reply] } t :=
  ⟨shows.settings, shows.tables, shows.attached,
    by rw [shows.host, Log.calls, Log.calls, List.filterMap_append]; simp [Note.call?],
    shows.distinct, shows.made, shows.fresh⟩

theorem Store.Shows.beside (shows : s.Shows t) (workers? workers?' : Option Worker.Pool)
    (passLocks : Keyed CellId CallId) (slotLocks : Keyed Worker.SlotId CallId) :
    Store.Shows { s with workers?, passLocks, slotLocks } { t with workers? := workers?' } :=
  ⟨shows.settings, shows.tables, shows.attached, shows.host, shows.distinct, shows.made,
    shows.fresh⟩

def Call.action (m : Worker.Moment) : Call → Session.Action
  | .attach info => .attach info
  | .tokens b stream => .tokens b stream
  | .external b content => .external m b content

/-- Call `i` returns within `n` steps, if no other call takes a step. -/
inductive Thread.Returns (host : Host σ) (i : CallId) (m : Worker.Moment) :
    Nat → Store σ → Thread → Store σ → Session.Outcome → Prop
  | returned {n : Nat} {s : Store σ} {u : Thread} {o : Session.Outcome}
    (outcome : u.outcome? = some o) : Returns host i m n s u s o
  | step {n : Nat} {s s₁ s' : Store σ} {u u₁ : Thread} {o : Session.Outcome}
    (next : u.step host i m s = (s₁, u₁)) (rest : Returns host i m n s₁ u₁ s' o) :
    Returns host i m (n + 1) s u s' o

section

variable {n : Nat} {s s₁ s' : Store σ} {o : Session.Outcome}

theorem Thread.Returns.attach {info : BufferInfo} {a a₁ : Attaching}
    (next : a.step s info = (s₁, a₁)) (rest : Thread.Returns host i m n s₁ (.attach info a₁) s' o) :
    Thread.Returns host i m (n + 1) s (.attach info a) s' o :=
  .step (by simp only [Thread.step, next]) rest

theorem Thread.Returns.tokens {stream : Session.TokenStream} {a a₁ : Highlighting}
    (next : a.step host i s b stream = (s₁, a₁))
    (rest : Thread.Returns host i m n s₁ (.tokens b stream a₁) s' o) :
    Thread.Returns host i m (n + 1) s (.tokens b stream a) s' o :=
  .step (by simp only [Thread.step, next]) rest

theorem Thread.Returns.external {content : String} {a a₁ : Asking}
    (next : a.step host i m s b content = (s₁, a₁))
    (rest : Thread.Returns host i m n s₁ (.external b content a₁) s' o) :
    Thread.Returns host i m (n + 1) s (.external b content a) s' o :=
  .step (by simp only [Thread.step, next]) rest

end

inductive Pass.Runs (host : Host σ) (i : CallId) (b : BufferId) (e : Entry)
    (collect : NamespaceId → Batch → Batch × Nat) :
    Nat → Store σ → Pass → Store σ → Except Session.Error Nat → Prop
  | finished {n : Nat} {s : Store σ} {r : Except Session.Error Nat} :
    Runs host i b e collect n s (.finished r) s r
  | step {n : Nat} {s s₁ s' : Store σ} {p p₁ : Pass} {r : Except Session.Error Nat}
    (running : ∀ r, p ≠ .finished r) (next : p.step host i s b e collect = (s₁, p₁))
    (rest : Runs host i b e collect n s₁ p₁ s' r) : Runs host i b e collect (n + 1) s p s' r

theorem Store.Shows.asked (shows : s.Shows t) (i : CallId) (h : σ) (calls : List HostCall) :
    (s.told i h calls).Shows { t with host := (h, t.host.2 ++ calls) } where
  settings := shows.settings
  tables := shows.tables
  attached := shows.attached
  host := by rw [Store.told, Log.calls_told, shows.host]
  distinct := shows.distinct
  made := shows.made
  fresh := shows.fresh

theorem Store.Shows.named (shows : s.Shows t) {e : Entry} (he : s.buffers.get? b = some e)
    (n : NamespaceId) :
    Store.Shows { s with spaces := s.spaces.set e.cell n }
      { t with buffers := t.buffers.set b { s.attachment e with space? := some n } } where
  settings := shows.settings
  tables := shows.tables
  attached b' := by
    by_cases own : b' = b
    · simp [Session.attachment?, Store.attachment, own, he]
    · have attached := shows.attached b'
      simp only [Session.attachment?] at attached
      simp only [Session.attachment?, Keyed.get?_set, if_neg own, attached]
      cases he' : s.buffers.get? b' with
      | none => rfl
      | some e' =>
        have apart : e'.cell ≠ e.cell := fun same => own (shows.distinct _ _ _ _ he' he same)
        simp [Store.attachment, apart]
  host := shows.host
  distinct := shows.distinct
  made := shows.made
  fresh k hk := by
    have apart : k ≠ e.cell := fun same => absurd (shows.made b e he) (Nat.not_lt.mpr (same ▸ hk))
    simp [apart, shows.fresh k hk]

theorem Pass.alone (host : Host σ) {e : Entry} (collect : NamespaceId → Batch → Batch × Nat)
    (shows : s.Shows t) (he : s.buffers.get? b = some e) (free : s.passLocks.get? e.cell = none) :
    let r := t.pass host.logged b (s.attachment e) collect
    ∃ spaces h log,
      let s' := { s with passLocks := s.passLocks.set e.cell i, spaces, host := h, log }
      Pass.Runs host i b e collect 3 s .waiting s' r.1 ∧ s'.Shows r.2 := by
  let s₁ : Store σ := { s with passLocks := s.passLocks.set e.cell i }
  have enter : Pass.step host i s b e collect .waiting = (s₁, .holding) := by
    simp only [Pass.step, free, s₁]
  have entered : s₁.Shows t := shows.beside _ _ _ _
  have space : (s.attachment e).space? = s.spaces.get? e.cell := rfl
  have recorded : t.host = (s.host, t.host.2) := by rw [shows.host]
  rw [Session.pass, recorded, Session.beginBatch_recorded, space]
  rcases hb : Session.beginBatch host.logged b (s.spaces.get? e.cell) (s.host, []) with
    ⟨err | ⟨batch, n⟩, h, calls⟩
  · have refused : Pass.step host i s₁ b e collect .holding =
        (s₁.told i h calls, .finished (.error (.host err))) := by simp only [Pass.step, s₁, hb]
    exact ⟨_, _, _, .step (by simp) enter (.step (by simp) refused .finished),
      entered.asked i h calls⟩
  · have begun : Pass.step host i s₁ b e collect .holding =
        ({ s₁.told i h calls with spaces := s.spaces.set e.cell n }, .begun batch n) := by
      simp only [Pass.step, s₁, hb]
    have named := (entered.asked i h calls).named he n
    simp only
    rw [Session.flush_recorded]
    rcases hf : (collect n batch).1.flush host.logged (h, []) with ⟨err | sent, h', calls'⟩
    · refine ⟨_, _, _, .step (by simp) enter (.step (by simp) begun (.step (by simp) ?_ .finished)),
        named.asked i h' calls'⟩
      simp only [Pass.step, Store.told, hf]
      rfl
    · refine ⟨_, _, _, .step (by simp) enter (.step (by simp) begun (.step (by simp) ?_ .finished)),
        named.asked i h' calls'⟩
      simp only [Pass.step, Store.told, hf]
      rfl

theorem Pass.Runs.tokens {e : Entry} {stream : Session.TokenStream} {n : Nat} {s s' : Store σ}
    {p : Pass} {r : Except Session.Error Nat}
    (h : Pass.Runs host i b e
      (fun space => Classify.into stream.frontend e.table b space stream.tokens) n s p s' r) :
    Thread.Returns host i m (n + 1) s (.tokens b stream (.passing e p))
      { s' with passLocks := s'.passLocks.erase e.cell } (.ofSent r) := by
  induction h with
  | finished => exact .step rfl (.returned rfl)
  | step running next rest ih =>
    refine .tokens ?_ ih
    simp only [Highlighting.step_running host i _ b _ _ running, next]

theorem Pass.Runs.external {e : Entry} {permit : Worker.Permit} {content payload : String} {n : Nat}
    {s s' : Store σ} {p : Pass} {r : Except Session.Error Nat}
    (h : Pass.Runs host i b e (fun space => Record.into e.table b space payload) n s p s' r) :
    Thread.Returns host i m (n + 3) s (.external b content (.passing e permit payload p))
      { s' with
        passLocks := s'.passLocks.erase e.cell
        slotLocks := s'.slotLocks.erase permit.slot
        workers? := s'.workers?.map (·.release permit) } (.ofSent r) := by
  induction h with
  | finished => exact .step rfl (.step rfl (.step rfl (.returned rfl)))
  | step running next rest ih =>
    refine .external ?_ ih
    simp only [Asking.step_running host i _ _ b _ _ _ _ running, next]

theorem Thread.Returns.more {n k : Nat} {s s' : Store σ} {u : Thread} {o : Session.Outcome}
    (h : u.Returns host i m n s s' o) (le : n ≤ k) : u.Returns host i m k s s' o := by
  induction h generalizing k with
  | returned outcome => exact .returned outcome
  | @step n s s₁ s' u u₁ o next rest ih =>
    obtain ⟨k, rfl⟩ : ∃ k', k = k' + 1 := ⟨k - 1, by omega⟩
    exact .step next (ih (Nat.le_of_succ_le_succ le))

theorem Store.Shows.tableFor (shows : s.Shows t) (filetype : String) :
    t.tableFor filetype =
      (s.session.tableFor filetype).map fun r => (r.1, { t with tables := r.2.tables }) := by
  have table : t.table? filetype = s.session.table? filetype := by
    rw [Session.table?, shows.settings]
    rfl
  have tables : s.session.tables = t.tables := shows.tables.symm
  unfold Session.tableFor
  rw [table, tables]
  cases t.tables.get? filetype with
  | some table => simp [tables]
  | none => cases s.session.table? filetype <;> rfl

theorem Store.Shows.entered (shows : s.Shows t) (info : BufferInfo) (table : GroupTable)
    {cell cells : CellId} (kept : s.spaces.get? cell = t.namespace? info.id)
    (own : ∀ b e, s.buffers.get? b = some e → e.cell = cell → b = info.id)
    (made : cell < cells) (more : s.cells ≤ cells) :
    Store.Shows { s with buffers := s.buffers.set info.id ⟨info, table, cell⟩, cells }
      { t with buffers := t.buffers.set info.id ⟨info, table, t.namespace? info.id⟩ } where
  settings := shows.settings
  tables := shows.tables
  attached b := by
    simp only [Session.attachment?, Keyed.get?_set]
    split
    · rw [← kept]
      rfl
    · exact shows.attached b
  host := shows.host
  distinct b e b' e' he he' same := by
    simp only [Keyed.get?_set] at he he'
    split at he <;> split at he'
    · rename_i hb hb'
      rw [hb, hb']
    · rename_i hb _
      cases he
      exact hb.trans (own b' e' he' same.symm).symm
    · rename_i _ hb'
      cases he'
      exact (own b e he same).trans hb'.symm
    · exact shows.distinct b e b' e' he he' same
  made b e he := by
    simp only [Keyed.get?_set] at he
    split at he
    · cases he
      exact made
    · exact Nat.lt_of_lt_of_le (shows.made b e he) more
  fresh k hk := shows.fresh k (Nat.le_trans more hk)

theorem Store.Shows.recorded (shows : s.Shows t) (info : BufferInfo) (table : GroupTable) :
    (s.record info table).Shows
      { t with buffers := t.buffers.set info.id ⟨info, table, t.namespace? info.id⟩ } := by
  have attached := shows.attached info.id
  unfold Store.record
  cases he : s.buffers.get? info.id with
  | some e =>
    rw [he] at attached
    exact shows.entered info table (by rw [Session.namespace?, attached]; rfl)
      (fun b e' he' same => shows.distinct b e' info.id e he' he same) (shows.made info.id e he)
      (Nat.le_refl _)
  | none =>
    rw [he] at attached
    have unnamed : s.spaces.get? s.cells = none := shows.fresh s.cells (Nat.le_refl _)
    exact shows.entered info table (by rw [Session.namespace?, attached, unnamed]; rfl)
      (fun b e' he' same => absurd (shows.made b e' he') (Nat.not_lt.mpr (Nat.le_of_eq same.symm)))
      (Nat.lt_succ_self _) (Nat.le_succ _)

theorem Store.record_eq (s : Store σ) (info : BufferInfo) (table : GroupTable) :
    ∃ buffers cells, s.record info table = { s with buffers, cells } := by
  unfold Store.record
  split <;> exact ⟨_, _, rfl⟩

theorem attach_alone (host : Host σ) (rests : s.Rests t) (info : BufferInfo) :
    ∃ s', Thread.Returns host i m 2 s (.attach info .called) s'
        (t.act host.logged (.attach info)).1 ∧
      s'.Rests (t.act host.logged (.attach info)).2 := by
  have built := rests.tableFor info.filetype
  cases ht : s.session.tableFor info.filetype with
  | none =>
    rw [ht] at built
    have unknown : Attaching.step s info .called =
        (s, .returned (.failed (.unknownLanguage info.filetype))) := by
      simp only [Attaching.step, ht]
    simp only [Session.act, Session.attach, built, Option.map_none]
    exact ⟨s, .attach unknown (.returned rfl), rests⟩
  | some r =>
    obtain ⟨table, s₁⟩ := r
    rw [ht] at built
    have tabled : Attaching.step s info .called =
        ({ s with tables := s₁.tables }, .tabled table) := by simp only [Attaching.step, ht]
    have shown : Store.Shows { s with tables := s₁.tables } { t with tables := s₁.tables } :=
      ⟨rests.settings, rfl, rests.attached, rests.host, rests.distinct, rests.made, rests.fresh⟩
    have recorded := shown.recorded info table
    obtain ⟨buffers, cells, same⟩ := Store.record_eq { s with tables := s₁.tables } info table
    rw [same] at recorded
    simp only [Session.act, Session.attach, built, Option.map_some]
    refine ⟨_, .attach tabled (.attach rfl (.returned rfl)), ?_⟩
    rw [same]
    exact ⟨recorded, rests.workers, rests.passes, rests.slots⟩

theorem tokens_alone (host : Host σ) (rests : s.Rests t) (b : BufferId)
    (stream : Session.TokenStream) :
    ∃ s', Thread.Returns host i m 5 s (.tokens b stream .called) s'
        (t.act host.logged (.tokens b stream)).1 ∧
      s'.Rests (t.act host.logged (.tokens b stream)).2 := by
  have attached := rests.attached b
  cases he : s.buffers.get? b with
  | none =>
    rw [he] at attached
    have unknown : Highlighting.step host i s b stream .called =
        (s, .returned (.failed (.unknownBuffer b))) := by simp only [Highlighting.step, he]
    rw [Session.tokens_unattached host.logged stream attached]
    exact ⟨s, .tokens unknown (.returned rfl), rests⟩
  | some e =>
    rw [he] at attached
    have found : Highlighting.step host i s b stream .called = (s, .passing e .waiting) := by
      simp only [Highlighting.step, he]
    obtain ⟨spaces, h, log, runs, shown⟩ := Pass.alone host (i := i)
      (fun space => Classify.into stream.frontend e.table b space stream.tokens) rests.toShows he
      (rests.passes e.cell)
    rw [(Session.tokens_attached host.logged stream attached).1]
    refine ⟨_, .tokens found runs.tokens, shown.beside _ _ _ _, ?_, ?_, rests.slots⟩
    · exact (Session.pass_workers ..).trans rests.workers
    · simp [rests.passes]

theorem serving_alone (host : Host σ) {e : Entry} {p p' : Worker.Pool} {permit : Worker.Permit}
    {content : String} {x : Worker.Exchange} (rests : s.Rests t) (he : s.buffers.get? b = some e)
    (hx : p.exchange m permit (Target.ofFile b e.info.path e.info.root) (Text.bytes content) =
      (x, p')) :
    let s₁ : Store σ := { s with workers? := some p, slotLocks := s.slotLocks.set permit.slot i }
    let t₁ := { t with workers? := some (p'.release permit) }
    ∃ s', s'.Rests (match x.reply with
      | .error _ => t₁
      | .ok payload => (t₁.pass host.logged b (s.attachment e) fun space =>
        Record.into e.table b space payload).2) ∧
      Thread.Returns host i m 7 s₁ (.external b content (.serving e permit)) s'
        (match x.reply with
          | .error err => .failed (.worker err)
          | .ok payload => .ofSent (t₁.pass host.logged b (s.attachment e) fun space =>
            Record.into e.table b space payload).1) := by
  intro s₁ t₁
  let s₂ : Store σ := { s₁ with workers? := some p', log := s.log ++ [.exchanged i x.reply] }
  have shown : s₂.Shows t₁ := (rests.exchanged x.reply).beside _ _ _ _
  have slots (k : Worker.SlotId) :
      ((s.slotLocks.set permit.slot i).erase permit.slot).get? k = none := by simp [rests.slots]
  cases reply : x.reply with
  | error err =>
    have unanswered : Asking.step host i m s₁ b content (.serving e permit) =
        (s₂, .closing permit (.failed (.worker err))) := by
      simp only [Asking.step, s₁, s₂, hx, reply]
    exact ⟨_, ⟨shown.beside _ _ _ _, rfl, rests.passes, slots⟩,
      .external unanswered (.external rfl (.external rfl (.returned rfl)))⟩
  | ok payload =>
    have answered : Asking.step host i m s₁ b content (.serving e permit) =
        (s₂, .passing e permit payload .waiting) := by
      simp only [Asking.step, s₁, s₂, hx, reply]
    obtain ⟨spaces, h, log, runs, passed⟩ := Pass.alone host (i := i)
      (fun space => Record.into e.table b space payload) shown he (rests.passes e.cell)
    refine ⟨_, ⟨passed.beside _ _ _ _, ?_, ?_, slots⟩, .external answered runs.external⟩
    · exact Session.pass_workers ..
    · simp [s₂, s₁, rests.passes]

theorem external_alone (host : Host σ) (rests : s.Rests t) (b : BufferId) (content : String) :
    ∃ s', Thread.Returns host i m 10 s (.external b content .called) s'
        (t.act host.logged (.external m b content)).1 ∧
      s'.Rests (t.act host.logged (.external m b content)).2 := by
  have attached := rests.attached b
  have workers := rests.workers
  cases hw : s.workers? with
  | none =>
    have workerless : Asking.step host i m s b content .called =
        (s, .returned (.failed .noWorkerBinary)) := by simp only [Asking.step, hw]
    rw [Session.external_workerless host.logged m content (workers.trans hw)]
    exact ⟨s, .external workerless (.returned rfl), rests⟩
  | some p =>
    rw [hw] at workers
    cases he : s.buffers.get? b with
    | none =>
      rw [he] at attached
      have unknown : Asking.step host i m s b content .called =
          (s, .returned (.failed (.unknownBuffer b))) := by simp only [Asking.step, hw, he]
      rw [Session.external_unattached host.logged m content workers attached]
      exact ⟨s, .external unknown (.returned rfl), rests⟩
    | some e =>
      rw [he] at attached
      have found : Asking.step host i m s b content .called = (s, .found e) := by
        simp only [Asking.step, hw, he]
      rcases ha : p.tryAdmit b with ⟨_ | permit, p₁⟩
      · have refused : Asking.step host i m s b content (.found e) =
            ({ s with workers? := some p₁ }, .returned .dropped) := by
          simp only [Asking.step, hw, ha]
        have invoked : p.invoke m (Target.ofFile b e.info.path e.info.root) (Text.bytes content) =
            ⟨.ok none, p₁, m.now, []⟩ := by simp only [Worker.Pool.invoke, Target.ofFile, ha]
        obtain ⟨-, dropped, -⟩ :=
          Session.external_asked host.logged m content workers attached invoked
        rw [dropped rfl]
        exact ⟨_, .external found (.external refused (.returned rfl)), rests.beside _ _ _ _, rfl,
          rests.passes, rests.slots⟩
      · rcases hx : p₁.exchange m permit (Target.ofFile b e.info.path e.info.root)
          (Text.bytes content) with ⟨x, p₂⟩
        have admitted : Asking.step host i m s b content (.found e) =
            ({ s with workers? := some p₁ }, .admitted e permit) := by
          simp only [Asking.step, hw, ha]
        have entered : Asking.step host i m { s with workers? := some p₁ } b content
            (.admitted e permit) = ({ s with
              workers? := some p₁
              slotLocks := s.slotLocks.set permit.slot i }, .serving e permit) := by
          simp only [Asking.step, rests.slots]
        have invoked : p.invoke m (Target.ofFile b e.info.path e.info.root) (Text.bytes content) =
            ⟨x.reply.map some, p₂.release permit, x.finished, x.additions⟩ := by
          have exchanged := hx
          simp only [Target.ofFile] at exchanged
          simp only [Worker.Pool.invoke, Target.ofFile, ha, exchanged]
        obtain ⟨failed, -, passed⟩ :=
          Session.external_asked host.logged m content workers attached invoked
        obtain ⟨s', after, served⟩ := serving_alone host (i := i) rests he hx
        cases reply : x.reply with
        | error err =>
          rw [reply] at after served
          rw [failed err (by rw [reply]; rfl)]
          exact ⟨s', .external found (.external admitted (.external entered served)), after⟩
        | ok payload =>
          rw [reply] at after served
          rw [(passed payload (by rw [reply]; rfl)).1]
          exact ⟨s', .external found (.external admitted (.external entered served)), after⟩

theorem Thread.alone (host : Host σ) (rests : s.Rests t) (c : Call) :
    ∃ s', Thread.Returns host i m 10 s (.start c) s' (t.act host.logged (c.action m)).1 ∧
      s'.Rests (t.act host.logged (c.action m)).2 := by
  cases c with
  | attach info =>
    obtain ⟨s', returns, after⟩ := attach_alone host (i := i) (m := m) rests info
    exact ⟨s', returns.more (by omega), after⟩
  | tokens b stream =>
    obtain ⟨s', returns, after⟩ := tokens_alone host (i := i) (m := m) rests b stream
    exact ⟨s', returns.more (by omega), after⟩
  | external b content => exact external_alone host rests b content

theorem Thread.step_returned {s : Store σ} {u : Thread} {o : Session.Outcome}
    (h : u.outcome? = some o) : u.step host i m s = (s, u) := by
  cases u with
  | attach info a =>
    cases a <;> cases h
    rfl
  | tokens b stream a =>
    cases a <;> cases h
    rfl
  | external b content a =>
    cases a <;> cases h
    rfl

variable {w : World σ}

theorem World.put_same {u : Thread} (h : w.threads i = some u) : w.put i w.store u = w := by
  have threads : (w.put i w.store u).threads = w.threads := by
    funext j
    rw [threads_put]
    split
    · rename_i own
      rw [own, h]
    · rfl
  exact congrArg (World.mk w.store) threads

theorem World.stays {u : Thread} {o : Session.Outcome} (ht : w.threads i = some u)
    (h : u.outcome? = some o) (n : Nat) : w.run host (List.replicate n (.step i m)) = w := by
  induction n with
  | zero => rfl
  | succ n ih =>
    have same : w.after host (.step i m) = w := by
      simp only [World.after, ht, Thread.step_returned h]
      exact World.put_same ht
    rw [List.replicate_succ, World.run, List.foldl_cons, same]
    exact ih

theorem Thread.Returns.run {n : Nat} {s s' : Store σ} {u : Thread} {o : Session.Outcome}
    (h : u.Returns host i m n s s' o) (store : w.store = s) (thread : w.threads i = some u) :
    let w' := w.run host (List.replicate n (.step i m))
    w'.store = s' ∧ w'.outcome? i = some o ∧ ∀ j, j ≠ i → w'.threads j = w.threads j := by
  induction h generalizing w with
  | returned outcome =>
    rw [World.stays thread outcome]
    exact ⟨store, by rw [World.outcome?, thread, Option.bind_some, outcome], fun _ _ => rfl⟩
  | @step n s s₁ s' u u₁ o next rest ih =>
    have after : w.after host (.step i m) = w.put i s₁ u₁ := by
      simp only [World.after, thread, store, next]
    obtain ⟨stored, outcome, others⟩ := ih (w := w.put i s₁ u₁) rfl (if_pos rfl)
    rw [List.replicate_succ, World.run, List.foldl_cons, after]
    exact ⟨stored, outcome, fun j hj => (others j hj).trans (if_neg hj)⟩

/-- A call that is made and goes on until it has returned. -/
def Call.alone (c : Call) (i : CallId) (m : Worker.Moment) : List Event :=
  .call i c :: List.replicate 10 (.step i m)

def oneByOne : CallId → List (Call × Worker.Moment) → List Event
  | _, [] => []
  | i, (c, m) :: calls => c.alone i m ++ oneByOne (i + 1) calls

theorem World.run_append (w : World σ) (events events' : List Event) :
    w.run host (events ++ events') = (w.run host events).run host events' :=
  List.foldl_append

theorem call_alone (host : Host σ) (rests : w.store.Rests t) (new : w.threads i = none) (c : Call) :
    let w' := w.run host (c.alone i m)
    w'.store.Rests (t.act host.logged (c.action m)).2 ∧
      w'.outcome? i = some (t.act host.logged (c.action m)).1 ∧
      ∀ j, j ≠ i → w'.threads j = w.threads j := by
  have called : w.after host (.call i c) = w.put i w.store (.start c) := by
    simp only [World.after, new]
  obtain ⟨s', returns, after⟩ := Thread.alone host (i := i) (m := m) rests c
  obtain ⟨stored, outcome, others⟩ :=
    returns.run (w := w.put i w.store (.start c)) rfl (if_pos rfl)
  rw [Call.alone, World.run, List.foldl_cons, called]
  exact ⟨stored ▸ after, outcome, fun j hj => (others j hj).trans (if_neg hj)⟩

theorem run_alone (host : Host σ) {t : Session σ} {log : List HostCall}
    (rests : w.store.Rests (t.logged log)) (new : ∀ j, i ≤ j → w.threads j = none)
    (calls : List (Call × Worker.Moment)) :
    let actions := calls.map fun c => c.1.action c.2
    let w' := w.run host (oneByOne i calls)
    w'.store.Rests ((Session.run host t actions).logged
        (log ++ (Session.trace host t actions).flatMap (Session.Step.calls host))) ∧
      (List.range' i calls.length).map w'.outcome? =
        (Session.trace host t actions).map (some ·.outcome) ∧
      ∀ j, j < i → w'.threads j = w.threads j := by
  induction calls generalizing w i t log with
  | nil => simpa [oneByOne, World.run, Session.run, Session.trace] using rests
  | cons call calls ih =>
    obtain ⟨c, m⟩ := call
    obtain ⟨after, outcome, others⟩ :=
      call_alone host (m := m) rests (new i (Nat.le_refl i)) c
    rw [Session.act_logged] at after outcome
    have later (j : CallId) (hj : i + 1 ≤ j) : (w.run host (c.alone i m)).threads j = none :=
      (others j (Nat.ne_of_gt hj)).trans (new j (Nat.le_of_succ_le hj))
    obtain ⟨rests', outcomes, kept⟩ := ih after later
    simp only [oneByOne, World.run_append, List.map_cons, List.length_cons, List.range'_succ]
    refine ⟨?_, ?_, fun j hj => (kept j (Nat.lt_succ_of_lt hj)).trans (others j (Nat.ne_of_lt hj))⟩
    · simpa [Session.run, Session.trace, Session.Step.calls, Session.step] using rests'
    · have first : ((w.run host (c.alone i m)).run host (oneByOne (i + 1) calls)).outcome? i =
          some (t.act host (c.action m)).1 := by
        rw [World.outcome?, kept i (Nat.lt_succ_self i)]
        exact outcome
      simp only [Session.trace, List.map_cons, first, outcomes]
      rfl

/-- Calls that are made one after the other come to what the session's own run comes to. -/
theorem one_by_one (host : Host σ) (settings : Settings) (h : σ)
    (calls : List (Call × Worker.Moment)) :
    let actions := calls.map fun c => c.1.action c.2
    let steps := Session.trace host (Session.start settings h) actions
    let w := World.run host (World.start settings h) (oneByOne 0 calls)
    w.store.Rests ((Session.run host (Session.start settings h) actions).logged
        (steps.flatMap (Session.Step.calls host))) ∧
      (List.range calls.length).map w.outcome? = steps.map (some ·.outcome) := by
  obtain ⟨rests, outcomes, -⟩ := run_alone host (w := World.start settings h) (i := 0)
    (Store.rests_start settings h) (fun _ _ => rfl) calls
  rw [List.range_eq_range']
  exact ⟨rests, outcomes⟩

end Concurrent

end SemanticHighlight
