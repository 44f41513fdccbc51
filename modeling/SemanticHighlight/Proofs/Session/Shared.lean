import SemanticHighlight.Proofs.Session.Namespaces
import SemanticHighlight.Proofs.Session.Workers
import SemanticHighlight.Proofs.Worker.Isolation

/-!
# What buffers share

The buffers of a session share its settings, the tables that are kept, the workers and the host. An
operation on one buffer leaves the attachment and the slot of every other one as they were, and what
is shared as it has to be: the tables those of the settings, the slots apart, the host ready.
-/

set_option autoImplicit false

namespace SemanticHighlight

/-- In a state that is `ready`, the host accepts every call and stays ready. -/
structure Host.Accepts {σ : Type} (host : Host σ) (ready : σ → Prop) : Prop where
  create : ∀ b h, ready h → ∃ n h', host.createNamespace b h = (.ok n, h') ∧ ready h'
  call : ∀ ops h, ready h → ∃ h', host.callAtomic ops h = (.ok (), h') ∧ ready h'

namespace Session

variable {σ : Type} {host : Host σ} {ready : σ → Prop} {b : BufferId}

open Worker (Pool)

def Action.on? : Action → Option BufferId
  | .attach info => some info.id
  | .detach b => some b
  | .tokens b _ => some b
  | .external _ b _ => some b
  | _ => none

theorem on_of_passOn {a : Action} (h : a.passOn? = some b) : a.on? = some b := by
  cases a with
  | tokens b' t => exact h
  | external m b' content => exact h
  | _ => cases h

/-- The tables that are kept are those of the settings, and the buffers have slots of their own. -/
structure Sound (s : Session σ) : Prop where
  cached : ∀ filetype table, s.tables.get? filetype = some table → s.table? filetype = some table
  apart : ∀ p, s.workers? = some p → p.Apart

theorem sound_start (settings : Settings) (h : σ) : Sound (start settings h) where
  cached filetype table hf := by cases hf
  apart p hp := by
    obtain ⟨config, -, rfl⟩ := Option.map_eq_some_iff.mp hp
    exact .initial config

theorem Sound.tableFor {s : Session σ} (hs : s.Sound) (filetype : String) :
    ∃ tables : Keyed String GroupTable,
      (∀ filetype table, tables.get? filetype = some table → s.table? filetype = some table) ∧
      s.tableFor filetype = (s.table? filetype).map fun table => (table, { s with tables }) := by
  unfold Session.tableFor
  cases hk : s.tables.get? filetype with
  | some table =>
    rw [hs.cached filetype table hk]
    exact ⟨s.tables, hs.cached, rfl⟩
  | none =>
    cases ht : s.table? filetype with
    | none => exact ⟨s.tables, hs.cached, rfl⟩
    | some table =>
      refine ⟨s.tables.set filetype table, ?_, rfl⟩
      intro filetype' table' hf
      rw [Keyed.get?_set] at hf
      split at hf
      · rename_i he
        cases hf
        rw [he, ht]
      · exact hs.cached filetype' table' hf

theorem pass_shared (host : Host σ) (s : Session σ) (b : BufferId) (t : Attachment)
    (collect : NamespaceId → Batch → Batch × Nat) :
    (s.pass host b t collect).2.settings = s.settings ∧
      (s.pass host b t collect).2.tables = s.tables := by
  unfold pass
  split
  · exact ⟨rfl, rfl⟩
  · dsimp only
    split <;> exact ⟨rfl, rfl⟩

theorem act_shared {s : Session σ} (hs : s.Sound) (host : Host σ) (a : Action) :
    (s.act host a).2.settings = s.settings ∧ ∀ filetype table,
      (s.act host a).2.tables.get? filetype = some table → s.table? filetype = some table := by
  have after {s' : Session σ} (shared : s'.settings = s.settings ∧ s'.tables = s.tables) :
      s'.settings = s.settings ∧ ∀ filetype table,
        s'.tables.get? filetype = some table → s.table? filetype = some table :=
    ⟨shared.1, shared.2 ▸ hs.cached⟩
  cases a with
  | attach info =>
    obtain ⟨tables, cached, ht⟩ := hs.tableFor info.filetype
    simp only [act, attach, ht]
    cases s.table? info.filetype with
    | none => exact ⟨rfl, hs.cached⟩
    | some table => exact ⟨rfl, cached⟩
  | tokens b t =>
    simp only [act, highlightTokens]
    split
    · exact ⟨rfl, hs.cached⟩
    · exact after (pass_shared host s b _ _)
  | external m b content =>
    change (s.highlightExternal host m b content).session.settings = _ ∧ ∀ filetype table,
      (s.highlightExternal host m b content).session.tables.get? filetype = _ → _
    unfold highlightExternal
    split
    · exact ⟨rfl, hs.cached⟩
    · split
      · exact ⟨rfl, hs.cached⟩
      · dsimp only
        split
        · exact ⟨rfl, hs.cached⟩
        · exact ⟨rfl, hs.cached⟩
        · exact after (pass_shared host { s with workers? := some _ } b _ _)
  | _ => exact ⟨rfl, hs.cached⟩

theorem Sound.act {s : Session σ} (hs : s.Sound) (host : Host σ) (a : Action) :
    (s.act host a).2.Sound where
  cached filetype table hf := by
    have shared := act_shared hs host a
    rw [table?, shared.1]
    exact shared.2 filetype table hf
  apart p hp := by
    rw [act_workers, Option.map_eq_some_iff] at hp
    obtain ⟨p, hp, rfl⟩ := hp
    exact (hs.apart p hp).run _

theorem PassEnd.stays_ready (accepts : host.Accepts ready) {adds : NamespaceId → List Op}
    {space? space?' : Option NamespaceId} {h h' : σ} {r : Except Error Nat}
    (e : PassEnd host b adds space? h r space?' h') (hr : ready h) : ready h' := by
  have created {h₁ : σ} {r : Except HostError NamespaceId}
      (create : host.createNamespace b h = (r, h₁)) : ready h₁ := by
    obtain ⟨n, h₂, accepted, kept⟩ := accepts.create b h hr
    rw [create] at accepted
    cases accepted
    exact kept
  have called {h₁ h₂ : σ} {ops : List Op} {r : Except HostError Unit} (h₁_ready : ready h₁)
      (flush : host.callAtomic ops h₁ = (r, h₂)) : ready h₂ := by
    obtain ⟨h₃, accepted, kept⟩ := accepts.call ops h₁ h₁_ready
    rw [flush] at accepted
    cases accepted
    exact kept
  cases e with
  | refused create => exact created create
  | firstFailed create flush => exact called (created create) flush
  | first create flush => exact called (created create) flush
  | laterFailed flush => exact called hr flush
  | later flush => exact called hr flush

theorem act_ready (accepts : host.Accepts ready) {s : Session σ} (hr : ready s.host) (a : Action) :
    ready (s.act host a).2.host := by
  cases act_effect host s a with
  | idle unsent quiet buffers untouched => exact untouched ▸ hr
  | attached action outcome buffers untouched => exact untouched ▸ hr
  | detached action outcome buffers untouched => exact untouched ▸ hr
  | passed action outcome before buffers ends => exact ends.stays_ready accepts hr

theorem attachment_other (host : Host σ) (s : Session σ) {a : Action} {b' : BufferId}
    (ha : a.on? = some b') (hb : b ≠ b') :
    (s.act host a).2.attachment? b = s.attachment? b := by
  cases act_effect host s a with
  | idle unsent quiet buffers untouched => exact buffers b
  | attached action outcome buffers untouched =>
    subst action
    cases ha
    rw [buffers, if_neg hb]
  | detached action outcome buffers untouched =>
    subst action
    cases ha
    rw [buffers, if_neg hb]
  | passed action outcome before buffers ends =>
    rw [on_of_passOn action] at ha
    cases ha
    rw [buffers, if_neg hb]

theorem slot_other (s : Session σ) {p : Pool} (hp : p.Apart) {a : Action} {b' : BufferId}
    (ha : a.on? = some b') (hb : b ≠ b') : (p.run (s.workerEvents p a)).slot? b = p.slot? b := by
  cases a with
  | attach info => rfl
  | detach b' =>
    cases ha
    exact Pool.shutdown_slot? hp hb
  | tokens b' t => rfl
  | external m b' content =>
    cases ha
    simp only [workerEvents]
    split
    · rfl
    · rw [← Pool.invoke_pool]
      exact Pool.invoke_slot? hp hb
  | _ => cases ha

theorem granted_other (host : Host σ) (s : Session σ) {a : Action} (ha : a.on? ≠ some b) :
    (s.calls host a).filterMap (HostCall.granted? b) = [] := by
  rw [List.filterMap_eq_nil_iff]
  intro call hcall
  unfold HostCall.granted?
  split
  · rename_i b' n
    rw [if_neg]
    rintro rfl
    exact ha (on_of_passOn (create_unset hcall).1)
  · rfl

end Session

end SemanticHighlight
