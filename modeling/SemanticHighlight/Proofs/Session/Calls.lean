import SemanticHighlight.Proofs.Session.Run

/-!
# What a session asks of its host

A logged host does what the host does and keeps a record of the calls. A session cannot tell the two
apart, so the calls of an action are read from the record it leaves. An action makes no call, is
refused a namespace, begins with a new namespace and one batch, or sends one batch that begins with
a clear.
-/

set_option autoImplicit false

namespace SemanticHighlight

inductive HostCall where
  | create (buffer : BufferId) (answer : Except HostError NamespaceId)
  | batch (ops : List Op) (answer : Except HostError Unit)

namespace Host

variable {σ : Type} {host : Host σ}

def logged (host : Host σ) : Host (σ × List HostCall) where
  createNamespace b h :=
    match host.createNamespace b h.1 with
    | (r, h') => (r, h', h.2 ++ [.create b r])
  callAtomic ops h :=
    match host.callAtomic ops h.1 with
    | (r, h') => (r, h', h.2 ++ [.batch ops r])

theorem createNamespace_logged {b : BufferId} {h h' : σ} {r : Except HostError NamespaceId}
    (hc : host.createNamespace b h = (r, h')) (log : List HostCall) :
    host.logged.createNamespace b (h, log) = (r, h', log ++ [.create b r]) := by
  simp [logged, hc]

theorem callAtomic_logged {ops : List Op} {h h' : σ} {r : Except HostError Unit}
    (hc : host.callAtomic ops h = (r, h')) (log : List HostCall) :
    host.logged.callAtomic ops (h, log) = (r, h', log ++ [.batch ops r]) := by
  simp [logged, hc]

end Host

namespace Session

variable {σ τ : Type}

def withHost (s : Session σ) (h : τ) : Session τ where
  settings := s.settings
  workers? := s.workers?
  tables := s.tables
  buffers := s.buffers
  host := h

def logged (s : Session σ) (log : List HostCall) : Session (σ × List HostCall) :=
  s.withHost (s.host, log)

def calls (host : Host σ) (s : Session σ) (a : Action) : List HostCall :=
  ((s.logged []).act host.logged a).2.host.2

theorem pass_logged (host : Host σ) (s : Session σ) (log : List HostCall) (b : BufferId)
    (t : Attachment) (collect : NamespaceId → Batch → Batch × Nat) :
    (s.logged log).pass host.logged b t collect =
      ((s.pass host b t collect).1, (s.pass host b t collect).2.logged
        (log ++ ((s.logged []).pass host.logged b t collect).2.host.2)) := by
  unfold pass beginBatch Batch.flush logged withHost
  cases t.space? with
  | some space =>
    rcases hf : host.callAtomic
      (collect space (Batch.empty.push (.clearAll b space))).1.toList s.host with ⟨_ | _, h⟩ <;>
      simp only [Host.callAtomic_logged hf, hf, List.nil_append]
  | none =>
    rcases hn : host.createNamespace b s.host with ⟨_ | space, h₁⟩
    · simp only [Host.createNamespace_logged hn, List.nil_append]
    · rcases hf : host.callAtomic (collect space Batch.empty).1.toList h₁ with ⟨_ | _, h⟩ <;>
        simp only [Host.createNamespace_logged hn, Host.callAtomic_logged hf, hf, List.nil_append,
          List.append_assoc]

@[simp] theorem attachment?_logged (s : Session σ) (log : List HostCall) (b : BufferId) :
    (s.logged log).attachment? b = s.attachment? b := rfl

theorem tableFor_logged (s : Session σ) (log : List HostCall) (filetype : String) :
    (s.logged log).tableFor filetype =
      (s.tableFor filetype).map fun r => (r.1, r.2.logged log) := by
  have tables : (s.logged log).tables = s.tables := rfl
  have table? : (s.logged log).table? filetype = s.table? filetype := rfl
  unfold tableFor
  rw [tables, table?]
  cases s.tables.get? filetype with
  | some table => rfl
  | none => cases s.table? filetype <;> rfl

theorem act_logged (host : Host σ) (s : Session σ) (log : List HostCall) (a : Action) :
    (s.logged log).act host.logged a =
      ((s.act host a).1, (s.act host a).2.logged (log ++ s.calls host a)) := by
  unfold calls
  cases a with
  | attach info =>
    rcases ht : s.tableFor info.filetype with _ | ⟨table, s'⟩
    · simp only [act, attach, tableFor_logged, ht, Option.map_none]
      simp [logged, withHost]
    · obtain ⟨tables, rfl⟩ := tableFor_some ht
      simp only [act, attach, tableFor_logged, ht, Option.map_some, attachment?_logged]
      simp [logged, withHost]
  | detach b => simp [act, detach, logged, withHost, attachment?]
  | tokens b t =>
    cases ht : s.attachment? b with
    | none =>
      simp only [act, highlightTokens, attachment?_logged, ht]
      simp [logged, withHost]
    | some t' => simp only [act, highlightTokens, attachment?_logged, ht, pass_logged host s log]
  | external m b content =>
    simp only [act, highlightExternal]
    have workers (l : List HostCall) : (s.logged l).workers? = s.workers? := rfl
    cases hw : s.workers? with
    | none =>
      simp only [workers, hw]
      simp [logged, withHost]
    | some p =>
      cases ht : s.attachment? b with
      | none =>
        simp only [workers, hw, ht, attachment?_logged]
        simp [logged, withHost]
      | some t =>
        simp only [workers, hw, ht, attachment?_logged]
        rcases hr : (p.invoke m (Target.ofFile b t.info.path t.info.root) (Text.bytes content)).reply
          with _ | _ | payload
        · simp [logged, withHost]
        · simp [logged, withHost]
        · exact congrArg (fun r => (Outcome.ofExternal (r.1.map .flushed), r.2))
            (pass_logged host { s with workers? := some (p.invoke m _ _).pool } log b t
              fun space => Record.into t.table b space payload)
  | hold b => simp [act, withWorkers, logged, withHost]
  | release permit => simp [act, withWorkers, logged, withHost]
  | workerDies b => simp [act, withWorkers, logged, withHost]

def Step.calls (host : Host σ) (t : Step σ) : List HostCall := t.before.calls host t.action

def answered (ops : List Op) : Except HostError Unit → Except Error Nat
  | .ok () => .ok ops.length
  | .error c => .error (.host c)

theorem PassEnd.recorded {host : Host σ} {b : BufferId} {adds : NamespaceId → List Op}
    {space? space?' : Option NamespaceId} {h h' : σ} {r : Except Error Nat} {log : List HostCall}
    (e : PassEnd host.logged b adds space? (h, []) r space?' (h', log)) :
    (∃ c, log = [.create b (.error c)] ∧ r = .error (.host c) ∧ space? = none ∧ space?' = none) ∨
    (∃ n u, log = [.create b (.ok n), .batch (adds n) u] ∧ r = answered (adds n) u ∧
      space? = none ∧ space?' = some n) ∨
    (∃ n u, log = [.batch (.clearAll b n :: adds n) u] ∧
      r = answered (.clearAll b n :: adds n) u ∧ space? = some n ∧ space?' = some n) := by
  have record (ops : List Op) (g g' : σ) (l l' : List HostCall) (r : Except HostError Unit)
      (hc : host.logged.callAtomic ops (g, l) = (r, g', l')) : l' = l ++ [.batch ops r] := by
    rcases hf : host.callAtomic ops g with ⟨r', g''⟩
    rw [Host.callAtomic_logged hf] at hc
    cases hc
    rfl
  have recordNew (g' : σ) (l' : List HostCall) (r : Except HostError NamespaceId)
      (hc : host.logged.createNamespace b (h, []) = (r, g', l')) : l' = [.create b r] := by
    rcases hn : host.createNamespace b h with ⟨r', g''⟩
    rw [Host.createNamespace_logged hn] at hc
    cases hc
    rfl
  cases e with
  | refused create => exact .inl ⟨_, recordNew _ _ _ create, rfl, rfl, rfl⟩
  | @firstFailed _ h₁ _ n c create flush =>
    have hl := record _ _ _ _ _ _ flush
    rw [recordNew _ _ _ create] at hl
    exact .inr (.inl ⟨n, _, hl, rfl, rfl, rfl⟩)
  | @first _ h₁ _ n create flush =>
    have hl := record _ _ _ _ _ _ flush
    rw [recordNew _ _ _ create] at hl
    exact .inr (.inl ⟨n, _, hl, rfl, rfl, rfl⟩)
  | laterFailed flush => exact .inr (.inr ⟨_, _, record _ _ _ _ _ _ flush, rfl, rfl, rfl⟩)
  | later flush => exact .inr (.inr ⟨_, _, record _ _ _ _ _ _ flush, rfl, rfl, rfl⟩)

/-- The calls an action can make, and what they mean for the namespaces of the buffers. -/
inductive Calls (s : Session σ) (a : Action) (s' : Session σ) : List HostCall → Prop
  | silent (names : ∀ b, s'.namespace? b = s.namespace? b ∨ a = .detach b ∧ s'.namespace? b = none) :
    Calls s a s' []
  | refused {b : BufferId} {c : HostError} (pass : a.passOn? = some b)
    (unset : s.namespace? b = none) (names : ∀ b, s'.namespace? b = s.namespace? b) :
    Calls s a s' [.create b (.error c)]
  | first {b : BufferId} {n : NamespaceId} {adds : List Op} {r : Except HostError Unit}
    (pass : a.passOn? = some b) (unset : s.namespace? b = none)
    (names : ∀ b', s'.namespace? b' = if b' = b then some n else s.namespace? b')
    (adds_to : ∀ op ∈ adds, op.AddsTo b n) :
    Calls s a s' [.create b (.ok n), .batch adds r]
  | later {b : BufferId} {n : NamespaceId} {adds : List Op} {r : Except HostError Unit}
    (pass : a.passOn? = some b) (set : s.namespace? b = some n)
    (names : ∀ b, s'.namespace? b = s.namespace? b) (adds_to : ∀ op ∈ adds, op.AddsTo b n) :
    Calls s a s' [.batch (.clearAll b n :: adds) r]

theorem logged_effect (host : Host σ) (s : Session σ) (a : Action) :
    Effect host.logged (s.logged []) a (s.act host a).1
      ((s.act host a).2.logged (s.calls host a)) := by
  have he := act_effect host.logged (s.logged []) a
  rw [act_logged, List.nil_append] at he
  exact he

theorem act_calls (host : Host σ) (s : Session σ) (a : Action) :
    Calls s a (s.act host a).2 (s.calls host a) := by
  have he := logged_effect host s a
  generalize s.calls host a = log at he
  cases he with
  | idle unsent quiet buffers untouched =>
    obtain rfl : log = [] := congrArg Prod.snd untouched
    simp only [attachment?_logged] at buffers
    exact .silent fun b => .inl (by rw [namespace?, buffers, namespace?])
  | attached action outcome buffers untouched =>
    obtain rfl : log = [] := congrArg Prod.snd untouched
    simp only [attachment?_logged] at buffers
    exact .silent fun b => .inl (namespace?_attached buffers b)
  | detached action outcome buffers untouched =>
    obtain rfl : log = [] := congrArg Prod.snd untouched
    simp only [attachment?_logged] at buffers
    refine .silent fun b' => ?_
    rw [namespace?_update buffers]
    split
    · rename_i hb
      subst hb
      exact .inr ⟨action, rfl⟩
    · exact .inl rfl
  | @passed b t r space? action outcome before buffers ends =>
    simp only [attachment?_logged] at before buffers
    have names (b' : BufferId) : (s.act host a).2.namespace? b' =
        if b' = b then space? else s.namespace? b' := namespace?_update buffers b'
    have hs := namespace?_of_attachment before
    have adds_to (n : NamespaceId) : ∀ op ∈ (s.logged []).highlights n a, op.AddsTo b n :=
      highlights_add_to action
    have kept (hk : space? = t.space?) (b' : BufferId) :
        (s.act host a).2.namespace? b' = s.namespace? b' := by
      rw [names]
      split
      · rename_i hb
        rw [hb, hs, hk]
      · rfl
    rcases ends.recorded with ⟨c, rfl, -, h₀, h₁⟩ | ⟨n, u, rfl, -, h₀, h₁⟩ | ⟨n, u, rfl, -, h₀, h₁⟩
    · exact .refused action (hs.trans h₀) (kept (h₁.trans h₀.symm))
    · subst h₁
      exact .first action (hs.trans h₀) names (adds_to n)
    · exact .later action (hs.trans h₀) (kept (h₁.trans h₀.symm)) (adds_to n)

end Session

end SemanticHighlight
