import SemanticHighlight.Proofs.Session.Calls

/-!
# The life of a namespace

From an attachment of a buffer until it is detached, the host gives the buffer at most one
namespace, which the buffer then keeps; every batch of a pass is for that namespace alone, and
clears it first if the pass found it assigned. A host that counts its namespaces never lets two
attachments share one.
-/

set_option autoImplicit false

namespace SemanticHighlight

def HostCall.granted? (b : BufferId) : HostCall → Option NamespaceId
  | .create b' (.ok n) => if b' = b then some n else none
  | _ => none

structure Host.Counts {σ : Type} (host : Host σ) (created : σ → Nat) : Prop where
  granted : ∀ {b h n h'}, host.createNamespace b h = (.ok n, h') →
    n = LineHost.namespaceId (created h) ∧ created h' = created h + 1
  refused : ∀ {b h e h'}, host.createNamespace b h = (.error e, h') → created h' = created h
  called : ∀ {ops h r h'}, host.callAtomic ops h = (r, h') → created h' = created h

namespace LineHost

/-- With fewer namespaces than this the counter has not wrapped around. -/
def limit : Nat := 9223372036854775807

theorem namespaceId_eq {k : Nat} (h : k < limit) : namespaceId k = (k : Int) + 1 := by
  have hk : (k : Int) + 1 ≤ 9223372036854775807 := by
    have : k < 9223372036854775807 := h
    omega
  apply Int.bmod_eq_of_le
  · simp only [UInt64.size]
    omega
  · simp only [UInt64.size]
    omega

theorem counts : lineHost.Counts created where
  granted {b h n h'} hc := by
    simp only [lineHost, createNamespace, Prod.mk.injEq, Except.ok.injEq] at hc
    exact ⟨hc.1.symm, hc.2 ▸ rfl⟩
  refused hc := by cases hc
  called {ops h r h'} hc := by
    simp only [lineHost, callAtomic] at hc
    split at hc
    · cases hc
      rfl
    · split at hc <;> cases hc <;> rfl

end LineHost

namespace Session

variable {σ : Type} {host : Host σ}

theorem create_unset {s : Session σ} {a : Action} {b : BufferId} {r : Except HostError NamespaceId}
    (h : .create b r ∈ s.calls host a) : a.passOn? = some b ∧ s.namespace? b = none := by
  have hc := act_calls host s a
  generalize s.calls host a = calls at h hc
  cases hc with
  | silent => cases h
  | refused pass unset =>
    cases List.mem_singleton.mp h
    exact ⟨pass, unset⟩
  | first pass unset =>
    rcases List.mem_cons.mp h with h | h
    · cases h
      exact ⟨pass, unset⟩
    · cases List.mem_singleton.mp h
  | later => cases List.mem_singleton.mp h

/-- A batch for buffer `b` in namespace `n`, which was assigned before or is new. -/
structure BatchFits (b : BufferId) (n : NamespaceId) (assigned : Bool) (ops : List Op) : Prop where
  own : ∀ op ∈ ops, op.buffer = b ∧ op.space = n
  clears : ops.filter Op.isClear = if assigned then [.clearAll b n] else []
  first : assigned → ops.head? = some (.clearAll b n)

theorem filter_adds {b : BufferId} {n : NamespaceId} {ops : List Op}
    (h : ∀ op ∈ ops, op.AddsTo b n) : ops.filter Op.isClear = [] :=
  List.filter_eq_nil_iff.mpr fun op hop => by simp [(h op hop).1]

theorem batch_fits {s : Session σ} {a : Action} {ops : List Op} {r : Except HostError Unit}
    (h : .batch ops r ∈ s.calls host a) :
    ∃ b n, a.passOn? = some b ∧ (s.act host a).2.namespace? b = some n ∧
      (∀ m, s.namespace? b = some m → m = n) ∧ BatchFits b n (s.namespace? b).isSome ops := by
  have hc := act_calls host s a
  generalize s.calls host a = calls at h hc
  cases hc with
  | silent => cases h
  | refused => cases List.mem_singleton.mp h
  | @first b n adds _ pass unset names adds_to =>
    rcases List.mem_cons.mp h with h | h
    · cases h
    · cases List.mem_singleton.mp h
      have fits : BatchFits b n (s.namespace? b).isSome ops := by
        constructor
        · intro op hop
          exact (adds_to op hop).2
        · simp [unset, filter_adds adds_to]
        · simp [unset]
      exact ⟨b, n, pass, by simp [names], by simp [unset], fits⟩
  | @later b n adds _ pass set names adds_to =>
    cases List.mem_singleton.mp h
    have fits : BatchFits b n (s.namespace? b).isSome (.clearAll b n :: adds) := by
      constructor
      · intro op hop
        rcases List.mem_cons.mp hop with rfl | hop
        · exact ⟨rfl, rfl⟩
        · exact (adds_to op hop).2
      · rw [List.filter_cons_of_pos rfl, filter_adds adds_to]
        simp [set]
      · intro _
        rfl
    exact ⟨b, n, pass, by simp [names, set], by simp [set], fits⟩

/-- The step asks for a namespace only if its buffer has none, and its batches fit. -/
structure Step.Orderly (host : Host σ) (t : Step σ) : Prop where
  create : ∀ b r, .create b r ∈ t.calls host → t.action.passOn? = some b ∧ t.before.namespace? b = none
  batch : ∀ ops r, .batch ops r ∈ t.calls host → ∃ b n, t.action.passOn? = some b ∧
    t.after.namespace? b = some n ∧ (∀ m, t.before.namespace? b = some m → m = n) ∧
    BatchFits b n (t.before.namespace? b).isSome ops

theorem step_orderly (s : Session σ) (a : Action) : (s.step host a).Orderly host where
  create _ _ h := create_unset h
  batch _ _ h := batch_fits h

def granted (host : Host σ) (b : BufferId) (steps : List (Step σ)) : List NamespaceId :=
  steps.flatMap fun t => (t.calls host).filterMap (HostCall.granted? b)

theorem act_granted (host : Host σ) (s : Session σ) (a : Action) (b : BufferId) (h : a ≠ .detach b) :
    ((s.act host a).2.namespace? b).toList =
      (s.namespace? b).toList ++ (s.calls host a).filterMap (HostCall.granted? b) := by
  have hc := act_calls host s a
  generalize s.calls host a = calls at hc
  cases hc with
  | silent names =>
    rcases names b with hk | ⟨hd, -⟩
    · simp [hk]
    · exact absurd hd h
  | refused _ _ names => simp [names, HostCall.granted?]
  | @first b' n _ _ _ unset names =>
    by_cases hb : b = b'
    · subst hb
      simp [names, unset, HostCall.granted?]
    · simp [names, hb, Ne.symm hb, HostCall.granted?]
  | later _ _ names => simp [names, HostCall.granted?]

theorem run_granted (host : Host σ) (s : Session σ) (as : List Action) (b : BufferId)
    (h : ∀ a ∈ as, a ≠ .detach b) :
    ((run host s as).namespace? b).toList =
      (s.namespace? b).toList ++ granted host b (trace host s as) := by
  induction as generalizing s with
  | nil => simp [run, granted, trace]
  | cons a as ih =>
    rw [run, ih _ fun a' ha' => h a' (List.mem_cons_of_mem a ha'), act_granted host s a b (h a (by simp))]
    simp [granted, trace, Step.calls, step]

theorem namespace_kept (s : Session σ) (as : List Action) (b : BufferId)
    (h : ∀ a ∈ as, a ≠ .detach b) {n : NamespaceId} (hn : s.namespace? b = some n) :
    (run host s as).namespace? b = some n := by
  have hr := run_granted host s as b h
  rw [hn] at hr
  cases hs : (run host s as).namespace? b with
  | none => simp [hs] at hr
  | some m =>
    rw [hs] at hr
    exact congrArg some (List.cons.inj hr).1

theorem attach_unset {s : Session σ} {info : BufferInfo} (h : s.buffer? info.id = none) :
    (s.act host (.attach info)).2.namespace? info.id = none := by
  have hn : s.namespace? info.id = none := by
    rw [buffer?, Option.map_eq_none_iff] at h
    rw [namespace?, h]
    rfl
  have hg := act_granted host s (.attach info) info.id (by simp)
  have hc : s.calls host (.attach info) = [] := by
    have hc := act_calls host s (.attach info)
    generalize s.calls host (.attach info) = calls at hc
    cases hc with
    | silent => rfl
    | refused pass => cases pass
    | first pass => cases pass
    | later pass => cases pass
  simpa [hn, hc] using hg

/-- Over some actions that begin with `b` without a namespace, the host gives it one at most, and
`b` keeps it. -/
structure NamedOnce (host : Host σ) (s : Session σ) (b : BufferId) (as : List Action) : Prop where
  unset : s.namespace? b = none
  granted : granted host b (trace host s as) = ((run host s as).namespace? b).toList
  kept : ∀ xs ys n, xs ++ ys <+: as → (run host s xs).namespace? b = some n →
    (run host s (xs ++ ys)).namespace? b = some n

theorem named_once {s : Session σ} {b : BufferId} {as : List Action} (unset : s.namespace? b = none)
    (h : ∀ a ∈ as, a ≠ .detach b) : NamedOnce host s b as where
  unset := unset
  granted := by rw [run_granted host s as b h, unset]; rfl
  kept xs ys n hp hn := by
    rw [run_append]
    have hys : ∀ a ∈ ys, a ≠ .detach b := by
      intro a ha
      exact h a (hp.subset (List.mem_append_right xs ha))
    exact namespace_kept _ ys b hys hn

variable {created : σ → Nat}

theorem PassEnd.counted (hc : host.Counts created) {b : BufferId} {adds : NamespaceId → List Op}
    {space? space?' : Option NamespaceId} {h h' : σ} {r : Except Error Nat}
    (e : PassEnd host b adds space? h r space?' h') :
    created h' = created h ∧ space?' = space? ∨
    created h' = created h + 1 ∧ space?' = some (LineHost.namespaceId (created h)) := by
  cases e with
  | refused create => exact .inl ⟨hc.refused create, rfl⟩
  | firstFailed create flush =>
    have hg := hc.granted create
    exact .inr ⟨(hc.called flush).trans hg.2, congrArg some hg.1⟩
  | first create flush =>
    have hg := hc.granted create
    exact .inr ⟨(hc.called flush).trans hg.2, congrArg some hg.1⟩
  | laterFailed flush => exact .inl ⟨hc.called flush, rfl⟩
  | later flush => exact .inl ⟨hc.called flush, rfl⟩

theorem act_counted (hc : host.Counts created) (s : Session σ) (a : Action) :
    created (s.act host a).2.host = created s.host ∧
      (∀ b n, (s.act host a).2.namespace? b = some n → s.namespace? b = some n) ∨
    created (s.act host a).2.host = created s.host + 1 ∧
      ∃ b, ∀ b', (s.act host a).2.namespace? b' =
        if b' = b then some (LineHost.namespaceId (created s.host)) else s.namespace? b' := by
  cases act_effect host s a with
  | idle unsent quiet buffers untouched =>
    have names (b : BufferId) : (s.act host a).2.namespace? b = s.namespace? b := by
      rw [namespace?, buffers, namespace?]
    exact .inl ⟨congrArg created untouched, fun b n hn => names b ▸ hn⟩
  | attached action outcome buffers untouched =>
    exact .inl ⟨congrArg created untouched, fun b n hn => namespace?_attached buffers b ▸ hn⟩
  | detached action outcome buffers untouched =>
    exact .inl ⟨congrArg created untouched, fun b' n hn => namespace?_detached buffers hn⟩
  | @passed b t r space? action outcome before buffers ends =>
    have hs := namespace?_of_attachment before
    rcases ends.counted hc with ⟨hk, rfl⟩ | ⟨hk, rfl⟩
    · have names (b' : BufferId) (n : NamespaceId)
          (hn : (s.act host a).2.namespace? b' = some n) : s.namespace? b' = some n := by
        rw [namespace?_update buffers] at hn
        split at hn
        · rename_i hb
          rw [hb, hs]
          exact hn
        · exact hn
      exact .inl ⟨hk, names⟩
    · exact .inr ⟨hk, b, namespace?_update buffers⟩

theorem created_le (hc : host.Counts created) (s : Session σ) (as : List Action) :
    created s.host ≤ created (run host s as).host := by
  induction as generalizing s with
  | nil => exact Nat.le_refl _
  | cons a as ih =>
    have hnext := ih (s.act host a).2
    rw [run]
    rcases act_counted hc s a with ⟨h, -⟩ | ⟨h, -⟩ <;> omega

theorem run_held (hc : host.Counts created) (s : Session σ) (as : List Action)
    (limit : created (run host s as).host < LineHost.limit) {b : BufferId} {n : Int}
    (old : n ≤ created s.host) (h : (run host s as).namespace? b = some n) :
    s.namespace? b = some n := by
  induction as generalizing s with
  | nil => exact h
  | cons a as ih =>
    have hle := created_le hc (s.act host a).2 as
    rw [run] at limit h
    rcases act_counted hc s a with ⟨hk, names⟩ | ⟨hk, b', names⟩
    · exact names b n (ih _ limit (by omega) h)
    · have hn := ih _ limit (by omega) h
      rw [names] at hn
      split at hn
      · rw [LineHost.namespaceId_eq (by omega)] at hn
        have hnew : (created s.host : Int) + 1 = n := Option.some.inj hn
        omega
      · exact hn

structure Distinct (created : σ → Nat) (s : Session σ) : Prop where
  bounds : ∀ b (n : Int), s.namespace? b = some n → 0 < n ∧ n ≤ created s.host
  apart : ∀ b b' n, s.namespace? b = some n → s.namespace? b' = some n → b' = b

theorem distinct_start (created : σ → Nat) (settings : Settings) (h : σ) :
    Distinct created (start settings h) where
  bounds b n hn := by cases hn
  apart b b' n hn := by cases hn

theorem Distinct.step (hc : host.Counts created) {s : Session σ} (hd : Distinct created s)
    (a : Action) (limit : created (s.act host a).2.host < LineHost.limit) :
    Distinct created (s.act host a).2 := by
  rcases act_counted hc s a with ⟨hk, names⟩ | ⟨hk, b, names⟩
  · exact ⟨fun b n hn => hk ▸ hd.bounds b n (names b n hn),
      fun b b' n hn hn' => hd.apart b b' n (names b n hn) (names b' n hn')⟩
  · rw [LineHost.namespaceId_eq (by omega)] at names
    constructor
    · intro b' n hn
      rw [names] at hn
      split at hn
      · have hnew : (created s.host : Int) + 1 = n := Option.some.inj hn
        omega
      · have := hd.bounds b' n hn
        omega
    · intro b₁ b₂ n h₁ h₂
      rw [names] at h₁ h₂
      have new : ∀ b', s.namespace? b' = some n → n ≠ (created s.host : Int) + 1 := by
        intro b' h heq
        have := (hd.bounds b' n h).2
        rw [heq] at this
        omega
      split at h₁ <;> split at h₂
      · simp [*]
      · exact absurd (Option.some.inj h₁).symm (new _ h₂)
      · exact absurd (Option.some.inj h₂).symm (new _ h₁)
      · exact hd.apart b₁ b₂ n h₁ h₂

theorem distinct_run (hc : host.Counts created) {s : Session σ} (hd : Distinct created s)
    (as : List Action) (limit : created (run host s as).host < LineHost.limit) :
    Distinct created (run host s as) := by
  induction as generalizing s with
  | nil => exact hd
  | cons a as ih =>
    have := created_le hc (s.act host a).2 as
    exact ih (hd.step hc a (by rw [run] at limit; omega)) limit

theorem same_attachment (hc : host.Counts created) {s : Session σ} (hd : Distinct created s)
    (as : List Action) (limit : created (run host s as).host < LineHost.limit) {b b' : BufferId}
    {n : NamespaceId} (h : s.namespace? b = some n) (h' : (run host s as).namespace? b' = some n) :
    b' = b ∧ ∀ a ∈ as, a ≠ .detach b := by
  obtain rfl : b' = b :=
    hd.apart b b' n h (run_held hc s as limit (hd.bounds b n h).2 h')
  constructor
  · rfl
  rintro a ha rfl
  obtain ⟨xs, ys, rfl⟩ := List.append_of_mem ha
  have hxs := created_le hc s (xs ++ [.detach b'])
  have hdetached : (run host s (xs ++ [.detach b'])).namespace? b' = none := by
    rw [run_concat]
    simp [act, detach, namespace?, attachment?]
  rw [List.append_cons, run_append] at limit h'
  have hheld := run_held hc _ ys limit
    (Int.le_trans (hd.bounds b' n h).2 (Int.ofNat_le.mpr hxs)) h'
  rw [hdetached] at hheld
  cases hheld

theorem op_space_pos {s : Session σ} {a : Action} (hd : Distinct created (s.act host a).2)
    {ops : List Op} {r : Except HostError Unit} (h : .batch ops r ∈ s.calls host a) :
    ∀ op ∈ ops, op.space ≠ 0 := by
  obtain ⟨b, n, -, hn, -, fits⟩ := batch_fits h
  intro op hop heq
  have := (hd.bounds b n hn).1
  rw [← (fits.own op hop).2, heq] at this
  exact absurd this (Int.lt_irrefl 0)

theorem mem_trace {s : Session σ} {as : List Action} {t : Step σ} (h : t ∈ trace host s as) :
    ∃ xs ys a, as = xs ++ a :: ys ∧ t = (run host s xs).step host a := by
  induction as generalizing s with
  | nil => cases h
  | cons a as ih =>
    rcases List.mem_cons.mp h with rfl | h
    · exact ⟨[], as, a, rfl, rfl⟩
    · obtain ⟨xs, ys, a', rfl, rfl⟩ := ih h
      exact ⟨a :: xs, ys, a', rfl, rfl⟩

/-- Namespaces are asked for and used in order, a buffer is named once from an attachment that finds
it unattached to its next detachment, and two attachments of a session on `lineHost` never share a
namespace. -/
theorem namespace_lifecycle (host : Host σ) (settings : Settings) (h : σ) (actions : List Action) :
    (∀ t ∈ trace host (start settings h) actions, t.Orderly host) ∧
    (∀ before info during, before ++ .attach info :: during <+: actions →
      (run host (start settings h) before).buffer? info.id = none →
      (∀ a ∈ during, a ≠ .detach info.id) →
      NamedOnce host (run host (start settings h) (before ++ [.attach info])) info.id during) ∧
    ∀ lines : LineHost,
      (run lineHost (start settings lines) actions).host.created < LineHost.limit →
      (∀ xs ys b b' n, xs ++ ys <+: actions →
        (run lineHost (start settings lines) xs).namespace? b = some n →
        (run lineHost (start settings lines) (xs ++ ys)).namespace? b' = some n →
        b' = b ∧ ∀ a ∈ ys, a ≠ .detach b) ∧
      ∀ t ∈ trace lineHost (start settings lines) actions, ∀ ops r, .batch ops r ∈ t.calls lineHost →
        ∀ op ∈ ops, op.space ≠ 0 := by
  refine ⟨?_, ?_, ?_⟩
  · intro t ht
    obtain ⟨xs, ys, a, -, rfl⟩ := mem_trace ht
    exact step_orderly _ a
  · intro before info during _ unattached kept
    rw [run_concat]
    exact named_once (attach_unset unattached) kept
  · intro lines limit
    have initial := distinct_start LineHost.created settings lines
    have bound : ∀ xs, xs <+: actions →
        (run lineHost (start settings lines) xs).host.created < LineHost.limit := by
      rintro xs ⟨ys, rfl⟩
      rw [run_append] at limit
      exact Nat.lt_of_le_of_lt (created_le LineHost.counts _ ys) limit
    constructor
    · intro xs ys b b' n hp hn hn'
      have hys := bound _ hp
      have hxs := bound xs (List.IsPrefix.trans (List.prefix_append xs ys) hp)
      rw [run_append] at hn' hys
      exact same_attachment LineHost.counts (distinct_run LineHost.counts initial xs hxs) ys hys hn hn'
    · intro t ht ops r hr
      obtain ⟨xs, ys, a, rfl, rfl⟩ := mem_trace ht
      have hxs := bound (xs ++ [a]) (by simp)
      have hd := distinct_run LineHost.counts initial (xs ++ [a]) hxs
      rw [run_concat] at hd
      exact op_space_pos hd hr

def attachFirst : Action := .attach ⟨1, "c", "/p/a.c", "/p"⟩

def whileAttached : List Action :=
  [.tokens 1 structName, .attach ⟨2, "c", "/p/b.c", "/p"⟩, .tokens 2 structName,
    .attach ⟨1, "c", "/p/c.c", "/p"⟩, .tokens 1 structName]

def attachedTwice : List Action :=
  attachFirst :: whileAttached ++ [.detach 1, attachFirst, .tokens 1 structName]

theorem attachedTwice_names :
    granted lineHost 1 (trace lineHost (run lineHost (start plainSettings {}) [attachFirst])
        whileAttached) = [1] ∧
      (run lineHost (start plainSettings {}) attachedTwice).namespace? 2 = some 2 ∧
      (run lineHost (start plainSettings {}) attachedTwice).namespace? 1 ≠ some 1 := by
  obtain ⟨-, once, apart⟩ := namespace_lifecycle lineHost plainSettings {} attachedTwice
  have first := once [] ⟨1, "c", "/p/a.c", "/p"⟩ whileAttached (List.prefix_append _ _) rfl
    (by simp [whileAttached])
  have limit : (run lineHost (start plainSettings {}) attachedTwice).host.created < LineHost.limit := by
    decide +kernel
  have apart : (run lineHost (start plainSettings {}) attachedTwice).namespace? 1 ≠ some 1 := by
    intro h
    have same := (apart {} limit).1 (attachFirst :: whileAttached)
      [.detach 1, attachFirst, .tokens 1 structName] 1 1 1 (List.prefix_refl _) (by decide +kernel) h
    exact same.2 (.detach 1) List.mem_cons_self rfl
  exact ⟨first.granted.trans (by decide +kernel), by decide +kernel, apart⟩

end Session

end SemanticHighlight
