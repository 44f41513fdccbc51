import SemanticHighlight.Proofs.Session.Concurrent
import SemanticHighlight.Proofs.Session.Shared
import SemanticHighlight.Proofs.Worker.Lifecycle

/-!
# What a step does

All calls here are on one buffer, nothing detaches it, and the host accepts every call. Then all
records of the buffer share its first cell, and all its requests one slot. What a call holds and
owes at a moment is its stance; what the calls of the buffer have to agree on is the ledger: who
holds the two locks, the namespace, and the log. `step_moves` says that each step of a call is one
of ten moves.
-/

set_option autoImplicit false

namespace SemanticHighlight.Concurrent

variable {σ : Type} {host : Host σ} {ready : σ → Prop} {b : BufferId} {i : CallId}

structure Stance where
  slot : Bool := false
  pass : Bool := false
  reply? : Option String := none
  /-- The operations a batch has been begun with, and its namespace, until it is sent. -/
  opened? : Option (List Op × NamespaceId) := none
  sent? : Option Nat := none

def Pass.stance (slot : Bool) (reply? : Option String) : Pass → Stance
  | .waiting => { slot, reply? }
  | .holding => { slot, reply?, pass := true }
  | .begun batch space => { slot, reply?, pass := true, opened? := some (batch.toList, space) }
  | .finished r => { slot, pass := true, sent? := r.toOption }

def Attaching.stance : Attaching → Stance
  | .called | .tabled _ => {}
  | .returned o => { sent? := o.sent? }

def Highlighting.stance : Highlighting → Stance
  | .called => {}
  | .passing _ pass => pass.stance false none
  | .returned o => { sent? := o.sent? }

def Asking.stance : Asking → Stance
  | .called | .found _ | .admitted .. => {}
  | .serving .. => { slot := true }
  | .passing _ _ payload pass => pass.stance true (some payload)
  | .closing _ o => { slot := true, sent? := o.sent? }
  | .parting _ o | .returned o => { sent? := o.sent? }

def Thread.stance : Thread → Stance
  | .attach _ phase => phase.stance
  | .tokens _ _ phase => phase.stance
  | .external _ _ phase => phase.stance

structure Ledger where
  passLock? : Option CallId
  slotLock? : Option CallId
  space? : Option NamespaceId
  log : Log

def firstCell : CellId := 0

def Store.ledger (s : Store σ) (b : BufferId) : Ledger where
  passLock? := s.passLocks.get? firstCell
  slotLock? := (s.slot? b).bind s.slotLocks.get?
  space? := s.spaces.get? firstCell
  log := s.log

/-- The highlights are those a call computes from its tokens, or from the reply it has got. -/
def Call.Computes (reply? : Option String) (space : NamespaceId) (adds : List Op) : Call → Prop
  | .attach _ => False
  | .tokens b t => reply? = none ∧ ∃ table, adds = Classify.ops t.frontend table b space t.tokens
  | .external b _ =>
    ∃ table payload, reply? = some payload ∧ adds = Record.ops table b space payload

/-- What a step of call `i` can change. -/
inductive Move (b : BufferId) (i : CallId) (c : Call) (l : Ledger) (x : Stance) :
    Ledger → Stance → Prop
  | aside {slotLock? : Option CallId} (kept : ∀ j, l.slotLock? = some j → slotLock? = some j) :
    Move b i c l x { l with slotLock? } x
  | takeSlot (idle : x = {}) (free : l.slotLock? = none) :
    Move b i c l x { l with slotLock? := some i } { slot := true }
  | answered (payload : String) (external : c.isExternal = true) (serving : x = { slot := true }) :
    Move b i c l x { l with log := l.log ++ [.exchanged i (.ok payload)] }
      { slot := true, reply? := some payload }
  | unanswered (e : Worker.Error) (serving : x = { slot := true }) :
    Move b i c l x { l with log := l.log ++ [.exchanged i (.error e)] } { slot := true }
  | takePass (free : l.passLock? = none) (unopened : x.opened? = none) :
    Move b i c l x { l with passLock? := some i } { x with pass := true }
  | named (n : NamespaceId) (holding : x.pass = true) (unnamed : l.space? = none) :
    Move b i c l x { l with space? := some n, log := l.log ++ [.asked i (.create b (.ok n))] }
      { x with opened? := some ([], n) }
  | cleared (n : NamespaceId) (holding : x.pass = true) (unopened : x.opened? = none)
    (named : l.space? = some n) :
    Move b i c l x l { x with opened? := some ([.clearAll b n], n) }
  | sent {ops adds : List Op} {n : NamespaceId} (opened : x.opened? = some (ops, n))
    (unsent : x.sent? = none) (own : c.Computes x.reply? n adds) :
    Move b i c l x { l with log := l.log ++ [.asked i (.batch (ops ++ adds) (.ok ()))] }
      { x with reply? := none, opened? := none, sent? := some (ops ++ adds).length }
  | leavePass (holding : x.pass = true) (unopened : x.opened? = none) :
    Move b i c l x { l with passLock? := none } { x with pass := false }
  | leaveSlot (holding : x.slot = true) (passed : x.pass = false) (settled : x.reply? = none) :
    Move b i c l x { l with slotLock? := none } { x with slot := false }

structure Store.Grounded (b : BufferId) (s : Store σ) : Prop where
  cell : ∀ e, s.buffers.get? b = some e → e.cell = firstCell
  unattached : s.buffers.get? b = none → s.cells = firstCell

def Thread.entry? : Thread → Option Entry
  | .tokens _ _ (.passing e _) => some e
  | .external _ _ (.found e) | .external _ _ (.admitted e _) | .external _ _ (.serving e _)
  | .external _ _ (.passing e _ _ _) => some e
  | _ => none

def Thread.permit? : Thread → Option Worker.Permit
  | .external _ _ (.admitted _ permit) | .external _ _ (.serving _ permit)
  | .external _ _ (.passing _ permit _ _) | .external _ _ (.closing permit _)
  | .external _ _ (.parting permit _) => some permit
  | _ => none

structure Thread.Grounded (b : BufferId) (s : Store σ) (t : Thread) : Prop where
  on : t.call.buffer = b
  cell : ∀ e, t.entry? = some e → e.cell = firstCell
  slot : ∀ permit, t.permit? = some permit → s.slot? b = some permit.slot

theorem Thread.Grounded.ofPermit {s : Store σ} {t : Thread} (on : t.call.buffer = b)
    (entry : t.entry? = none)
    (slot : ∀ permit, t.permit? = some permit → s.slot? b = some permit.slot) :
    t.Grounded b s where
  on := on
  cell e he := by cases entry.symm.trans he
  slot := slot

theorem Thread.Grounded.ofEntry {s : Store σ} {t : Thread} (on : t.call.buffer = b)
    (cell : ∀ e, t.entry? = some e → e.cell = firstCell) (permit : t.permit? = none) :
    t.Grounded b s where
  on := on
  cell := cell
  slot p hp := by cases permit.symm.trans hp

theorem Thread.Grounded.bare {s : Store σ} {t : Thread} (on : t.call.buffer = b)
    (entry : t.entry? = none) (permit : t.permit? = none) : t.Grounded b s :=
  .ofPermit on entry fun p hp => by cases permit.symm.trans hp

theorem Thread.Grounded.later {s s' : Store σ} {t : Thread} (h : t.Grounded b s)
    (kept : ∀ k, s.slot? b = some k → s'.slot? b = some k) : t.Grounded b s' :=
  ⟨h.on, h.cell, fun permit hp => kept _ (h.slot permit hp)⟩

/-- The store after a step that is no move of another buffer. -/
structure Advance (ready : σ → Prop) (b : BufferId) (i : CallId) (s : Store σ) (t : Thread)
    (s' : Store σ) (t' : Thread) : Prop where
  move : Move b i t.call (s.ledger b) t.stance (s'.ledger b) t'.stance
  same : t'.call = t.call
  slot : ∀ k, s.slot? b = some k → s'.slot? b = some k
  store : s'.Grounded b
  thread : t'.Grounded b s'
  ready : ready s'.host

theorem Pass.step_moves (accepts : host.Accepts ready) {s : Store σ} (hr : ready s.host)
    {e : Entry} (cell : e.cell = firstCell) {collect : NamespaceId → Batch → Batch × Nat}
    {adds : NamespaceId → List Op} {c : Call} {slot : Bool} {reply? : Option String}
    (hc : ∀ space batch, (collect space batch).1.toList = batch.toList ++ adds space)
    (own : ∀ space, c.Computes reply? space (adds space)) (p : Pass) :
    let r := p.step host i s b e collect
    Move b i c (s.ledger b) (p.stance slot reply?) (r.1.ledger b) (r.2.stance slot reply?) ∧
      ready r.1.host ∧ ∃ passLocks spaces h log,
        r.1 = { s with passLocks, spaces, host := h, log } := by
  cases p with
  | waiting =>
    cases hl : s.passLocks.get? e.cell with
    | some j =>
      simp only [Pass.step, hl]
      exact ⟨.aside fun _ => id, hr, _, _, _, _, rfl⟩
    | none =>
      have taken : Store.ledger { s with passLocks := s.passLocks.set e.cell i } b =
          { s.ledger b with passLock? := some i } := by simp [Store.ledger, Store.slot?, cell]
      have free : (s.ledger b).passLock? = none := by
        rw [← hl, cell]
        rfl
      simp only [Pass.step, hl, taken]
      exact ⟨.takePass free rfl, hr, _, _, _, _, rfl⟩
  | holding =>
    cases hs : s.spaces.get? e.cell with
    | none =>
      obtain ⟨n, h', create, hr'⟩ := accepts.create b s.host hr
      have told : Store.ledger { s.told i h' [.create b (.ok n)] with
          spaces := s.spaces.set e.cell n } b = { s.ledger b with
            space? := some n, log := s.log ++ [.asked i (.create b (.ok n))] } := by
        simp [Store.ledger, Store.slot?, Store.told, cell]
      simp only [Pass.step, hs, Session.beginBatch, Host.createNamespace_logged create,
        List.nil_append, told]
      have unnamed : (s.ledger b).space? = none := by
        rw [← hs, cell]
        rfl
      exact ⟨.named n rfl unnamed, hr', _, _, _, _, rfl⟩
    | some n =>
      have told : Store.ledger { s.told i s.host [] with spaces := s.spaces.set e.cell n } b =
          s.ledger b := by
        simp [Store.ledger, Store.slot?, Store.told, cell, ← cell ▸ hs]
      simp only [Pass.step, hs, Session.beginBatch, told]
      have named : (s.ledger b).space? = some n := by
        rw [← hs, cell]
        rfl
      exact ⟨.cleared n rfl rfl named, hr, _, _, _, _, rfl⟩
  | begun batch space =>
    obtain ⟨h', flush, hr'⟩ := accepts.call (batch.toList ++ adds space) s.host hr
    simp only [Pass.step, Session.flush_eq, hc, Host.callAtomic_logged flush, List.nil_append]
    exact ⟨.sent rfl rfl (own space), hr', _, _, _, _, rfl⟩
  | finished r => exact ⟨.aside fun _ => id, hr, _, _, _, _, rfl⟩

theorem sent?_ofSent (r : Except Session.Error Nat) :
    (Session.Outcome.ofSent r).sent? = r.toOption := by
  cases r <;> rfl

theorem Store.aside {s : Store σ} {workers? : Option Worker.Pool} {c : Call} {x : Stance}
    (kept : ∀ k, s.slot? b = some k → Store.slot? { s with workers? } b = some k) :
    Move b i c (s.ledger b) x (Store.ledger { s with workers? } b) x := by
  refine .aside fun j hj => ?_
  obtain ⟨k, hk, held⟩ := Option.bind_eq_some_iff.mp hj
  exact Option.bind_eq_some_iff.mpr ⟨k, kept k hk, held⟩

theorem Store.slot_after {s : Store σ} {p : Worker.Pool} (hw : s.workers? = some p)
    (e : Worker.Event) (standing : e ≠ .shutdown b) {k : Worker.SlotId}
    (h : s.slot? b = some k) : Store.slot? { s with workers? := some (p.after e) } b = some k := by
  rw [Store.slot?, hw] at h
  exact Worker.Pool.current_kept h standing

theorem Store.ledger_slotLocks {s : Store σ} {k : Worker.SlotId} (slot : s.slot? b = some k)
    (slotLocks : Keyed Worker.SlotId CallId) : Store.ledger { s with slotLocks } b =
      { s.ledger b with slotLock? := slotLocks.get? k } := by
  have same : Store.slot? { s with slotLocks } b = some k := slot
  rw [Store.ledger, same]
  rfl

theorem Store.Grounded.record {s : Store σ} (h : s.Grounded b) {info : BufferInfo}
    (on : info.id = b) (table : GroupTable) : (s.record info table).Grounded b := by
  subst on
  unfold Store.record
  cases hb : s.buffers.get? info.id with
  | some e =>
    refine ⟨fun e' he => ?_, fun absent => ?_⟩
    · simp only [Keyed.get?_set, if_true, Option.some.injEq] at he
      exact he ▸ h.cell e hb
    · simp at absent
  | none =>
    refine ⟨fun e' he => ?_, fun absent => ?_⟩
    · simp only [Keyed.get?_set, if_true, Option.some.injEq] at he
      exact he ▸ h.unattached hb
    · simp at absent

theorem Advance.idle {s : Store σ} (hr : ready s.host) (hs : s.Grounded b) {t t' : Thread}
    (same : t'.call = t.call) (stance : t'.stance = t.stance) (ht : t'.Grounded b s) :
    Advance ready b i s t s t' :=
  ⟨stance ▸ .aside fun _ => id, same, fun _ => id, hs, ht, hr⟩

theorem attach_advances {s : Store σ} (hr : ready s.host) (hs : s.Grounded b) {info : BufferInfo}
    (on : info.id = b) (a : Attaching) :
    Advance ready b i s (.attach info a) (a.step s info).1 (.attach info (a.step s info).2) := by
  have grounded (s : Store σ) (a : Attaching) : (Thread.attach info a).Grounded b s :=
    .bare on (by cases a <;> rfl) (by cases a <;> rfl)
  cases a with
  | called =>
    simp only [Attaching.step]
    split
    · exact .idle hr hs rfl rfl (grounded _ _)
    · exact ⟨.aside fun _ => id, rfl, fun _ => id, ⟨hs.cell, hs.unattached⟩, grounded _ _, hr⟩
  | tabled table =>
    have recorded := hs.record on table
    simp only [Attaching.step]
    unfold Store.record at recorded ⊢
    split at recorded <;>
      exact ⟨.aside fun _ => id, rfl, fun _ => id, recorded, grounded _ _, hr⟩
  | returned o => exact .idle hr hs rfl rfl (grounded _ _)

theorem Store.leavePass (s : Store σ) {e : Entry} (cell : e.cell = firstCell) (c : Call)
    (slot : Bool) (r : Except Session.Error Nat) :
    Move b i c (s.ledger b) { slot, pass := true, sent? := r.toOption }
      (Store.ledger { s with passLocks := s.passLocks.erase e.cell } b)
      { slot, sent? := (Session.Outcome.ofSent r).sent? } := by
  have left : Store.ledger { s with passLocks := s.passLocks.erase e.cell } b =
      { s.ledger b with passLock? := none } := by simp [Store.ledger, Store.slot?, cell]
  rw [left, sent?_ofSent]
  exact .leavePass rfl rfl

theorem tokens_advances (accepts : host.Accepts ready) {s : Store σ} (hr : ready s.host)
    (hs : s.Grounded b) {t : Session.TokenStream} {a : Highlighting}
    (ht : (Thread.tokens b t a).Grounded b s) :
    Advance ready b i s (.tokens b t a) (a.step host i s b t).1
      (.tokens b t (a.step host i s b t).2) := by
  cases a with
  | called =>
    simp only [Highlighting.step]
    split
    · exact .idle hr hs rfl rfl (.bare rfl rfl rfl)
    · rename_i e he
      refine .idle hr hs rfl rfl (.ofEntry rfl ?_ rfl)
      rintro _ ⟨⟩
      exact hs.cell e he
  | passing e p =>
    have cell : e.cell = firstCell := ht.cell e rfl
    by_cases done : ∃ r, p = .finished r
    · obtain ⟨r, rfl⟩ := done
      exact ⟨s.leavePass cell _ false r, rfl, fun _ => id, ⟨hs.cell, hs.unattached⟩,
        .bare rfl rfl rfl, hr⟩
    · have running : ∀ r, p ≠ .finished r := fun r same => done ⟨r, same⟩
      obtain ⟨move, hr', passLocks, spaces, h, log, same⟩ := p.step_moves accepts hr cell
        (fun space batch => Classify.toList_into t.frontend e.table b space t.tokens batch)
        (c := .tokens b t) (fun space => ⟨rfl, e.table, rfl⟩)
      rw [Highlighting.step_running host i s b t e running]
      refine ⟨move, rfl, ?_, ?_, ?_, hr'⟩
      all_goals simp only [same]
      · exact fun _ => id
      · exact ⟨hs.cell, hs.unattached⟩
      · exact .ofEntry rfl ht.cell rfl
  | returned o => exact .idle hr hs rfl rfl (.bare rfl rfl rfl)

theorem found_advances (m : Worker.Moment) {s : Store σ} (hr : ready s.host) (hs : s.Grounded b)
    {content : String} {e : Entry} (ht : (Thread.external b content (.found e)).Grounded b s) :
    let r := Asking.step host i m s b content (.found e)
    Advance ready b i s (.external b content (.found e)) r.1 (.external b content r.2) := by
  simp only [Asking.step]
  split
  · exact .idle hr hs rfl rfl ht
  · rename_i p hw
    have kept : ∀ k, s.slot? b = some k →
        Store.slot? { s with workers? := some (p.after (.enter b)) } b = some k :=
      fun k => Store.slot_after hw (.enter b) (by simp)
    split
    · rename_i p' enter
      have same : p' = p.after (.enter b) := (congrArg Prod.snd enter).symm
      subst same
      exact ⟨Store.aside kept, rfl, kept, ⟨hs.cell, hs.unattached⟩, .bare rfl rfl rfl, hr⟩
    · rename_i permit p' enter
      have same : p' = p.after (.enter b) := (congrArg Prod.snd enter).symm
      have slot := Worker.Pool.enter_permit enter
      subst same
      refine ⟨Store.aside kept, rfl, kept, ⟨hs.cell, hs.unattached⟩, ⟨rfl, ht.cell, ?_⟩, hr⟩
      rintro _ ⟨⟩
      exact slot

theorem serving_advances (m : Worker.Moment) {s : Store σ} (hr : ready s.host) (hs : s.Grounded b)
    {content : String} {e : Entry} {permit : Worker.Permit}
    (ht : (Thread.external b content (.serving e permit)).Grounded b s) :
    let r := Asking.step host i m s b content (.serving e permit)
    Advance ready b i s (.external b content (.serving e permit)) r.1 (.external b content r.2) := by
  have slot : s.slot? b = some permit.slot := ht.slot permit rfl
  cases hw : s.workers? with
  | none =>
    simp only [Asking.step, hw]
    exact .idle hr hs rfl rfl ht
  | some p =>
    rcases hx : p.exchange m permit (Target.ofFile b e.info.path e.info.root)
      (Text.bytes content) with ⟨x, p'⟩
    have same : p' = p.after (.exchange m permit _ _) := (congrArg Prod.snd hx).symm
    have kept : ∀ k, s.slot? b = some k → Store.slot? { s with workers? := some p' } b = some k :=
      fun k hk => same ▸ Store.slot_after hw (.exchange m permit _ _) (by simp) hk
    have told (note : Note) :
        Store.ledger { s with workers? := some p', log := s.log ++ [note] } b =
          { s.ledger b with log := s.log ++ [note] } := by
      have after : Store.slot? { s with workers? := some p', log := s.log ++ [note] } b =
        some permit.slot := kept _ slot
      rw [Store.ledger, after, Store.ledger, slot]
    simp only [Asking.step, hw, hx]
    cases reply : x.reply with
    | error err =>
      refine ⟨?_, rfl, kept, ⟨hs.cell, hs.unattached⟩,
        .ofPermit rfl rfl fun permit hp => kept _ (ht.slot permit hp), hr⟩
      rw [told]
      exact .unanswered err rfl
    | ok payload =>
      refine ⟨?_, rfl, kept, ⟨hs.cell, hs.unattached⟩,
        ⟨rfl, ht.cell, fun permit hp => kept _ (ht.slot permit hp)⟩, hr⟩
      rw [told]
      exact .answered payload rfl rfl

theorem external_advances (accepts : host.Accepts ready) (m : Worker.Moment) {s : Store σ}
    (hr : ready s.host) (hs : s.Grounded b) {content : String} {a : Asking}
    (ht : (Thread.external b content a).Grounded b s) :
    Advance ready b i s (.external b content a) (a.step host i m s b content).1
      (.external b content (a.step host i m s b content).2) := by
  cases a with
  | called =>
    simp only [Asking.step]
    split
    · exact .idle hr hs rfl rfl (.bare rfl rfl rfl)
    · split
      · exact .idle hr hs rfl rfl (.bare rfl rfl rfl)
      · rename_i e he
        refine .idle hr hs rfl rfl (.ofEntry rfl ?_ rfl)
        rintro _ ⟨⟩
        exact hs.cell e he
  | found e => exact found_advances m hr hs ht
  | admitted e permit =>
    have slot : s.slot? b = some permit.slot := ht.slot permit rfl
    simp only [Asking.step]
    split
    · exact .idle hr hs rfl rfl ht
    · rename_i free
      have taken := Store.ledger_slotLocks slot (s.slotLocks.set permit.slot i)
      rw [Keyed.get?_set, if_pos rfl] at taken
      refine ⟨?_, rfl, fun _ => id, ⟨hs.cell, hs.unattached⟩, ⟨rfl, ht.cell, ht.slot⟩, hr⟩
      rw [taken]
      exact .takeSlot rfl (by simp [Store.ledger, slot, free])
  | serving e permit => exact serving_advances m hr hs ht
  | passing e permit payload p =>
    have cell : e.cell = firstCell := ht.cell e rfl
    by_cases done : ∃ r, p = .finished r
    · obtain ⟨r, rfl⟩ := done
      exact ⟨s.leavePass cell _ true r, rfl, fun _ => id, ⟨hs.cell, hs.unattached⟩,
        .ofPermit rfl rfl ht.slot, hr⟩
    · have running : ∀ r, p ≠ .finished r := fun r same => done ⟨r, same⟩
      obtain ⟨move, hr', passLocks, spaces, h, log, same⟩ := p.step_moves accepts hr cell
        (fun space batch => Record.toList_into e.table b space payload batch)
        (c := .external b content) (fun space => ⟨e.table, payload, rfl, rfl⟩)
      rw [Asking.step_running host i m s b content e permit payload running]
      refine ⟨move, rfl, ?_, ?_, ?_, hr'⟩
      all_goals simp only [same]
      · exact fun _ => id
      · exact ⟨hs.cell, hs.unattached⟩
      · exact ⟨rfl, ht.cell, ht.slot⟩
  | closing permit o =>
    have slot : s.slot? b = some permit.slot := ht.slot permit rfl
    have left := Store.ledger_slotLocks slot (s.slotLocks.erase permit.slot)
    rw [Keyed.get?_erase, if_pos rfl] at left
    refine ⟨?_, rfl, fun _ => id, ⟨hs.cell, hs.unattached⟩, .ofPermit rfl rfl ht.slot, hr⟩
    exact left.symm ▸ .leaveSlot rfl rfl rfl
  | parting permit o =>
    have kept : ∀ k, s.slot? b = some k →
        Store.slot? { s with workers? := s.workers?.map (·.release permit) } b = some k := by
      intro k hk
      cases hw : s.workers? with
      | none =>
        rw [Store.slot?, hw] at hk
        cases hk
      | some p => exact Store.slot_after hw (.release permit) (by simp) hk
    exact ⟨Store.aside kept, rfl, kept, ⟨hs.cell, hs.unattached⟩, .bare rfl rfl rfl, hr⟩
  | returned o => exact .idle hr hs rfl rfl (.bare rfl rfl rfl)

theorem Thread.advances (accepts : host.Accepts ready) (m : Worker.Moment) {s : Store σ}
    (hr : ready s.host) (hs : s.Grounded b) {t : Thread} (ht : t.Grounded b s) :
    Advance ready b i s t (t.step host i m s).1 (t.step host i m s).2 := by
  cases t with
  | attach info a => exact attach_advances hr hs ht.on a
  | tokens b' t a =>
    obtain rfl : b' = b := ht.on
    exact tokens_advances accepts hr hs ht
  | external b' content a =>
    obtain rfl : b' = b := ht.on
    exact external_advances accepts m hr hs ht

end SemanticHighlight.Concurrent
