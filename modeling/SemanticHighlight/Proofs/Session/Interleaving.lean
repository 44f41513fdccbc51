import SemanticHighlight.Proofs.Session.Isolation
import SemanticHighlight.Proofs.Session.Turns

/-!
# Order under interleaving

What the calls of one buffer agree on holds after each move, and so after any run, whichever calls
there are and in whatever order they take their steps. Of the calls that hold a lock there is one
for each lock; a batch is begun and sent under the lock of the namespace, which makes the clears
match; and a reply is got and sent under the lock of the slot, which keeps the batches of external
calls in the order of their exchanges.
-/

set_option autoImplicit false

namespace SemanticHighlight.Concurrent

open Session (plainSettings readerMoment structName)

variable {σ : Type} {host : Host σ} {ready : σ → Prop} {b : BufferId} {i : CallId} {c : Call}
  {l l' : Ledger} {x : CallId → Stance} {y : Stance} {calls : CallId → Option Call}

def turned (x : CallId → Stance) (i : CallId) (y : Stance) : CallId → Stance :=
  fun j => if j = i then y else x j

@[simp] theorem turned_self : turned x i y i = y := if_pos rfl

theorem turned_other {j : CallId} (h : j ≠ i) : turned x i y j = x j := if_neg h

theorem turned_same {α : Type} (f : Stance → α) (same : f y = f (x i)) (j : CallId) :
    f (turned x i y j) = f (x j) := by
  by_cases own : j = i
  · rw [own, turned_self, same]
  · rw [turned_other own]

structure Locked (l : Ledger) (x : CallId → Stance) : Prop where
  pass : ∀ i, (x i).pass = true → l.passLock? = some i
  slot : ∀ i, (x i).slot = true → l.slotLock? = some i
  opened : ∀ i o, (x i).opened? = some o → (x i).pass = true
  reply : ∀ i p, (x i).reply? = some p → (x i).slot = true

theorem Locked.pass_unique (h : Locked l x) {j : CallId} (hi : (x i).pass = true)
    (hj : (x j).pass = true) : j = i :=
  Option.some.inj ((h.pass j hj).symm.trans (h.pass i hi))

theorem Locked.slot_unique (h : Locked l x) {j : CallId} (hi : (x i).slot = true)
    (hj : (x j).slot = true) : j = i :=
  Option.some.inj ((h.slot j hj).symm.trans (h.slot i hi))

theorem Locked.move (h : Locked l x) (m : Move b i c l (x i) l' y) : Locked l' (turned x i y) := by
  constructor
  case pass =>
    intro j hj
    by_cases own : j = i
    · subst own
      rw [turned_self] at hj
      cases m with
      | takePass free unopened => rfl
      | takeSlot | answered | unanswered | leavePass => cases hj
      | aside | named | cleared | sent | leaveSlot => exact h.pass j hj
    · rw [turned_other own] at hj
      have held := h.pass j hj
      cases m with
      | takePass free unopened =>
        rw [free] at held
        cases held
      | leavePass holding unopened => exact absurd (h.pass_unique holding hj) own
      | _ => exact held
  case slot =>
    intro j hj
    by_cases own : j = i
    · subst own
      rw [turned_self] at hj
      cases m with
      | takeSlot idle free => rfl
      | answered payload external serving => exact h.slot j (by rw [serving])
      | unanswered e serving => exact h.slot j (by rw [serving])
      | leaveSlot => cases hj
      | aside kept => exact kept j (h.slot j hj)
      | takePass | named | cleared | sent | leavePass => exact h.slot j hj
    · rw [turned_other own] at hj
      have held := h.slot j hj
      cases m with
      | aside kept => exact kept j held
      | takeSlot idle free =>
        rw [free] at held
        cases held
      | leaveSlot holding passed settled => exact absurd (h.slot_unique holding hj) own
      | _ => exact held
  case opened =>
    intro j o hj
    by_cases own : j = i
    · subst own
      rw [turned_self] at hj ⊢
      cases m with
      | takeSlot | answered | unanswered | sent => cases hj
      | takePass => rfl
      | named n holding unnamed => exact holding
      | cleared n holding unopened named => exact holding
      | leavePass holding unopened => cases unopened.symm.trans hj
      | aside | leaveSlot => exact h.opened j o hj
    · rw [turned_other own] at hj ⊢
      exact h.opened j o hj
  case reply =>
    intro j p hj
    by_cases own : j = i
    · subst own
      rw [turned_self] at hj ⊢
      cases m with
      | takeSlot | answered | unanswered => rfl
      | sent => cases hj
      | leaveSlot holding passed settled => cases settled.symm.trans hj
      | aside | takePass | named | cleared | leavePass => exact h.reply j p hj
    · rw [turned_other own] at hj ⊢
      exact h.reply j p hj

/-- The first batch only adds highlights; each later one clears the namespace first. -/
def Successive (b : BufferId) (n : NamespaceId) : List (List Op) → Prop
  | [] => True
  | first :: rest => (∀ op ∈ first, op.AddsTo b n) ∧
    ∀ ops ∈ rest, ∃ adds, ops = .clearAll b n :: adds ∧ ∀ op ∈ adds, op.AddsTo b n

theorem Successive.append {n : NamespaceId} {batches : List (List Op)} {opening adds : List Op}
    (h : Successive b n batches)
    (opened : opening = [] ∧ batches = [] ∨ opening = [.clearAll b n] ∧ batches ≠ [])
    (added : ∀ op ∈ adds, op.AddsTo b n) : Successive b n (batches ++ [opening ++ adds]) := by
  rcases opened with ⟨rfl, rfl⟩ | ⟨rfl, some⟩
  · exact ⟨added, nofun⟩
  · obtain ⟨first, rest, rfl⟩ := List.exists_cons_of_ne_nil some
    refine ⟨h.1, fun ops hops => ?_⟩
    rcases List.mem_append.mp hops with hops | hops
    · exact h.2 ops hops
    · exact ⟨adds, List.mem_singleton.mp hops, added⟩

/-- Nothing is sent before there is a namespace, and it is asked for once; while no batch is sent,
the call that has asked for it has its first batch open. -/
structure Named (b : BufferId) (l : Ledger) (x : CallId → Stance) : Prop where
  unnamed : l.space? = none → l.log.creates = [] ∧ l.log.batches = []
  named : ∀ n, l.space? = some n →
    l.log.creates = [.ok n] ∧ Successive b n (l.log.batches.map Prod.snd)
  opened : ∀ i ops n, (x i).opened? = some (ops, n) → l.space? = some n ∧
    (ops = [] ∧ l.log.batches = [] ∨ ops = [.clearAll b n] ∧ l.log.batches ≠ [])
  first : l.space?.isSome → l.log.batches = [] → ∃ i, (x i).opened?.isSome

theorem Named.same (h : Named b l x) (space : l'.space? = l.space?)
    (creates : l'.log.creates = l.log.creates) (batches : l'.log.batches = l.log.batches)
    (opened : y.opened? = (x i).opened?) : Named b l' (turned x i y) := by
  have same := turned_same Stance.opened? opened
  constructor
  · rw [space, creates, batches]
    exact h.unnamed
  · rw [space, creates, batches]
    exact h.named
  · simp only [space, batches, same]
    exact h.opened
  · simp only [space, batches, same]
    exact h.first

theorem Call.Computes.adds_to {reply? : Option String} {n : NamespaceId} {adds : List Op}
    (h : c.Computes reply? n adds) : ∀ op ∈ adds, op.AddsTo c.buffer n := by
  cases c with
  | attach info => exact h.elim
  | tokens b t =>
    obtain ⟨-, table, rfl⟩ := h
    exact Classify.ops_add_to t.frontend table b n t.tokens
  | external b content =>
    obtain ⟨table, payload, -, rfl⟩ := h
    exact Record.ops_add_to table b n payload

theorem Named.move (h : Named b l x) (locked : Locked l x) (on : c.buffer = b)
    (m : Move b i c l (x i) l' y) : Named b l' (turned x i y) := by
  cases m with
  | aside => exact h.same rfl rfl rfl rfl
  | takeSlot idle free => exact h.same rfl rfl rfl (by rw [idle])
  | answered payload external serving =>
    exact h.same rfl (by simp [Note.create?]) (by simp [Note.batch?]) (by rw [serving])
  | unanswered e serving =>
    exact h.same rfl (by simp [Note.create?]) (by simp [Note.batch?]) (by rw [serving])
  | takePass => exact h.same rfl rfl rfl rfl
  | leavePass => exact h.same rfl rfl rfl rfl
  | leaveSlot => exact h.same rfl rfl rfl rfl
  | named n holding unnamed =>
    obtain ⟨uncreated, unsent⟩ := h.unnamed unnamed
    refine ⟨nofun, ?_, fun j ops m hj => ?_, fun _ _ => ⟨i, by rw [turned_self]; rfl⟩⟩
    · rintro _ ⟨⟩
      simp [uncreated, unsent, Note.create?, Note.batch?, Successive]
    · by_cases own : j = i
      · rw [own, turned_self] at hj
        cases hj
        exact ⟨rfl, .inl ⟨rfl, by simp [unsent, Note.batch?]⟩⟩
      · rw [turned_other own] at hj
        cases unnamed.symm.trans (h.opened j ops m hj).1
  | cleared n holding unopened named =>
    -- Were nothing sent yet, the call that has named the cell would have its batch open still, and
    -- hold the lock that call i holds.
    have sent : l.log.batches ≠ [] := by
      intro none
      obtain ⟨j, hj⟩ := h.first (by rw [named]; rfl) none
      obtain ⟨o, ho⟩ := Option.isSome_iff_exists.mp hj
      obtain rfl := locked.pass_unique holding (locked.opened j o ho)
      cases unopened.symm.trans ho
    refine ⟨h.unnamed, h.named, fun j ops m hj => ?_, fun _ none => absurd none sent⟩
    by_cases own : j = i
    · rw [own, turned_self] at hj
      cases hj
      exact ⟨named, .inr ⟨rfl, sent⟩⟩
    · rw [turned_other own] at hj
      exact h.opened j ops m hj
  | @sent ops adds n opened unsent own =>
    obtain ⟨space, opening⟩ := h.opened i ops n opened
    refine ⟨fun none => ?_, fun m hm => ?_, fun j ops' m hj => ?_, fun _ none => ?_⟩
    · cases space.symm.trans none
    · obtain rfl : n = m := Option.some.inj (space.symm.trans hm)
      obtain ⟨created, successive⟩ := h.named n space
      simp only [Log.creates_concat, Log.batches_concat, Note.create?, Note.batch?,
        Option.toList_none, Option.toList_some, List.append_nil, List.map_append, List.map_cons,
        List.map_nil]
      exact ⟨created, successive.append (by simpa using opening) (on ▸ own.adds_to)⟩
    · by_cases same : j = i
      · rw [same, turned_self] at hj
        cases hj
      · rw [turned_other same] at hj
        exact absurd (locked.pass_unique (locked.opened i _ opened) (locked.opened j _ hj)) same
    · simp [Note.batch?] at none

/-- A batch that call `i` computes, from its tokens or from a reply it has got. -/
def Log.Own (log : Log) (i : CallId) (c : Call) (ops : List Op) : Prop :=
  ∃ n adds reply?, c.Computes reply? n adds ∧ (ops = adds ∨ ops = .clearAll c.buffer n :: adds) ∧
    ∀ p, reply? = some p → .exchanged i (.ok p) ∈ log

theorem Log.Own.later {log log' : Log} {ops : List Op} (h : log.Own i c ops) (grown : log ⊆ log') :
    log'.Own i c ops := by
  obtain ⟨n, adds, reply?, own, opening, heard⟩ := h
  exact ⟨n, adds, reply?, own, opening, fun p hp => grown (heard p hp)⟩

/-- A call that has sent something has sent one batch, its own; every other call none. -/
structure Accounted (calls : CallId → Option Call) (l : Ledger) (x : CallId → Stance) : Prop where
  sent : ∀ i k, (x i).sent? = some k → ∃ c ops, calls i = some c ∧ l.log.sentBy i = [ops] ∧
    ops.length = k ∧ l.log.Own i c ops
  unsent : ∀ i, (x i).sent? = none → l.log.sentBy i = []

theorem Accounted.same (h : Accounted calls l x) (batches : l'.log.batches = l.log.batches)
    (grown : l.log ⊆ l'.log) (sent : y.sent? = (x i).sent?) :
    Accounted calls l' (turned x i y) := by
  have same := turned_same Stance.sent? sent
  constructor
  · intro j k hj
    obtain ⟨c, ops, called, sent, length, own⟩ := h.sent j k (same j ▸ hj)
    exact ⟨c, ops, called, by rw [Log.sentBy, batches]; exact sent, length, own.later grown⟩
  · intro j hj
    rw [Log.sentBy, batches]
    exact h.unsent j (same j ▸ hj)

theorem Accounted.move (h : Accounted calls l x) (called : calls i = some c) (on : c.buffer = b)
    (named : Named b l x) (heard : ∀ p, (x i).reply? = some p → .exchanged i (.ok p) ∈ l.log)
    (m : Move b i c l (x i) l' y) : Accounted calls l' (turned x i y) := by
  cases m with
  | aside => exact h.same rfl (List.Subset.refl _) rfl
  | takeSlot idle free => exact h.same rfl (List.Subset.refl _) (by rw [idle])
  | answered payload external serving =>
    exact h.same (by simp [Note.batch?]) (List.subset_append_left ..) (by rw [serving])
  | unanswered e serving =>
    exact h.same (by simp [Note.batch?]) (List.subset_append_left ..) (by rw [serving])
  | takePass => exact h.same rfl (List.Subset.refl _) rfl
  | named => exact h.same (by simp [Note.batch?]) (List.subset_append_left ..) rfl
  | cleared => exact h.same rfl (List.Subset.refl _) rfl
  | leavePass => exact h.same rfl (List.Subset.refl _) rfl
  | leaveSlot => exact h.same rfl (List.Subset.refl _) rfl
  | @sent ops adds n opened unsent own =>
    obtain ⟨-, opening⟩ := named.opened i ops n opened
    have later (j : CallId) : Log.sentBy (l.log ++ [.asked i (.batch (ops ++ adds) (.ok ()))]) j =
        l.log.sentBy j ++ if j = i then [ops ++ adds] else [] := by
      by_cases same : j = i
      · simp [Log.sentBy, Note.batch?, same]
      · simp [Log.sentBy, Note.batch?, same, Ne.symm same]
    constructor
    · intro j k hj
      by_cases same : j = i
      · subst same
        rw [turned_self] at hj
        cases hj
        refine ⟨c, ops ++ adds, called, ?_, rfl, ?_⟩
        · rw [later, h.unsent j unsent, if_pos rfl, List.nil_append]
        · refine ⟨n, adds, (x j).reply?, own, ?_, fun p hp => List.mem_append_left _ (heard p hp)⟩
          rcases opening with ⟨rfl, -⟩ | ⟨rfl, -⟩
          · exact .inl rfl
          · exact .inr (by rw [on]; rfl)
      · rw [turned_other same] at hj
        obtain ⟨c', ops', called', sent, length, own'⟩ := h.sent j k hj
        refine ⟨c', ops', called', ?_, length, own'.later (List.subset_append_left ..)⟩
        rw [later, if_neg same, List.append_nil, sent]
    · intro j hj
      by_cases same : j = i
      · rw [same, turned_self] at hj
        cases hj
      · rw [turned_other same] at hj
        rw [later, if_neg same, List.append_nil, h.unsent j hj]

/-- The external calls whose batches the host has got, in the order of the batches. -/
def externals (calls : CallId → Option Call) (log : Log) : List CallId :=
  (log.batches.map Prod.fst).filter fun i => (calls i).any Call.isExternal

/-- All replies but the last are sent, in the order in which they came; the last is sent unless a
call has it still. -/
structure Ordered (calls : CallId → Option Call) (l : Ledger) (x : CallId → Stance) : Prop where
  heard : ∀ i p, (x i).reply? = some p → .exchanged i (.ok p) ∈ l.log
  owing : ∀ i p, (x i).reply? = some p → l.log.replied = externals calls l.log ++ [i]
  settled : (∀ i, (x i).reply? = none) → l.log.replied = externals calls l.log

theorem Ordered.same (h : Ordered calls l x) (batches : l'.log.batches = l.log.batches)
    (replied : l'.log.replied = l.log.replied) (grown : l.log ⊆ l'.log)
    (reply : y.reply? = (x i).reply?) : Ordered calls l' (turned x i y) := by
  have same := turned_same Stance.reply? reply
  constructor
  · intro j p hj
    exact grown (h.heard j p (same j ▸ hj))
  · intro j p hj
    rw [replied, externals, batches]
    exact h.owing j p (same j ▸ hj)
  · intro none
    rw [replied, externals, batches]
    exact h.settled fun j => same j ▸ none j

theorem externals_sent (called : calls i = some c) (log : Log) (ops : List Op)
    (answer : Except HostError Unit) :
    externals calls (log ++ [.asked i (.batch ops answer)]) =
      externals calls log ++ if c.isExternal then [i] else [] := by
  cases hc : c.isExternal <;> simp [externals, Note.batch?, called, hc]

theorem Call.Computes.isExternal {reply? : Option String} {n : NamespaceId} {adds : List Op}
    (h : c.Computes reply? n adds) : c.isExternal = reply?.isSome := by
  cases c with
  | attach info => exact h.elim
  | tokens b t => rw [h.1]; rfl
  | external b content =>
    obtain ⟨table, payload, rfl, -⟩ := h
    rfl

theorem Locked.reply_unique (h : Locked l x) {j : CallId} {p : String} (hi : (x i).slot = true)
    (hj : (x j).reply? = some p) : j = i :=
  h.slot_unique hi (h.reply j p hj)

theorem Ordered.move (h : Ordered calls l x) (locked : Locked l x) (called : calls i = some c)
    (m : Move b i c l (x i) l' y) : Ordered calls l' (turned x i y) := by
  cases m with
  | aside => exact h.same rfl rfl (List.Subset.refl _) rfl
  | takeSlot idle free => exact h.same rfl rfl (List.Subset.refl _) (by rw [idle])
  | unanswered e serving =>
    exact h.same (by simp [Note.batch?]) (by simp [Note.reply?]) (List.subset_append_left ..)
      (by rw [serving])
  | takePass => exact h.same rfl rfl (List.Subset.refl _) rfl
  | named =>
    exact h.same (by simp [Note.batch?]) (by simp [Note.reply?]) (List.subset_append_left ..) rfl
  | cleared => exact h.same rfl rfl (List.Subset.refl _) rfl
  | leavePass => exact h.same rfl rfl (List.Subset.refl _) rfl
  | leaveSlot => exact h.same rfl rfl (List.Subset.refl _) rfl
  | answered payload external serving =>
    -- The slot is held, so the replies that came before are all sent.
    have holding : (x i).slot = true := by rw [serving]
    have none : ∀ j, (x j).reply? = none := by
      intro j
      cases hj : (x j).reply? with
      | none => rfl
      | some p =>
        rw [locked.reply_unique holding hj, serving] at hj
        cases hj
    have settled := h.settled none
    refine ⟨fun j p hj => ?_, fun j p hj => ?_, fun all => ?_⟩
    · by_cases own : j = i
      · rw [own, turned_self] at hj
        cases hj
        exact List.mem_append_right _ (own ▸ List.mem_singleton_self _)
      · rw [turned_other own, none j] at hj
        cases hj
    · by_cases own : j = i
      · simpa [externals, Note.batch?, Note.reply?, own] using settled
      · rw [turned_other own, none j] at hj
        cases hj
    · have := all i
      rw [turned_self] at this
      cases this
  | @sent ops adds n opened unsent own =>
    have external := own.isExternal
    have same : Log.replied (l.log ++ [.asked i (.batch (ops ++ adds) (.ok ()))]) =
        l.log.replied := by simp [Note.reply?]
    cases hr : (x i).reply? with
    | none =>
      rw [hr] at external
      have still := externals_sent called l.log (ops ++ adds) (.ok ())
      rw [external, Option.isSome_none, if_neg Bool.false_ne_true, List.append_nil] at still
      have quiet := turned_same (x := x) (i := i) (y := { x i with
        reply? := none, opened? := none, sent? := some (ops ++ adds).length }) Stance.reply? hr.symm
      refine ⟨fun j p hj => ?_, fun j p hj => ?_, fun all => ?_⟩
      · exact List.mem_append_left _ (h.heard j p (quiet j ▸ hj))
      · rw [same, still]
        exact h.owing j p (quiet j ▸ hj)
      · rw [same, still]
        exact h.settled fun j => quiet j ▸ all j
    | some p =>
      rw [hr] at external
      have grown := externals_sent called l.log (ops ++ adds) (.ok ())
      rw [external, Option.isSome_some, if_pos rfl] at grown
      have none (j : CallId) (hj : j ≠ i) : (x j).reply? = none := by
        cases held : (x j).reply? with
        | none => rfl
        | some q => exact absurd (locked.reply_unique (locked.reply i p hr) held) hj
      refine ⟨fun j q hj => ?_, fun j q hj => ?_, fun all => ?_⟩
      · by_cases own : j = i
        · rw [own, turned_self] at hj
          cases hj
        · rw [turned_other own, none j own] at hj
          cases hj
      · by_cases own : j = i
        · rw [own, turned_self] at hj
          cases hj
        · rw [turned_other own, none j own] at hj
          cases hj
      · rw [same, grown]
        exact h.owing i p hr

def World.stance (w : World σ) (i : CallId) : Stance := ((w.threads i).map Thread.stance).getD {}

structure Orderly (ready : σ → Prop) (b : BufferId) (w : World σ) : Prop where
  ready : ready w.store.host
  store : w.store.Grounded b
  threads : ∀ i t, w.threads i = some t → t.Grounded b w.store
  locked : Locked (w.store.ledger b) w.stance
  named : Named b (w.store.ledger b) w.stance
  accounted : Accounted w.call? (w.store.ledger b) w.stance
  ordered : Ordered w.call? (w.store.ledger b) w.stance

variable {w : World σ} {s : Store σ} {t t' : Thread}

theorem World.stance_put (w : World σ) (i : CallId) (s : Store σ) (t : Thread) :
    (w.put i s t).stance = turned w.stance i t.stance := by
  funext j
  by_cases own : j = i
  · simp [World.stance, turned, own]
  · simp [World.stance, turned, own]

theorem Orderly.put (h : Orderly ready b w) (ht : w.threads i = some t)
    (a : Advance ready b i w.store t s t') : Orderly ready b (w.put i s t') := by
  have stance : w.stance i = t.stance := by simp [World.stance, ht]
  have called : w.call? i = some t.call := by simp [World.call?, ht]
  have calls : (w.put i s t').call? = w.call? := by
    funext j
    by_cases own : j = i
    · simp [World.call?, own, ht, a.same]
    · simp [World.call?, own]
  have move := a.move
  rw [← stance] at move
  have on := (h.threads i t ht).on
  refine ⟨a.ready, a.store, fun j u hu => ?_, ?_, ?_, ?_, ?_⟩
  · by_cases own : j = i
    · rw [World.threads_put, if_pos own] at hu
      cases hu
      exact a.thread
    · rw [World.threads_put, if_neg own] at hu
      exact (h.threads j u hu).later a.slot
  all_goals rw [World.stance_put]
  · exact h.locked.move move
  · exact h.named.move h.locked on move
  · exact calls ▸ h.accounted.move called on h.named (h.ordered.heard i) move
  · exact calls ▸ h.ordered.move h.locked called move

theorem Accounted.called (h : Accounted calls l x) {j : CallId}
    (hj : j ∈ l.log.batches.map Prod.fst) : ∃ c, calls j = some c := by
  obtain ⟨⟨j, ops⟩, mem, rfl⟩ := List.mem_map.mp hj
  cases sent : (x j).sent? with
  | none =>
    have mine : ops ∈ l.log.sentBy j :=
      List.mem_map.mpr ⟨(j, ops), List.mem_filter.mpr ⟨mem, by simp⟩, rfl⟩
    rw [h.unsent j sent] at mine
    cases mine
  | some k =>
    obtain ⟨c, -, called, -⟩ := h.sent j k sent
    exact ⟨c, called⟩

theorem Orderly.call (h : Orderly ready b w) (new : w.threads i = none) (on : c.buffer = b) :
    Orderly ready b (w.put i w.store (.start c)) := by
  have start : (Thread.start c).stance = {} := by cases c <;> rfl
  have same : (Thread.start c).call = c := by cases c <;> rfl
  have stance : (w.put i w.store (.start c)).stance = w.stance := by
    funext j
    by_cases own : j = i
    · simp [World.stance, own, new, start]
    · simp [World.stance, own]
  have kept : ∀ j c', w.call? j = some c' → (w.put i w.store (.start c)).call? j = some c' := by
    intro j c' hj
    by_cases own : j = i
    · simp [World.call?, own, new] at hj
    · simpa [World.call?, own] using hj
  have accounted := h.accounted
  have ordered := h.ordered
  have externals : externals (w.put i w.store (.start c)).call? w.store.log =
      externals w.call? w.store.log := by
    apply List.filter_congr
    intro j hj
    obtain ⟨c', hc⟩ := accounted.called hj
    rw [hc, kept j c' hc]
  refine ⟨h.ready, h.store, fun j u hu => ?_, stance ▸ h.locked, stance ▸ h.named, ?_, ?_⟩
  · by_cases own : j = i
    · rw [World.threads_put, if_pos own] at hu
      cases hu
      exact .bare (by rw [same, on]) (by cases c <;> rfl) (by cases c <;> rfl)
    · rw [World.threads_put, if_neg own] at hu
      exact h.threads j u hu
  all_goals rw [stance]
  · refine ⟨fun j k hj => ?_, accounted.unsent⟩
    obtain ⟨c', ops, called, sent⟩ := accounted.sent j k hj
    exact ⟨c', ops, kept j c' called, sent⟩
  · exact ⟨ordered.heard, fun j p hj => (ordered.owing j p hj).trans (externals ▸ rfl),
      fun none => (ordered.settled none).trans externals.symm⟩

theorem Store.slot?_died (s : Store σ) (b b' : BufferId) :
    Store.slot? { s with workers? := s.workers?.map (·.processDied b') } b = s.slot? b := by
  cases hw : s.workers? with
  | none => simp [Store.slot?, hw]
  | some p =>
    simp only [Store.slot?, hw, Option.map_some, Option.bind_some, Worker.Pool.processDied]
    split
    · rfl
    · split <;> rfl

theorem Orderly.after (accepts : host.Accepts ready) (h : Orderly ready b w) {e : Event}
    (on : e.On b) : Orderly ready b (w.after host e) := by
  cases e with
  | call i c =>
    rw [World.after]
    split
    · rename_i new
      exact h.call new on
    · exact h
  | step i m =>
    rw [World.after]
    split
    · exact h
    · rename_i t ht
      exact h.put ht (t.advances accepts m h.ready h.store (h.threads i t ht))
  | turnAway i =>
    rw [World.after]
    split
    · rename_i b' content e ht
      have found := h.threads i _ ht
      exact h.put ht (.idle h.ready h.store rfl rfl (.bare found.on rfl rfl))
    · exact h
  | workerDies b' =>
    have slot := w.store.slot?_died b b'
    have ledger : Store.ledger { w.store with
        workers? := w.store.workers?.map (·.processDied b') } b = w.store.ledger b := by
      rw [Store.ledger, slot]
      rfl
    exact ⟨h.ready, ⟨h.store.cell, h.store.unattached⟩,
      fun j u hu => (h.threads j u hu).later fun k hk => slot.trans hk,
      ledger ▸ h.locked, ledger ▸ h.named, ledger ▸ h.accounted, ledger ▸ h.ordered⟩

theorem orderly_start (settings : Settings) {h : σ} (hr : ready h) (b : BufferId) :
    Orderly ready b (World.start settings h) where
  ready := hr
  store := {
    cell := fun _ he => nomatch he
    unattached := fun _ => rfl }
  threads := fun _ _ ht => nomatch ht
  locked := {
    pass := fun _ hi => nomatch hi
    slot := fun _ hi => nomatch hi
    opened := fun _ _ hi => nomatch hi
    reply := fun _ _ hi => nomatch hi }
  named := {
    unnamed := fun _ => ⟨rfl, rfl⟩
    named := fun _ hn => nomatch hn
    opened := fun _ _ _ hi => nomatch hi
    first := fun some => nomatch some }
  accounted := {
    sent := fun _ _ hi => nomatch hi
    unsent := fun _ _ => rfl }
  ordered := {
    heard := fun _ _ hi => nomatch hi
    owing := fun _ _ hi => nomatch hi
    settled := fun _ => rfl }

theorem Orderly.run (accepts : host.Accepts ready) (h : Orderly ready b w) {events : List Event}
    (on : ∀ e ∈ events, e.On b) : Orderly ready b (w.run host events) := by
  induction events generalizing w with
  | nil => exact h
  | cons e events ih =>
    have first := h.after accepts (on e List.mem_cons_self)
    exact ih first fun e' he => on e' (List.mem_cons_of_mem e he)

theorem Thread.sent?_of_outcome {o : Session.Outcome} (h : t.outcome? = some o) :
    t.stance.sent? = o.sent? := by
  cases t with
  | attach info a =>
    cases a <;> cases h
    rfl
  | tokens b stream a =>
    cases a <;> cases h
    rfl
  | external b content a =>
    cases a <;> cases h
    rfl

theorem Ordered.prefix_replied (h : Ordered calls l x) :
    externals calls l.log <+: l.log.replied := by
  by_cases none : ∀ i, (x i).reply? = none
  · exact ⟨[], by rw [List.append_nil, h.settled none]⟩
  · obtain ⟨i, some⟩ := Classical.not_forall.mp none
    obtain ⟨p, hp⟩ := Option.ne_none_iff_exists'.mp some
    exact ⟨[i], (h.owing i p hp).symm⟩

/-- However the steps of calls on one buffer are interleaved, whichever way the buffer is attached
again meanwhile: the host is asked for a namespace once at most. The first batch it gets has no
clear; each later one begins with the clear of that one namespace. A call that has returned and has
sent something has sent one batch, its own, and every other call none. The batches of external
calls come in the order in which the worker has replied to them.

A request that was not admitted returns without an error and has sent nothing. -/
theorem interleaved_passes (host : Host σ) (accepts : host.Accepts ready) (settings : Settings)
    {h : σ} (hr : ready h) {events : List Event} (on : ∀ e ∈ events, e.On b) :
    let w := World.run host (World.start settings h) events
    let log := w.store.log
    log.creates.length ≤ 1 ∧
    (log.batches ≠ [] → ∃ n, log.creates = [.ok n] ∧ Successive b n (log.batches.map Prod.snd)) ∧
    (∀ i o, w.outcome? i = some o → match o.sent? with
      | some k => ∃ c ops, w.call? i = some c ∧ log.sentBy i = [ops] ∧ ops.length = k ∧
          log.Own i c ops
      | none => log.sentBy i = []) ∧
    (log.batches.map Prod.fst).filter w.isExternal <+: log.replied := by
  intro w log
  have orderly : Orderly ready b w := (orderly_start settings hr b).run accepts on
  refine ⟨?_, fun some => ?_, fun i o ho => ?_, orderly.ordered.prefix_replied⟩
  · cases hs : (w.store.ledger b).space? with
    | none =>
      have none : log.creates = [] := (orderly.named.unnamed hs).1
      rw [none]
      exact Nat.zero_le 1
    | some n =>
      have one : log.creates = [.ok n] := (orderly.named.named n hs).1
      rw [one]
      exact Nat.le_refl 1
  · cases hs : (w.store.ledger b).space? with
    | none => exact absurd (orderly.named.unnamed hs).2 some
    | some n => exact ⟨n, orderly.named.named n hs⟩
  · obtain ⟨t, ht, returned⟩ := Option.bind_eq_some_iff.mp ho
    have sent : (w.stance i).sent? = o.sent? := by
      simpa [World.stance, ht] using t.sent?_of_outcome returned
    split
    · rename_i k hk
      exact orderly.accounted.sent i k (sent.trans hk)
    · rename_i hk
      exact orderly.accounted.unsent i (sent.trans hk)

/-- Call 2 is admitted after call 1 and takes the slot before it. Call 3 takes the namespace while
call 2 has its reply, and call 4 attaches the buffer again before call 3 has named it. -/
def crossed : List Event :=
  [.call 0 (.attach ⟨1, "c", "/p/a.c", "/p"⟩), .call 1 (.external 1 "int bar();"),
    .call 2 (.external 1 "int bar();"), .call 3 (.tokens 1 structName),
    .call 4 (.attach ⟨1, "c", "/p/b.c", "/p"⟩)] ++
  [0, 0, 1, 1, 2, 2, 2, 1, 2, 3, 3, 2, 4, 4, 3, 1, 3, 3, 2, 2, 2, 2, 1, 2, 2, 1, 1, 1, 1, 1, 1, 1, 1,
    1].map (.step · readerMoment)

theorem crossed_passes :
    let w := World.run lineHost (World.start plainSettings {}) crossed
    [1, 2, 3].map w.outcome? = [some (.sent 2), some (.sent 2), some (.sent 1)] ∧
    (∃ n, w.store.log.creates = [.ok n] ∧ Successive 1 n (w.store.log.batches.map Prod.snd)) ∧
    (∃ ops, w.store.log.sentBy 2 = [ops] ∧ ops.length = 2) ∧
    (w.store.log.batches.map Prod.fst).filter w.isExternal <+: [2, 1] := by
  have on : ∀ e ∈ crossed, e.On 1 := by simp [crossed, Event.On, Call.buffer]
  obtain ⟨-, batches, calls, order⟩ :=
    interleaved_passes lineHost Session.lineHost_accepts plainSettings (h := {}) ⟨rfl, rfl⟩ on
  intro w
  have replied : w.store.log.replied = [2, 1] := by decide +kernel
  have outcomes : [1, 2, 3].map w.outcome? = [some (.sent 2), some (.sent 2), some (.sent 1)] := by
    decide +kernel
  have returned : w.outcome? 2 = some (.sent 2) := by decide +kernel
  have sentAny : w.store.log.batches.map Prod.fst ≠ [] := by decide +kernel
  obtain ⟨-, ops, -, sent, length, -⟩ := calls 2 _ returned
  exact ⟨outcomes, batches fun none => sentAny (by rw [none]; rfl), ⟨ops, sent, length⟩,
    replied ▸ order⟩

end SemanticHighlight.Concurrent
