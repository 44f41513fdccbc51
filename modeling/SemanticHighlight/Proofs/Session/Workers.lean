import SemanticHighlight.Proofs.Session.Run
import SemanticHighlight.Proofs.Worker.Buffers

/-!
# The workers of a session

A worker is started for the file that its buffer is attached to at the time. It lives on when the
buffer is attached again, even for another file, until the buffer is detached or the worker itself
is gone.
-/

set_option autoImplicit false

namespace SemanticHighlight.Session

variable {σ : Type} {host : Host σ}

open Worker (Slot)

def workerEvents (s : Session σ) (p : Worker.Pool) : Action → List Worker.Event
  | .attach _ => []
  | .detach b => [.shutdown b]
  | .tokens _ _ => []
  | .external m b content =>
    match s.attachment? b with
    | none => []
    | some t => p.invocation m (Target.ofFile b t.info.path t.info.root) (Text.bytes content)
  | .hold b => [.enter b]
  | .release permit => [.release permit]
  | .workerDies b =>
    match p.current.get? b with
    | none => []
    | some i => [.die i]

theorem pass_workers (host : Host σ) (s : Session σ) (b : BufferId) (t : Attachment)
    (collect : NamespaceId → Batch → Batch × Nat) :
    (s.pass host b t collect).2.workers? = s.workers? := by
  unfold pass
  split
  · rfl
  · dsimp only
    split <;> rfl

theorem act_workers (host : Host σ) (s : Session σ) (a : Action) :
    (s.act host a).2.workers? = s.workers?.map fun p => p.run (s.workerEvents p a) := by
  cases a with
  | attach info =>
    simp only [workerEvents, Worker.Pool.run, List.foldl_nil, Option.map_id_fun', id]
    rcases ht : s.tableFor info.filetype with _ | ⟨table, s'⟩
    · simp only [act, attach, ht]
    · obtain ⟨tables, rfl⟩ := tableFor_some ht
      simp only [act, attach, ht]
  | detach b => rfl
  | tokens b t =>
    simp only [act, highlightTokens, workerEvents, Worker.Pool.run, List.foldl_nil,
      Option.map_id_fun', id]
    split
    · rfl
    · exact pass_workers host s b _ _
  | external m b content =>
    change (s.highlightExternal host m b content).session.workers? = _
    unfold highlightExternal
    split
    · rename_i hw
      rw [hw]
      rfl
    · rename_i p hw
      rw [hw]
      split
      · rename_i ht
        simp only [workerEvents, ht]
        exact hw
      · rename_i t ht
        simp only [workerEvents, ht, Option.map_some, ← Worker.Pool.invoke_pool]
        split
        · rfl
        · rfl
        · exact pass_workers host { s with workers? := some _ } b t _
  | hold b => rfl
  | release permit => rfl
  | workerDies b =>
    change (s.workers?.map fun p => p.processDied b) = _
    congr 1
    funext p
    exact p.processDied_eq b

def serving? (s : Session σ) (m : Worker.Moment) (b : BufferId) : Option Process := do
  let workers ← s.workers?
  let t ← s.attachment? b
  workers.servingFor? m (Target.ofFile b t.info.path t.info.root)

theorem serving?_eq_some {s : Session σ} {m : Worker.Moment} {b : BufferId} {q : Process}
    (h : s.serving? m b = some q) : ∃ p t, s.workers? = some p ∧ s.attachment? b = some t ∧
      p.servingFor? m (Target.ofFile b t.info.path t.info.root) = some q := by
  simp only [serving?, bind, Option.bind_eq_some_iff] at h
  obtain ⟨p, hp, t, ht, hq⟩ := h
  exact ⟨p, t, hp, ht, hq⟩

theorem invocation_unserved {s : Session σ} {m : Worker.Moment} {b : BufferId} {content : String}
    {i : Worker.Invocation} (h : s.serving? m b = none) (hi : s.invocation? m b content = some i) :
    i.reply = .ok none ∨ ∃ e, i.reply = .error e ∧ Slot.unsent e := by
  simp only [invocation?, bind, Option.bind_eq_some_iff] at hi
  obtain ⟨p, hp, t, ht, hi⟩ := hi
  cases hi
  have unserved : p.servingFor? m (Target.ofFile b t.info.path t.info.root) = none := by
    simpa [serving?, hp, ht] using h
  exact Worker.Pool.invoke_unserved unserved _

theorem act_buffer {s : Session σ} {a : Action} {b : BufferId} {info : BufferInfo}
    (h : (s.act host a).2.buffer? b = some info) :
    s.buffer? b = some info ∨ a = .attach info ∧ info.id = b := by
  cases act_effect host s a with
  | idle unsent quiet buffers untouched =>
    rw [buffer?, buffers] at h
    exact .inl h
  | attached action outcome buffers untouched =>
    rw [buffer?, buffers] at h
    split at h
    · rename_i hb
      cases h
      exact .inr ⟨action, hb.symm⟩
    · exact .inl h
  | detached action outcome buffers untouched =>
    rw [buffer?, buffers] at h
    split at h
    · cases h
    · exact .inl h
  | passed action outcome before buffers ends =>
    rw [buffer?, buffers] at h
    split at h
    · rename_i hb
      cases h
      have hbefore := buffer?_of_attachment before
      exact .inl (hb ▸ hbefore)
    · exact .inl h

/-- The step is an external pass over `b` that starts the process for what `b` is attached as. -/
structure Step.Launches (config : WorkerConfig) (t : Step σ) (b : BufferId) (info : BufferInfo)
    (q : Process) : Prop where
  attached : t.before.buffer? b = some info
  args : q.args = config.arguments (Target.ofFile b info.path info.root)
  launched : ∃ m content p, t.action = .external m b content ∧ t.before.workers? = some p ∧
    q.pid = p.exchanges ∧ m.launch config.binary q.args = .ok q.program

/-- The step attaches `b`, if at all, to the file and the root of `info`. -/
def Step.KeepsFile (t : Step σ) (b : BufferId) (info : BufferInfo) : Prop :=
  ∀ info', t.action = .attach info' → info'.id = b →
    info'.path = info.path ∧ info'.root = info.root

/-- The process has been started by a step of the past over `b`, which was not detached since. -/
def Origin (config : WorkerConfig) (s : Session σ) (past : List (Step σ)) (b : BufferId)
    (q : Process) : Prop :=
  ∃ later t earlier info, past = later ++ t :: earlier ∧ t.Launches config b info q ∧
    (∀ u ∈ later, u.action ≠ .detach b) ∧
    ((∀ u ∈ later, u.KeepsFile b info) →
      ∀ now, s.buffer? b = some now → now.path = info.path ∧ now.root = info.root)

theorem Step.Launches.same {config : WorkerConfig} {t : Step σ} {b : BufferId} {info : BufferInfo}
    {q q' : Process} (h : t.Launches config b info q) (same : q'.SameAs q) :
    t.Launches config b info q' where
  attached := h.attached
  args := same.args.trans h.args
  launched := by
    rw [same.pid, same.args, same.program]
    exact h.launched

namespace Origin

variable {config : WorkerConfig} {s : Session σ} {past : List (Step σ)} {b : BufferId}
  {q q' : Process}

theorem next (h : Origin config s past b q) (same : q'.SameAs q) {a : Action}
    (standing : a ≠ .detach b) :
    Origin config (s.act host a).2 (s.step host a :: past) b q' := by
  obtain ⟨later, t, earlier, info, rfl, launches, attached, kept⟩ := h
  have attached' : ∀ u ∈ s.step host a :: later, u.action ≠ .detach b := by
    intro u hu
    rcases List.mem_cons.mp hu with rfl | hu
    · exact standing
    · exact attached u hu
  have kept' (keeps : ∀ u ∈ s.step host a :: later, u.KeepsFile b info) (now : BufferInfo)
      (hnow : (s.act host a).2.buffer? b = some now) :
      now.path = info.path ∧ now.root = info.root := by
    rcases act_buffer hnow with hnow | ⟨ha, hb⟩
    · exact kept (fun u hu => keeps u (List.mem_cons_of_mem _ hu)) now hnow
    · exact keeps (s.step host a) List.mem_cons_self now ha hb
  exact ⟨s.step host a :: later, t, earlier, info, rfl, launches.same same, attached', kept'⟩

theorem launch {p : Worker.Pool} {t : Attachment} {m : Worker.Moment} {content : String}
    (hp : s.workers? = some p) (ht : s.attachment? b = some t)
    (launched : Slot.Launched config m p.exchanges (Target.ofFile b t.info.path t.info.root) q)
    (same : q'.SameAs q) :
    Origin config (s.act host (.external m b content)).2
      (s.step host (.external m b content) :: past) b q' := by
  have hbuffer := buffer?_of_attachment ht
  have launches : (s.step host (.external m b content)).Launches config b t.info q :=
    ⟨hbuffer, launched.args, m, content, p, rfl, hp, launched.pid,
      launched.args ▸ launched.program⟩
  have kept (now : BufferInfo)
      (hnow : (s.act host (.external m b content)).2.buffer? b = some now) :
      now.path = t.info.path ∧ now.root = t.info.root := by
    rcases act_buffer hnow with hnow | ⟨ha, -⟩
    · rw [hbuffer] at hnow
      cases hnow
      exact ⟨rfl, rfl⟩
    · cases ha
  exact ⟨[], _, past, t.info, rfl, launches.same same, by simp, fun _ => kept⟩

end Origin

/-- Every buffer has a slot of its own, and its process the origin it should have. -/
structure Staffed (config : WorkerConfig) (s : Session σ) (past : List (Step σ)) : Prop where
  settled : ∀ p, s.workers? = some p → p.config = config
  apart : ∀ p, s.workers? = some p → p.Apart
  origin : ∀ p b q, s.workers? = some p → p.processOf? b = some q → Origin config s past b q

namespace Staffed

variable {config : WorkerConfig} {s : Session σ} {past : List (Step σ)}

theorem initial {settings : Settings} {h : σ}
    (hc : WorkerConfig.ofSettings? settings.worker = some config) :
    Staffed config (start settings h) [] where
  settled p hp := by
    rw [start, hc] at hp
    cases hp
    rfl
  apart p hp := by
    rw [start, hc] at hp
    cases hp
    exact .initial config
  origin p b q hp hq := by
    rw [start, hc] at hp
    cases hp
    cases hq

theorem serving (hs : Staffed config s past) {p : Worker.Pool} {t : Attachment} {b : BufferId}
    {m : Worker.Moment} {content : String} {q q' : Process} (hp : s.workers? = some p)
    (ht : s.attachment? b = some t)
    (served : p.servingFor? m (Target.ofFile b t.info.path t.info.root) = some q)
    (same : q'.SameAs q) :
    Origin config (s.act host (.external m b content)).2
      (s.step host (.external m b content) :: past) b q' := by
  rcases Worker.Pool.servingFor_origin served with hq | launched
  · exact (hs.origin p b q hp hq).next same nofun
  · rw [hs.settled p hp] at launched
    exact .launch hp ht launched same

theorem quiet (hs : Staffed config s past) {p : Worker.Pool} (hp : s.workers? = some p)
    {e : Worker.Event} (he : ∀ m permit t request, e ≠ .exchange m permit t request) {a : Action}
    {b : BufferId} {q' : Process} (hd : a = .detach b → e = .shutdown b)
    (hq' : (p.after e).processOf? b = some q') :
    Origin config (s.act host a).2 (s.step host a :: past) b q' := by
  rcases Worker.Pool.after_processOf hq' with ⟨q, hq, same, standing⟩ | ⟨_, _, _, _, _, h, -⟩
  · exact (hs.origin p b q hp hq).next same fun ha => standing (hd ha)
  · exact absurd h (he _ _ _ _)

theorem origin_after (hs : Staffed config s past) {p : Worker.Pool} (hp : s.workers? = some p)
    {a : Action} {b : BufferId} {q' : Process}
    (hq' : (p.run (s.workerEvents p a)).processOf? b = some q') :
    Origin config (s.act host a).2 (s.step host a :: past) b q' := by
  cases a with
  | attach info => exact (hs.origin p b q' hp hq').next (.refl q') (by simp)
  | detach b' =>
    have shut (heq : Action.detach b' = .detach b) : Worker.Event.shutdown b' = .shutdown b := by
      rw [Action.detach.inj heq]
    exact hs.quiet hp (e := .shutdown b') (by simp) shut hq'
  | tokens b' t => exact (hs.origin p b q' hp hq').next (.refl q') (by simp)
  | external m b' content =>
    cases ht : s.attachment? b' with
    | none =>
      simp only [workerEvents, ht] at hq'
      exact (hs.origin p b q' hp hq').next (.refl q') (by simp)
    | some t =>
      simp only [workerEvents, ht, ← Worker.Pool.invoke_pool] at hq'
      rcases Worker.Pool.invoke_processOf (hs.apart p hp) hq' with
        ⟨q, hq, same⟩ | ⟨rfl, q, served, same⟩
      · exact (hs.origin p b q hp hq).next same (by simp)
      · exact hs.serving hp ht served same
  | hold b' => exact hs.quiet hp (e := .enter b') (by simp) (by simp) hq'
  | release permit => exact hs.quiet hp (e := .release permit) (by simp) (by simp) hq'
  | workerDies b' =>
    cases hc : p.current.get? b' with
    | none =>
      simp only [workerEvents, hc] at hq'
      exact (hs.origin p b q' hp hq').next (.refl q') (by simp)
    | some i =>
      simp only [workerEvents, hc] at hq'
      exact hs.quiet hp (e := .die i) (by simp) (by simp) hq'

theorem step (hs : Staffed config s past) (a : Action) :
    Staffed config (s.act host a).2 (s.step host a :: past) := by
  have workers (p' : Worker.Pool) (hp' : (s.act host a).2.workers? = some p') :
      ∃ p, s.workers? = some p ∧ p' = p.run (s.workerEvents p a) := by
    rw [act_workers, Option.map_eq_some_iff] at hp'
    obtain ⟨p, hp, rfl⟩ := hp'
    exact ⟨p, hp, rfl⟩
  constructor
  · intro p' hp'
    obtain ⟨p, hp, rfl⟩ := workers p' hp'
    rw [Worker.Pool.run_config, hs.settled p hp]
  · intro p' hp'
    obtain ⟨p, hp, rfl⟩ := workers p' hp'
    exact (hs.apart p hp).run _
  · intro p' b q' hp' hq'
    obtain ⟨p, hp, rfl⟩ := workers p' hp'
    exact hs.origin_after hp hq'

end Staffed

theorem external_buffer (host : Host σ) (s : Session σ) (m : Worker.Moment) (b b' : BufferId)
    (content : String) : (s.act host (.external m b content)).2.buffer? b' = s.buffer? b' := by
  cases act_effect host s (.external m b content) with
  | idle unsent quiet buffers untouched => rw [buffer?, buffers, buffer?]
  | attached action => cases action
  | detached action => cases action
  | passed action outcome before buffers ends =>
    rw [buffer?, buffers]
    split
    · rename_i hb
      rw [hb, buffer?_of_attachment before]
      rfl
    · rfl

theorem run_no_workers (s : Session σ) (as : List Action) (h : s.workers? = none) :
    (run host s as).workers? = none := by
  induction as generalizing s with
  | nil => exact h
  | cons a as ih => exact ih _ (by rw [act_workers, h, Option.map_none])

theorem arguments_eq_iff (config : WorkerConfig) (b : BufferId) (path path' root root' : String) :
    config.arguments (Target.ofFile b path' root') = config.arguments (Target.ofFile b path root) ↔
      path = path' ∧ root = root' := by
  simp only [WorkerConfig.arguments, Target.ofFile, List.cons.injEq, and_true, true_and]
  constructor
  · rintro ⟨hpath, -, hroot⟩
    exact ⟨hpath.symm, hroot.symm⟩
  · rintro ⟨rfl, rfl⟩
    exact ⟨rfl, rfl, rfl⟩

/-- A request that gets to no worker is dropped or fails before it is sent. One that gets to a worker
is answered by a process that a pass over the same buffer has started, this one or an earlier one
since which the buffer was not detached, with exactly the arguments for what the buffer was attached
as then. They are the arguments for what it is attached as now if and only if the file and the root
are the same, as they are if no attachment since then has changed them. -/
theorem served_as_attached (host : Host σ) (settings : Settings) (h : σ) (actions : List Action)
    (m : Worker.Moment) (b : BufferId) (content : String) :
    (∀ i, (run host (start settings h) actions).serving? m b = none →
      (run host (start settings h) actions).invocation? m b content = some i →
      i.reply = .ok none ∨ ∃ e, i.reply = .error e ∧ Slot.unsent e) ∧
    ∀ q, (run host (start settings h) actions).serving? m b = some q →
      ∃ config now, WorkerConfig.ofSettings? settings.worker = some config ∧
        (run host (start settings h) actions).buffer? b = some now ∧
        ((run host (start settings h) actions).invocation? m b content).map
            Worker.Invocation.reply =
          some ((Slot.answer (q.roundTrip config.readTimeout (Text.bytes content))).map some) ∧
        ∃ earlier t later info,
          trace host (start settings h) (actions ++ [.external m b content]) =
            earlier ++ t :: later ∧
          t.Launches config b info q ∧ (∀ u ∈ later, u.action ≠ .detach b) ∧
          (q.args = config.arguments (Target.ofFile b now.path now.root) ↔
            now.path = info.path ∧ now.root = info.root) ∧
          ((∀ u ∈ later, u.KeepsFile b info) → now.path = info.path ∧ now.root = info.root) := by
  constructor
  · intro i unserved hi
    exact invocation_unserved unserved hi
  intro q reached
  obtain ⟨p, t, hp, ht, served⟩ := serving?_eq_some reached
  have hbuffer := buffer?_of_attachment ht
  cases hc : WorkerConfig.ofSettings? settings.worker with
  | none =>
    rw [run_no_workers (start settings h) actions (by rw [start, hc]; rfl)] at hp
    cases hp
  | some config =>
    have hs : Staffed config (run host (start settings h) actions)
        (history host (start settings h) actions) :=
      run_induction host (fun _ _ a hs => hs.step a) (.initial hc) actions
    have hreply := Worker.Pool.invoke_reply served (Text.bytes content)
    rw [hs.settled p hp] at hreply
    have answered : ((run host (start settings h) actions).invocation? m b content).map
        Worker.Invocation.reply =
          some ((Slot.answer (q.roundTrip config.readTimeout (Text.bytes content))).map some) := by
      rw [invocation?, hp, ht]
      exact congrArg some hreply
    have origin : Origin config
        ((run host (start settings h) actions).act host (.external m b content)).2
        ((run host (start settings h) actions).step host (.external m b content) ::
          history host (start settings h) actions) b q := hs.serving hp ht served (.refl q)
    obtain ⟨later, u, earlier, info, hpast, launches, attached, kept⟩ := origin
    rw [← history_concat, history, List.reverse_eq_iff] at hpast
    refine ⟨config, t.info, rfl, hbuffer, answered, earlier.reverse, u, later.reverse, info, ?_,
      launches, ?_, ?_, ?_⟩
    · rw [hpast]
      simp
    · intro v hv
      exact attached v (List.mem_reverse.mp hv)
    · rw [launches.args]
      exact arguments_eq_iff config b _ _ _ _
    · intro keeps
      have hnow := (external_buffer host _ m b b content).trans hbuffer
      exact kept (fun v hv => keeps v (List.mem_reverse.mpr hv)) t.info hnow

/-- A file is highlighted by its worker and then saved under another name. -/
def savedElsewhere : List Action :=
  [.attach ⟨1, "c", "/p/a.c", "/p"⟩, .external readerMoment 1 "int bar();",
    .attach ⟨1, "c", "/q/b.c", "/q"⟩]

theorem savedElsewhere_serving :
    ∃ q, (run lineHost (start plainSettings {}) savedElsewhere).serving? readerMoment 1 = some q ∧
      q.args = ["taghl", "0", "/p/a.c", "/p", "/p"] := by
  have h : ((run lineHost (start plainSettings {}) savedElsewhere).serving? readerMoment 1).map
      Process.args = some ["taghl", "0", "/p/a.c", "/p", "/p"] := by decide +kernel
  obtain ⟨q, hq, hargs⟩ := Option.map_eq_some_iff.mp h
  exact ⟨q, hq, hargs⟩

theorem savedElsewhere_served_as_attached :
    ∃ config q earlier t later info,
      (run lineHost (start plainSettings {}) savedElsewhere).serving? readerMoment 1 = some q ∧
      trace lineHost (start plainSettings {})
        (savedElsewhere ++ [.external readerMoment 1 "int bar();"]) = earlier ++ t :: later ∧
      t.Launches config 1 info q ∧ ∀ u ∈ later, u.action ≠ .detach 1 := by
  obtain ⟨q, hq, -⟩ := savedElsewhere_serving
  obtain ⟨config, now, -, -, -, earlier, t, later, info, htrace, launches, standing, -⟩ :=
    (served_as_attached lineHost plainSettings {} savedElsewhere readerMoment 1 "int bar();").2 q hq
  exact ⟨config, q, earlier, t, later, info, hq, htrace, launches, standing⟩

/-- The worker of the file under its old name serves the file under its new one. -/
theorem attached_elsewhere_served_as_before :
    ∃ q config now,
      (run lineHost (start plainSettings {}) savedElsewhere).serving? readerMoment 1 = some q ∧
      WorkerConfig.ofSettings? plainSettings.worker = some config ∧
      (run lineHost (start plainSettings {}) savedElsewhere).buffer? 1 = some now ∧
      q.args ≠ config.arguments (Target.ofFile 1 now.path now.root) := by
  obtain ⟨q, hq, hargs⟩ := savedElsewhere_serving
  have hnow : (run lineHost (start plainSettings {}) savedElsewhere).buffer? 1 =
      some ⟨1, "c", "/q/b.c", "/q"⟩ := by decide +kernel
  exact ⟨q, _, _, hq, rfl, hnow, hargs ▸ by decide +kernel⟩

end SemanticHighlight.Session
