import SemanticHighlight.Proofs.Host.Display
import SemanticHighlight.Proofs.Session.Run

/-!
# What the host holds for an attached buffer

At every point of a run, the highlights that the host holds under an attached buffer and its
namespace are those of the last pass over the buffer that returned success. Nothing else about the
run matters: not the passes that failed at the worker, at the namespace or at the batch, not what
the buffer was attached as before, and not what other buffers did.
-/

set_option autoImplicit false

namespace SemanticHighlight.Session

variable {σ : Type} {host : Host σ} {d : Display σ}

/-- The highlights of the last pass over a buffer that returned success since the buffer has a
namespace; the last step comes first. -/
def lastShown (b : BufferId) (space : NamespaceId) : List (Step σ) → List Op
  | [] => []
  | t :: past =>
    if t.after.namespace? b ≠ some space then []
    else if t.action.passOn? = some b ∧ t.outcome.isSent then t.before.highlights space t.action
    else lastShown b space past

namespace PassEnd

variable {b : BufferId} {adds : NamespaceId → List Op} {space? space?' : Option NamespaceId}
  {h h' : σ} {r : Except Error Nat}

theorem handed_out_kept (hd : host.Shows d) (e : PassEnd host b adds space? h r space?' h')
    {n : NamespaceId} (hn : d.handedOut h n) : d.handedOut h' n := by
  cases e with
  | refused create => exact hd.create_kept create hn
  | firstFailed create flush => exact hd.call_kept flush (hd.create_kept create hn)
  | first create flush => exact hd.call_kept flush (hd.create_kept create hn)
  | laterFailed flush => exact hd.call_kept flush hn
  | later flush => exact hd.call_kept flush hn

theorem namespace_origin (hd : host.Shows d) (e : PassEnd host b adds space? h r space?' h')
    {n : NamespaceId} (hn : space?' = some n) :
    space? = some n ∨ space? = none ∧ ¬d.handedOut h n ∧ d.handedOut h' n := by
  cases e with
  | refused => cases hn
  | firstFailed create flush =>
    cases hn
    have hnew := hd.created_new create
    exact .inr ⟨rfl, hnew.1, hd.call_kept flush hnew.2⟩
  | first create flush =>
    cases hn
    have hnew := hd.created_new create
    exact .inr ⟨rfl, hnew.1, hd.call_kept flush hnew.2⟩
  | laterFailed => exact .inl hn
  | later => exact .inl hn

theorem held_frame (hd : host.Shows d) (hadds : ∀ n, ∀ op ∈ adds n, op.AddsTo b n)
    (e : PassEnd host b adds space? h r space?' h') {b' : BufferId} {n : NamespaceId}
    (hne : ¬(b' = b ∧ space?' = some n)) : d.held h' b' n = d.held h b' n := by
  have off : ∀ m, space?' = some m → ∀ op ∈ adds m, ¬(op.buffer = b' ∧ op.space = n) := by
    rintro m hm op hop ⟨rfl, rfl⟩
    have hto := hadds m op hop
    exact hne ⟨hto.2.1, hto.2.2 ▸ hm⟩
  have offClear : ∀ m, space?' = some m → ∀ op ∈ Op.clearAll b m :: adds m,
      ¬(op.buffer = b' ∧ op.space = n) := by
    intro m hm op hop
    rcases List.mem_cons.mp hop with rfl | hop
    · rintro ⟨rfl, rfl⟩
      exact hne ⟨rfl, hm⟩
    · exact off m hm op hop
  cases e with
  | refused create => rw [hd.create_held create]
  | firstFailed create flush =>
    rw [hd.call_frame flush b' n (off _ rfl), hd.create_held create]
  | first create flush => rw [hd.call_frame flush b' n (off _ rfl), hd.create_held create]
  | laterFailed flush => exact hd.call_frame flush b' n (offClear _ rfl)
  | later flush => exact hd.call_frame flush b' n (offClear _ rfl)

theorem held_failed (hd : host.Shows d) {c : Error}
    (e : PassEnd host b adds space? h (.error c) space?' h') : d.held h' = d.held h := by
  cases e with
  | refused create => exact hd.create_held create
  | firstFailed create flush => rw [hd.unapplied flush, hd.create_held create]
  | laterFailed flush => exact hd.unapplied flush

theorem held_sent (hd : host.Shows d) (hadds : ∀ n, ∀ op ∈ adds n, op.AddsTo b n)
    (blank : ∀ n, ¬d.handedOut h n → d.held h b n = []) {count : Nat} {n : NamespaceId}
    (e : PassEnd host b adds space? h (.ok count) (some n) h') : d.held h' b n = adds n := by
  cases e with
  | first create flush =>
    rw [hd.applied flush, Display.apply_adds d _ _ b n (hadds n), hd.create_held create,
      blank n (hd.created_new create).1, List.nil_append]
  | later flush => rw [hd.applied flush, hd.clear_then_adds _ _ b n (hadds n)]

end PassEnd

/-- What ties a session to its host at each point of a run. -/
structure InView (d : Display σ) (s : Session σ) (past : List (Step σ)) : Prop where
  blank : ∀ b n, ¬d.handedOut s.host n → d.held s.host b n = []
  issued : ∀ b n, s.namespace? b = some n → d.handedOut s.host n
  shown : ∀ b n, lastShown b n past =
    if s.namespace? b = some n then d.held s.host b n else []

namespace InView

theorem initial (settings : Settings) {h : σ} (blank : ∀ b n, ¬d.handedOut h n → d.held h b n = []) :
    InView d (start settings h) [] where
  blank := blank
  issued b n hn := by cases hn
  shown b n := rfl

theorem kept {s : Session σ} {past : List (Step σ)} (hv : InView d s past) {t : Step σ}
    (untouched : t.after.host = s.host) (unsent : t.outcome.isSent = false)
    (names : ∀ b n, t.after.namespace? b = some n → s.namespace? b = some n) :
    InView d t.after (t :: past) where
  blank b n hn := by
    rw [untouched] at hn ⊢
    exact hv.blank b n hn
  issued b n hn := by
    rw [untouched]
    exact hv.issued b n (names b n hn)
  shown b n := by
    by_cases hn : t.after.namespace? b = some n
    · simp [lastShown, hn, unsent, hv.shown, names b n hn, untouched]
    · simp [lastShown, hn]

theorem passed (hd : host.Shows d) {s : Session σ} {past : List (Step σ)} (hv : InView d s past)
    {t : Step σ} {b : BufferId} {r : Except Error Nat} {space?' : Option NamespaceId}
    (before : t.before = s) (pass : t.action.passOn? = some b) (outcome : t.outcome = .ofSent r)
    (names : ∀ b', t.after.namespace? b' = if b' = b then space?' else s.namespace? b')
    (e : PassEnd host b (s.highlights · t.action) (s.namespace? b) s.host r space?' t.after.host) :
    InView d t.after (t :: past) where
  blank b' n hn := by
    have hfresh := fun h => hn (e.handed_out_kept hd h)
    rw [e.held_frame hd (fun _ => highlights_add_to pass), hv.blank b' n hfresh]
    rintro ⟨rfl, rfl⟩
    rcases e.namespace_origin hd rfl with h | h
    · exact hfresh (hv.issued b' n h)
    · exact hn h.2.2
  issued b' n hn := by
    rw [names b'] at hn
    split at hn
    · rename_i hb
      subst hb
      rcases e.namespace_origin hd hn with h | h
      · exact e.handed_out_kept hd (hv.issued b' n h)
      · exact h.2.2
    · exact e.handed_out_kept hd (hv.issued b' n hn)
  shown b' n := by
    by_cases hn : t.after.namespace? b' = some n
    · simp only [lastShown, hn, ne_eq, not_true_eq_false, if_false, if_true, before]
      rw [names b'] at hn
      by_cases hb : b' = b
      · subst hb
        rw [if_pos rfl] at hn
        subst hn
        cases r with
        | ok count =>
          rw [if_pos ⟨pass, by rw [outcome]; rfl⟩]
          exact (e.held_sent hd (fun _ => highlights_add_to pass) (hv.blank b')).symm
        | error c =>
          rw [if_neg (by simp [outcome, Outcome.ofSent, Outcome.isSent]), e.held_failed hd, hv.shown]
          split
          · rfl
          · rename_i hne
            rcases e.namespace_origin hd rfl with h | h
            · exact absurd h hne
            · exact (hv.blank b' n h.2.1).symm
      · rw [if_neg hb] at hn
        rw [if_neg (by simp [pass, Ne.symm hb]), hv.shown, if_pos hn,
          e.held_frame hd (fun _ => highlights_add_to pass) (by simp [hb])]
    · simp [lastShown, hn]

theorem step (hd : host.Shows d) {s : Session σ} {past : List (Step σ)} (hv : InView d s past)
    (a : Action) : InView d (s.act host a).2 (s.step host a :: past) := by
  cases act_effect host s a with
  | idle unsent quiet buffers untouched =>
    exact hv.kept (t := s.step host a) untouched unsent fun b n h => by
      simpa [Session.step, namespace?, buffers] using h
  | attached action outcome buffers untouched =>
    exact hv.kept (t := s.step host a) untouched
      (by simp [Session.step, outcome, Outcome.isSent])
      fun b n h => namespace?_attached buffers b ▸ h
  | detached action outcome buffers untouched =>
    exact hv.kept (t := s.step host a) untouched
      (by simp [Session.step, outcome, Outcome.isSent]) fun b' n h => namespace?_detached buffers h
  | @passed b t r space?' action outcome before buffers ends =>
    rw [← namespace?_of_attachment before] at ends
    exact passed hd hv (t := s.step host a) rfl action outcome (namespace?_update buffers) ends

theorem run (hd : host.Shows d) (settings : Settings) {h : σ}
    (blank : ∀ b n, ¬d.handedOut h n → d.held h b n = []) (actions : List Action) :
    InView d (Session.run host (start settings h) actions)
      (history host (start settings h) actions) :=
  run_induction host (fun _ _ a hv => hv.step hd a) (initial settings blank) actions

end InView

/-- At every point of a run, the host holds under an attached buffer and its namespace exactly the
highlights computed by the last pass over the buffer that returned success since the namespace was
assigned, and none if there was no such pass. -/
theorem held_eq_last_shown (host : Host σ) (d : Display σ) (hd : host.Shows d) (settings : Settings)
    (h : σ) (blank : ∀ b n, ¬d.handedOut h n → d.held h b n = []) (actions : List Action)
    (b : BufferId) (n : NamespaceId)
    (attached : (run host (start settings h) actions).namespace? b = some n) :
    d.held (run host (start settings h) actions).host b n =
      lastShown b n (history host (start settings h) actions) := by
  rw [(InView.run hd settings blank actions).shown, if_pos attached]

def refusingScreen : Screen := { refusals := [false, true, false, true] }

def mixedPasses : List Action :=
  [.attach ⟨1, "c", "/p/a.c", "/p"⟩, .tokens 1 structName,
    .external readerMoment 1 "int bar();",
    .attach ⟨1, "c", "/p/b.c", "/p"⟩, .tokens 1 structName]

theorem held_between_refused_batches :
    (run screenHost (start plainSettings refusingScreen) mixedPasses).namespace? 1 = some 1 ∧
      Screen.display.held (run screenHost (start plainSettings refusingScreen) mixedPasses).host 1 1 =
        [.add 1 1 "Function" 7 0 3] := by
  have attached : (run screenHost (start plainSettings refusingScreen) mixedPasses).namespace? 1 =
      some 1 := by decide +kernel
  have shown := held_eq_last_shown screenHost Screen.display screen_shows plainSettings
    refusingScreen (fun _ _ _ => rfl) mixedPasses 1 1 attached
  exact ⟨attached, shown.trans (by decide +kernel)⟩

end SemanticHighlight.Session
