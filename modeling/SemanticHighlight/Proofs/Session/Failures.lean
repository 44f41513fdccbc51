import SemanticHighlight.Proofs.Host.Display
import SemanticHighlight.Proofs.Session.Calls

/-!
# What a failed operation leaves

An operation that fails before it gets to the host leaves every attachment as it was and makes no
call. One that the host fails is a pass: refused a namespace, it changes nothing either; with its
batch refused, it has handed over this one batch, and its buffer keeps the namespace that the pass
may have been given for it.
-/

set_option autoImplicit false

namespace SemanticHighlight.Session

variable {σ : Type} {host : Host σ}

/-- The same buffers are attached, each as the same file with the same table and namespace. -/
def SameBuffers (s s' : Session σ) : Prop := ∀ b, s'.attachment? b = s.attachment? b

def Error.isHost : Error → Bool
  | .host _ => true
  | _ => false

/-- The action has been dropped, or has failed for a reason that is not the host's. -/
def Outcome.isEarly : Outcome → Bool
  | .dropped => true
  | .failed e => !e.isHost
  | _ => false

theorem early_answered (ops : List Op) (u : Except HostError Unit) :
    (Outcome.ofSent (answered ops u)).isEarly = false := by
  cases u <;> rfl

theorem act_early {s : Session σ} {a : Action} (h : (s.act host a).1.isEarly) :
    SameBuffers s (s.act host a).2 ∧ s.calls host a = [] := by
  have he := logged_effect host s a
  generalize s.calls host a = log at he ⊢
  cases he with
  | idle unsent quiet buffers untouched => exact ⟨buffers, congrArg Prod.snd untouched⟩
  | attached action outcome =>
    rw [outcome] at h
    cases h
  | detached action outcome =>
    rw [outcome] at h
    cases h
  | passed action outcome before buffers ends =>
    rw [outcome] at h
    rcases ends.recorded with ⟨c, -, rfl, -⟩ | ⟨n, u, -, rfl, -⟩ | ⟨n, u, -, rfl, -⟩
    · cases h
    · rw [early_answered] at h
      cases h
    · rw [early_answered] at h
      cases h

/-- A pass over buffer `b` with the highlights `adds` that the host has failed, and the calls it has
made: it was refused a namespace, or its batch was refused, for a new namespace or for the one the
buffer had. -/
inductive Refused (b : BufferId) (adds : NamespaceId → List Op) (c : HostError) (s s' : Session σ) :
    List HostCall → Prop
  | create (unset : s.namespace? b = none) (kept : SameBuffers s s') :
    Refused b adds c s s' [.create b (.error c)]
  | first {t : Attachment} {n : NamespaceId} (before : s.attachment? b = some t)
    (unset : t.space? = none)
    (buffers : ∀ b', s'.attachment? b' =
      if b' = b then some { t with space? := some n } else s.attachment? b') :
    Refused b adds c s s' [.create b (.ok n), .batch (adds n) (.error c)]
  | later {n : NamespaceId} (set : s.namespace? b = some n) (kept : SameBuffers s s') :
    Refused b adds c s s' [.batch (.clearAll b n :: adds n) (.error c)]

theorem answered_error {ops : List Op} {u : Except HostError Unit} {c : HostError}
    (h : Outcome.ofSent (answered ops u) = .failed (.host c)) : u = .error c := by
  cases u with
  | ok => cases h
  | error c' =>
    cases h
    rfl

theorem highlights_logged (s : Session σ) (log : List HostCall) (space : NamespaceId) (a : Action) :
    (s.logged log).highlights space a = s.highlights space a := by
  cases a <;> rfl

theorem act_refused {s : Session σ} {a : Action} {c : HostError}
    (h : (s.act host a).1 = .failed (.host c)) :
    ∃ b, a.passOn? = some b ∧
      Refused b (s.highlights · a) c s (s.act host a).2 (s.calls host a) := by
  have he := logged_effect host s a
  generalize s.calls host a = log at he ⊢
  cases he with
  | idle unsent quiet => exact absurd h (quiet c)
  | attached action outcome =>
    rw [outcome] at h
    cases h
  | detached action outcome =>
    rw [outcome] at h
    cases h
  | @passed b t r space? action outcome before buffers ends =>
    simp only [attachment?_logged, highlights_logged] at before buffers ends
    rw [outcome] at h
    have kept (hk : space? = t.space?) : SameBuffers s (s.act host a).2 := by
      subst hk
      intro b'
      rw [buffers]
      split
      · rename_i hb
        rw [hb, before]
      · rfl
    refine ⟨b, action, ?_⟩
    rcases ends.recorded with ⟨c', rfl, rfl, h₀, h₁⟩ | ⟨n, u, rfl, rfl, h₀, h₁⟩ |
      ⟨n, u, rfl, rfl, h₀, h₁⟩
    · cases h
      exact .create ((namespace?_of_attachment before).trans h₀) (kept (h₁.trans h₀.symm))
    · subst h₁
      obtain rfl := answered_error h
      exact .first before h₀ buffers
    · obtain rfl := answered_error h
      exact .later ((namespace?_of_attachment before).trans h₀) (kept (h₁.trans h₀.symm))

/-- An action that is dropped, or fails for a reason that is not the host's, leaves all attachments
as they were and makes no call. One that the host fails is a pass over one buffer; refused a
namespace it has sent no batch and changes no attachment, and with its batch refused it has sent this
batch only, and gives at most its own buffer the namespace it has just been given. -/
theorem failure_leaves_buffers (host : Host σ) (s : Session σ) (a : Action) :
    ((s.act host a).1.isEarly → SameBuffers s (s.act host a).2 ∧ s.calls host a = []) ∧
    ∀ c, (s.act host a).1 = .failed (.host c) →
      ∃ b, a.passOn? = some b ∧
        Refused b (s.highlights · a) c s (s.act host a).2 (s.calls host a) :=
  ⟨act_early, fun _ => act_refused⟩

def refusedOnce : Session Screen :=
  run screenHost (start plainSettings { refusals := [true] }) [.attach ⟨1, "c", "/p/a.c", "/p"⟩]

def attachAsGo : Action := .attach ⟨1, "go", "/p/a.go", "/p"⟩

theorem refusedOnce_failures :
    (refusedOnce.act screenHost attachAsGo).1 = .failed (.unknownLanguage "go") ∧
    SameBuffers refusedOnce (refusedOnce.act screenHost attachAsGo).2 ∧
    refusedOnce.calls screenHost attachAsGo = [] ∧
    Refused 1 (refusedOnce.highlights · (.tokens 1 structName)) (.rejected "no namespace")
      refusedOnce (refusedOnce.act screenHost (.tokens 1 structName)).2
      (refusedOnce.calls screenHost (.tokens 1 structName)) := by
  have unknown : (refusedOnce.act screenHost attachAsGo).1 = .failed (.unknownLanguage "go") := by
    decide +kernel
  have refused : (refusedOnce.act screenHost (.tokens 1 structName)).1 =
      .failed (.host (.rejected "no namespace")) := by decide +kernel
  have early := (failure_leaves_buffers screenHost refusedOnce attachAsGo).1 (by rw [unknown]; rfl)
  obtain ⟨b, hb, passed⟩ := (failure_leaves_buffers screenHost refusedOnce _).2 _ refused
  cases hb
  exact ⟨unknown, early.1, early.2, passed⟩

end SemanticHighlight.Session
