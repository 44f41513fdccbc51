import Mathlib.Data.List.Nodup
import Mathlib.Logic.Equiv.Fintype
import SemanticHighlight.Proofs.Session.Mirror

/-!
# Buffers do not disturb each other

On a host that accepts every call, what a session does for a buffer is what it would do if the other
buffers were not there, but for the names of the namespaces. Any run is compared with a run of the
operations on this buffer alone, on a host that numbers the namespaces; so any two runs with the
same operations on the buffer agree.
-/

set_option autoImplicit false

namespace SemanticHighlight.Session

variable {σ τ : Type} {host : Host σ} {ready : σ → Prop} {ρ : NamespaceId → NamespaceId}
  {b : BufferId}

def stepsOn (b : BufferId) (steps : List (Step σ)) : List (Step σ) :=
  steps.filter (·.action.on? = some b)

def sentFor (host : Host σ) (b : BufferId) (steps : List (Step σ)) : List HostCall :=
  (stepsOn b steps).flatMap (Step.calls host)

theorem mem_granted {n : NamespaceId} {calls : List HostCall} :
    n ∈ calls.filterMap (HostCall.granted? b) ↔ .create b (.ok n) ∈ calls := by
  rw [List.mem_filterMap]
  constructor
  · rintro ⟨call, hcall, h⟩
    unfold HostCall.granted? at h
    split at h
    · split at h
      · rename_i hb
        cases h
        exact hb ▸ hcall
      · cases h
    · cases h
  · intro h
    exact ⟨_, h, by simp [HostCall.granted?]⟩

theorem granted_rename (ρ : NamespaceId → NamespaceId) (b : BufferId) (calls : List HostCall) :
    (calls.map (HostCall.rename ρ)).filterMap (HostCall.granted? b) =
      (calls.filterMap (HostCall.granted? b)).map ρ := by
  rw [List.filterMap_map, List.map_filterMap]
  congr 1
  funext call
  cases call with
  | create b' answer =>
    cases answer with
    | error e => rfl
    | ok n =>
      simp only [Function.comp_apply, HostCall.rename, Except.map, HostCall.granted?]
      split <;> rfl
  | batch ops answer => rfl

theorem act_granted_once (host : Host σ) (s : Session σ) (a : Action) (b : BufferId) :
    ((s.calls host a).filterMap (HostCall.granted? b)).length ≤ 1 := by
  have hc := act_calls host s a
  generalize s.calls host a = calls at hc
  cases hc with
  | silent => exact Nat.zero_le 1
  | refused => exact Nat.zero_le 1
  | first =>
    rw [List.filterMap_cons]
    split
    · exact Nat.zero_le 1
    · exact Nat.le_refl 1
  | later => exact Nat.zero_le 1

theorem granted_cons (host : Host σ) (b : BufferId) (s : Session σ) (a : Action) (as : List Action) :
    granted host b (trace host s (a :: as)) =
      (s.calls host a).filterMap (HostCall.granted? b) ++
        granted host b (trace host (s.act host a).2 as) := rfl

theorem stepsOn_own {s : Session σ} {a : Action} (ha : a.on? = some b) (as : List Action) :
    stepsOn b (trace host s (a :: as)) =
      s.step host a :: stepsOn b (trace host (s.act host a).2 as) :=
  List.filter_cons_of_pos (by simp [step, ha])

theorem stepsOn_other {s : Session σ} {a : Action} (ha : a.on? ≠ some b) (as : List Action) :
    stepsOn b (trace host s (a :: as)) = stepsOn b (trace host (s.act host a).2 as) :=
  List.filter_cons_of_neg (by simp [step, ha])

/-- The run of `s` gives back and sends for the buffer what the run of `c` does that takes only the
operations on the buffer; `ρ` gives the namespaces of the one for those of the other. -/
theorem Mirrors.run {s : Session σ} {c : Session Nat} (hm : Mirrors ρ b s c) (hs : s.Sound)
    (hc : c.Sound) (accepts : host.Accepts ready) (hr : ready s.host) {as : List Action}
    (operations : ∀ a ∈ as, a.on?.isSome)
    (new : ∀ i n, (granted host b (trace host s as))[i]? = some n → n = ρ (c.host + i : Nat)) :
    let own := as.filter (·.on? = some b)
    (stepsOn b (trace host s as)).map Step.answer = (trace ordinalHost c own).map Step.answer ∧
    sentFor host b (trace host s as) =
      ((trace ordinalHost c own).flatMap (Step.calls ordinalHost)).map (HostCall.rename ρ) ∧
    Mirrors ρ b (run host s as) (run ordinalHost c own) := by
  induction as generalizing s c with
  | nil => exact ⟨rfl, rfl, hm⟩
  | cons a as ih =>
    obtain ⟨b', ha⟩ := Option.isSome_iff_exists.mp (operations a List.mem_cons_self)
    have rest : ∀ a ∈ as, a.on?.isSome := fun a' h => operations a' (List.mem_cons_of_mem a h)
    rw [granted_cons] at new
    by_cases hb : b = b'
    · subst hb
      -- a namespace given now is the first of those `new` speaks of
      have first (n : NamespaceId) (h : .create b (.ok n) ∈ s.calls host a) : n = ρ c.host := by
        have once := act_granted_once host s a b
        obtain ⟨i, hi, here⟩ := List.getElem_of_mem (mem_granted.mpr h)
        obtain rfl : i = 0 := by omega
        refine new 0 n ?_
        rw [List.getElem?_append_left hi, List.getElem?_eq_getElem hi, here]
      have same := hm.act_own hs hc accepts hr ha first
      have count : ((s.calls host a).filterMap (HostCall.granted? b)).length =
          ((c.calls ordinalHost a).filterMap (HostCall.granted? b)).length := by
        rw [same.calls, granted_rename, List.length_map]
      -- the host that numbers has counted it, so `new` holds from the next one on
      have later := ih same.mirrors (hs.act host a) (hc.act ordinalHost a) (act_ready accepts hr a)
        rest (fun i n h => by
          rw [same.counted, ← count, Nat.add_assoc]
          refine new _ n ?_
          rw [List.getElem?_append_right (Nat.le_add_right _ _), Nat.add_sub_cancel_left, h])
      obtain ⟨answers, sent, mirrors⟩ := later
      have taken : (a :: as).filter (·.on? = some b) = a :: as.filter (·.on? = some b) :=
        List.filter_cons_of_pos (by simp [ha])
      rw [taken, sentFor, stepsOn_own ha]
      refine ⟨?_, ?_, mirrors⟩
      · rw [List.map_cons, same.answer, answers]
        rfl
      · rw [List.flatMap_cons, trace, List.flatMap_cons, List.map_append]
        exact congrArg₂ (· ++ ·) same.calls sent
    · have other : a.on? ≠ some b := by simp [ha, Ne.symm hb]
      rw [granted_other host s other, List.nil_append] at new
      have later := ih (hm.act_other hs ha hb) (hs.act host a) hc (act_ready accepts hr a) rest new
      have passed : (a :: as).filter (·.on? = some b) = as.filter (·.on? = some b) :=
        List.filter_cons_of_neg (by simp [other])
      rw [passed, sentFor, stepsOn_other other]
      exact later

def nth (spaces : List NamespaceId) (n : NamespaceId) : NamespaceId := spaces.getD n.toNat 0

theorem nth_granted {spaces : List NamespaceId} {i : Nat} {n : NamespaceId}
    (h : spaces[i]? = some n) : nth spaces (i : Nat) = n := by
  simp [nth, List.getD, h]

theorem exists_renaming {spaces spaces' : List NamespaceId} (distinct : spaces.Nodup)
    (distinct' : spaces'.Nodup) (length : spaces.length = spaces'.length) :
    ∃ ρ : Equiv.Perm NamespaceId, ∀ i n, spaces[i]? = some n → n = ρ (nth spaces' (i : Nat)) := by
  obtain ⟨ρ, hρ⟩ := Equiv.Perm.exists_extending_pair (spaces'.get ∘ Fin.cast length) spaces.get
    (distinct'.injective_get.comp (Fin.cast_injective length)) distinct.injective_get
  refine ⟨ρ, fun i n h => ?_⟩
  obtain ⟨hi, rfl⟩ := List.getElem?_eq_some_iff.mp h
  have here : spaces'[i]? = some (spaces'.get ⟨i, length ▸ hi⟩) := List.getElem?_eq_getElem _
  rw [nth_granted here]
  exact (hρ ⟨i, hi⟩).symm

theorem granted_sent (host : Host σ) (b : BufferId) (s : Session σ) (as : List Action) :
    granted host b (trace host s as) =
      (sentFor host b (trace host s as)).filterMap (HostCall.granted? b) := by
  induction as generalizing s with
  | nil => rfl
  | cons a as ih =>
    rw [granted_cons, ih, sentFor, sentFor]
    by_cases ha : a.on? = some b
    · rw [stepsOn_own ha, List.flatMap_cons, List.filterMap_append]
      rfl
    · rw [stepsOn_other ha, granted_other host s ha, List.nil_append]

theorem Mirrors.buffer {s : Session σ} {c : Session τ} (hm : Mirrors ρ b s c) :
    s.buffer? b = c.buffer? b := by
  rw [buffer?, hm.attachment, Option.map_map]
  rfl

theorem Mirrors.comp {s : Session σ} {s' : Session τ} {c : Session Nat}
    {ρ' : NamespaceId → NamespaceId} (hm : Mirrors (ρ ∘ ρ') b s c) (hm' : Mirrors ρ' b s' c) :
    s.attachment? b = (s'.attachment? b).map (Attachment.rename ρ) := by
  rw [hm.attachment, hm'.attachment, Option.map_map]
  congr 1
  funext t
  simp [Attachment.rename]

theorem follows_numbered (accepts : host.Accepts ready) (settings : Settings) {h : σ}
    (hr : ready h) {actions : List Action} (operations : ∀ a ∈ actions, a.on?.isSome)
    (new : ∀ i n, (granted host b (trace host (start settings h) actions))[i]? = some n →
      n = ρ (i : Nat)) :
    let own := actions.filter (·.on? = some b)
    (stepsOn b (trace host (start settings h) actions)).map Step.answer =
      (trace ordinalHost (start settings 0) own).map Step.answer ∧
    sentFor host b (trace host (start settings h) actions) =
      ((trace ordinalHost (start settings 0) own).flatMap (Step.calls ordinalHost)).map
        (HostCall.rename ρ) ∧
    Mirrors ρ b (run host (start settings h) actions) (run ordinalHost (start settings 0) own) := by
  have initial : Mirrors ρ b (start settings h) (start settings (0 : Nat)) := ⟨rfl, rfl, rfl, rfl⟩
  refine initial.run (sound_start settings h) (sound_start settings 0) accepts hr operations ?_
  intro i n hn
  rw [new i n hn]
  simp [start]

/-- On a host that accepts every call, a run of session operations and the run of those of them that
are on one buffer agree on this buffer: its operations give back the same, it is attached as the
same file and has the same worker, and the same calls are made for it, with the first, second, …
namespace that it was given in the one run for the one in the other. As every namespace is to be a
fresh one, the buffer is given none twice; then the namespaces of the one run are those of the other
renamed. -/
theorem buffer_isolated (host : Host σ) (accepts : host.Accepts ready) (settings : Settings) (h : σ)
    (hr : ready h) (actions : List Action) (operations : ∀ a ∈ actions, a.on?.isSome)
    (b : BufferId) :
    let own := actions.filter (·.on? = some b)
    let all := trace host (start settings h) actions
    let alone := trace host (start settings h) own
    let last := run host (start settings h) actions
    let last' := run host (start settings h) own
    (stepsOn b all).map Step.answer = (stepsOn b alone).map Step.answer ∧
    last.buffer? b = last'.buffer? b ∧ last.workerOf b = last'.workerOf b ∧
    (∃ calls : List HostCall,
      sentFor host b all = calls.map (HostCall.rename (nth (granted host b all))) ∧
      sentFor host b alone = calls.map (HostCall.rename (nth (granted host b alone)))) ∧
    ((granted host b all).Nodup → (granted host b alone).Nodup →
      ∃ ρ : NamespaceId → NamespaceId, Function.Injective ρ ∧
        sentFor host b all = (sentFor host b alone).map (HostCall.rename ρ) ∧
        last.attachment? b = (last'.attachment? b).map (Attachment.rename ρ)) := by
  intro own all alone last last'
  have numbered {as : List Action} (i : Nat) (n : NamespaceId)
      (hn : (granted host b (trace host (start settings h) as))[i]? = some n) :
      n = nth (granted host b (trace host (start settings h) as)) (i : Nat) := (nth_granted hn).symm
  have ownOperations : ∀ a ∈ own, a.on?.isSome := fun a ha =>
    operations a (List.mem_of_mem_filter ha)
  obtain ⟨answers, sent, mirrors⟩ := follows_numbered accepts settings hr operations numbered
  obtain ⟨answers', sent', mirrors'⟩ := follows_numbered accepts settings hr ownOperations numbered
  have ownOwn : own.filter (·.on? = some b) = own := by
    rw [List.filter_filter]
    simp [own]
  rw [ownOwn] at answers' sent' mirrors'
  refine ⟨answers.trans answers'.symm, mirrors.buffer.trans mirrors'.buffer.symm,
    mirrors.worker.trans mirrors'.worker.symm, ⟨_, sent, sent'⟩, ?_⟩
  intro distinct distinct'
  have length : (granted host b all).length = (granted host b alone).length := by
    have count := (granted_sent host b _ _).trans (congrArg (List.filterMap _) sent)
    have count' := (granted_sent host b _ _).trans (congrArg (List.filterMap _) sent')
    rw [count, count', granted_rename, granted_rename, List.length_map, List.length_map]
  obtain ⟨ρ, renamed⟩ := exists_renaming distinct distinct' length
  obtain ⟨-, sent₁, mirrors₁⟩ := follows_numbered (ρ := ρ ∘ nth (granted host b alone)) accepts
    settings hr operations renamed
  refine ⟨ρ, ρ.injective, ?_, mirrors₁.comp mirrors'⟩
  rw [sent₁, sent', List.map_map]
  congr 1
  funext call
  exact (HostCall.rename_rename ρ _ call).symm

theorem lineHost_accepts :
    lineHost.Accepts fun h => h.sink.room = none ∧ h.sink.flushFailure = none where
  create _ _ hr := ⟨_, _, rfl, hr⟩
  call ops h hr := by
    have write : h.sink.write (Text.bytes (LineHost.line ops)) =
        (.ok (), { h.sink with written := h.sink.written ++ Text.bytes (LineHost.line ops) }) := by
      unfold Sink.write
      split
      · rfl
      · rename_i full
        rw [hr.1] at full
        cases full
    refine ⟨{ h with
      sink := { h.sink with written := h.sink.written ++ Text.bytes (LineHost.line ops) } }, ?_, hr⟩
    simp only [lineHost, LineHost.callAtomic, write, Sink.flush, hr.2]

def interleaved : List Action :=
  [.attach ⟨1, "c", "/p/a.c", "/p"⟩, .attach ⟨2, "c", "/p/b.c", "/p"⟩, .tokens 2 structName,
    .tokens 1 structName, .external readerMoment 2 "int bar();", .detach 2,
    .external readerMoment 1 "int bar();"]

theorem interleaved_renamed :
    granted lineHost 1 (trace lineHost (start plainSettings {}) interleaved) = [2] ∧
    granted lineHost 1 (trace lineHost (start plainSettings {})
      (interleaved.filter (·.on? = some 1))) = [1] ∧
    ∃ ρ : NamespaceId → NamespaceId, Function.Injective ρ ∧
      sentFor lineHost 1 (trace lineHost (start plainSettings {}) interleaved) =
        (sentFor lineHost 1 (trace lineHost (start plainSettings {})
          (interleaved.filter (·.on? = some 1)))).map (HostCall.rename ρ) := by
  have given : granted lineHost 1 (trace lineHost (start plainSettings {}) interleaved) = [2] := by
    decide +kernel
  have given' : granted lineHost 1 (trace lineHost (start plainSettings {})
      (interleaved.filter (·.on? = some 1))) = [1] := by decide +kernel
  have operations : ∀ a ∈ interleaved, a.on?.isSome := by simp [interleaved, Action.on?]
  obtain ⟨-, -, -, -, fresh⟩ := buffer_isolated lineHost lineHost_accepts plainSettings {}
    ⟨rfl, rfl⟩ interleaved operations 1
  obtain ⟨ρ, injective, sent, -⟩ := fresh (by rw [given]; decide) (by rw [given']; decide)
  exact ⟨given, given', ρ, injective, sent⟩

end SemanticHighlight.Session
