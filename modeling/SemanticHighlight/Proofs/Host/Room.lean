import SemanticHighlight.Proofs.Session.Namespaces
import SemanticHighlight.Proofs.Sink

/-!
# Lines written into limited room

A host that writes into a sink with limited room answers each batch by whether all lines up to its
own fit in there together. What is written are the first bytes of all lines, so after a line that is
cut short no later batch is reported as sent. The namespaces are counted whatever becomes of the
batches.
-/

set_option autoImplicit false

namespace SemanticHighlight

inductive HostRequest where
  | create (buffer : BufferId)
  | batch (ops : List Op)

namespace HostRequest

def buffer? : HostRequest → Option BufferId
  | create b => some b
  | batch _ => none

def ops? : HostRequest → Option (List Op)
  | create _ => none
  | batch ops => some ops

end HostRequest

namespace HostCall

def request : HostCall → HostRequest
  | create b _ => .create b
  | batch ops _ => .batch ops

def namespaceAnswer? : HostCall → Option (Except HostError NamespaceId)
  | create _ r => some r
  | batch _ _ => none

def batchAnswer? : HostCall → Option (Except HostError Unit)
  | create _ _ => none
  | batch _ r => some r

end HostCall

def Host.serve {σ : Type} (host : Host σ) (s : σ) : List HostRequest → List HostCall × σ
  | [] => ([], s)
  | .create b :: requests =>
    let (r, s) := host.createNamespace b s
    let (calls, s) := host.serve s requests
    (.create b r :: calls, s)
  | .batch ops :: requests =>
    let (r, s) := host.callAtomic ops s
    let (calls, s) := host.serve s requests
    (.batch ops r :: calls, s)

namespace Sink

theorem after_nil (s : Sink) : s.after [] = s := by
  obtain ⟨written, room, refusal, flushFailure⟩ := s
  cases room <;> simp [after, taken]

theorem takes_after (s : Sink) (bs : Bytes) {n : Nat} (some : 0 < n) :
    (s.after bs).Takes n ↔ s.Takes (bs.length + n) := by
  cases hr : s.room with
  | none => simp [Takes, after, hr]
  | some r =>
    simp only [Takes, after, hr, Option.map_some, Option.some.injEq, forall_eq']
    omega

end Sink

namespace LineHost

def lineBytes (ops : List Op) : Bytes := Text.bytes (line ops)

def lines (requests : List HostRequest) : List Bytes :=
  (requests.filterMap HostRequest.ops?).map lineBytes

theorem two_lt_length_lineBytes (ops : List Op) : 2 < (lineBytes ops).length := by
  have brackets : (line ops).toList =
      '[' :: ((Json.itemTokens (ops.map Op.call)).flatMap Json.Token.spelling ++ [']', '\n']) := by
    simp [line, Json.compact, Json.tokens, Json.Token.spelling]
  have opened : '['.utf8Size = 1 := rfl
  have closed : Text.byteLength [']', '\n'] = 2 := rfl
  rw [lineBytes, Text.length_bytes, brackets, Text.byteLength, Text.byteLength_append, opened,
    closed]
  omega

/-- How a sink answers the `i`-th of some lines: all lines up to it have to fit. -/
def fate (s : Sink) (lines : List Bytes) (i : Nat) : Except HostError Unit :=
  if s.Takes (lines.take (i + 1)).flatten.length then .ok () else .error (.io s.refusal)

theorem callAtomic_eq {h : LineHost} (flushed : h.sink.flushFailure = none) (ops : List Op) :
    callAtomic ops h =
      (fate h.sink [lineBytes ops] 0, { h with sink := h.sink.after (lineBytes ops) }) := by
  have bytes : [lineBytes ops].flatten = lineBytes ops := by simp
  rw [callAtomic, ← lineBytes, Sink.write_eq, fate, List.take_of_length_le (by simp), bytes]
  by_cases takes : h.sink.Takes (lineBytes ops).length
  · have flush : (h.sink.after (lineBytes ops)).flush = .ok () := by
      rw [Sink.after_flush, Sink.flush, flushed]
    simp only [if_pos takes, flush]
  · simp only [if_neg takes]

theorem fate_after (s : Sink) (ops : List Op) (requests : List HostRequest) {i : Nat}
    (later : i < (lines requests).length) :
    fate (s.after (lineBytes ops)) (lines requests) i =
      fate s (lineBytes ops :: lines requests) (i + 1) := by
  have some : 0 < ((lines requests).take (i + 1)).flatten.length := by
    obtain ⟨first, rest, split⟩ := List.exists_cons_of_length_pos (Nat.zero_lt_of_lt later)
    have line : first ∈ lines requests := by simp [split]
    obtain ⟨ops', -, rfl⟩ := List.mem_map.mp line
    have := two_lt_length_lineBytes ops'
    simp only [split, List.take_succ_cons, List.flatten_cons, List.length_append]
    omega
  simp only [fate, Sink.takes_after _ _ some, Sink.after_refusal, List.take_succ_cons,
    List.flatten_cons, List.length_append]

variable {h : LineHost}

theorem serve_create (b : BufferId) (requests : List HostRequest) :
    lineHost.serve h (.create b :: requests) =
      (.create b (.ok (namespaceId h.created)) ::
          (lineHost.serve { h with created := h.created + 1 } requests).1,
        (lineHost.serve { h with created := h.created + 1 } requests).2) := rfl

theorem serve_batch (flushed : h.sink.flushFailure = none) (ops : List Op)
    (requests : List HostRequest) :
    lineHost.serve h (.batch ops :: requests) =
      (.batch ops (fate h.sink (lineBytes ops :: lines requests) 0) ::
          (lineHost.serve { h with sink := h.sink.after (lineBytes ops) } requests).1,
        (lineHost.serve { h with sink := h.sink.after (lineBytes ops) } requests).2) := by
  have call : lineHost.callAtomic ops h = _ := callAtomic_eq flushed ops
  rw [Host.serve, call]
  rfl

theorem serve_host (flushed : h.sink.flushFailure = none) (requests : List HostRequest) :
    (lineHost.serve h requests).2 =
      { created := h.created + (requests.filterMap HostRequest.buffer?).length
        sink := h.sink.after (lines requests).flatten } := by
  induction requests generalizing h with
  | nil => simp [Host.serve, lines, Sink.after_nil]
  | cons request requests ih =>
    cases request with
    | create b =>
      have buffers : (HostRequest.create b :: requests).filterMap HostRequest.buffer? =
        b :: requests.filterMap HostRequest.buffer? := rfl
      rw [serve_create, ih (h := { h with created := h.created + 1 }) flushed, buffers,
        List.length_cons, Nat.add_assoc, Nat.add_comm 1]
      rfl
    | batch ops =>
      have split : lines (.batch ops :: requests) = lineBytes ops :: lines requests := rfl
      rw [serve_batch flushed, ih (h := { h with sink := h.sink.after (lineBytes ops) }) flushed,
        Sink.after_append, split, List.flatten_cons]
      rfl

theorem serve_sent (flushed : h.sink.flushFailure = none) (requests : List HostRequest) :
    (lineHost.serve h requests).1.filterMap HostCall.batchAnswer? =
      (List.range (lines requests).length).map (fate h.sink (lines requests)) := by
  induction requests generalizing h with
  | nil => rfl
  | cons request requests ih =>
    cases request with
    | create b =>
      rw [serve_create]
      exact ih (h := { h with created := h.created + 1 }) flushed
    | batch ops =>
      have split : lines (.batch ops :: requests) = lineBytes ops :: lines requests := rfl
      have later := ih (h := { h with sink := h.sink.after (lineBytes ops) }) flushed
      rw [serve_batch flushed, split, List.length_cons, List.range_succ_eq_map, List.map_cons,
        List.map_map]
      simp only [List.filterMap_cons, HostCall.batchAnswer?, later, List.cons.injEq, true_and]
      exact List.map_congr_left fun i hi => fate_after h.sink ops requests (List.mem_range.mp hi)

theorem serve_granted (requests : List HostRequest) :
    (lineHost.serve h requests).1.filterMap HostCall.namespaceAnswer? =
      (List.range (requests.filterMap HostRequest.buffer?).length).map
        fun k => Except.ok (namespaceId (h.created + k)) := by
  induction requests generalizing h with
  | nil => rfl
  | cons request requests ih =>
    cases request with
    | create b =>
      have buffers : (HostRequest.create b :: requests).filterMap HostRequest.buffer? =
        b :: requests.filterMap HostRequest.buffer? := rfl
      rw [serve_create, buffers, List.length_cons, List.range_succ_eq_map, List.map_cons,
        List.map_map]
      simp only [List.filterMap_cons, HostCall.namespaceAnswer?, ih, Nat.add_zero, List.cons.injEq,
        true_and]
      apply List.map_congr_left
      intro k _
      simp only [Function.comp_apply, Nat.succ_eq_add_one, Nat.add_assoc, Nat.add_comm 1 k]
    | batch ops =>
      have kept : (lineHost.callAtomic ops h).2.created = h.created := counts.called rfl
      have later := ih (h := (lineHost.callAtomic ops h).2)
      rw [kept] at later
      exact later

theorem serve_requests {σ : Type} (host : Host σ) (s : σ) (requests : List HostRequest) :
    (host.serve s requests).1.map HostCall.request = requests := by
  induction requests generalizing s with
  | nil => rfl
  | cons request requests ih =>
    cases request with
    | create b => exact congrArg (HostRequest.create b :: ·) (ih _)
    | batch ops => exact congrArg (HostRequest.batch ops :: ·) (ih _)

/-- Whatever fits of the beginning does not depend on what comes later, so no line fits behind one
that did not. -/
theorem fate_later {s : Sink} {lines : List Bytes} {i j : Nat} {e : HostError} (order : i ≤ j)
    (failed : fate s lines i = .error e) : fate s lines j = .error e := by
  have longer : (lines.take (i + 1)).flatten.length ≤ (lines.take (j + 1)).flatten.length := by
    obtain ⟨more, split⟩ := List.take_prefix_take_left (l := lines) (Nat.succ_le_succ order)
    rw [← split, List.flatten_append, List.length_append]
    exact Nat.le_add_right _ _
  unfold fate at failed ⊢
  split at failed
  · cases failed
  · rename_i full
    rw [if_neg fun takes => full fun r hr => Nat.le_trans longer (takes r hr)]
    exact failed

/-- Into a sink that takes so many bytes go the first bytes of the lines of all batches. A batch is
answered by whether the lines up to its own fit in there together, so behind one that failed all
fail; and the namespaces are numbered from one on, within a signed 64-bit number, whatever fails. -/
theorem served_with_room (room : Nat) (refusal : IoError) (requests : List HostRequest) :
    let lines := (requests.filterMap HostRequest.ops?).map fun ops => Text.bytes (line ops)
    let count := (requests.filterMap HostRequest.buffer?).length
    let served := lineHost.serve { sink := { room := some room, refusal } } requests
    let answers := served.1.filterMap HostCall.batchAnswer?
    served.1.map HostCall.request = requests ∧
    served.2.sink.written = lines.flatten.take room ∧
    answers = ((List.range lines.length).map fun i =>
      if (lines.take (i + 1)).flatten.length ≤ room then .ok () else .error (.io refusal)) ∧
    (∀ i j e, i ≤ j → j < lines.length → answers[i]? = some (.error e) →
      answers[j]? = some (.error e)) ∧
    served.1.filterMap HostCall.namespaceAnswer? =
      ((List.range count).map fun k => .ok (namespaceId k)) ∧
    ∀ k < 9223372036854775807, namespaceId k = (k : Int) + 1 := by
  intro lines count served answers
  have flushed : ({ sink := { room := some room, refusal } } : LineHost).sink.flushFailure = none :=
    rfl
  have host := serve_host flushed requests
  have sent : answers = (List.range lines.length).map (fate { room := some room, refusal } lines) :=
    serve_sent flushed requests
  have granted := serve_granted (h := { sink := { room := some room, refusal } }) requests
  have fits (i : Nat) : fate { room := some room, refusal } lines i =
      if (lines.take (i + 1)).flatten.length ≤ room then .ok () else .error (.io refusal) := by
    simp only [fate, Sink.Takes, Option.some.injEq, forall_eq']
  refine ⟨serve_requests lineHost _ requests, ?_, ?_, ?_, ?_, fun k small => namespaceId_eq small⟩
  · exact congrArg (·.sink.written) host
  · rw [sent]
    exact List.map_congr_left fun i _ => fits i
  · intro i j e order inside failed
    have answer (k : Nat) (hk : k < lines.length) :
        answers[k]? = some (fate { room := some room, refusal } lines k) := by
      rw [sent, List.getElem?_map, List.getElem?_range hk, Option.map_some]
    rw [answer i (Nat.lt_of_le_of_lt order inside), Option.some.injEq] at failed
    rw [answer j inside, fate_later order failed]
  · simpa using granted

def crowding : List HostRequest := [
  .batch [.clear 1 1 0 (-1)], .create 1, .batch [.add 1 1 "TagHighlightFunction" 3 0 7], .create 2,
  .batch []]

def crowdedRoom : Nat := (lineBytes [.clear 1 1 0 (-1)]).length + 2

theorem crowding_served :
    let served :=
      lineHost.serve { sink := { room := some crowdedRoom, refusal := .writerFull } } crowding
    let failure : Except HostError Unit := .error (.io .writerFull)
    served.2.sink.written.length = crowdedRoom ∧
    served.1.filterMap HostCall.batchAnswer? = [.ok (), failure, failure] ∧
    (served.1.filterMap HostCall.batchAnswer?)[2]? = some failure ∧
    served.1.filterMap HostCall.namespaceAnswer? = [.ok 1, .ok 2] := by
  intro served failure
  obtain ⟨-, written, answers, later, granted, numbered⟩ :=
    served_with_room crowdedRoom .writerFull crowding
  have first : [lineBytes [.clear 1 1 0 (-1)]].flatten.length ≤ crowdedRoom := by
    simp [crowdedRoom]
  have second := two_lt_length_lineBytes [.add 1 1 "TagHighlightFunction" 3 0 7]
  have longer (more : List Bytes) : ¬((lineBytes [.clear 1 1 0 (-1)] ::
      lineBytes [.add 1 1 "TagHighlightFunction" 3 0 7] :: more).flatten.length ≤ crowdedRoom) := by
    rw [List.flatten_cons, List.flatten_cons, List.length_append, List.length_append, crowdedRoom]
    omega
  have answers : served.1.filterMap HostCall.batchAnswer? = [.ok (), failure, failure] := by
    refine answers.trans (List.cons_eq_cons.mpr ⟨if_pos first, ?_⟩)
    refine List.cons_eq_cons.mpr ⟨if_neg (longer []), ?_⟩
    exact List.cons_eq_cons.mpr ⟨if_neg (longer [lineBytes []]), rfl⟩
  have granted : served.1.filterMap HostCall.namespaceAnswer? =
    [.ok (namespaceId 0), .ok (namespaceId 1)] := granted
  refine ⟨?_, answers, later 1 2 (.io .writerFull) (by decide) (by decide) ?_, ?_⟩
  · rw [written, List.length_take]
    exact Nat.min_eq_left (Nat.le_of_not_le (longer [lineBytes []]))
  · exact congrArg (·[1]?) answers
  · rw [granted, numbered 0 (by decide), numbered 1 (by decide)]
    rfl

end LineHost

end SemanticHighlight
