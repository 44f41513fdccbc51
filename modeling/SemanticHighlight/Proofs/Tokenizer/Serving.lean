import SemanticHighlight.Proofs.Frame.Split
import SemanticHighlight.Proofs.Tokenizer.Turn

/-!
# The requests that are served

The tokenizer reads frame after frame and answers each one that is whole, until it has served its
number. Where its input ends inside a frame, or is none, nothing of it is answered.
-/

set_option autoImplicit false

namespace SemanticHighlight.Tokenizer

open SemanticHighlight.Frame (Source)

variable {k : Knobs} {args : List String} {served : Nat} {s s' : Source} {request : Bytes}

theorem serve_ended {e : Frame.Error} (h : Frame.read s = (.error e, s')) :
    (serve k args served s).output = [] := by
  rw [serve]
  split
  · rfl
  · rfl
  · rename_i hr
    rw [h] at hr
    cases hr

theorem serve_asked (h : Frame.read s = (.ok request, s')) :
    serve k args served s = Ending.after (turn k args served request)
      (match (turn k args served request).exit? with
      | some code => { code }
      | none => serve k args (served + 1) s') := by
  rw [serve]
  split
  · rename_i hr
    rw [h] at hr
    cases hr
  · rename_i hr
    rw [h] at hr
    cases hr
  · rename_i hr
    rw [h] at hr
    cases hr
    dsimp only
    cases (turn k args served request).exit? with
    | none => rfl
    | some code => rfl

def Knobs.admits (k : Knobs) (served : Nat) (requests : List Bytes) : List Bytes :=
  match k.exitAfter? with
  | none => requests
  | some limit => requests.take (limit - served)

@[simp] theorem admits_nil : k.admits served [] = [] := by
  unfold Knobs.admits
  split <;> simp

theorem admits_spent (spent : k.Spent served) (requests : List Bytes) :
    k.admits served requests = [] := by
  unfold Knobs.Spent at spent
  unfold Knobs.admits
  cases hk : k.exitAfter? with
  | none => simp [hk] at spent
  | some limit =>
    simp [hk] at spent
    simp [spent]

theorem admits_lasting (lasting : ¬k.Spent served) (requests : List Bytes) :
    k.admits served (request :: requests) = request :: k.admits (served + 1) requests := by
  unfold Knobs.Spent at lasting
  unfold Knobs.admits
  cases hk : k.exitAfter? with
  | none => rfl
  | some limit =>
    simp [hk] at lasting
    obtain ⟨rest, hrest⟩ : ∃ rest, limit - served = rest + 1 := ⟨limit - served - 1, by omega⟩
    have next : limit - (served + 1) = rest := by omega
    simp [hrest, next]

/-- From any stream the tokenizer serves the frames that are complete. -/
theorem serve_output (clean : k.Clean) (args : List String) (served : Nat) (flowing : s.Flowing) :
    (serve k args served s).output =
      (Frame.announced ((k.admits served (Frame.split s.pending).1).map reply)).flatMap
        Frame.frameOf := by
  induction hn : s.pending.length using Nat.strong_induction_on generalizing s served with
  | _ n ih =>
    cases h : Frame.next s.pending with
    | error e =>
      obtain ⟨s', hr⟩ := Frame.read_ended flowing h
      rw [serve_ended hr, Frame.split_error h, admits_nil]
      rfl
    | ok frame =>
      obtain ⟨request, rest⟩ := frame
      obtain ⟨bytes, hf, hs⟩ := Frame.next_frame h
      obtain ⟨s', hr, rfl, flowing'⟩ := Frame.read_flowing flowing hf hs
      have shorter : s'.pending.length < n := hn ▸ Frame.length_next h
      obtain ⟨early, ends⟩ := turn_ends clean args served request
      rw [Frame.split_ok h, serve_asked hr]
      change (turn k args served request).early ++ (turn k args served request).output ++ _ = _
      rw [early, List.nil_append]
      cases ends with
      | quits spent output exit =>
        rw [output, exit, admits_spent spent]
        rfl
      | answers lasting fits output exit =>
        rw [output, exit, admits_lasting lasting, List.map_cons, Frame.announced_short fits,
          List.flatMap_cons, ih _ shorter (served + 1) flowing' rfl]
      | refuses lasting long output exit =>
        rw [output, exit, admits_lasting lasting, List.map_cons, Frame.announced_long long]
        rfl

/-- The requests are the frames that stand whole at the front of the input. The command writes one
frame for each of them, up to the number of requests that it serves, in order and nothing else: the
replies as a writer of frames writes them, which stops at the first one that is too long for a
frame. So a reader gets these replies back one by one, in whatever pieces the output comes, and then
finds its end. -/
theorem answers_whole_requests (m : Machine) (args : List String) (input : Bytes)
    (whole : (Knobs.ofMachine m).truncate = false) (hidden : (Knobs.ofMachine m).trace ≠ .output) :
    let requests := (Frame.split input).1
    let asked := match (Knobs.ofMachine m).exitAfter? with
      | none => requests
      | some limit => requests.take limit
    let replies := asked.map fun request => Text.bytes (tokenize (Text.lossy request))
    let sent := replies.takeWhile (·.length ≤ 9999999999)
    let output := (run m args input).1.output
    (∃ rest, input = requests.flatMap Frame.frameOf ++ rest ∧
      Frame.next rest = .error (Frame.split input).2) ∧
    output = (Frame.writeAll replies {}).2.written ∧ output = sent.flatMap Frame.frameOf ∧
    (∀ source : Source, source.Flowing → source.pending = output →
      Frame.readAll source = (sent, .unexpectedEof 10 0)) ∧
    ((∀ r ∈ replies, r.length ≤ 9999999999) → sent = replies) := by
  intro requests asked replies sent output
  have clean : (Knobs.ofMachine m).Clean := ⟨whole, hidden⟩
  have flowing : (Source.closed input).Flowing := Frame.flowing_closed input
  have greeted : (greeting (Knobs.ofMachine m) args).early = [] := Turn.early_traced _ _ hidden
  have silent : (greeting (Knobs.ofMachine m) args).output = [] := Turn.output_traced _ _ _
  have admitted : (Knobs.ofMachine m).admits 0 requests = asked := by
    unfold Knobs.admits asked
    cases (Knobs.ofMachine m).exitAfter? <;> rfl
  have written : output = sent.flatMap Frame.frameOf := by
    have served := serve_output clean args 0 flowing
    rw [Frame.pending_closed, admitted] at served
    change (greeting _ args).early ++ (greeting _ args).output ++ _ = _
    rw [greeted, silent, served]
    rfl
  refine ⟨Frame.split_parts input, ?_, written, ?_, Frame.announced_eq⟩
  · rw [written, Frame.writeAll_written]
    rfl
  · intro source flowing hs
    exact Frame.readAll_frames (Frame.announced_fits replies) flowing (hs.trans written)

def servesTwo : Machine where
  environment := .ofList [("TAGHL_STUB_EXIT_AFTER", " 2 ")]

def fourRequests : Bytes :=
  Text.bytes "0000000004" ++ [102, 40, 255, 41] ++ Text.bytes "0000000003a.b0000000000000000000"

theorem servesTwo_answers :
    (Knobs.ofMachine servesTwo).truncate = false ∧ (Knobs.ofMachine servesTwo).trace ≠ .output ∧
    (run servesTwo [] fourRequests).1.output =
      Text.bytes "0000000014f\t0\t0\t0\t1\t1\tf\n0000000014m\t0\t2\t0\t3\t1\tb\n" ∧
    Frame.readAll (.closed (run servesTwo [] fourRequests).1.output) =
      ([Text.bytes "f\t0\t0\t0\t1\t1\tf\n", Text.bytes "m\t0\t2\t0\t3\t1\tb\n"],
        .unexpectedEof 10 0) := by
  have whole : (Knobs.ofMachine servesTwo).truncate = false := by decide +kernel
  have hidden : (Knobs.ofMachine servesTwo).trace ≠ .output := by decide +kernel
  obtain ⟨-, -, written, readable, -⟩ := answers_whole_requests servesTwo [] fourRequests whole hidden
  have read := readable _ (Frame.flowing_closed _) (Frame.pending_closed _)
  refine ⟨whole, hidden, written.trans ?_, read.trans ?_⟩
  · decide +kernel
  · decide +kernel

end SemanticHighlight.Tokenizer
