import SemanticHighlight.Proofs.Frame.Reader
import SemanticHighlight.Worker.Process

/-!
# What a round trip reads

A worker keeps to frames if it answers each request with one frame, with less than one frame, or
with bytes that no reader takes for a frame. A round trip with such a worker gives back what the
worker wrote for this very request, and then leaves nothing behind to be read.
-/

set_option autoImplicit false

namespace SemanticHighlight

/-- What a worker that keeps to frames writes for one request. -/
inductive Emission : Bytes → Prop
  | whole {payload bs : Bytes} (frame : Frame.encode payload = .ok bs) : Emission bs
  | cut {payload bs rest : Bytes} (frame : Frame.encode payload = .ok (bs ++ rest))
    (missing : rest ≠ []) : Emission bs
  | malformed {bs : Bytes} (enough : Frame.fieldLength ≤ bs.length)
    (digits : (bs.take Frame.fieldLength).all Frame.isDigitByte = false) : Emission bs

def Reaction.emitted (r : Reaction) : Bytes := r.early ++ r.output

/-- The program keeps to frames, whatever it was asked before. It may quit at any request. -/
def Program.Framed (program : Program) : Prop :=
  ∀ args served request, Emission (program args served request).emitted

theorem Emission.eq_frame {payload frame rest : Bytes} (e : Emission (frame ++ rest))
    (h : Frame.encode payload = .ok frame) : rest = [] := by
  generalize hbs : frame ++ rest = bs at e
  cases e with
  | whole hw =>
    subst hbs
    exact (Frame.encode_prefix_free h hw).1
  | cut hc missing =>
    subst hbs
    rw [List.append_assoc] at hc
    exact absurd (List.append_eq_nil_iff.mp (Frame.encode_prefix_free h hc).1).2 missing
  | malformed enough digits =>
    subst hbs
    have hl : Frame.fieldLength ≤ frame.length := by
      obtain ⟨field, hf, rfl⟩ := Frame.encode_parts h
      rw [List.length_append, Frame.encodeLength_length hf]
      omega
    rw [List.take_append_of_le_length hl, Frame.encode_digits h] at digits
    cases digits

namespace Process

structure SameAs (q p : Process) : Prop where
  pid : q.pid = p.pid
  program : q.program = p.program
  args : q.args = p.args

theorem SameAs.refl (p : Process) : p.SameAs p := ⟨rfl, rfl, rfl⟩

theorem SameAs.trans {p q r : Process} (h : r.SameAs q) (h' : q.SameAs p) : r.SameAs p :=
  ⟨h.pid.trans h'.pid, h.program.trans h'.program, h.args.trans h'.args⟩

structure Untouched (q p : Process) : Prop extends q.SameAs p where
  served : q.served = p.served
  pending : q.pending = p.pending
  alive : q.alive = true → p.alive = true

theorem Untouched.refl (p : Process) : p.Untouched p := ⟨.refl p, rfl, rfl, id⟩

theorem await_same (p : Process) (timeout : Duration) (available : Bytes) (r : Reaction) :
    (p.await timeout available r).process.SameAs p := by
  unfold await
  split
  · exact .refl p
  · dsimp only
    split <;> exact ⟨rfl, rfl, rfl⟩

theorem receive_same (p : Process) (timeout : Duration) (request : Bytes) (r : Reaction) :
    (p.receive timeout request r).process.SameAs p := by
  unfold receive
  dsimp only
  split
  · exact ⟨rfl, rfl, rfl⟩
  · exact (await_same _ timeout _ _).trans ⟨rfl, rfl, rfl⟩
  · exact ⟨rfl, rfl, rfl⟩

theorem roundTrip_same (p : Process) (timeout : Duration) (request : Bytes) :
    (p.roundTrip timeout request).process.SameAs p := by
  unfold roundTrip
  split
  · exact .refl p
  · dsimp only
    split
    · exact ⟨rfl, rfl, rfl⟩
    · exact receive_same p timeout request _

theorem await_ok {p : Process} {timeout : Duration} {available payload : Bytes} {r : Reaction}
    (h : (p.await timeout available r).reply = .ok payload) :
    (p.await timeout available r).process.served = p.served ∧
      ∃ frame, Frame.encode payload = .ok frame ∧
        available ++ r.output = frame ++ (p.await timeout available r).process.pending := by
  revert h
  unfold await
  split
  · nofun
  · dsimp only
    split
    · rename_i payload' rest hr
      intro h
      cases h
      constructor
      · rfl
      split at hr
      · exact Frame.read_closed hr
      · exact Frame.read_untilDeadline hr
    · nofun
    · nofun

theorem receive_ok {p : Process} {timeout : Duration} {request payload : Bytes} {r : Reaction}
    (h : (p.receive timeout request r).reply = .ok payload) :
    (p.receive timeout request r).process.served = p.served ++ [request] ∧
      ∃ frame, Frame.encode payload = .ok frame ∧
        p.pending ++ r.emitted = frame ++ (p.receive timeout request r).process.pending := by
  revert h
  unfold receive
  dsimp only
  split
  · rename_i payload' rest hr
    intro h
    cases h
    obtain ⟨frame, hf, hs⟩ := Frame.read_untilDeadline hr
    exact ⟨rfl, frame, hf, by rw [Reaction.emitted, ← List.append_assoc, hs, List.append_assoc]⟩
  · intro h
    obtain ⟨hserved, frame, hf, hs⟩ := await_ok h
    exact ⟨hserved, frame, hf, by rw [← hs, Reaction.emitted, List.append_assoc]⟩
  · nofun

theorem roundTrip_ok {p : Process} {timeout : Duration} {request payload : Bytes}
    (h : (p.roundTrip timeout request).reply = .ok payload) :
    (p.roundTrip timeout request).process.served = p.served ++ [request] ∧
      ∃ frame, Frame.encode payload = .ok frame ∧
        p.pending ++ (p.program p.args p.served request).emitted =
          frame ++ (p.roundTrip timeout request).process.pending := by
  revert h
  unfold roundTrip
  split
  · nofun
  · dsimp only
    split
    · nofun
    · exact receive_ok

theorem roundTrip_sent {p : Process} {timeout : Duration} {request payload : Bytes}
    (h : (p.roundTrip timeout request).reply = .ok payload) :
    ∃ frame, Frame.encode request = .ok frame := by
  revert h
  unfold roundTrip
  split
  · nofun
  · rename_i frame hf
    exact fun _ => ⟨frame, hf⟩

/-- A round trip that gives a reply has taken all that a worker that keeps to frames has written, and
the reply is the frame it wrote for the request. -/
theorem roundTrip_framed {p : Process} {timeout : Duration} {request payload : Bytes}
    (framed : p.program.Framed) (empty : p.pending = [])
    (h : (p.roundTrip timeout request).reply = .ok payload) :
    (p.roundTrip timeout request).process.pending = [] ∧
      Frame.encode payload = .ok (p.program p.args p.served request).emitted := by
  obtain ⟨-, frame, hf, hs⟩ := roundTrip_ok h
  rw [empty, List.nil_append] at hs
  have e := framed p.args p.served request
  rw [hs] at e
  have hnil := e.eq_frame hf
  rw [hnil, List.append_nil] at hs
  rw [hs]
  exact ⟨hnil, hf⟩

end Process

end SemanticHighlight
