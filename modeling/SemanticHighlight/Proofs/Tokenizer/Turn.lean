import SemanticHighlight.Proofs.Frame.Stream
import SemanticHighlight.Tokenizer.Worker

/-!
# What the tokenizer does in a turn

A turn ends in one of three ways: the number of requests is served and the tokenizer quits; the
reply goes out as a frame; or the reply is too long for a frame, and the tokenizer quits without a
byte of it.
-/

set_option autoImplicit false

namespace SemanticHighlight.Tokenizer

def reply (request : Bytes) : Bytes := Text.bytes (tokenize (Text.lossy request))

namespace Turn

variable (t : Turn) (trace : Trace) (line : String)

@[simp] theorem output_traced : (t.traced trace line).output = t.output := by
  cases trace <;> rfl

@[simp] theorem exit?_traced : (t.traced trace line).exit? = t.exit? := by
  cases trace <;> rfl

@[simp] theorem delay_traced : (t.traced trace line).delay = t.delay := by
  cases trace <;> rfl

theorem early_traced {trace : Trace} (hidden : trace ≠ .output) :
    (t.traced trace line).early = t.early := by
  cases trace with
  | output => exact absurd rfl hidden
  | _ => rfl

end Turn

namespace Knobs

/-- No more requests are served after some. -/
def Spent (k : Knobs) (served : Nat) : Prop := k.exitAfter?.any (· ≤ served) = true

instance (k : Knobs) (served : Nat) : Decidable (k.Spent served) :=
  inferInstanceAs (Decidable (_ = true))

/-- Replies are not cut short, and nothing but replies is written where they are. -/
structure Clean (k : Knobs) : Prop where
  whole : k.truncate = false
  hidden : k.trace ≠ .output

end Knobs

/-- The ways in which a turn after `served` requests can end. -/
inductive Turn.Ends (k : Knobs) (served : Nat) (request : Bytes) (t : Turn) : Prop
  | quits (spent : k.Spent served) (output : t.output = []) (exit : t.exit? = some 0)
    (delay : t.delay = 0)
  | answers (lasting : ¬k.Spent served) (fits : (reply request).length ≤ Frame.maxLength)
    (output : t.output = Frame.frameOf (reply request)) (exit : t.exit? = none)
    (delay : t.delay = k.delay)
  | refuses (lasting : ¬k.Spent served) (long : Frame.maxLength < (reply request).length)
    (output : t.output = []) (exit : t.exit? = some 1) (delay : t.delay = k.delay)

theorem send_fits {k : Knobs} (whole : k.truncate = false) {bs : Bytes}
    (fits : bs.length ≤ Frame.maxLength) (t : Turn) :
    send k bs t = { t with output := Frame.frameOf bs } := by
  simp [send, whole, Frame.encode_fits fits]

theorem send_long {k : Knobs} (whole : k.truncate = false) {bs : Bytes}
    (long : Frame.maxLength < bs.length) (t : Turn) :
    send k bs t = { t with
      diagnostics := t.diagnostics ++ complaint (.tooLarge bs.length), exit? := some 1 } := by
  simp [send, whole, Frame.encode_long long]

theorem send_early (k : Knobs) (bs : Bytes) (t : Turn) : (send k bs t).early = t.early := by
  unfold send
  split <;> split <;> rfl

theorem turn_ending {k : Knobs} (whole : k.truncate = false) (args : List String) (served : Nat)
    (request : Bytes) : Turn.Ends k served request (turn k args served request) := by
  by_cases spent : k.Spent served
  · have quit : turn k args served request = ({ exit? := some 0 } : Turn).traced k.trace "exit" :=
      if_pos spent
    rw [quit]
    exact .quits spent (by simp) (by simp) (by simp)
  · obtain ⟨t, output, exit, delay, sent⟩ : ∃ t : Turn, t.output = [] ∧ t.exit? = none ∧
        t.delay = k.delay ∧ turn k args served request = send k (reply request) t :=
      ⟨_, Turn.output_traced _ _ _, Turn.exit?_traced _ _ _, Turn.delay_traced _ _ _, if_neg spent⟩
    rw [sent]
    by_cases fits : (reply request).length ≤ Frame.maxLength
    · rw [send_fits whole fits]
      exact .answers spent fits rfl exit delay
    · have long : Frame.maxLength < (reply request).length := Nat.not_le.mp fits
      rw [send_long whole long]
      exact .refuses spent long output rfl delay

theorem turn_early {k : Knobs} (hidden : k.trace ≠ .output) (args : List String) (served : Nat)
    (request : Bytes) : (turn k args served request).early = [] := by
  unfold turn
  split
  · exact Turn.early_traced _ _ hidden
  · rw [send_early]
    exact Turn.early_traced _ _ hidden

theorem turn_ends {k : Knobs} (clean : k.Clean) (args : List String) (served : Nat)
    (request : Bytes) :
    (turn k args served request).early = [] ∧
      Turn.Ends k served request (turn k args served request) :=
  ⟨turn_early clean.hidden args served request, turn_ending clean.whole args served request⟩

end SemanticHighlight.Tokenizer
