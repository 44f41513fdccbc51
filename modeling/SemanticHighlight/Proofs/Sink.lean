import SemanticHighlight.Sink

/-!
# Writing into limited room

What is written ends where the room does. Two writings, the second one after the first whether or
not that was taken whole, leave the sink as one writing of all their bytes does, and succeed as it
does. So it makes no difference into how many chunks the bytes are cut.
-/

set_option autoImplicit false

namespace SemanticHighlight.Sink

def Takes (s : Sink) (n : Nat) : Prop := ∀ r, s.room = some r → n ≤ r

instance (s : Sink) (n : Nat) : Decidable (s.Takes n) :=
  decidable_of_iff (s.room.all (n ≤ ·) = true) (by cases hr : s.room <;> simp [Takes, hr])

def taken (s : Sink) (bs : Bytes) : Bytes :=
  match s.room with
  | none => bs
  | some r => bs.take r

def after (s : Sink) (bs : Bytes) : Sink :=
  { s with written := s.written ++ s.taken bs, room := s.room.map (· - bs.length) }

@[simp] theorem after_refusal (s : Sink) (bs : Bytes) : (s.after bs).refusal = s.refusal := rfl

@[simp] theorem after_flush (s : Sink) (bs : Bytes) : (s.after bs).flush = s.flush := rfl

theorem write_eq (s : Sink) (bs : Bytes) :
    s.write bs = (if s.Takes bs.length then .ok () else .error s.refusal, s.after bs) := by
  cases hr : s.room with
  | none =>
    have takes : s.Takes bs.length := by simp [Takes, hr]
    simp [write, after, taken, hr, takes]
  | some r =>
    have takes : s.Takes bs.length ↔ bs.length ≤ r := by simp [Takes, hr]
    by_cases fits : bs.length ≤ r
    · have whole : bs.take r = bs := List.take_of_length_le fits
      simp [write, after, taken, hr, takes, fits, whole]
    · have none : r - bs.length = 0 := by omega
      simp [write, after, taken, hr, takes, fits, none]

theorem after_append (s : Sink) (bs cs : Bytes) : (s.after bs).after cs = s.after (bs ++ cs) := by
  cases hr : s.room with
  | none => simp [after, taken, hr]
  | some r => simp [after, taken, hr, List.take_append, Nat.sub_sub]

theorem after_full {s : Sink} {bs : Bytes} (full : ¬s.Takes bs.length) (cs : Bytes) :
    s.after (bs ++ cs) = s.after bs := by
  cases hr : s.room with
  | none => exact absurd (by simp [Takes, hr]) full
  | some r =>
    have less : r < bs.length := by simpa [Takes, hr] using full
    have none : r - bs.length = 0 := by omega
    simp [after, taken, hr, List.take_append, none, ← Nat.sub_sub]

theorem takes_add (s : Sink) (bs : Bytes) (n : Nat) :
    s.Takes (bs.length + n) ↔ s.Takes bs.length ∧ (s.after bs).Takes n := by
  cases hr : s.room with
  | none => simp [Takes, after, hr]
  | some r =>
    simp only [Takes, after, hr, Option.map_some, Option.some.injEq, forall_eq']
    omega

theorem writeEach_eq (s : Sink) (chunks : List Bytes) :
    s.writeEach chunks = s.write chunks.flatten := by
  induction chunks generalizing s with
  | nil =>
    obtain ⟨written, room, refusal, flushFailure⟩ := s
    cases room <;> simp [writeEach, write]
  | cons c cs ih =>
    rw [writeEach, write_eq]
    by_cases takes : s.Takes c.length
    · rw [if_pos takes]
      dsimp only
      rw [ih, write_eq, write_eq, after_append, List.flatten_cons, List.length_append]
      simp [takes_add, takes]
    · rw [if_neg takes]
      have full : ¬s.Takes (c.length + cs.flatten.length) := fun all =>
        takes ((takes_add s c _).1 all).1
      rw [write_eq, List.flatten_cons, List.length_append, if_neg full, after_full takes]

end SemanticHighlight.Sink
