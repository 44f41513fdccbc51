import SemanticHighlight.Frame.Reader
import SemanticHighlight.Proofs.Frame.Length

/-!
# What a read takes

A read that gives a payload has taken exactly one frame from the bytes that were pending, and no
byte of what follows.
-/

set_option autoImplicit false

namespace SemanticHighlight.Frame

theorem pending_take {n : Nat} {s s' : Source} {bs : Bytes} (h : s.take n = (.ok bs, s')) :
    s.pending = bs ++ s'.pending := by
  fun_induction Source.take n s generalizing bs s' with
  | case1 => cases h; rfl
  | case2 => cases h; rfl
  | case3 _ _ _ ih => exact ih h
  | case4 => cases h
  | case5 => cases h; simp_all [Source.pending]
  | case6 n _ bs _ _ =>
    cases h
    simp [Source.pending, ← List.append_assoc]
  | case7 n hn s bs hne hle more rest hrec ih =>
    cases h
    rw [Source.pending, ih hrec, List.append_assoc]
  | case8 => cases h

theorem read_pending {s s' : Source} {payload : Bytes} (h : read s = (.ok payload, s')) :
    ∃ frame, encode payload = .ok frame ∧ s.pending = frame ++ s'.pending := by
  unfold read at h
  split at h
  · cases h
  · rename_i field s₁ hfield
    split at h
    · cases h
    · rename_i hl
      split at h
      · cases h
      · rename_i length hlength
        split at h
        · cases h
        · rename_i payload' s₂ hpayload
          split at h
          · cases h
          · rename_i hp
            cases h
            simp only [ne_eq, Decidable.not_not] at hl hp
            subst hp
            refine ⟨field ++ payload, encode_of_parts (encodeLength_decodeLength hl hlength), ?_⟩
            rw [pending_take hfield, pending_take hpayload, List.append_assoc]

@[simp] theorem pending_closed (bs : Bytes) : (Source.closed bs).pending = bs := by
  unfold Source.closed
  split
  · rename_i h
    exact h.symm
  · simp [Source.pending]

theorem pending_append (s t : Source) : (s ++ t).pending = s.pending ++ t.pending := by
  induction s with
  | nil => rfl
  | cons e s ih => cases e <;> simp [Source.pending, ih]

theorem read_closed {bs payload : Bytes} {s : Source} (h : read (.closed bs) = (.ok payload, s)) :
    ∃ frame, encode payload = .ok frame ∧ bs = frame ++ s.pending := by
  simpa using read_pending h

theorem read_untilDeadline {bs payload : Bytes} {after : Duration} {s : Source}
    (h : read (.untilDeadline bs after) = (.ok payload, s)) :
    ∃ frame, encode payload = .ok frame ∧ bs = frame ++ s.pending := by
  unfold Source.untilDeadline at h
  split at h
  · obtain ⟨frame, hf, hs⟩ := read_pending h
    cases h
  · simpa [pending_append, Source.pending] using read_pending h

end SemanticHighlight.Frame
