import SemanticHighlight.Frame.Length
import SemanticHighlight.Frame.Source

/-!
# Reading frames

`read` takes one frame from a source. `readAll` takes frames until one fails, and gives the frames
and the error that ended them.
-/

set_option autoImplicit false

namespace SemanticHighlight.Frame

def Error.ofFailure : ReadFailure → Error
  | .expired after => .timeout after
  | .timedOut cause => .io cause
  | .failed cause => .io cause

def read (s : Source) : Except Error Bytes × Source :=
  match s.take fieldLength with
  | (.error f, s) => (.error (.ofFailure f), s)
  | (.ok field, s) =>
    if field.length ≠ fieldLength then (.error (.unexpectedEof fieldLength field.length), s)
    else match decodeLength field with
      | .error e => (.error e, s)
      | .ok length =>
        match s.take length with
        | (.error f, s) => (.error (.ofFailure f), s)
        | (.ok payload, s) =>
          if payload.length ≠ length then (.error (.unexpectedEof length payload.length), s)
          else (.ok payload, s)

theorem size_read {s s' : Source} {payload : Bytes} (h : read s = (.ok payload, s')) :
    s'.size < s.size := by
  unfold read at h
  split at h
  · cases h
  · rename_i field t hf
    have hsize := Source.size_take hf
    split at h
    · cases h
    · rename_i hlen
      split at h
      · cases h
      · split at h
        · cases h
        · rename_i hp
          have := Source.size_take hp
          split at h
          · cases h
          · simp only [Prod.mk.injEq] at h
            simp only [fieldLength] at hlen
            grind

def readAll (s : Source) : List Bytes × Error :=
  match _h : read s with
  | (.error e, _) => ([], e)
  | (.ok payload, s') => (payload :: (readAll s').1, (readAll s').2)
termination_by s.size
decreasing_by all_goals exact size_read _h

end SemanticHighlight.Frame
