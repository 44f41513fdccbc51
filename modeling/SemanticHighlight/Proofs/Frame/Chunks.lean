import Mathlib.Algebra.GroupWithZero.Nat
import SemanticHighlight.Proofs.Frame.Stream
import SemanticHighlight.Proofs.Sink

/-!
# Frames written in chunks

A payload may come in chunks, behind a length that is announced before them. Into any sink the field
and the chunks go as far as there is room, and the first thing that is wrong decides what is
reported: an announced length that no field can write, a sink that is full, chunks of another length
than announced, a flush that fails.
-/

set_option autoImplicit false

namespace SemanticHighlight.Frame

theorem totalLength_eq (chunks : List Bytes) : totalLength chunks = chunks.flatten.length := by
  induction chunks with
  | nil => rfl
  | cons c cs ih => rw [totalLength, ih, List.flatten_cons, List.length_append]

theorem writeChunks_flatten (length : Nat) (chunks : List Bytes) (s : Sink) :
    writeChunks length chunks s = writeChunks length [chunks.flatten] s := by
  simp [writeChunks, Sink.writeEach_eq, totalLength_eq]

theorem writeChunks_fits {length : Nat} (fits : length ≤ maxLength) (chunks : List Bytes)
    (s : Sink) :
    let whole := lastDigits fieldLength length ++ chunks.flatten
    writeChunks length chunks s =
      (if ¬s.Takes whole.length then .error (.io s.refusal)
        else if chunks.flatten.length ≠ length then
          .error (.io (.frameLength length chunks.flatten.length))
        else match s.flushFailure with
          | none => .ok ()
          | some e => .error (.io e),
        s.after whole) := by
  intro whole
  have bytes : (lastDigits fieldLength length :: chunks).flatten = whole := List.flatten_cons
  rw [writeChunks, encodeLength_fits fits]
  dsimp only
  rw [Sink.writeEach_eq, bytes, Sink.write_eq, totalLength_eq]
  by_cases takes : s.Takes whole.length
  · rw [if_pos takes, if_neg (not_not_intro takes)]
    dsimp only
    by_cases other : chunks.flatten.length ≠ length
    · rw [if_pos other, if_pos other]
    · rw [if_neg other, if_neg other, Sink.after_flush, Sink.flush]
      cases s.flushFailure <;> rfl
  · rw [if_neg takes, if_pos takes]

/-- An announced length that ten digits cannot write is refused, and nothing is written. Otherwise
the sink gets of the field and all chunks what it has room for; writing fails where the room ends, or
if all is written and the chunks have another length than announced, or in the flush. Chunks that
have the announced length are written as one payload, however they are cut. -/
theorem chunks_written_as_whole (length : Nat) (chunks : List Bytes) (s : Sink) :
    (9999999999 < length → writeChunks length chunks s = (.error (.tooLarge length), s)) ∧
    (length ≤ 9999999999 → ∃ field, encodeLength length = .ok field ∧
      let whole := field ++ chunks.flatten
      let supplied := (chunks.map List.length).sum
      writeChunks length chunks s =
        (if s.room.any (· < whole.length) then .error (.io s.refusal)
          else if supplied ≠ length then .error (.io (.frameLength length supplied))
          else match s.flushFailure with
            | none => .ok ()
            | some e => .error (.io e),
          { s with
            written := s.written ++ match s.room with
              | none => whole
              | some r => whole.take r
            room := s.room.map (· - whole.length) })) ∧
    ((chunks.map List.length).sum = length →
      writeChunks length chunks s = write chunks.flatten s) := by
  rw [← List.length_flatten]
  refine ⟨?_, ?_, ?_⟩
  · intro long
    rw [writeChunks, encodeLength_long long]
  · intro fits
    refine ⟨_, encodeLength_fits fits, ?_⟩
    have room (n : Nat) : s.room.any (· < n) = true ↔ ¬s.Takes n := by
      cases hr : s.room <;> simp [Sink.Takes, hr]
    simp only [room]
    exact writeChunks_fits fits chunks s
  · rintro rfl
    exact writeChunks_flatten _ chunks s

def cutChunks : List Bytes := [[97], [], [98, 99, 100], [101]]

theorem cutChunks_written :
    (writeChunks 5 cutChunks { room := some 12 }).1 = .error (.io .writerFull) ∧
    (writeChunks 5 cutChunks { room := some 12 }).2.written = Text.bytes "0000000005ab" ∧
    (writeChunks 4 cutChunks { room := some 15 }).1 = .error (.io (.frameLength 4 5)) ∧
    writeChunks 10000000000 cutChunks {} = (.error (.tooLarge 10000000000), {}) ∧
    writeChunks 5 cutChunks {} = write (Text.bytes "abcde") {} := by
  have field (n : Nat) (fits : n ≤ 9999999999) : encodeLength n = .ok (lastDigits 10 n) :=
    encodeLength_fits fits
  obtain ⟨-, cut, -⟩ := chunks_written_as_whole 5 cutChunks { room := some 12 }
  obtain ⟨-, other, -⟩ := chunks_written_as_whole 4 cutChunks { room := some 15 }
  obtain ⟨long, -⟩ := chunks_written_as_whole 10000000000 cutChunks {}
  obtain ⟨-, -, whole⟩ := chunks_written_as_whole 5 cutChunks {}
  obtain ⟨_, five, written⟩ := cut (by decide)
  obtain ⟨_, four, refused⟩ := other (by decide)
  cases (field 5 (by decide)).symm.trans five
  cases (field 4 (by decide)).symm.trans four
  refine ⟨?_, ?_, ?_, long (by decide), ?_⟩
  · rw [written]
    rfl
  · rw [written]
    decide +kernel
  · rw [refused]
    rfl
  · have bytes : cutChunks.flatten = Text.bytes "abcde" := by decide +kernel
    rw [whole (by decide), bytes]

end SemanticHighlight.Frame
