import SemanticHighlight.Proofs.Frame.Reader

/-!
# Streams of frames

Frames written one after the other are read back one after the other. It makes no difference into
which pieces the stream is cut and how often a read is interrupted: a read takes the bytes it asks
for from the front of the stream, and leaves a stream that has the others.
-/

set_option autoImplicit false

namespace SemanticHighlight.Frame

def ReadEvent.Flows : ReadEvent → Prop
  | .piece bs => bs ≠ []
  | .interrupted => True
  | .failure _ => False

/-- The stream does not fail and ends where its bytes end. -/
def Source.Flowing (s : Source) : Prop := ∀ e ∈ s, e.Flows

theorem flowing_closed (bs : Bytes) : (Source.closed bs).Flowing := by
  unfold Source.closed
  split
  · nofun
  · rename_i filled
    simpa [Source.Flowing, ReadEvent.Flows] using filled

theorem take_flowing (n : Nat) {s : Source} (flowing : s.Flowing) :
    ∃ s', s.take n = (.ok (s.pending.take n), s') ∧ s'.pending = s.pending.drop n ∧ s'.Flowing := by
  fun_induction Source.take n s with
  | case1 => exact ⟨[], by simp [Source.pending], by simp [Source.pending], flowing⟩
  | case2 e s => exact ⟨e :: s, by simp, by simp, flowing⟩
  | case3 n s hn ih => exact ih fun e he => flowing e (List.mem_cons_of_mem _ he)
  | case4 => exact absurd (flowing _ List.mem_cons_self) id
  | case5 => exact absurd rfl (flowing _ List.mem_cons_self)
  | case6 n s hn bs hbs hlt =>
    -- the piece has more than was asked for; what is left of it is not empty
    have rest : Source.Flowing (.piece (bs.drop n) :: s) := by
      intro e he
      rcases List.mem_cons.mp he with rfl | he
      · exact fun h => absurd (List.drop_eq_nil_iff.mp h) (by omega)
      · exact flowing e (List.mem_cons_of_mem _ he)
    refine ⟨.piece (bs.drop n) :: s, ?_, ?_, rest⟩
    · rw [Source.pending, List.take_append_of_le_length (by omega)]
    · rw [Source.pending, Source.pending, List.drop_append_of_le_length (by omega)]
  | case7 n s hn bs hbs hle more s' hrec ih =>
    -- the piece is taken whole, and the rest from the pieces after it
    obtain ⟨s₁, htake, hdrop, rest⟩ := ih fun e he => flowing e (List.mem_cons_of_mem _ he)
    rw [hrec] at htake
    cases htake
    have whole : bs.take n = bs := List.take_of_length_le (Nat.not_lt.mp hle)
    have none : bs.drop n = [] := List.drop_of_length_le (Nat.not_lt.mp hle)
    refine ⟨s', ?_, ?_, rest⟩
    · rw [Source.pending, List.take_append, whole]
    · rw [Source.pending, List.drop_append, none, List.nil_append, hdrop]
  | case8 n s hn bs hbs hle f s' hrec ih =>
    obtain ⟨s₁, htake, -, -⟩ := ih fun e he => flowing e (List.mem_cons_of_mem _ he)
    rw [hrec] at htake
    cases htake

/-- A frame at the front of the stream is read as its payload, and the rest stays. -/
theorem read_flowing {payload frame rest : Bytes} {s : Source} (flowing : s.Flowing)
    (hf : encode payload = .ok frame) (hs : s.pending = frame ++ rest) :
    ∃ s', read s = (.ok payload, s') ∧ s'.pending = rest ∧ s'.Flowing := by
  obtain ⟨field, hfield, rfl⟩ := encode_parts hf
  have hl := encodeLength_length hfield
  rw [List.append_assoc] at hs
  obtain ⟨s₁, htake, hrest, flowing₁⟩ := take_flowing fieldLength flowing
  rw [hs, ← hl, List.take_left] at htake
  rw [hs, ← hl, List.drop_left] at hrest
  obtain ⟨s₂, htake₂, hrest₂, flowing₂⟩ := take_flowing payload.length flowing₁
  rw [hrest, List.take_left] at htake₂
  rw [hrest, List.drop_left] at hrest₂
  refine ⟨s₂, ?_, hrest₂, flowing₂⟩
  rw [hl] at htake
  simp only [read, htake, hl, ne_eq, not_true_eq_false, if_false, decodeLength_encodeLength hfield,
    htake₂]

theorem read_drained {s : Source} (flowing : s.Flowing) (hs : s.pending = []) :
    ∃ s', read s = (.error (.unexpectedEof fieldLength 0), s') := by
  obtain ⟨s', htake, -, -⟩ := take_flowing fieldLength flowing
  rw [hs, List.take_nil] at htake
  exact ⟨s', by rw [read, htake]; rfl⟩

theorem readAll_ok {s s' : Source} {payload : Bytes} (h : read s = (.ok payload, s')) :
    readAll s = (payload :: (readAll s').1, (readAll s').2) := by
  rw [readAll]
  split
  · rename_i hr
    rw [h] at hr
    cases hr
  · rename_i hr
    rw [h] at hr
    cases hr
    rfl

theorem readAll_error {s s' : Source} {e : Error} (h : read s = (.error e, s')) :
    readAll s = ([], e) := by
  rw [readAll]
  split
  · rename_i hr
    rw [h] at hr
    cases hr
    rfl
  · rename_i hr
    rw [h] at hr
    cases hr

def writeAll : List Bytes → Sink → Except Error Unit × Sink
  | [], s => (.ok (), s)
  | p :: ps, s =>
    match write p s with
    | (.ok (), s) => writeAll ps s
    | (.error e, s) => (.error e, s)

def frameOf (payload : Bytes) : Bytes := lastDigits fieldLength payload.length ++ payload

theorem encodeLength_fits {n : Nat} (fits : n ≤ maxLength) :
    encodeLength n = .ok (lastDigits fieldLength n) :=
  if_neg (Nat.not_lt.mpr fits)

theorem encode_fits {payload : Bytes} (fits : payload.length ≤ maxLength) :
    encode payload = .ok (frameOf payload) :=
  encode_of_parts (encodeLength_fits fits)

theorem encode_eq_frameOf {payload frame : Bytes} (h : encode payload = .ok frame) :
    frame = frameOf payload := by
  obtain ⟨field, hfield, rfl⟩ := encode_parts h
  obtain ⟨-, rfl⟩ := encodeLength_eq_ok_iff.mp hfield
  rfl

theorem encodeLength_long {n : Nat} (long : maxLength < n) :
    encodeLength n = .error (.tooLarge n) :=
  if_pos long

theorem encode_long {payload : Bytes} (long : maxLength < payload.length) :
    encode payload = .error (.tooLarge payload.length) := by
  rw [encode, encodeLength_long long]

theorem write_fits {payload : Bytes} (fits : payload.length ≤ maxLength) (bs : Bytes) :
    write payload { written := bs } = (.ok (), { written := bs ++ frameOf payload }) := by
  simp [write, writeChunks, encodeLength_fits fits, Sink.writeEach, Sink.write, Sink.flush,
    totalLength, frameOf]

theorem writeAll_fits {payloads : List Bytes} (fits : ∀ p ∈ payloads, p.length ≤ maxLength)
    (bs : Bytes) : writeAll payloads { written := bs } =
      (.ok (), { written := bs ++ payloads.flatMap frameOf }) := by
  induction payloads generalizing bs with
  | nil => simp [writeAll]
  | cons p ps ih =>
    rw [writeAll, write_fits (fits p List.mem_cons_self)]
    dsimp only
    rw [ih fun q hq => fits q (List.mem_cons_of_mem p hq), List.flatMap_cons, List.append_assoc]

theorem write_long {payload : Bytes} (long : maxLength < payload.length) (s : Sink) :
    write payload s = (.error (.tooLarge payload.length), s) := by
  rw [write, writeChunks, encodeLength_long long]

/-- The payloads up to the first one that no field can announce. -/
def announced (payloads : List Bytes) : List Bytes := payloads.takeWhile (·.length ≤ maxLength)

theorem announced_short {p : Bytes} (fits : p.length ≤ maxLength) (ps : List Bytes) :
    announced (p :: ps) = p :: announced ps :=
  List.takeWhile_cons_of_pos (by simpa using fits)

theorem announced_long {p : Bytes} (long : maxLength < p.length) (ps : List Bytes) :
    announced (p :: ps) = [] :=
  List.takeWhile_cons_of_neg (by simpa using long)

theorem announced_fits (payloads : List Bytes) :
    ∀ p ∈ announced payloads, p.length ≤ maxLength := by
  intro p hp
  have all := List.all_eq_true.mp (List.all_takeWhile (p := fun p : Bytes => p.length ≤ maxLength)) p hp
  exact of_decide_eq_true all

theorem announced_eq {payloads : List Bytes} (fits : ∀ p ∈ payloads, p.length ≤ maxLength) :
    announced payloads = payloads := by
  have all : (payloads ++ []).takeWhile (·.length ≤ maxLength) =
      payloads ++ [].takeWhile (·.length ≤ maxLength) :=
    List.takeWhile_append_of_pos (by simpa using fits)
  simpa [announced] using all

theorem writeAll_written (payloads : List Bytes) (bs : Bytes) :
    (writeAll payloads { written := bs }).2.written =
      bs ++ (announced payloads).flatMap frameOf := by
  induction payloads generalizing bs with
  | nil => simp [writeAll, announced]
  | cons p ps ih =>
    by_cases fits : p.length ≤ maxLength
    · rw [writeAll, write_fits fits, announced_short fits, List.flatMap_cons, ← List.append_assoc]
      exact ih _
    · have long : maxLength < p.length := Nat.not_le.mp fits
      rw [writeAll, write_long long, announced_long long]
      simp

theorem readAll_frames {payloads : List Bytes} (fits : ∀ p ∈ payloads, p.length ≤ maxLength)
    {s : Source} (flowing : s.Flowing) (hs : s.pending = payloads.flatMap frameOf) :
    readAll s = (payloads, .unexpectedEof fieldLength 0) := by
  induction payloads generalizing s with
  | nil =>
    obtain ⟨s', hr⟩ := read_drained flowing hs
    exact readAll_error hr
  | cons p ps ih =>
    obtain ⟨s', hr, hrest, flowing'⟩ :=
      read_flowing flowing (encode_fits (fits p List.mem_cons_self)) hs
    rw [readAll_ok hr, ih (fun q hq => fits q (List.mem_cons_of_mem p hq)) flowing' hrest]

/-- Payloads that a length field can announce are all written, and whatever non-empty pieces the
written bytes come in, with any interruptions, they are read back in order; the read after the last
one finds the end of the stream before the first byte of a length field. -/
theorem readAll_writeAll (payloads : List Bytes) (fits : ∀ p ∈ payloads, p.length ≤ 9999999999) :
    (writeAll payloads {}).1 = .ok () ∧
    ∀ source : Source, source.Flowing → source.pending = (writeAll payloads {}).2.written →
      readAll source = (payloads, .unexpectedEof 10 0) := by
  have written : writeAll payloads {} = (.ok (), { written := payloads.flatMap frameOf }) :=
    writeAll_fits fits []
  rw [written]
  constructor
  · rfl
  · intro source flowing hs
    exact readAll_frames fits flowing hs

def cutFrames : Source :=
  [.interrupted, .piece [48, 48, 48], .piece [48, 48, 48, 48, 48, 48, 50, 0], .interrupted,
    .interrupted, .piece [255, 48, 48, 48, 48, 48, 48, 48, 48], .piece [48, 49, 10], .interrupted]

theorem cutFrames_read : readAll cutFrames = ([[0, 255], [10]], .unexpectedEof 10 0) := by
  have flowing : cutFrames.Flowing := by simp [Source.Flowing, cutFrames, ReadEvent.Flows]
  exact (readAll_writeAll [[0, 255], [10]] (by decide)).2 cutFrames flowing (by decide)

end SemanticHighlight.Frame
