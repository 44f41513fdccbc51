import Mathlib.Data.List.Induction
import Mathlib.Data.Nat.Digits.Defs
import SemanticHighlight.Proofs.Frame.Stream

/-!
# How bytes split into frames

What reading frame after frame comes to is a function of the bytes alone. `split` cuts a byte string
into its frames and says why there are no more of them; any stream of these bytes is read so, in
whatever pieces it comes. If the stream fails, the frames that were complete before are kept.
-/

set_option autoImplicit false

namespace SemanticHighlight.Frame

/-- The number that a field of digits writes, its last digit counting least. -/
def decimal (field : Bytes) : Nat := Nat.ofDigits 10 (field.reverse.map fun b => b.toNat - 48)

theorem fieldValue_eq_decimal (field : Bytes) : fieldValue field = decimal field := by
  induction field using List.reverseRecOn with
  | nil => rfl
  | append_singleton front b ih =>
    rw [fieldValue_concat, ih, decimal, decimal, List.reverse_append, List.reverse_singleton,
      List.singleton_append, List.map_cons, Nat.ofDigits_cons]
    omega

/-- The payload of the first frame and the bytes after it, or why there is no frame. -/
def next (bs : Bytes) : Except Error (Bytes × Bytes) :=
  if bs.length < 10 then .error (.unexpectedEof 10 bs.length)
  else
    let field := bs.take 10
    let rest := bs.drop 10
    if ¬field.all isDigitByte then .error (.invalidLength (Text.lossy field))
    else if rest.length < decimal field then
      .error (.unexpectedEof (decimal field) rest.length)
    else .ok (rest.take (decimal field), rest.drop (decimal field))

/-- How bytes begin, in the terms of a reader. -/
inductive Begins (bs : Bytes) : Except Error (Bytes × Bytes) → Prop
  | headless (short : bs.length < fieldLength) :
    Begins bs (.error (.unexpectedEof fieldLength bs.length))
  | malformed {field : String} (enough : fieldLength ≤ bs.length)
    (decoded : decodeLength (bs.take fieldLength) = .error (.invalidLength field)) :
    Begins bs (.error (.invalidLength field))
  | cut {length : Nat} (enough : fieldLength ≤ bs.length)
    (decoded : decodeLength (bs.take fieldLength) = .ok length)
    (short : (bs.drop fieldLength).length < length) :
    Begins bs (.error (.unexpectedEof length (bs.drop fieldLength).length))
  | whole {length : Nat} (enough : fieldLength ≤ bs.length)
    (decoded : decodeLength (bs.take fieldLength) = .ok length)
    (fits : length ≤ (bs.drop fieldLength).length) :
    Begins bs (.ok ((bs.drop fieldLength).take length, (bs.drop fieldLength).drop length))

theorem next_begins (bs : Bytes) : Begins bs (next bs) := by
  unfold next
  by_cases short : bs.length < 10
  · rw [if_pos short]
    exact .headless short
  · rw [if_neg short]
    dsimp only
    have enough : fieldLength ≤ bs.length := Nat.not_lt.mp short
    by_cases digits : (bs.take 10).all isDigitByte
    · rw [if_neg (not_not.mpr digits)]
      have decoded : decodeLength (bs.take 10) = .ok (decimal (bs.take 10)) := by
        rw [decodeLength, if_pos digits, fieldValue_eq_decimal]
      by_cases missing : (bs.drop 10).length < decimal (bs.take 10)
      · rw [if_pos missing]
        exact .cut enough decoded missing
      · rw [if_neg missing]
        exact .whole enough decoded (Nat.not_lt.mp missing)
    · rw [if_pos digits]
      exact .malformed enough (if_neg digits)

theorem next_frame {bs payload rest : Bytes} (h : next bs = .ok (payload, rest)) :
    ∃ frame, encode payload = .ok frame ∧ bs = frame ++ rest := by
  have begins := next_begins bs
  rw [h] at begins
  cases begins with
  | @whole length enough decoded fits =>
    have field : (bs.take fieldLength).length = fieldLength := List.length_take_of_le enough
    have payload : ((bs.drop fieldLength).take length).length = length :=
      List.length_take_of_le fits
    have header : encodeLength ((bs.drop fieldLength).take length).length =
        .ok (bs.take fieldLength) := by
      rw [payload]
      exact encodeLength_decodeLength field decoded
    refine ⟨_, encode_of_parts header, ?_⟩
    rw [List.append_assoc, List.take_append_drop, List.take_append_drop]

theorem length_next {bs payload rest : Bytes} (h : next bs = .ok (payload, rest)) :
    rest.length < bs.length := by
  obtain ⟨frame, hf, rfl⟩ := next_frame h
  obtain ⟨field, hfield, rfl⟩ := encode_parts hf
  have enough := encodeLength_length hfield
  simp only [List.length_append, fieldLength] at enough ⊢
  omega

/-- The payloads of the frames that the bytes begin with, and the error that ends them. -/
def split (bs : Bytes) : List Bytes × Error :=
  match _h : next bs with
  | .error e => ([], e)
  | .ok (payload, rest) => (payload :: (split rest).1, (split rest).2)
termination_by bs.length
decreasing_by all_goals exact length_next _h

theorem split_error {bs : Bytes} {e : Error} (h : next bs = .error e) : split bs = ([], e) := by
  rw [split]
  grind

theorem split_ok {bs payload rest : Bytes} (h : next bs = .ok (payload, rest)) :
    split bs = (payload :: (split rest).1, (split rest).2) := by
  rw [split]
  grind

theorem split_parts (bs : Bytes) :
    ∃ rest, bs = (split bs).1.flatMap frameOf ++ rest ∧ next rest = .error (split bs).2 := by
  induction hn : bs.length using Nat.strong_induction_on generalizing bs with
  | _ n ih =>
    cases h : next bs with
    | error e =>
      rw [split_error h]
      exact ⟨bs, rfl, h⟩
    | ok frame =>
      obtain ⟨payload, rest⟩ := frame
      obtain ⟨bytes, hf, hs⟩ := next_frame h
      have shorter : rest.length < n := hn ▸ length_next h
      obtain ⟨last, parts, ended⟩ := ih _ shorter rest rfl
      rw [split_ok h]
      refine ⟨last, ?_, ended⟩
      rw [hs, encode_eq_frameOf hf, List.flatMap_cons, List.append_assoc, ← parts]

theorem fits_of_encode {payload frame : Bytes} (h : encode payload = .ok frame) :
    payload.length ≤ maxLength := by
  by_contra long
  rw [encode_long (Nat.not_le.mp long)] at h
  cases h

theorem next_frameOf {payload : Bytes} (fits : payload.length ≤ maxLength) (rest : Bytes) :
    next (frameOf payload ++ rest) = .ok (payload, rest) := by
  have header := encodeLength_fits fits
  have ten := encodeLength_length header
  have parts : frameOf payload ++ rest =
      lastDigits fieldLength payload.length ++ (payload ++ rest) := List.append_assoc ..
  have front : (frameOf payload ++ rest).take fieldLength = lastDigits fieldLength payload.length := by
    rw [parts, List.take_left' ten]
  have behind : (frameOf payload ++ rest).drop fieldLength = payload ++ rest := by
    rw [parts, List.drop_left' ten]
  have begins := next_begins (frameOf payload ++ rest)
  generalize next (frameOf payload ++ rest) = result at begins
  cases begins with
  | headless short =>
    rw [parts, List.length_append, ten] at short
    omega
  | malformed enough decoded =>
    rw [front, decodeLength_encodeLength header] at decoded
    cases decoded
  | cut enough decoded short =>
    rw [front, decodeLength_encodeLength header] at decoded
    cases decoded
    rw [behind, List.length_append] at short
    omega
  | whole enough decoded =>
    rw [front, decodeLength_encodeLength header] at decoded
    cases decoded
    rw [behind, List.take_left, List.drop_left]

theorem split_frames {payloads : List Bytes} (fits : ∀ p ∈ payloads, p.length ≤ maxLength)
    (tail : Bytes) :
    split (payloads.flatMap frameOf ++ tail) = (payloads ++ (split tail).1, (split tail).2) := by
  induction payloads with
  | nil => rfl
  | cons p ps ih =>
    rw [List.flatMap_cons, List.append_assoc,
      split_ok (next_frameOf (fits p List.mem_cons_self) _),
      ih fun q hq => fits q (List.mem_cons_of_mem p hq)]
    rfl

theorem split_fits (bs : Bytes) : ∀ p ∈ (split bs).1, p.length ≤ maxLength := by
  induction hn : bs.length using Nat.strong_induction_on generalizing bs with
  | _ n ih =>
    cases h : next bs with
    | error e =>
      rw [split_error h]
      nofun
    | ok frame =>
      obtain ⟨payload, rest⟩ := frame
      obtain ⟨_, hf, -⟩ := next_frame h
      rw [split_ok h]
      intro p hp
      rcases List.mem_cons.mp hp with rfl | hp
      · exact fits_of_encode hf
      · exact ih _ (hn ▸ length_next h) rest rfl p hp

variable {s s' tail later : Source} {f : ReadFailure}

theorem take_append {n : Nat} {bs : Bytes} (h : s.take n = (.ok bs, s')) (full : bs.length = n) :
    Source.take n (s ++ tail) = (.ok bs, s' ++ tail) := by
  fun_induction Source.take n s generalizing bs s' with
  | case1 n =>
    cases h
    subst full
    cases tail <;> simp [Source.take]
  | case2 e s =>
    cases h
    simp [Source.take]
  | case3 n s hn ih => rw [List.cons_append, Source.take, if_neg hn, ih h full]
  | case4 => cases h
  | case5 n s hn =>
    cases h
    exact absurd full.symm hn
  | case6 n s hn bs hbs inside =>
    cases h
    rw [List.cons_append, Source.take, if_neg hn, if_neg hbs, if_pos inside, List.cons_append]
  | case7 n s hn bs hbs outside more rest hrec ih =>
    cases h
    rw [List.length_append] at full
    rw [List.cons_append, Source.take, if_neg hn, if_neg hbs, if_neg outside,
      ih hrec (by omega)]
  | case8 => cases h

theorem read_append {payload : Bytes} (h : read s = (.ok payload, s')) :
    read (s ++ tail) = (.ok payload, s' ++ tail) := by
  unfold read at h
  split at h
  · cases h
  · rename_i field s₁ hfield
    split at h
    · cases h
    · rename_i full
      rw [ne_eq, not_not] at full
      split at h
      · cases h
      · rename_i length hlength
        split at h
        · cases h
        · rename_i payload' s₂ hpayload
          split at h
          · cases h
          · rename_i full'
            rw [ne_eq, not_not] at full'
            cases h
            simp only [read, take_append hfield full, full, hlength, take_append hpayload full',
              full', ne_eq, not_true_eq_false, if_false]

theorem take_failing {n : Nat} (flowing : s.Flowing) (short : s.pending.length < n) :
    Source.take n (s ++ .failure f :: later) = (.error f, later) := by
  have positive : n ≠ 0 := by omega
  induction s generalizing n with
  | nil => rw [List.nil_append, Source.take, if_neg positive]
  | cons e s ih =>
    have rest : Source.Flowing s := fun e' he => flowing e' (List.mem_cons_of_mem e he)
    cases e with
    | failure f => exact (flowing _ List.mem_cons_self).elim
    | interrupted =>
      rw [List.cons_append, Source.take, if_neg positive]
      exact ih rest short positive
    | piece bs =>
      have filled : bs ≠ [] := flowing _ List.mem_cons_self
      rw [Source.pending, List.length_append] at short
      rw [List.cons_append, Source.take, if_neg positive, if_neg filled, if_neg (by omega),
        ih rest (by omega) (by omega)]

/-- What reading ends with at a failure of the stream: the failure, if there bytes are missing. -/
def Error.atFailure (f : ReadFailure) : Error → Error
  | .unexpectedEof _ _ => .ofFailure f
  | e => e

theorem read_ended {e : Error} (flowing : s.Flowing) (h : next s.pending = .error e) :
    ∃ s', read s = (.error e, s') := by
  have begins := next_begins s.pending
  obtain ⟨s₁, htake, hdrop, flowing₁⟩ := take_flowing fieldLength flowing
  rw [h] at begins
  cases begins with
  | headless short =>
    have rest : (s.pending.take fieldLength).length = s.pending.length := by
      rw [List.length_take]
      omega
    refine ⟨s₁, ?_⟩
    simp only [read, htake, rest, Nat.ne_of_lt short, ne_eq, not_false_eq_true, if_true]
  | malformed enough decoded =>
    have full : (s.pending.take fieldLength).length = fieldLength := List.length_take_of_le enough
    refine ⟨s₁, ?_⟩
    simp only [read, htake, full, decoded, ne_eq, not_true_eq_false, if_false]
  | @cut length enough decoded short =>
    obtain ⟨s₂, htake₂, -, -⟩ := take_flowing length flowing₁
    have full : (s.pending.take fieldLength).length = fieldLength := List.length_take_of_le enough
    rw [← hdrop] at short ⊢
    have rest : (s₁.pending.take length).length = s₁.pending.length := by
      rw [List.length_take]
      omega
    refine ⟨s₂, ?_⟩
    simp only [read, htake, full, decoded, htake₂, rest, Nat.ne_of_lt short, ne_eq,
      not_true_eq_false, not_false_eq_true, if_false, if_true]

theorem read_failing {e : Error} (flowing : s.Flowing) (h : next s.pending = .error e) :
    ∃ s', read (s ++ .failure f :: later) = (.error (e.atFailure f), s') := by
  have begins := next_begins s.pending
  obtain ⟨s₁, htake, hdrop, flowing₁⟩ := take_flowing fieldLength flowing
  rw [h] at begins
  cases begins with
  | headless short =>
    refine ⟨later, ?_⟩
    rw [read, take_failing flowing short]
    rfl
  | malformed enough decoded =>
    have full : (s.pending.take fieldLength).length = fieldLength := List.length_take_of_le enough
    refine ⟨s₁ ++ .failure f :: later, ?_⟩
    simp only [read, take_append htake full, full, decoded, ne_eq, not_true_eq_false, if_false,
      Error.atFailure]
  | @cut length enough decoded short =>
    have full : (s.pending.take fieldLength).length = fieldLength := List.length_take_of_le enough
    rw [← hdrop] at short
    refine ⟨later, ?_⟩
    simp only [read, take_append htake full, full, decoded, take_failing flowing₁ short, ne_eq,
      not_true_eq_false, if_false, Error.atFailure]

theorem readAll_tail {g : Error → Error}
    (ends : ∀ (s : Source) (e : Error), s.Flowing → next s.pending = .error e →
      ∃ s', read (s ++ tail) = (.error (g e), s'))
    (flowing : s.Flowing) :
    readAll (s ++ tail) = ((split s.pending).1, g (split s.pending).2) := by
  induction hn : s.pending.length using Nat.strong_induction_on generalizing s with
  | _ n ih =>
    cases h : next s.pending with
    | error e =>
      obtain ⟨s', hr⟩ := ends s e flowing h
      rw [readAll_error hr, split_error h]
    | ok frame =>
      obtain ⟨payload, rest⟩ := frame
      obtain ⟨bytes, hf, hs⟩ := next_frame h
      obtain ⟨s', hr, rfl, flowing'⟩ := read_flowing flowing hf hs
      have shorter : s'.pending.length < n := hn ▸ length_next h
      rw [readAll_ok (read_append hr), split_ok h, ih _ shorter flowing' rfl]

/-- Reading gives the frames of the bytes and the error they end with, in whatever non-empty pieces
the bytes come and however often a read is interrupted. If the stream fails, the frames are the same,
and the error is that of the stream if bytes were still missing there. Each frame that is read is
its payload behind a field of ten digits that gives the payload's length, and nothing after it is
taken. -/
theorem readAll_eq_split :
    (∀ s : Source, s.Flowing → readAll s = split s.pending) ∧
    (∀ (s later : Source) (f : ReadFailure), s.Flowing →
      readAll (s ++ .failure f :: later) =
        ((split s.pending).1, (split s.pending).2.atFailure f)) ∧
    ∀ (s s' : Source) (payload : Bytes), read s = (.ok payload, s') →
      ∃ field, encodeLength payload.length = .ok field ∧ field.length = 10 ∧
        s.pending = (field ++ payload) ++ s'.pending := by
  refine ⟨?_, ?_, ?_⟩
  · intro s flowing
    have ends (s : Source) (e : Error) (flowing : s.Flowing) (h : next s.pending = .error e) :
        ∃ s', read (s ++ []) = (.error (id e), s') := by
      rw [List.append_nil]
      exact read_ended flowing h
    simpa using readAll_tail ends flowing
  · intro s later f flowing
    exact readAll_tail (fun s e flowing h => read_failing flowing h) flowing
  · intro s s' payload h
    obtain ⟨frame, hf, hs⟩ := read_pending h
    obtain ⟨field, hfield, rfl⟩ := encode_parts hf
    exact ⟨field, hfield, encodeLength_length hfield, hs⟩

def tornFrames : Source :=
  [.piece [48, 48, 48], .interrupted, .piece [48, 48, 48, 48, 48, 48, 50, 111], .interrupted,
    .piece [107, 48, 48]]

theorem tornFrames_read :
    readAll tornFrames = ([[111, 107]], .unexpectedEof 10 2) ∧
    readAll (tornFrames ++ [.failure (.failed (.other "gone"))]) =
      ([[111, 107]], .io (.other "gone")) ∧
    ∃ field, encodeLength 2 = .ok field ∧ field.length = 10 ∧
      tornFrames.pending = (field ++ [111, 107]) ++ [48, 48] := by
  have flowing : tornFrames.Flowing := by simp [Source.Flowing, tornFrames, ReadEvent.Flows]
  have first : next tornFrames.pending = .ok ([111, 107], [48, 48]) := by decide
  have second : next [48, 48] = .error (.unexpectedEof 10 2) := by decide
  have frames : split tornFrames.pending = ([[111, 107]], .unexpectedEof 10 2) := by
    rw [split_ok first, split_error second]
  obtain ⟨whole, failing, taken⟩ := readAll_eq_split
  refine ⟨?_, ?_, ?_⟩
  · rw [whole tornFrames flowing, frames]
  · rw [failing tornFrames [] _ flowing, frames]
    rfl
  · exact taken tornFrames [.piece [48, 48]] [111, 107] (by rfl)

end SemanticHighlight.Frame
