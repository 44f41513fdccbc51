import SemanticHighlight.Proofs.Tokenizer.Serving

/-!
# How the tokenizer ends

A tokenizer that serves every request ends because its input does, or because a reply is too long
for a frame. The code it ends with tells whether the input ended between two frames, with one
exception: an input that ends right behind a length field is taken for one that ends in front of it.
-/

set_option autoImplicit false

namespace SemanticHighlight

namespace Frame

def Error.Silent : Error → Prop
  | .unexpectedEof _ 0 => True
  | _ => False

instance : DecidablePred Error.Silent
  | .unexpectedEof _ 0 => .isTrue trivial
  | .unexpectedEof _ (_ + 1) | .io _ | .invalidLength _ | .tooLarge _ | .timeout _ => .isFalse id

theorem silent_unexpectedEof (expected read : Nat) :
    (Error.unexpectedEof expected read).Silent ↔ read = 0 := by
  cases read <;> simp [Error.Silent]

theorem next_silent_iff (bs : Bytes) :
    (∃ e, next bs = .error e ∧ e.Silent) ↔ bs = [] ∨ ∃ n, 0 < n ∧ encodeLength n = .ok bs := by
  have ten {n : Nat} (field : encodeLength n = .ok bs) : bs.take fieldLength = bs :=
    List.take_of_length_le (Nat.le_of_eq (encodeLength_length field))
  have begins := next_begins bs
  generalize next bs = result at begins
  cases begins with
  | headless short =>
    simp only [Except.error.injEq, exists_eq_left', silent_unexpectedEof, List.length_eq_zero_iff]
    refine ⟨.inl, ?_⟩
    rintro (empty | ⟨n, -, field⟩)
    · exact empty
    · exact absurd (encodeLength_length field) (Nat.ne_of_lt short)
  | malformed enough decoded =>
    simp only [Except.error.injEq, exists_eq_left', Error.Silent, false_iff]
    rintro (rfl | ⟨n, -, field⟩)
    · cases enough
    · rw [ten field, decodeLength_encodeLength field] at decoded
      cases decoded
  | @cut length enough decoded short =>
    simp only [Except.error.injEq, exists_eq_left', silent_unexpectedEof,
      List.length_eq_zero_iff, List.drop_eq_nil_iff]
    constructor
    · intro whole
      have all : bs.take fieldLength = bs := List.take_of_length_le whole
      rw [all] at decoded
      exact .inr ⟨length, Nat.zero_lt_of_lt short,
        encodeLength_decodeLength (Nat.le_antisymm whole enough) decoded⟩
    · rintro (rfl | ⟨n, -, field⟩)
      · cases enough
      · exact Nat.le_of_eq (encodeLength_length field)
  | @whole length enough decoded fits =>
    simp only [reduceCtorEq, false_and, exists_false, false_iff]
    rintro (rfl | ⟨n, announced, field⟩)
    · cases enough
    · -- a lone field is no frame: what it announces is missing
      rw [ten field, decodeLength_encodeLength field] at decoded
      cases decoded
      rw [List.length_drop, encodeLength_length field] at fits
      omega

theorem next_cut {payload : Bytes} {n : Nat} (fits : payload.length ≤ maxLength)
    (inside : n < (frameOf payload).length) : ∃ e, next ((frameOf payload).take n) = .error e := by
  cases h : next ((frameOf payload).take n) with
  | error e => exact ⟨e, rfl⟩
  | ok frame =>
    obtain ⟨shorter, rest⟩ := frame
    obtain ⟨bytes, hf, hs⟩ := next_frame h
    have parts : frameOf payload = bytes ++ (rest ++ (frameOf payload).drop n) := by
      rw [← List.append_assoc, ← hs, List.take_append_drop]
    obtain ⟨none, -⟩ := encode_prefix_free hf (parts ▸ encode_fits fits)
    have left := congrArg List.length (List.append_eq_nil_iff.mp none).2
    rw [List.length_drop, List.length_nil] at left
    omega

end Frame

namespace Tokenizer

open SemanticHighlight.Frame (Source)

variable {k : Knobs} {args : List String} {served : Nat} {s s' : Source}

/-- The tokenizer can tell the end of its input from a failure only by what was read of what it
asked for. -/
theorem serve_failed {e : Frame.Error} (h : Frame.read s = (.error e, s')) :
    (serve k args served s).code = if e.Silent then 0 else 1 := by
  rw [serve]
  split
  · rename_i hr
    rw [h] at hr
    cases hr
    rfl
  · rename_i other hr
    rw [h] at hr
    cases hr
    rw [if_neg]
    intro silent
    unfold Frame.Error.Silent at silent
    split at silent
    · exact other _ rfl
    · exact silent
  · rename_i hr
    rw [h] at hr
    cases hr

theorem after_code (t : Turn) (e : Ending) : (Ending.after t e).code = e.code := rfl

theorem serve_code (whole : k.truncate = false) (unlimited : k.exitAfter? = none)
    (args : List String) (served : Nat) (flowing : s.Flowing) :
    (serve k args served s).code =
      if (∀ r ∈ (Frame.split s.pending).1, (reply r).length ≤ Frame.maxLength) ∧
        (Frame.split s.pending).2.Silent then 0 else 1 := by
  have lasting (served : Nat) : ¬k.Spent served := by simp [Knobs.Spent, unlimited]
  induction hn : s.pending.length using Nat.strong_induction_on generalizing s served with
  | _ n ih =>
    cases h : Frame.next s.pending with
    | error e =>
      obtain ⟨s', hr⟩ := Frame.read_ended flowing h
      rw [serve_failed hr, Frame.split_error h]
      simp
    | ok frame =>
      obtain ⟨request, rest⟩ := frame
      obtain ⟨bytes, hf, hs⟩ := Frame.next_frame h
      obtain ⟨s', hr, rfl, flowing'⟩ := Frame.read_flowing flowing hf hs
      have shorter : s'.pending.length < n := hn ▸ Frame.length_next h
      rw [Frame.split_ok h, serve_asked hr]
      simp only [List.forall_mem_cons]
      rw [after_code]
      cases turn_ending whole args served request with
      | quits spent => exact absurd spent (lasting served)
      | answers _ fits output exit =>
        rw [exit]
        simp only [fits, true_and]
        exact ih _ shorter (served + 1) flowing' rfl
      | refuses _ long output exit =>
        rw [exit, if_neg fun all => Nat.not_le.mpr long all.1.1]

theorem run_code {m : Machine} (whole : (Knobs.ofMachine m).truncate = false)
    (unlimited : (Knobs.ofMachine m).exitAfter? = none) (args : List String) (input : Bytes) :
    (run m args input).1.code =
      if (∀ r ∈ (Frame.split input).1, (reply r).length ≤ Frame.maxLength) ∧
        (Frame.split input).2.Silent then 0 else 1 := by
  have served := serve_code whole unlimited args 0 (Frame.flowing_closed input)
  rwa [Frame.pending_closed] at served

/-- The tokenizer ends with code 0 exactly if its input is frame after frame, with replies that fit
into frames, and then nothing or a length field that announces something. It ends with code 1
otherwise, in particular wherever inside a frame the input ends, but right behind its field. -/
theorem code_of_input (m : Machine) (args : List String)
    (whole : (Knobs.ofMachine m).truncate = false)
    (unlimited : (Knobs.ofMachine m).exitAfter? = none) :
    (∀ input, (run m args input).1.code = 0 ∨ (run m args input).1.code = 1) ∧
    (∀ input, (run m args input).1.code = 0 ↔
      ∃ (requests : List Bytes) (tail : Bytes), input = requests.flatMap Frame.frameOf ++ tail ∧
        (∀ r ∈ requests, r.length ≤ 9999999999 ∧
          (Text.bytes (tokenize (Text.lossy r))).length ≤ 9999999999) ∧
        (tail = [] ∨ ∃ n, 0 < n ∧ Frame.encodeLength n = .ok tail)) ∧
    ∀ (requests : List Bytes) (cut : Bytes) (n : Nat),
      (∀ r ∈ requests, r.length ≤ 9999999999) → cut.length ≤ 9999999999 →
      0 < n → n < (Frame.frameOf cut).length → n ≠ 10 →
      (run m args (requests.flatMap Frame.frameOf ++ (Frame.frameOf cut).take n)).1.code = 1 := by
  have code := run_code whole unlimited args
  refine ⟨?_, ?_, ?_⟩
  · intro input
    rw [code]
    split
    · exact .inl rfl
    · exact .inr rfl
  · intro input
    rw [code, ite_eq_left_iff]
    constructor
    · intro ends
      obtain ⟨replied, silent⟩ := not_not.mp fun other => absurd (ends other) one_ne_zero
      obtain ⟨tail, parts, ended⟩ := Frame.split_parts input
      exact ⟨_, tail, parts, fun r hr => ⟨Frame.split_fits input r hr, replied r hr⟩,
        (Frame.next_silent_iff tail).mp ⟨_, ended, silent⟩⟩
    · rintro ⟨requests, tail, rfl, fits, last⟩ other
      obtain ⟨e, ended, silent⟩ := (Frame.next_silent_iff tail).mpr last
      refine absurd ?_ other
      rw [Frame.split_frames fun r hr => (fits r hr).1, Frame.split_error ended, List.append_nil]
      exact ⟨fun r hr => (fits r hr).2, silent⟩
  · intro requests cut n fits short begun inside field
    obtain ⟨e, ended⟩ := Frame.next_cut short inside
    have taken : ((Frame.frameOf cut).take n).length = n := List.length_take_of_le inside.le
    rw [code, if_neg]
    rintro ⟨-, silent⟩
    rw [Frame.split_frames fits, Frame.split_error ended] at silent
    rcases (Frame.next_silent_iff _).mp ⟨e, ended, silent⟩ with empty | ⟨m, -, lone⟩
    · rw [empty, List.length_nil] at taken
      omega
    · exact field (taken.symm.trans (Frame.encodeLength_length lone))

theorem twoRequests_code :
    (Knobs.ofMachine {}).truncate = false ∧ (Knobs.ofMachine {}).exitAfter? = none ∧
    (run {} [] ([Text.bytes "a.b", []].flatMap Frame.frameOf)).1.code = 0 ∧
    (run {} [] ([Text.bytes "a.b", []].flatMap Frame.frameOf ++
      (Frame.frameOf (Text.bytes "f()")).take 12)).1.code = 1 := by
  have whole : (Knobs.ofMachine {}).truncate = false := by decide +kernel
  have unlimited : (Knobs.ofMachine {}).exitAfter? = none := by decide +kernel
  obtain ⟨-, clean, torn⟩ := code_of_input {} [] whole unlimited
  refine ⟨whole, unlimited, (clean _).mpr ⟨_, [], (List.append_nil _).symm, ?_, .inl rfl⟩, ?_⟩
  · decide +kernel
  · exact torn [Text.bytes "a.b", []] (Text.bytes "f()") 12 (by decide +kernel) (by decide +kernel)
      (by decide) (by decide +kernel) (by decide)

/-- A length field that announces five bytes, and then the end: the input is cut inside a frame, and
yet the code is that of an input of whole frames. -/
theorem lone_field_ends_cleanly :
    (run {} [] (Text.bytes "0000000005")).1.code = 0 ∧
    (¬∃ requests : List Bytes, (∀ r ∈ requests, r.length ≤ 9999999999) ∧
      Text.bytes "0000000005" = requests.flatMap Frame.frameOf) ∧
    ¬∀ (m : Machine) (args : List String) (input : Bytes),
      (Knobs.ofMachine m).truncate = false → (Knobs.ofMachine m).exitAfter? = none →
      ((run m args input).1.code = 0 ↔ ∃ requests : List Bytes,
        (∀ r ∈ requests, r.length ≤ 9999999999) ∧ input = requests.flatMap Frame.frameOf) := by
  have code : (run {} [] (Text.bytes "0000000005")).1.code = 0 := by decide +kernel
  have cut : ¬∃ requests : List Bytes, (∀ r ∈ requests, r.length ≤ 9999999999) ∧
      Text.bytes "0000000005" = requests.flatMap Frame.frameOf := by
    rintro ⟨requests, fits, parts⟩
    have frames := Frame.split_frames fits []
    have none : (Frame.split (Text.bytes "0000000005")).1 = [] := by
      rw [Frame.split_error (show Frame.next (Text.bytes "0000000005") =
        .error (.unexpectedEof 5 0) by rfl)]
    rw [List.append_nil, ← parts] at frames
    rw [frames] at none
    obtain ⟨rfl, -⟩ := List.append_eq_nil_iff.mp none
    cases parts
  refine ⟨code, cut, fun all => cut ?_⟩
  exact (all {} [] _ (by decide +kernel) (by decide +kernel)).mp code

end Tokenizer

end SemanticHighlight
