import SemanticHighlight.Host
import SemanticHighlight.Proofs.Json.RoundTrip
import SemanticHighlight.Proofs.Text.Lines

/-!
# Lines for the editor

The other end of `lineHost`: a text is cut at its line feeds and each line is read as a batch of
calls. What has been written without a failure is read back as the batches that were sent, since a
line is never cut short and an escaped string hides every line feed of its text.
-/

set_option autoImplicit false

namespace SemanticHighlight

namespace Json

theorem escape_one_line (c : Char) : '\n' ∉ escape c := by
  rcases escape_cases c with ⟨e, he, short, -⟩ | ⟨-, -, he⟩ | ⟨-, -, printed, -, he⟩
  · rw [he]
    have letter : e ≠ '\n' := by
      rintro rfl
      cases short
    simp [Ne.symm letter]
  · rw [he]
    have digit (n : Nat) : Text.Hexadecimal.digit n ≠ '\n' := by
      intro newline
      have value := hexValue?_digit n
      rw [newline] at value
      cases value
    simp [Ne.symm (digit _)]
  · rw [he, List.mem_singleton]
    rintro rfl
    exact absurd printed (by decide)

theorem literal_one_line (s : Option String) : '\n' ∉ literal s := by
  cases s with
  | none => simp [literal_none]
  | some s => simp [literal_some, escape_one_line]

theorem spelling_one_line {t : Token} (whole : t.isReal = false) : '\n' ∉ t.spelling := by
  cases t with
  | int n =>
    intro h
    exact absurd (intText_parts n '\n' h) (by decide)
  | bool b => cases b <;> simp [Token.spelling]
  | real l => cases whole
  | text s => exact literal_one_line s
  | _ => simp [Token.spelling]

theorem compact_one_line {v : Json} (h : v.Whole) : '\n' ∉ v.compact := by
  rw [compact, List.mem_flatMap]
  rintro ⟨t, ht, newline⟩
  exact spelling_one_line (h t ht) newline

end Json

namespace Op

def ofArguments? : List Json → Option Op
  | [.int b, .int s, .str (some group), .int line, .int start, .int stop] =>
    some (.add b s group line start stop)
  | [.int b, .int s, .int fromLine, .int toLine] => some (.clear b s fromLine toLine)
  | _ => none

def ofCall? : Json → Option Op
  | .arr [.str (some method), .arr arguments] =>
    (ofArguments? arguments).filter (·.method = method)
  | _ => none

theorem ofCall?_call (op : Op) : ofCall? op.call = some op := by
  cases op <;> simp [call, Json.ofText, ofCall?, arguments, ofArguments?]

theorem ofCall?_eq_some_iff {v : Json} {op : Op} : ofCall? v = some op ↔ v = op.call := by
  constructor
  · intro h
    unfold ofCall? at h
    split at h
    · rename_i method arguments
      obtain ⟨made, hm⟩ := Option.filter_eq_some_iff.mp h
      unfold ofArguments? at made
      split at made
      · cases made
        simp_all [call, Json.ofText, Op.arguments]
      · cases made
        simp_all [call, Json.ofText, Op.arguments]
      · cases made
    · cases h
  · rintro rfl
    exact ofCall?_call op

theorem call_whole (op : Op) : op.call.Whole := by
  have arguments : ∀ v ∈ op.arguments, v.Whole := by
    intro v hv
    cases op <;>
    · simp only [Op.arguments, List.mem_cons, List.not_mem_nil, or_false] at hv
      rcases hv with rfl | rfl | rfl | rfl | rfl | rfl <;>
        first | exact Json.whole_int _ | exact Json.whole_ofText _
  apply Json.whole_arr
  simp [Json.whole_ofText, Json.whole_arr arguments]

end Op

namespace Host

variable {σ : Type}

def callEach (host : Host σ) (s : σ) : List (List Op) → List (Except HostError Unit) × σ
  | [] => ([], s)
  | ops :: batches =>
    let (r, s) := host.callAtomic ops s
    let (rs, s) := host.callEach s batches
    (r :: rs, s)

end Host

theorem Sink.write_ok {s s' : Sink} {bs : Bytes} (h : s.write bs = (.ok (), s')) :
    s'.written = s.written ++ bs := by
  unfold write at h
  split at h
  · cases h
    rfl
  · split at h <;> cases h
    rfl

namespace LineHost

theorem callAtomic_written {ops : List Op} {h h' : LineHost} (ok : callAtomic ops h = (.ok (), h')) :
    h'.sink.written = h.sink.written ++ Text.bytes (line ops) := by
  unfold callAtomic at ok
  split at ok
  · cases ok
  · rename_i sink hw
    split at ok <;> cases ok
    exact Sink.write_ok hw

def text (batches : List (List Op)) : String := String.join (batches.map line)

theorem callEach_written (h : LineHost) (batches : List (List Op))
    (ok : ∀ r ∈ (lineHost.callEach h batches).1, r = .ok ()) :
    (lineHost.callEach h batches).2.sink.written = h.sink.written ++ Text.bytes (text batches) := by
  induction batches generalizing h with
  | nil => simp [Host.callEach, text, Text.bytes_eq_flatMap]
  | cons ops batches ih =>
    rcases hc : callAtomic ops h with ⟨r, h'⟩
    have call : lineHost.callEach h (ops :: batches) =
        (r :: (lineHost.callEach h' batches).1, (lineHost.callEach h' batches).2) := by
      rw [Host.callEach, lineHost]
      simp only [hc]
    rw [call] at ok ⊢
    obtain rfl := ok r (by simp)
    rw [ih h' fun r' hr => ok r' (List.mem_cons_of_mem _ hr), callAtomic_written hc,
      List.append_assoc, ← Text.bytes_append]
    congr 2
    simp [text]

def batch? (line : List Char) : Option (List Op) :=
  match Json.read? line with
  | some (.arr calls) => calls.mapM Op.ofCall?
  | _ => none

def batches? (text : String) : Option (List (List Op)) :=
  let pieces := Text.pieces '\n' text.toList
  if pieces.getLast? = some [] then pieces.dropLast.mapM batch? else none

def body (ops : List Op) : List Char := (Json.arr (ops.map Op.call)).compact

theorem calls_whole (ops : List Op) : (Json.arr (ops.map Op.call)).Whole := by
  apply Json.whole_arr
  simp [Op.call_whole]

theorem body_one_line (ops : List Op) : '\n' ∉ body ops := Json.compact_one_line (calls_whole ops)

theorem batch?_body (ops : List Op) : batch? (body ops) = some ops := by
  rw [batch?, body, Json.read?_compact (calls_whole ops)]
  exact Json.mapM_map_some _ _ Op.ofCall?_call ops

theorem toList_text (batches : List (List Op)) :
    (text batches).toList = (batches.map body).flatMap (· ++ ['\n']) := by
  simp [text, line, body, List.flatMap_map]

theorem batches?_text (batches : List (List Op)) : batches? (text batches) = some batches := by
  have pieces : Text.pieces '\n' (text batches).toList = batches.map body ++ [[]] := by
    rw [toList_text, Text.pieces_ended]
    simp [body_one_line]
  rw [batches?, pieces]
  simpa using Json.mapM_map_some _ _ batch?_body batches

theorem count_newline_text (batches : List (List Op)) :
    (text batches).toList.count '\n' = batches.length := by
  have one (ops : List Op) : (body ops ++ ['\n']).count '\n' = 1 := by
    simp [List.count_eq_zero_of_not_mem (body_one_line ops)]
  rw [toList_text, List.flatMap_map, List.count_flatMap]
  simp [Function.comp_def, one, List.map_const']

/-- What a host has written without a failure is one line for each batch, and says the batches. -/
theorem written_batches (batches : List (List Op)) (h : LineHost) (empty : h.sink.written = [])
    (succeeds : ∀ r ∈ (lineHost.callEach h batches).1, r = .ok ()) :
    (lineHost.callEach h batches).2.sink.written = Text.bytes (text batches) ∧
    (text batches).toList.count '\n' = batches.length ∧
    (∀ ops, (line ops).toList = body ops ++ ['\n'] ∧ '\n' ∉ body ops ∧
      batch? (body ops) = some ops) ∧
    (∀ v op, Op.ofCall? v = some op ↔ v = op.call) ∧
    (Text.ofBytes? (lineHost.callEach h batches).2.sink.written).bind batches? = some batches ∧
    ∀ (batches' : List (List Op)) (h' : LineHost), h'.sink.written = [] →
      (∀ r ∈ (lineHost.callEach h' batches').1, r = .ok ()) →
      (lineHost.callEach h' batches').2.sink.written = (lineHost.callEach h batches).2.sink.written →
      batches' = batches := by
  have readable (batches : List (List Op)) (h : LineHost) (empty : h.sink.written = [])
      (succeeds : ∀ r ∈ (lineHost.callEach h batches).1, r = .ok ()) :
      (Text.ofBytes? (lineHost.callEach h batches).2.sink.written).bind batches? = some batches := by
    rw [callEach_written h batches succeeds, empty, List.nil_append, Text.ofBytes?_bytes,
      Option.bind_some, batches?_text]
  refine ⟨?_, count_newline_text batches, fun ops => ⟨?_, body_one_line ops, batch?_body ops⟩,
    fun v op => Op.ofCall?_eq_some_iff, readable batches h empty succeeds,
    fun batches' h' empty' succeeds' same => ?_⟩
  · rw [callEach_written h batches succeeds, empty, List.nil_append]
  · rw [line, String.toList_ofList, body]
  · have read := readable batches' h' empty' succeeds'
    rw [same, readable batches h empty succeeds] at read
    exact (Option.some.inj read).symm

def awkward : List (List Op) := [
  [.clear 1 (-9223372036854775808) 0 (-1), .add 1 1 "a\"\n\\\x01\x7d" 9223372036854775807 0 0],
  [],
  [.add 1 1 "\r\u2028😀" 0 0 0]]

theorem awkward_written : (∀ r ∈ (lineHost.callEach {} awkward).1, r = .ok ()) ∧
    (text awkward).toList.count '\n' = 3 ∧
    (Text.ofBytes? (lineHost.callEach {} awkward).2.sink.written).bind batches? = some awkward := by
  have succeeds : ∀ r ∈ (lineHost.callEach {} awkward).1, r = .ok () := by
    simp [awkward, Host.callEach, lineHost, callAtomic, Sink.write, Sink.flush]
  obtain ⟨-, lines, -, -, read, -⟩ := written_batches awkward {} rfl succeeds
  exact ⟨succeeds, lines, read⟩

end LineHost

end SemanticHighlight
