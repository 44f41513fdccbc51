import SemanticHighlight.Command.Run
import SemanticHighlight.Proofs.Host.Lines
import SemanticHighlight.Proofs.Session.Quitting

/-!
# What the command writes

The command opens a session with one buffer, makes one pass over it and ends, unless its worker lives
on and leaves the text of the file in a full pipe. It writes one line or nothing: whatever goes wrong
on the way, with the arguments, the settings, the file or the worker, is known before the host is
asked for anything, and the host of the command accepts every call. With the tokenizer as its worker
the line says the tokens of the file.
-/

set_option autoImplicit false

namespace SemanticHighlight

namespace Tokenizer

end Tokenizer

namespace LineHost

/-- The output is one line, and reading it gives the operations. -/
structure Says (output : Bytes) (ops : List Op) : Prop where
  written : output = Text.bytes (line ops)
  ended : (line ops).toList = body ops ++ ['\n']
  single : '\n' ∉ body ops
  read : batch? (body ops) = some ops

end LineHost

namespace Session

def opened (settings : Settings) (info : BufferInfo) (profile : Profile) : Session LineHost :=
  { start settings {} with
    tables := ({} : Keyed String GroupTable).set info.filetype profile.table
    buffers := ({} : Keyed BufferId Attachment).set info.id ⟨info, profile.table, none⟩ }

variable {settings : Settings} {info : BufferInfo} {profile : Profile} {config : WorkerConfig}
  {m : Worker.Moment} {content payload : String}

end Session

namespace Machine

end Machine

namespace Command

open Session (opened)

def target (m : Machine) (a : Arguments) : Target :=
  .ofFile 1 (bufferInfo m a).path (bufferInfo m a).root

namespace Arguments

@[simp] theorem texts_bytes (args : List String) : texts (args.map Text.bytes) = args := by
  induction args with
  | nil => rfl
  | cons arg args ih => rw [List.map_cons, texts, Text.ofBytes?_bytes, ih]

theorem ofBytes_bytes (args : List String) :
    ofBytes (args.map Text.bytes) = (read args).mapError .usage := by
  rw [ofBytes, texts_bytes, if_pos (List.length_map _).symm]

theorem texts_before (before : List String) {bad : Bytes} (notText : Text.ofBytes? bad = none)
    (rest : List Bytes) : texts (before.map Text.bytes ++ bad :: rest) = before := by
  induction before with
  | nil => rw [List.map_nil, List.nil_append, texts, notText]
  | cons arg args ih => rw [List.map_cons, List.cons_append, texts, Text.ofBytes?_bytes, ih]

theorem texts_cut (arguments : List Bytes) :
    arguments = (texts arguments).map Text.bytes ∨
    ∃ bad rest, arguments = (texts arguments).map Text.bytes ++ bad :: rest ∧
      Text.ofBytes? bad = none := by
  induction arguments with
  | nil => exact .inl rfl
  | cons argument arguments ih =>
    cases read : Text.ofBytes? argument with
    | none => exact .inr ⟨argument, arguments, by rw [texts, read]; rfl, read⟩
    | some text =>
      rw [texts, read, List.map_cons, Text.bytes_ofBytes? read]
      rcases ih with all | ⟨bad, rest, cut, notText⟩
      · exact .inl (congrArg (argument :: ·) all)
      · exact .inr ⟨bad, rest, congrArg (argument :: ·) cut, notText⟩

/-- An argument that is not text is met if and only if the arguments before it are in order, perhaps
but for the value of the last option, which it would be. -/
theorem ofBytes_eq_notText {arguments : List Bytes} :
    ofBytes arguments = .error .notText ↔
      ∃ before bad rest, arguments = before.map Text.bytes ++ bad :: rest ∧
        Text.ofBytes? bad = none ∧
        ∀ e, ({} : Given).read before = .error e → ∃ flag, e = .missingValue flag := by
  constructor
  · intro h
    rcases texts_cut arguments with all | ⟨bad, rest, cut, notText⟩
    · rw [all, ofBytes_bytes] at h
      cases hr : read (texts arguments) <;> rw [hr] at h <;> cases h
    · refine ⟨texts arguments, bad, rest, cut, notText, fun e he => ?_⟩
      have short : ¬(texts arguments).length = arguments.length := by
        have length := congrArg List.length cut
        simp only [List.length_append, List.length_map, List.length_cons] at length
        omega
      rw [ofBytes, if_neg short, he] at h
      cases e with
      | missingValue flag => exact ⟨flag, rfl⟩
      | _ => cases h
  · rintro ⟨before, bad, rest, rfl, notText, early⟩
    have short : ¬before.length = (before.map Text.bytes ++ bad :: rest).length := by
      simp
    rw [ofBytes, texts_before before notText, if_neg short]
    cases hr : ({} : Given).read before with
    | ok g => rfl
    | error e =>
      obtain ⟨flag, rfl⟩ := early e hr
      rfl

end Arguments

variable {m : Machine} {arguments : List Bytes}

def workshop (worker : Program) (text : String) : Machine where
  files := { entries := .ofList [
    (["bin"], .directory), (["bin", "taghl_worker_stub"], .program worker),
    (["p"], .directory), (["p", "a.c"], .file (Text.bytes text)),
    (["p", "settings.json"], .file (Text.bytes
      "\x7b\"filetypes\":\x7b\"c\":\x7b\"order\":\"f\",\"groups\":\x7b\"f\":\"Call\"\x7d\x7d\x7d\x7d"))] }

def tokenized : Machine := workshop (Tokenizer.program {}) "int f();"

end Command

end SemanticHighlight
