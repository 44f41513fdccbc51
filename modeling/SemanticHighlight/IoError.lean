import SemanticHighlight.Text.Decimal

/-!
# Input and output failures

Why a file, a pipe or a program could not be used, and the text of each cause.
-/

set_option autoImplicit false

namespace SemanticHighlight

inductive IoError where
  | noEntry
  | permissionDenied
  | alreadyExists
  | notDirectory
  | isDirectory
  | nameTooLong
  | argumentTooLong
  /-- No program was tried. -/
  | noChild
  /-- A file that was to be read as text is not UTF-8. -/
  | notText
  | zeroInName
  /-- A program or one of its arguments holds a zero byte. -/
  | zeroInArgument
  | writerFull
  | brokenPipe
  | noSettingsDirectory
  | noLogDirectory
  /-- A frame was announced with another length than its chunks have. -/
  | frameLength (declared supplied : Nat)
  | other (text : String)
  deriving DecidableEq, Repr

def IoError.message : IoError → String
  | .noEntry => "No such file or directory (os error 2)"
  | .permissionDenied => "Permission denied (os error 13)"
  | .alreadyExists => "File exists (os error 17)"
  | .notDirectory => "Not a directory (os error 20)"
  | .isDirectory => "Is a directory (os error 21)"
  | .argumentTooLong => "Argument list too long (os error 7)"
  | .noChild => "No child processes (os error 10)"
  | .brokenPipe => "Broken pipe (os error 32)"
  | .nameTooLong => "File name too long (os error 36)"
  | .notText => "stream did not contain valid UTF-8"
  | .zeroInName => "file name contained an unexpected NUL byte"
  | .zeroInArgument => "nul byte found in provided data"
  | .writerFull => "failed to write whole buffer"
  | .noSettingsDirectory => "Cannot determine settings directory"
  | .noLogDirectory => "Cannot determine log directory"
  | .frameLength declared supplied =>
    "frame declared " ++ Text.Decimal.text declared ++ " bytes but " ++
      Text.Decimal.text supplied ++ " were supplied"
  | .other text => text

end SemanticHighlight
