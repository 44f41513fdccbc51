import SemanticHighlight.Frame.Length
import SemanticHighlight.Sink

/-!
# Writing frames

A frame goes out as its length field and then its payload, whole or in chunks. A length that no
field can write is refused before anything is written; chunks that do not add up to the announced
length are written and then reported.
-/

set_option autoImplicit false

namespace SemanticHighlight.Frame

def encode (payload : Bytes) : Except Error Bytes :=
  match encodeLength payload.length with
  | .error e => .error e
  | .ok field => .ok (field ++ payload)

def totalLength : List Bytes → Nat
  | [] => 0
  | c :: cs => c.length + totalLength cs

def writeChunks (length : Nat) (chunks : List Bytes) (s : Sink) : Except Error Unit × Sink :=
  match encodeLength length with
  | .error e => (.error e, s)
  | .ok field =>
    match s.writeEach (field :: chunks) with
    | (.error e, s) => (.error (.io e), s)
    | (.ok (), s) =>
      if totalLength chunks ≠ length then
        (.error (.io (.frameLength length (totalLength chunks))), s)
      else match s.flush with
        | .error e => (.error (.io e), s)
        | .ok () => (.ok (), s)

def write (payload : Bytes) (s : Sink) : Except Error Unit × Sink :=
  writeChunks payload.length [payload] s

end SemanticHighlight.Frame
