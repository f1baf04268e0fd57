import TrackedRecord.Files.Failure

/-!
# Sinks

Places that take bytes and may have no room for them.
-/

namespace TrackedRecord.Files

/-- Writes at the front of `room` zero bytes. -/
def fill (room : Nat) (bytes : List UInt8) : Except Failure (List UInt8) :=
  if bytes.length ≤ room then .ok (bytes ++ List.replicate (room - bytes.length) 0)
  else .error .shortWrite

end TrackedRecord.Files
