/-!
# Failures of files and streams

Why reading or writing failed outside the library, with the system's wording.
-/

namespace TrackedRecord.Files

inductive Failure where
  | notFound
  | notDirectory
  | isDirectory
  | nameTooLong
  | nulInName
  | notUtf8
  | shortWrite
  | other (text : String)
  deriving DecidableEq, Repr

def Failure.message : Failure → String
  | .notFound => "No such file or directory (os error 2)"
  | .notDirectory => "Not a directory (os error 20)"
  | .isDirectory => "Is a directory (os error 21)"
  | .nameTooLong => "File name too long (os error 36)"
  | .nulInName => "file name contained an unexpected NUL byte"
  | .notUtf8 => "stream did not contain valid UTF-8"
  | .shortWrite => "failed to write whole buffer"
  | .other text => text

end TrackedRecord.Files
