import TrackedRecord.Text.LetterCase

/-!
# Identifiers from camel case

Names of constants and methods for a field. An underscore goes between a lowercase letter and an
uppercase letter right after it, and nowhere else.
-/

namespace TrackedRecord.Text

/-- The characters with underscores between the words; `afterLower` tells what went before. -/
def splitCamel (afterLower : Bool) : List Char → List Char
  | [] => []
  | c :: rest =>
    let tail := c :: splitCamel (isLowercase c) rest
    if afterLower && isUppercase c then '_' :: tail else tail

def constantName (name : String) : String := upper (String.ofList (splitCamel false name.toList))

def methodSuffix (name : String) : String := lower (String.ofList (splitCamel false name.toList))

end TrackedRecord.Text
