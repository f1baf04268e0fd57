import TrackedRecord.Files.Table
import TrackedRecord.Wire.Settings

/-!
# Settings in files
-/

namespace TrackedRecord.Wire.Settings

/-- The settings that a file holds, as `read` gives them for its text, if they are valid. -/
def loadWith (read : String → Except String Settings) (table : Files.Table) (path : String) : Except Error Settings := do
  match table.readText path with
  | .error failure => throw (.transfer (.settingsFile path) failure)
  | .ok text =>
    match read text with
    | .error reason => throw (.invalidSettings (.settingsText path reason))
    | .ok settings =>
      settings.validate
      return settings

def load (table : Files.Table) (path : String) : Except Error Settings := loadWith ofText table path

end TrackedRecord.Wire.Settings
