/-!
# Config.Error — settings that cannot be used

* `ConfigError` — what is wrong with a settings file, a variable or an argument.
-/

namespace PackageAudit

/-- What is wrong with settings. -/
inductive ConfigError where
  | notFound (path : String)
  | invalid (reason : String)
  | parse (reason : String)
  | invalidValue (field value : String)
  deriving DecidableEq

namespace ConfigError

def message : ConfigError → String
  | notFound path => s!"config file not found: {path}"
  | invalid reason => s!"invalid config: {reason}"
  | parse reason => s!"parse error: {reason}"
  | invalidValue field value => s!"invalid value for {field}: {value}"

/-- What the user can do about it. -/
def hint : ConfigError → String
  | notFound _ => "Pass an existing file with --config or remove the flag to use defaults."
  | _ => "Fix the configuration value and retry the command."

/-- A name for the cause that does not change. -/
def code : ConfigError → String
  | notFound _ => "config.not_found"
  | invalid _ => "config.invalid"
  | parse _ => "config.parse_error"
  | invalidValue _ _ => "config.invalid_value"

end ConfigError

end PackageAudit
