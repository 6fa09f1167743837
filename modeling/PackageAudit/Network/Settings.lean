import PackageAudit.Config.Basic

/-!
# Network.Settings — how requests are made

* `RequestSettings` — limits and delays of requests, in milliseconds;
* `RequestSettings.ofConfig` — those that the settings of the program ask for.
-/

namespace PackageAudit

/-- The name and the version under which the program makes itself known. -/
def programName : String := "pkgcheck"
def programVersion : String := "0.1.0"

/-- Limits and delays of requests, in milliseconds. -/
structure RequestSettings where
  timeout : Nat
  connectTimeout : Nat
  /-- The delay before each attempt but the first. -/
  delays : List Nat
  userAgent : String

namespace RequestSettings

/-- The greatest time that making a connection may take. -/
def maxConnectTimeout : Nat := 10000

def ofConfig (c : Config) : RequestSettings where
  timeout := 1000 * c.timeout
  connectTimeout := min (1000 * c.timeout) maxConnectTimeout
  delays := c.retryDelays
  userAgent := programName ++ "/" ++ programVersion

/-- The number of attempts that a request may take. -/
def attempts (s : RequestSettings) : Nat :=
  s.delays.length + 1

end RequestSettings

end PackageAudit
