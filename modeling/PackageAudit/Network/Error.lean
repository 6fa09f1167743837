/-!
# Network.Error — requests that fail

* `NetworkError` — why a request has no usable answer;
* `NetworkError.isRetryable` — whether the same request may succeed later.
-/

namespace PackageAudit

/-- Why a request has no usable answer. -/
inductive NetworkError where
  | timeout (url : String)
  | downloadFailed (reason : String)
  | connectionRefused (reason : String)
  | invalidUrl (reason : String)
  | httpError (status : Nat) (message : String)
  | unavailable
  deriving DecidableEq

namespace NetworkError

def message : NetworkError → String
  | timeout url => s!"connection timeout to {url}"
  | downloadFailed reason => s!"download failed: {reason}"
  | connectionRefused reason => s!"connection refused: {reason}"
  | invalidUrl reason => s!"invalid URL: {reason}"
  | httpError status message => s!"HTTP error {status}: {message}"
  | unavailable => "network unavailable"

/-- What the user can do about it. -/
def hint? : NetworkError → Option String
  | unavailable =>
    some "Network-dependent checks were skipped; re-run online for full coverage."
  | invalidUrl _ => some "Check the baseline URLs in the configuration file."
  | timeout _ | connectionRefused _ => some "Check your network connection and retry."
  | _ => none

/-- Whether the same request may succeed later. -/
def isRetryable : NetworkError → Bool
  | timeout _ | connectionRefused _ | downloadFailed _ => true
  | httpError status _ => 500 ≤ status
  | invalidUrl _ | unavailable => false

/-- A name for the cause that does not change. -/
def code : NetworkError → String
  | timeout _ => "network.timeout"
  | downloadFailed _ => "network.download_failed"
  | connectionRefused _ => "network.connection_refused"
  | invalidUrl _ => "network.invalid_url"
  | httpError _ _ => "network.http_error"
  | unavailable => "network.unavailable"

end NetworkError

end PackageAudit
