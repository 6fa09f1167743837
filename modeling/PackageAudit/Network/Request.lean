import PackageAudit.Network.Error
import PackageAudit.Network.Status
import PackageAudit.Text.Utf8

/-!
# Network.Request — requests that are tried again

* `Attempt` — what one attempt of a request comes to;
* `Transport` — what the network makes of attempts, `Transport.unreachable` if it reaches nobody;
* `Request.retry` — attempts, with delays between them, until one settles the request.
-/

namespace PackageAudit

/-- What one attempt of a request comes to. -/
inductive Attempt where
  /-- An answer, whose body may break off. -/
  | answer (status : Nat) (body : Except String Bytes)
  | timeout
  | noConnection (reason : String)
  | failed (reason : String)

/-- What becomes of each attempt of a request to an address. -/
abbrev Transport := String → Nat → Attempt

/-- A network that reaches nobody. Only addresses of the web are tried at all. -/
def Transport.unreachable : Transport := fun url _ =>
  if url.startsWith "http://" || url.startsWith "https://" then .noConnection "no network"
  else .failed "no service of the web"

/-- An answer with its body, if the body came whole. -/
structure Answer where
  status : Nat
  body : Except String Bytes

/-- Whether another attempt may come to something else. -/
def Attempt.isRetryable : Attempt → Bool
  | answer status _ => Status.isServerError status
  | timeout | noConnection _ => true
  | failed _ => false

/-- The answer of an attempt, or why there is none. -/
def Attempt.result (url : String) : Attempt → Except NetworkError Answer
  | answer status body => .ok ⟨status, body⟩
  | timeout => .error (.timeout url)
  | noConnection reason => .error (.connectionRefused reason)
  | failed reason => .error (.downloadFailed reason)

/-- The attempts of a request: the last one, and the delays before all but the first. -/
structure Exchange where
  last : Attempt
  waited : List Nat

namespace Request

/-- Try until an attempt settles the request or no delay is left; `count` attempts are made. -/
def retryFrom (send : Nat → Attempt) (count : Nat) : List Nat → Exchange
  | [] => ⟨send count, []⟩
  | delay :: delays =>
    let attempt := send count
    if attempt.isRetryable then
      let rest := retryFrom send (count + 1) delays
      ⟨rest.last, delay :: rest.waited⟩
    else ⟨attempt, []⟩

/-- Try until an attempt settles the request, or no delay is left. -/
def retry (delays : List Nat) (send : Nat → Attempt) : Exchange :=
  retryFrom send 0 delays

/-- The answer to a request. -/
def get (transport : Transport) (delays : List Nat) (url : String) : Except NetworkError Answer :=
  (retry delays (transport url)).last.result url

/-- The body of an answer that is what was asked for. -/
def body (a : Answer) : Except NetworkError Bytes :=
  if Status.isSuccess a.status then a.body.mapError NetworkError.downloadFailed
  else .error (.httpError a.status (Status.text a.status))

end Request

end PackageAudit
