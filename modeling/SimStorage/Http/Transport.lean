import SimStorage.Codec.Text
import SimStorage.Interaction.Evaluation
import SimStorage.Table.Kernel

namespace SimStorage.Http

/-!
# The transport

One request of the shared HTTP client, under a policy made from the request's
own limits.  The client, its URLs and its methods are not part of this
repository; `Network` carries them as parameters.
-/

open Codec Interaction

/-- `Error`, with the host errors that only this table returns. -/
inductive Error where
  | table (error : Table.Error)
  | hostError (message : String)
  deriving Repr, DecidableEq

/-- `sim_lib_net_http::Error`: what is told apart, and the rest. -/
inductive NetError where
  | responseTooLarge (cap : Nat)
  | invalidUrl
  | userInfoForbidden
  | unsupportedScheme
  | invalidMethod
  | invalidHeaderName
  | invalidHeaderValue
  | ambiguousHeader
  | unsupportedTransferFraming
  | requestTooLarge (detail : String)
  | other (detail : String)
  deriving Repr, DecidableEq

/-- `Policy`, as far as `send` sets it; durations in milliseconds. -/
structure Policy where
  connectTimeout : Nat
  readTimeout : Nat
  writeTimeout : Nat
  totalTimeout : Nat
  maxRequestBytes : Nat
  maxResponseBytes : Nat
  maxDecompressedBytes : Nat
  deriving Repr, DecidableEq

/-- `RequestBody`. -/
inductive RequestBody where
  | empty
  | bytes (content : Bytes)
  deriving Repr, DecidableEq

/-- The bytes of a body. -/
def RequestBody.content : RequestBody → Bytes
  | .empty => []
  | .bytes content => content

/-- `Request` of the client. -/
structure Request (Url Method Header : Type) where
  method : Method
  url : Url
  headers : List Header
  body : RequestBody

/-- `HttpRequest`. -/
structure HttpRequest where
  method : String
  url : String
  headers : List (String × String)
  body : Bytes
  timeout : Nat
  maxBodyBytes : Nat
  deriving Repr, DecidableEq

/-- `Response` of the client, as far as `send` reads it. -/
structure Response where
  status : Nat
  reason : String
  body : Bytes
  deriving Repr, DecidableEq

/-- `HttpResponse`. -/
structure HttpResponse where
  status : Nat
  reason : Option String
  body : Bytes
  deriving Repr, DecidableEq

/-- The HTTP client and its types, over a world of servers. -/
structure Network (Url Method Header World : Type) where
  parseUrl : String → Except NetError Url
  newMethod : String → Except NetError Method
  newHeader : String → String → Except NetError Header
  display : NetError → String
  execute : Policy → Request Url Method Header →
    EStateM NetError World Response

variable {Url Method Header World : Type}

namespace Network

variable (network : Network Url Method Header World)

/-- `map_error`. -/
def mapError : NetError → Error
  | .responseTooLarge cap =>
      .table (.eval ("table/http: response exceeded max body bytes " ++
        toString cap))
  | .other detail =>
      .hostError ("table/http: " ++ network.display (.other detail))
  | error => .table (.eval ("table/http: " ++ network.display error))

/-- A result of the client, with its errors mapped. -/
def mapped {α : Type} (found : Except NetError α) : Except Error α :=
  found.mapError network.mapError

/-- The policy of `send`: the request's limits. -/
def policy (request : HttpRequest) : Policy where
  connectTimeout := request.timeout
  readTimeout := request.timeout
  writeTimeout := request.timeout
  totalTimeout := request.timeout
  maxRequestBytes := max request.body.length 1
  maxResponseBytes := request.maxBodyBytes
  maxDecompressedBytes := request.maxBodyBytes

/-- `Client::execute`, with its errors mapped. -/
def executed (policy : Policy) (request : Request Url Method Header) :
    EStateM Error World Response := fun world =>
  match network.execute policy request world with
  | .ok response after => .ok response after
  | .error error after => .error (network.mapError error) after

/-- The body of the client's request. -/
def bodyOf (body : Bytes) : RequestBody :=
  if body.isEmpty then .empty else .bytes body

/-- `send`. -/
def send (request : HttpRequest) : EStateM Error World HttpResponse := do
  let policy := policy request
  let method ← MonadExcept.ofExcept
    (network.mapped (network.newMethod request.method))
  let url ← MonadExcept.ofExcept
    (network.mapped (network.parseUrl request.url))
  let headers ← MonadExcept.ofExcept
    (request.headers.mapM fun header =>
      network.mapped (network.newHeader header.1 header.2))
  let response ← network.executed policy
    { method, url, headers, body := bodyOf request.body }
  return {
    status := response.status
    reason := some response.reason
    body := response.body }

end Network

end SimStorage.Http
