import SimStorage.Codec.Lossy
import SimStorage.Http.Options
import SimStorage.Http.Segment

namespace SimStorage.Http

/-!
# The HTTP directory

`HttpDir` keeps each key as a resource below its base URL, under the key's name
alone.  Every effect is one request; what would need an index of the resources
is refused.
-/

open Codec Table

variable {Url Method Header World Value Expr : Type}

/-- `table_http_capability`. -/
def tableHttpCapability : String :=
  "net/http"

/-- `net_http_aliases`. -/
def netHttpAliases : List String :=
  ["net.http", "net-connect", "network"]

/-- `require_table_http`: the capability, or one of its aliases. -/
def requireTableHttp (cx : Cx) : Except Error Unit :=
  if cx.granted tableHttpCapability || netHttpAliases.any cx.granted then
    .ok ()
  else
    .error (.table (.capabilityDenied tableHttpCapability))

/-- `Output`. -/
inductive Output where
  | text (written : String)
  | bytes (content : Bytes)
  deriving Repr, DecidableEq

/-- `Output`, as a request body. -/
def Output.toBytes : Output → Bytes
  | .text written => utf8 written
  | .bytes content => content

/-- What a context makes for the directory: values, expressions and codecs. -/
structure Services (Value Expr : Type) where
  nil : Except Error Value
  expr : Expr → Except Error Value
  asExpr : Value → Except Error Expr
  decodeWithCodec : Symbol → Bytes → Except Error Expr
  encodeWithCodec : Symbol → Expr → Except Error Output

/-- A status of success. -/
def isSuccess (status : Nat) : Bool :=
  200 ≤ status && status < 300

/-- `status_error`. -/
def statusError (status : Nat) (reason : Option String) (body : Bytes) :
    Error :=
  let reason := reason.getD ""
  let body := fromUtf8Lossy body
  let detail :=
    if body.isEmpty then
      reason
    else if reason.isEmpty then
      body
    else
      reason ++ ": " ++ body
  .hostError ("table/http: http " ++ toString status ++ ": " ++ detail)

/-- `ensure_success`. -/
def ensureSuccess (status : Nat) (reason : Option String) (body : Bytes) :
    Except Error Unit :=
  if isSuccess status then
    .ok ()
  else
    .error (statusError status reason body)

/-- `index_resource_error`. -/
def indexResourceError (operation : String) : Error :=
  .table (.eval ("table/http: " ++ operation ++ " requires an index resource"))

/-- What is not available without an index. -/
def notAvailable (operation : String) : Error :=
  .table (.eval ("table/http: " ++ operation ++
    " not available without an index resource"))

namespace HttpDir

variable (network : Network Url Method Header World)
variable (services : Services Value Expr)
variable (isLegal : String → Bool)
variable (cx : Cx)
variable (dir : HttpDir)

/-- `request`. -/
def request (method url : String) (body : Bytes) : HttpRequest where
  method := method
  url := url
  headers := []
  body := body
  timeout := dir.options.timeoutMs
  maxBodyBytes := dir.options.maxBodyBytes

/-- `url_for_key`: of the key's name alone. -/
def urlForKey (key : Symbol) : Except Error String :=
  if isLegal key.name then
    .ok (dir.options.baseUrl ++ "/" ++ encodePathSegment key.name)
  else
    .error (.table (.eval ("table/http: illegal name " ++ debugText key.name)))

/-- `decode_body`. -/
def decodeBody (body : Bytes) : Except Error Value := do
  services.expr (← services.decodeWithCodec dir.options.codec body)

/-- `encode_value`. -/
def encodeValue (value : Value) : Except Error Bytes := do
  let expr ← services.asExpr value
  let output ← services.encodeWithCodec dir.options.codec expr
  return output.toBytes

/-- A request for the child of a key. -/
def sendFor (method : String) (key : Symbol) (body : Bytes) :
    EStateM Error World HttpResponse := do
  let url ← MonadExcept.ofExcept (dir.urlForKey isLegal key)
  network.send (dir.request method url body)

/-- `get`. -/
def get (key : Symbol) : EStateM Error World Value := do
  MonadExcept.ofExcept (requireTableHttp cx)
  let response ← dir.sendFor network isLegal "GET" key []
  MonadExcept.ofExcept
    (ensureSuccess response.status response.reason response.body)
  MonadExcept.ofExcept (dir.decodeBody services response.body)

/-- `set`. -/
def set (key : Symbol) (value : Value) : EStateM Error World Unit := do
  MonadExcept.ofExcept (requireTableHttp cx)
  let body ← MonadExcept.ofExcept (dir.encodeValue services value)
  let response ←
    dir.sendFor network isLegal dir.options.writeMethod.asStr key body
  MonadExcept.ofExcept
    (ensureSuccess response.status response.reason response.body)

/-- `has`. -/
def has (key : Symbol) : EStateM Error World Bool := do
  MonadExcept.ofExcept (requireTableHttp cx)
  let response ← dir.sendFor network isLegal "HEAD" key []
  if isSuccess response.status then
    return true
  else if response.status = 404 then
    return false
  else
    throw (statusError response.status response.reason response.body)

/-- `del`: nil, also for what was not there. -/
def del (key : Symbol) : EStateM Error World Value := do
  MonadExcept.ofExcept (requireTableHttp cx)
  let response ← dir.sendFor network isLegal "DELETE" key []
  if isSuccess response.status || response.status = 404 then
    MonadExcept.ofExcept services.nil
  else
    throw (statusError response.status response.reason response.body)

/-- `keys`. -/
def keys : EStateM Error World (List Symbol) :=
  throw (notAvailable "keys are")

/-- `entries`. -/
def entries : EStateM Error World (List (Symbol × Value)) :=
  throw (notAvailable "entries are")

/-- `len`. -/
def len : EStateM Error World Nat :=
  throw (notAvailable "len is")

/-- `clear`. -/
def clear : EStateM Error World Unit :=
  throw (notAvailable "clear is")

/-- What needs an index: refused under every name, after the name's checks. -/
def refused {α : Type} (operation : String) (name : Symbol) :
    EStateM Error World α := do
  MonadExcept.ofExcept (requireTableHttp cx)
  let _ ← MonadExcept.ofExcept (dir.urlForKey isLegal name)
  throw (indexResourceError operation)

/-- `mkdir`. -/
def mkdir (name : Symbol) : EStateM Error World Value :=
  dir.refused isLegal cx "mkdir" name

/-- `opendir`. -/
def opendir (name : Symbol) : EStateM Error World (Option Value) :=
  dir.refused isLegal cx "opendir" name

/-- `rmdir`. -/
def rmdir (name : Symbol) : EStateM Error World Value :=
  dir.refused isLegal cx "rmdir" name

/-- `is_dir`. -/
def isDir (name : Symbol) : EStateM Error World Bool :=
  dir.refused isLegal cx "is_dir" name

end HttpDir

end SimStorage.Http
