import SimStorage.Http.Transport
import SimStorage.Kernel.Datum
import Mathlib.Data.List.DropRight

namespace SimStorage.Http

/-!
# Options of an HTTP directory

Options are validated and their base URL is normalized before a directory is
made of them; a descriptor spells them for reading back.
-/

variable {Url Method Header World : Type}

/-- `HttpWriteMethod`. -/
inductive HttpWriteMethod where
  | put
  | post
  deriving Repr, DecidableEq

namespace HttpWriteMethod

/-- `as_str`. -/
def asStr : HttpWriteMethod → String
  | .put => "PUT"
  | .post => "POST"

/-- `from_str`. -/
def fromStr (value : String) : Except Error HttpWriteMethod :=
  if value = "PUT" then
    .ok .put
  else if value = "POST" then
    .ok .post
  else
    .error (.table (.eval ("table/http: unsupported write method " ++ value)))

@[simp] theorem fromStr_asStr
    (method : HttpWriteMethod) :
    fromStr method.asStr = .ok method := by
  cases method <;> rfl

/-- Only the text of a method is read as it. -/
theorem asStr_of_fromStr
    {value : String} {method : HttpWriteMethod}
    (read : fromStr value = .ok method) :
    value = method.asStr := by
  unfold fromStr at read
  by_cases isPut : value = "PUT"
  · rw [if_pos isPut] at read
    cases read
    exact isPut
  rw [if_neg isPut] at read
  by_cases isPost : value = "POST"
  · rw [if_pos isPost] at read
    cases read
    exact isPost
  · rw [if_neg isPost] at read
    cases read

end HttpWriteMethod

/-- `HttpDirOptions`. -/
structure HttpDirOptions where
  baseUrl : String
  codec : Symbol
  writeMethod : HttpWriteMethod
  timeoutMs : Nat
  maxBodyBytes : Nat
  deriving Repr, DecidableEq

/-- `HttpDirDescriptor`. -/
structure HttpDirDescriptor where
  baseUrl : String
  codec : Symbol
  writeMethod : String
  timeoutMs : Nat
  maxBodyBytes : Nat
  deriving Repr, DecidableEq

/-- The white space that `str::trim` strips. -/
def isWhiteSpace (character : Char) : Bool :=
  let code := character.toNat
  (9 ≤ code && code ≤ 13) || code = 0x20 || code = 0x85 || code = 0xA0 ||
    code = 0x1680 || (0x2000 ≤ code && code ≤ 0x200A) || code = 0x2028 ||
      code = 0x2029 || code = 0x202F || code = 0x205F || code = 0x3000

/-- `str::trim`. -/
def trim (text : String) : String :=
  String.ofList
    ((text.toList.dropWhile isWhiteSpace).rdropWhile isWhiteSpace)

/-- `str::trim_end_matches`, of one character. -/
def trimEndMatches (text : String) (character : Char) : String :=
  String.ofList (text.toList.rdropWhile fun found => found = character)

namespace HttpDirOptions

/-- `new`. -/
def new (baseUrl : String) : HttpDirOptions where
  baseUrl := baseUrl
  codec := .qualified "codec" "lisp"
  writeMethod := .put
  timeoutMs := 5000
  maxBodyBytes := 1024 * 1024

/-- `validate_options`. -/
def validate (network : Network Url Method Header World)
    (options : HttpDirOptions) : Except Error Unit := do
  if options.timeoutMs = 0 then
    throw (.table (.eval "table/http: timeout_ms must be non-zero"))
  if (trim options.baseUrl).isEmpty then
    throw (.table (.eval "table/http: base_url is empty"))
  discard ((network.parseUrl (trim options.baseUrl)).mapError fun error =>
    .table (.eval ("table/http: " ++ network.display error)))

/-- `normalize_options`. -/
def normalize (options : HttpDirOptions) : HttpDirOptions :=
  { options with
    baseUrl := trimEndMatches (trim options.baseUrl) '/' }

/-- `TryFrom<HttpDirDescriptor>`. -/
def tryFrom (value : HttpDirDescriptor) : Except Error HttpDirOptions := do
  return {
    baseUrl := value.baseUrl
    codec := value.codec
    writeMethod := ← HttpWriteMethod.fromStr value.writeMethod
    timeoutMs := value.timeoutMs
    maxBodyBytes := value.maxBodyBytes }

end HttpDirOptions

/-- `HttpDir`. -/
structure HttpDir where
  options : HttpDirOptions
  deriving Repr, DecidableEq

namespace HttpDir

/-- `new`: validated and normalized options. -/
def new (network : Network Url Method Header World)
    (options : HttpDirOptions) : Except Error HttpDir := do
  options.validate network
  return { options := options.normalize }

/-- The fields of `object_encoding`. -/
def descriptor (dir : HttpDir) : HttpDirDescriptor where
  baseUrl := dir.options.baseUrl
  codec := dir.options.codec
  writeMethod := dir.options.writeMethod.asStr
  timeoutMs := dir.options.timeoutMs
  maxBodyBytes := dir.options.maxBodyBytes

/-- Options are read back from exactly the descriptor of their directory. -/
theorem tryFrom_eq_ok
    {value : HttpDirDescriptor} {dir : HttpDir} :
    HttpDirOptions.tryFrom value = .ok dir.options ↔ value = dir.descriptor := by
  constructor
  · intro read
    cases method : HttpWriteMethod.fromStr value.writeMethod with
    | error error =>
        rw [HttpDirOptions.tryFrom, method] at read
        cases read
    | ok found =>
        rw [HttpDirOptions.tryFrom, method] at read
        have options := Except.ok.inj read
        rw [descriptor, ← options, ← HttpWriteMethod.asStr_of_fromStr method]
  · rintro rfl
    rw [HttpDirOptions.tryFrom, descriptor, HttpWriteMethod.fromStr_asStr]
    rfl

end HttpDir

end SimStorage.Http
