import Mathlib.Algebra.Group.Nat.Defs
import Mathlib.Data.List.Nodup

namespace SimStorage.RelationCli

/-!
# Relation commands

Provider-neutral relation commands, and how they are parsed from arguments: two
command words and options that each take one value.
-/

/-- `ReadAction`. -/
inductive ReadAction where
  | list
  | show
  deriving Repr, DecidableEq

/-- `SchemaAction`. -/
inductive SchemaAction where
  | inspect
  | adopt
  | apply
  deriving Repr, DecidableEq

/-- `ApplyAction`. -/
inductive ApplyAction where
  | plan
  | apply
  deriving Repr, DecidableEq

/-- `Authority`. -/
structure Authority where
  product : String
  expectedPlan : String
  deriving Repr, DecidableEq

/-- `RelationCommand`. -/
inductive RelationCommand where
  | site (action : ReadAction) (id : Option String)
  | schema (action : SchemaAction) (target : String)
      (artifact : Option String) (authority : Option Authority)
  | migration (action : ApplyAction) (target artifact : String)
      (authority : Option Authority)
  | query (target plan : String) (limit : UInt64)
  | mutation (target plan : String) (limit : UInt64) (authority : Authority)
  | mount (target : String)
  deriving Repr, DecidableEq

/-- `DEFAULT_ROW_LIMIT`. -/
def defaultRowLimit : UInt64 :=
  100

/-- `CommandError`. -/
structure CommandError where
  message : String
  deriving Repr, DecidableEq

/-- The text starts with the other one. -/
def startsWith (start text : String) : Bool :=
  start.toList.isPrefixOf text.toList

/-- The number that digits spell, if it is one of 64 bits. -/
def digitsU64 (digits : List Char) : Option UInt64 :=
  if digits ≠ [] ∧ digits.all Char.isDigit then
    let value := digits.foldl
      (fun value digit => value * 10 + (digit.toNat - '0'.toNat)) 0
    if value < 2 ^ 64 then some (UInt64.ofNat value) else none
  else
    none

/-- `str::parse::<u64>`: digits, perhaps after a plus sign. -/
def parseU64 (text : String) : Option UInt64 :=
  match text.toList with
  | '+' :: digits => digitsU64 digits
  | digits => digitsU64 digits

/-- `usage`. -/
def usage : CommandError :=
  ⟨"usage: sim relation " ++
    "\x7bsite list|show|schema inspect|adopt|apply|migration plan|apply|" ++
    "query run|mutation run|mount explain\x7d"⟩

/-- `Options`: names with their values. -/
abbrev Options :=
  List (String × String)

namespace Options

/-- The loop of `parse` over pairs of arguments. -/
def collect (out : Options) :
    List (String × String) → Except CommandError Options
  | [] => .ok out
  | (name, value) :: rest =>
      if !startsWith "--" name then
        .error ⟨"unexpected argument: " ++ name⟩
      else if out.any fun option => option.1 == name then
        .error ⟨"duplicate option: " ++ name⟩
      else
        collect (out ++ [(name, value)]) rest

/-- `chunks_exact(2)`. -/
def pairs : List String → List (String × String)
  | name :: value :: rest => (name, value) :: pairs rest
  | _ => []

/-- `Options::parse`. -/
def parse (args : List String) : Except CommandError Options :=
  if args.length % 2 ≠ 0 then
    .error ⟨"every relation option requires one value"⟩
  else
    collect [] (pairs args)

variable (options : Options)

/-- `get`. -/
def get (name : String) : Option String :=
  (options.find? fun option => option.1 == name).map Prod.snd

/-- `required`. -/
def required (name : String) : Except CommandError String :=
  match (options.get name).filter fun value => !value.isEmpty with
  | some value => .ok value
  | none => .error ⟨"missing " ++ name⟩

/-- `limit`. -/
def limit : Except CommandError UInt64 :=
  match options.get "--limit" with
  | none => .ok defaultRowLimit
  | some text =>
      match (parseU64 text).filter fun limit => 0 < limit with
      | some limit => .ok limit
      | none => .error ⟨"--limit must be a positive integer"⟩

/-- `authority`. -/
def authority : Except CommandError Authority := do
  let product ← options.required "--authorize"
  let expectedPlan ← options.required "--expect-plan"
  return ⟨product, expectedPlan⟩

/-- `reject_all`. -/
def rejectAll : Except CommandError Unit :=
  if options.isEmpty then
    .ok ()
  else
    .error ⟨"site list accepts no options"⟩

end Options

/-- The command of two words with its options. -/
def command (family action : String) (options : Options) :
    Except CommandError RelationCommand :=
  match family, action with
  | "site", "list" => do
      options.rejectAll
      return .site .list none
  | "site", "show" => do
      let id ← options.required "--site"
      return .site .show (some id)
  | "schema", "inspect" => do
      let target ← options.required "--site"
      return .schema .inspect target none none
  | "schema", "adopt" => do
      let target ← options.required "--site"
      let artifact ← options.required "--schema"
      let authority ← options.authority
      return .schema .adopt target (some artifact) (some authority)
  | "schema", "apply" => do
      let target ← options.required "--site"
      let artifact ← options.required "--schema"
      let authority ← options.authority
      return .schema .apply target (some artifact) (some authority)
  | "migration", "plan" => do
      let target ← options.required "--site"
      let artifact ← options.required "--migration"
      return .migration .plan target artifact none
  | "migration", "apply" => do
      let target ← options.required "--site"
      let artifact ← options.required "--migration"
      let authority ← options.authority
      return .migration .apply target artifact (some authority)
  | "query", "run" => do
      let target ← options.required "--site"
      let plan ← options.required "--plan"
      let limit ← options.limit
      return .query target plan limit
  | "mutation", "run" => do
      let target ← options.required "--site"
      let plan ← options.required "--plan"
      let limit ← options.limit
      let authority ← options.authority
      return .mutation target plan limit authority
  | "mount", "explain" => do
      let target ← options.required "--mount"
      return .mount target
  | _, _ => .error usage

/-- The arguments without a leading `relation`. -/
def unprefixed : List String → List String
  | "relation" :: args => args
  | args => args

/-- An argument that asks for raw SQL. -/
def rawSql (arg : String) : Bool :=
  arg == "--sql" || startsWith "--sql=" arg

/-- `parse`. -/
def parse (args : List String) : Except CommandError RelationCommand :=
  let args := unprefixed args
  if args.any rawSql then
    .error ⟨"raw SQL is not an admitted relation command"⟩
  else
    match args with
    | family :: action :: rest => do
        let options ← Options.parse rest
        command family action options
    | _ => .error usage

end SimStorage.RelationCli
