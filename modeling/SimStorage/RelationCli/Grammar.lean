import Mathlib.Data.List.Perm.Basic
import SimStorage.RelationCli.Command

namespace SimStorage.RelationCli

/-!
# The grammar of relation commands

Each command has two words and its own options; a limit may be missing.  What
is parsed are vectors in which the options that a command defines are exactly
its own, once and with a value.
-/

/-- The option of a limit, or none for the default. -/
inductive Limited : UInt64 → Options → Prop where
  | missing : Limited defaultRowLimit []
  | given (text : String) (limit : UInt64) :
      parseU64 text = some limit → 0 < limit →
      Limited limit [("--limit", text)]

/-- The options of an authority. -/
def Authority.options (authority : Authority) : Options :=
  [("--authorize", authority.product),
    ("--expect-plan", authority.expectedPlan)]

/-- The words and the options of a command. -/
inductive Grammar : RelationCommand → String → String → Options → Prop where
  | siteList : Grammar (.site .list none) "site" "list" []
  | siteShow (id : String) :
      Grammar (.site .show (some id)) "site" "show" [("--site", id)]
  | schemaInspect (target : String) :
      Grammar (.schema .inspect target none none) "schema" "inspect"
        [("--site", target)]
  | schemaAdopt (target artifact : String) (authority : Authority) :
      Grammar (.schema .adopt target (some artifact) (some authority))
        "schema" "adopt"
        (("--site", target) :: ("--schema", artifact) :: authority.options)
  | schemaApply (target artifact : String) (authority : Authority) :
      Grammar (.schema .apply target (some artifact) (some authority))
        "schema" "apply"
        (("--site", target) :: ("--schema", artifact) :: authority.options)
  | migrationPlan (target artifact : String) :
      Grammar (.migration .plan target artifact none) "migration" "plan"
        [("--site", target), ("--migration", artifact)]
  | migrationApply (target artifact : String) (authority : Authority) :
      Grammar (.migration .apply target artifact (some authority))
        "migration" "apply"
        (("--site", target) :: ("--migration", artifact) :: authority.options)
  | queryRun (target plan : String) (limit : UInt64) (limits : Options) :
      Limited limit limits →
      Grammar (.query target plan limit) "query" "run"
        (("--site", target) :: ("--plan", plan) :: limits)
  | mutationRun (target plan : String) (limit : UInt64) (limits : Options)
      (authority : Authority) :
      Limited limit limits →
      Grammar (.mutation target plan limit authority) "mutation" "run"
        (("--site", target) :: ("--plan", plan) ::
          (limits ++ authority.options))
  | mountExplain (target : String) :
      Grammar (.mount target) "mount" "explain" [("--mount", target)]

/-- The names of the options that a command defines. -/
def definedOptions (family action : String) : List String :=
  match family, action with
  | "site", "show" => ["--site"]
  | "schema", "inspect" => ["--site"]
  | "schema", "adopt" => ["--site", "--schema", "--authorize", "--expect-plan"]
  | "schema", "apply" => ["--site", "--schema", "--authorize", "--expect-plan"]
  | "migration", "plan" => ["--site", "--migration"]
  | "migration", "apply" =>
      ["--site", "--migration", "--authorize", "--expect-plan"]
  | "query", "run" => ["--site", "--plan", "--limit"]
  | "mutation", "run" =>
      ["--site", "--plan", "--limit", "--authorize", "--expect-plan"]
  | "mount", "explain" => ["--mount"]
  | _, _ => []

/-- The arguments of options. -/
def Options.spell (options : Options) : List String :=
  options.flatMap fun option => [option.1, option.2]

/--
The arguments are the words of the command and exactly its options in some
order, each with a value.
-/
def Form (command : RelationCommand) (args : List String) : Prop :=
  ∃ family action own options,
    Grammar command family action own ∧
    (∀ option ∈ own, option.2 ≠ "") ∧
    options.Perm own ∧
    unprefixed args = family :: action :: Options.spell options

/--
The words are those of the command, and the options have different names; those
that the command defines are exactly its own, each with a value.
-/
structure Supplied (command : RelationCommand) (family action : String)
    (own options : Options) : Prop where
  grammar : Grammar command family action own
  valued : ∀ option ∈ own, option.2 ≠ ""
  distinct : (options.map Prod.fst).Nodup
  given : ∀ option ∈ own, option ∈ options
  only : ∀ option ∈ options, option.1 ∈ definedOptions family action →
    option ∈ own

section Arguments

variable {options out : Options}

/-- Options are collected when they have different names after dashes. -/
theorem collect_ok_iff
    {given : List (String × String)}
    (distinct : (out.map Prod.fst).Nodup) :
    Options.collect out given = .ok options ↔
      options = out ++ given ∧
        (∀ option ∈ given, startsWith "--" option.1) ∧
        (options.map Prod.fst).Nodup := by
  induction given generalizing out with
  | nil =>
      rw [Options.collect, Except.ok.injEq, List.append_nil]
      refine ⟨fun same => ⟨same.symm, nofun, same ▸ distinct⟩, ?_⟩
      exact fun parts => parts.1.symm
  | cons head rest inductionHypothesis =>
      obtain ⟨name, value⟩ := head
      rw [Options.collect]
      split
      · next plain =>
          refine ⟨nofun, fun parts => ?_⟩
          have dashed := parts.2.1 (name, value) List.mem_cons_self
          rw [dashed] at plain
          cases plain
      split
      · next found =>
          refine ⟨nofun, fun parts => ?_⟩
          obtain ⟨rfl, _, apart⟩ := parts
          rw [List.map_append, List.nodup_append] at apart
          obtain ⟨option, member, same⟩ := List.any_eq_true.mp found
          have clash := apart.2.2 option.1 (List.mem_map_of_mem member) name
            List.mem_cons_self
          exact absurd (beq_iff_eq.mp same) clash
      next dashed fresh =>
        have apart : ((out ++ [(name, value)]).map Prod.fst).Nodup := by
          rw [List.map_append]
          refine List.nodup_append.mpr ⟨distinct, List.nodup_singleton _, ?_⟩
          rintro taken member other single rfl
          obtain ⟨option, inside, rfl⟩ := List.mem_map.mp member
          refine fresh (List.any_eq_true.mpr ⟨option, inside, ?_⟩)
          exact beq_iff_eq.mpr (List.mem_singleton.mp single)
        have starts : startsWith "--" name = true := by
          simpa using dashed
        rw [inductionHypothesis apart, List.append_assoc, List.singleton_append,
          List.forall_mem_cons]
        refine ⟨fun parts => ⟨parts.1, ⟨starts, parts.2.1⟩, parts.2.2⟩, ?_⟩
        exact fun parts => ⟨parts.1, parts.2.1.2, parts.2.2⟩

/-- An even number of arguments spells its pairs. -/
theorem spell_pairs
    (args : List String) (even : args.length % 2 = 0) :
    Options.spell (Options.pairs args) = args := by
  induction args using Options.pairs.induct with
  | case1 name value rest inductionHypothesis =>
      have rested : rest.length % 2 = 0 := by
        simp only [List.length_cons] at even
        omega
      exact congrArg (name :: value :: ·) (inductionHypothesis rested)
  | case2 args short =>
      match args, short with
      | [], _ => rfl
      | [single], _ => simp at even
      | first :: second :: rest, short => exact absurd rfl (short _ _ _)

theorem pairs_spell
    (options : Options) :
    Options.pairs (Options.spell options) = options := by
  induction options with
  | nil => rfl
  | cons head rest inductionHypothesis =>
      exact congrArg (head :: ·) inductionHypothesis

theorem length_spell
    (options : Options) :
    (Options.spell options).length % 2 = 0 := by
  induction options with
  | nil => rfl
  | cons head rest inductionHypothesis =>
      have longer : (Options.spell (head :: rest)).length =
          (Options.spell rest).length + 2 := by
        simp [Options.spell]
      omega

/-- The arguments of options are parsed when their names are apart. -/
theorem parse_ok_iff
    {args : List String} :
    Options.parse args = .ok options ↔
      args = Options.spell options ∧
        (∀ option ∈ options, startsWith "--" option.1) ∧
        (options.map Prod.fst).Nodup := by
  rw [Options.parse]
  split
  · next odd =>
      refine ⟨nofun, fun parts => ?_⟩
      rw [parts.1] at odd
      exact absurd (length_spell options) odd
  next even =>
    have pairing := Decidable.not_not.mp even
    have none : (([] : Options).map Prod.fst).Nodup := List.nodup_nil
    rw [collect_ok_iff none, List.nil_append]
    constructor
    · rintro ⟨rfl, dashed, apart⟩
      exact ⟨(spell_pairs args pairing).symm, dashed, apart⟩
    · rintro ⟨rfl, dashed, apart⟩
      rw [pairs_spell]
      exact ⟨rfl, dashed, apart⟩

end Arguments

section Reading

variable {options own : Options} {name value : String}
variable (distinct : (options.map Prod.fst).Nodup)

include distinct in
/-- Options of one name are one option. -/
theorem option_unique
    {first second : String × String}
    (one : first ∈ options) (other : second ∈ options)
    (same : first.1 = second.1) :
    first = second :=
  List.inj_on_of_nodup_map distinct one other same

include distinct in
/-- With different names, an option is read by its name. -/
theorem get_eq_some_iff :
    Options.get options name = some value ↔ (name, value) ∈ options := by
  rw [Options.get, Option.map_eq_some_iff]
  constructor
  · rintro ⟨option, found, rfl⟩
    have same := List.find?_some found
    rw [beq_iff_eq] at same
    subst same
    exact List.mem_of_find?_eq_some found
  · intro member
    have present : (options.find? fun option => option.1 == name).isSome := by
      rw [List.find?_isSome]
      exact ⟨(name, value), member, beq_iff_eq.mpr rfl⟩
    obtain ⟨option, found⟩ := Option.isSome_iff_exists.mp present
    have same := List.find?_some found
    rw [beq_iff_eq] at same
    obtain rfl := option_unique distinct (List.mem_of_find?_eq_some found)
      member same
    exact ⟨_, found, rfl⟩

theorem get_eq_none_iff :
    Options.get options name = none ↔ name ∉ options.map Prod.fst := by
  rw [Options.get, Option.map_eq_none_iff, List.find?_eq_none, List.mem_map]
  constructor
  · rintro absent ⟨option, member, same⟩
    exact absent option member (beq_iff_eq.mpr same)
  · intro absent option member same
    exact absent ⟨option, member, beq_iff_eq.mp same⟩

include distinct in
theorem required_ok_iff :
    Options.required options name = .ok value ↔
      (name, value) ∈ options ∧ value ≠ "" := by
  rw [Options.required, ← get_eq_some_iff distinct]
  cases found : Options.get options name with
  | none => simp
  | some text =>
      by_cases empty : text = ""
      · have dropped : (some text).filter (fun value => !value.isEmpty) =
            none := by
          simp [empty]
        rw [dropped]
        refine ⟨nofun, fun parts => ?_⟩
        obtain ⟨same, valued⟩ := parts
        cases same
        exact absurd empty valued
      · have kept : (some text).filter (fun value => !value.isEmpty) =
            some text := by
          simp [empty]
        rw [kept]
        refine ⟨fun same => ?_, fun parts => ?_⟩
        · cases same
          exact ⟨rfl, empty⟩
        · cases parts.1
          rfl

include distinct in
/-- A limit that is read is given by an option, or it is missing. -/
theorem limit_ok_iff
    {limit : UInt64} :
    Options.limit options = .ok limit ↔
      ("--limit" ∉ options.map Prod.fst ∧ limit = defaultRowLimit) ∨
        ∃ text, ("--limit", text) ∈ options ∧ parseU64 text = some limit ∧
          0 < limit := by
  rw [Options.limit, ← get_eq_none_iff]
  simp only [← get_eq_some_iff distinct]
  cases found : Options.get options "--limit" with
  | none => simp [eq_comm]
  | some text =>
      cases parsed : parseU64 text with
      | none => simp [parsed]
      | some number =>
          by_cases positive : 0 < number
          · have kept : (some number).filter (fun limit => 0 < limit) =
                some number := by
              simp [positive]
            simp only [parsed, kept]
            refine ⟨fun same => ?_, fun either => ?_⟩
            · cases same
              exact .inr ⟨text, rfl, parsed, positive⟩
            · rcases either with ⟨impossible, _⟩ | ⟨_, same, read, _⟩
              · cases impossible
              · cases same
                cases parsed.symm.trans read
                rfl
          · have dropped : (some number).filter (fun limit => 0 < limit) =
                none := by
              rw [Option.filter_some, if_neg]
              simpa using positive
            simp only [parsed, dropped]
            refine ⟨nofun, fun either => ?_⟩
            rcases either with ⟨impossible, _⟩ | ⟨_, same, read, more⟩
            · cases impossible
            · cases same
              cases parsed.symm.trans read
              exact absurd more positive

theorem bind_ok_iff
    {α β : Type} {first : Except CommandError α}
    {next : α → Except CommandError β} {result : β} :
    (first >>= next) = .ok result ↔
      ∃ value, first = .ok value ∧ next value = .ok result := by
  cases first <;> simp [bind, Except.bind]

include distinct in
theorem authority_ok_iff
    {authority : Authority} :
    Options.authority options = .ok authority ↔
      (∀ option ∈ authority.options, option ∈ options ∧ option.2 ≠ "") := by
  obtain ⟨product, expectedPlan⟩ := authority
  simp only [Options.authority, bind_ok_iff, required_ok_iff distinct,
    Authority.options, List.forall_mem_cons]
  constructor
  · rintro ⟨_, granted, _, expected, same⟩
    cases same
    exact ⟨granted, expected, nofun⟩
  · rintro ⟨granted, expected, _⟩
    exact ⟨product, granted, expectedPlan, expected, rfl⟩

end Reading

section Commands

variable {command : RelationCommand} {family action : String}
variable {own options : Options}

/-- A command defines its own options, and perhaps a limit that is missing. -/
theorem Grammar.names
    (grammar : Grammar command family action own) :
    own.map Prod.fst = definedOptions family action ∨
      own.map Prod.fst = (definedOptions family action).erase "--limit" := by
  cases grammar with
  | queryRun target plan limit limits limited =>
      cases limited with
      | missing => exact .inr (by simp [definedOptions])
      | given text limit => exact .inl (by simp [definedOptions])
  | mutationRun target plan limit limits authority limited =>
      cases limited with
      | missing => exact .inr (by simp [definedOptions, Authority.options])
      | given text limit =>
          exact .inl (by simp [definedOptions, Authority.options])
  | siteList => exact .inl (by simp [definedOptions])
  | siteShow id => exact .inl (by simp [definedOptions])
  | schemaInspect target => exact .inl (by simp [definedOptions])
  | schemaAdopt target artifact authority =>
      exact .inl (by simp [definedOptions, Authority.options])
  | schemaApply target artifact authority =>
      exact .inl (by simp [definedOptions, Authority.options])
  | migrationPlan target artifact => exact .inl (by simp [definedOptions])
  | migrationApply target artifact authority =>
      exact .inl (by simp [definedOptions, Authority.options])
  | mountExplain target => exact .inl (by simp [definedOptions])

/-- Options of a command that are given are all that it defines. -/
theorem Supplied.of_given
    (grammar : Grammar command family action own)
    (distinct : (options.map Prod.fst).Nodup)
    (given : ∀ option ∈ own, option ∈ options ∧ option.2 ≠ "")
    (limited : "--limit" ∈ own.map Prod.fst ∨
      "--limit" ∉ options.map Prod.fst ∨
      "--limit" ∉ definedOptions family action) :
    Supplied command family action own options := by
  refine ⟨grammar, fun option member => (given option member).2, distinct,
    fun option member => (given option member).1, ?_⟩
  intro option member defined
  have named : option.1 ∈ own.map Prod.fst := by
    rcases grammar.names with all | rest
    · rwa [all]
    · by_cases limit : option.1 = "--limit"
      · rw [limit]
        rcases limited with found | absent | undefined
        · exact found
        · exact absurd (List.mem_map.mpr ⟨option, member, limit⟩) absent
        · exact absurd (limit ▸ defined) undefined
      · rw [rest]
        exact (List.mem_erase_of_ne limit).mpr defined
  obtain ⟨same, inside, names⟩ := List.mem_map.mp named
  obtain rfl := option_unique distinct (given same inside).1 member names
  exact inside

/-- A limit that is read is an option, or the default without one. -/
theorem limits_of_limit
    {limit : UInt64}
    (distinct : (options.map Prod.fst).Nodup)
    (bounded : Options.limit options = .ok limit) :
    ∃ limits, Limited limit limits ∧
      (∀ option ∈ limits, option ∈ options ∧ option.2 ≠ "") ∧
      ("--limit" ∈ limits.map Prod.fst ∨
        "--limit" ∉ options.map Prod.fst) := by
  rcases (limit_ok_iff distinct).mp bounded with ⟨missing, rfl⟩ |
    ⟨text, given, parsed, positive⟩
  · exact ⟨[], .missing, nofun, .inr missing⟩
  · refine ⟨_, .given text limit parsed positive, ?_,
      .inl List.mem_cons_self⟩
    refine List.forall_mem_singleton.mpr ⟨given, ?_⟩
    rintro rfl
    cases parsed

/-- A command that is read has its own options supplied. -/
theorem supplied_of_command
    (distinct : (options.map Prod.fst).Nodup)
    (accepted : RelationCli.command family action options = .ok command) :
    (∃ own, Supplied command family action own options) ∧
      (command = .site .list none → options = []) := by
  unfold RelationCli.command at accepted
  split at accepted
  · obtain ⟨_, bare, same⟩ := bind_ok_iff.mp accepted
    cases same
    rw [Options.rejectAll] at bare
    split at bare
    · next empty =>
        obtain rfl := List.isEmpty_iff.mp empty
        exact ⟨⟨[], .of_given .siteList distinct nofun
          (.inr (.inl List.not_mem_nil))⟩, fun _ => rfl⟩
    · cases bare
  · simp only [bind_ok_iff, required_ok_iff distinct] at accepted
    obtain ⟨id, site, same⟩ := accepted
    cases same
    refine ⟨⟨_, .of_given (.siteShow id) distinct ?_ ?_⟩, nofun⟩
    · exact List.forall_mem_singleton.mpr site
    · exact .inr (.inr (by simp [definedOptions]))
  · simp only [bind_ok_iff, required_ok_iff distinct] at accepted
    obtain ⟨target, site, same⟩ := accepted
    cases same
    refine ⟨⟨_, .of_given (.schemaInspect target) distinct ?_ ?_⟩, nofun⟩
    · exact List.forall_mem_singleton.mpr site
    · exact .inr (.inr (by simp [definedOptions]))
  · simp only [bind_ok_iff, required_ok_iff distinct,
      authority_ok_iff distinct] at accepted
    obtain ⟨target, site, artifact, schema, authority, granted, same⟩ := accepted
    cases same
    refine ⟨⟨_, .of_given (.schemaAdopt target artifact authority) distinct
      ?_ ?_⟩, nofun⟩
    · exact List.forall_mem_cons.mpr
        ⟨site, List.forall_mem_cons.mpr ⟨schema, granted⟩⟩
    · exact .inr (.inr (by simp [definedOptions]))
  · simp only [bind_ok_iff, required_ok_iff distinct,
      authority_ok_iff distinct] at accepted
    obtain ⟨target, site, artifact, schema, authority, granted, same⟩ := accepted
    cases same
    refine ⟨⟨_, .of_given (.schemaApply target artifact authority) distinct
      ?_ ?_⟩, nofun⟩
    · exact List.forall_mem_cons.mpr
        ⟨site, List.forall_mem_cons.mpr ⟨schema, granted⟩⟩
    · exact .inr (.inr (by simp [definedOptions]))
  · simp only [bind_ok_iff, required_ok_iff distinct] at accepted
    obtain ⟨target, site, artifact, migration, same⟩ := accepted
    cases same
    refine ⟨⟨_, .of_given (.migrationPlan target artifact) distinct ?_ ?_⟩,
      nofun⟩
    · exact List.forall_mem_cons.mpr
        ⟨site, List.forall_mem_singleton.mpr migration⟩
    · exact .inr (.inr (by simp [definedOptions]))
  · simp only [bind_ok_iff, required_ok_iff distinct,
      authority_ok_iff distinct] at accepted
    obtain ⟨target, site, artifact, migration, authority, granted, same⟩ :=
      accepted
    cases same
    refine ⟨⟨_, .of_given (.migrationApply target artifact authority) distinct
      ?_ ?_⟩, nofun⟩
    · exact List.forall_mem_cons.mpr
        ⟨site, List.forall_mem_cons.mpr ⟨migration, granted⟩⟩
    · exact .inr (.inr (by simp [definedOptions]))
  · simp only [bind_ok_iff, required_ok_iff distinct] at accepted
    obtain ⟨target, site, plan, planned, limit, bounded, same⟩ := accepted
    cases same
    obtain ⟨limits, limited, given, missing⟩ := limits_of_limit distinct bounded
    refine ⟨⟨_, .of_given (.queryRun target plan limit limits limited) distinct
      ?_ ?_⟩, nofun⟩
    · exact List.forall_mem_cons.mpr
        ⟨site, List.forall_mem_cons.mpr ⟨planned, given⟩⟩
    · exact missing.imp (fun found => by simp [found]) .inl
  · simp only [bind_ok_iff, required_ok_iff distinct,
      authority_ok_iff distinct] at accepted
    obtain ⟨target, site, plan, planned, limit, bounded, authority, granted,
      same⟩ := accepted
    cases same
    obtain ⟨limits, limited, given, missing⟩ := limits_of_limit distinct bounded
    refine ⟨⟨_, .of_given
      (.mutationRun target plan limit limits authority limited) distinct
      ?_ ?_⟩, nofun⟩
    · exact List.forall_mem_cons.mpr
        ⟨site, List.forall_mem_cons.mpr
          ⟨planned, List.forall_mem_append.mpr ⟨given, granted⟩⟩⟩
    · exact missing.imp (fun found => by simp [found]) .inl
  · simp only [bind_ok_iff, required_ok_iff distinct] at accepted
    obtain ⟨target, mount, same⟩ := accepted
    cases same
    refine ⟨⟨_, .of_given (.mountExplain target) distinct ?_ ?_⟩, nofun⟩
    · exact List.forall_mem_singleton.mpr mount
    · exact .inr (.inr (by simp [definedOptions]))
  · cases accepted

/-- A limit that is supplied, or missing, is read. -/
theorem limit_of_supplied
    {limit : UInt64} {limits : Options}
    (supplied : Supplied command family action own options)
    (limited : Limited limit limits)
    (within : ∀ option ∈ limits, option ∈ own)
    (defined : "--limit" ∈ definedOptions family action)
    (only : "--limit" ∈ own.map Prod.fst → "--limit" ∈ limits.map Prod.fst) :
    Options.limit options = .ok limit := by
  refine (limit_ok_iff supplied.distinct).mpr ?_
  cases limited with
  | missing =>
      refine .inl ⟨fun given => ?_, rfl⟩
      obtain ⟨option, member, same⟩ := List.mem_map.mp given
      have inside := supplied.only option member (same ▸ defined)
      exact absurd (only (List.mem_map.mpr ⟨option, inside, same⟩))
        List.not_mem_nil
  | given text limit parsed positive =>
      have inside := within ("--limit", text) List.mem_cons_self
      exact .inr ⟨text, supplied.given _ inside, parsed, positive⟩

/-- A command whose own options are supplied is read. -/
theorem command_of_supplied
    (supplied : Supplied command family action own options)
    (bare : command = .site .list none → options = []) :
    RelationCli.command family action options = .ok command := by
  have distinct := supplied.distinct
  have reads : ∀ option ∈ own,
      Options.required options option.1 = .ok option.2 :=
    fun option member => (required_ok_iff distinct).mpr
      ⟨supplied.given option member, supplied.valued option member⟩
  have grants : ∀ authority : Authority,
      (∀ option ∈ authority.options, option ∈ own) →
      Options.authority options = .ok authority := fun authority within =>
    (authority_ok_iff distinct).mpr fun option member =>
      ⟨supplied.given option (within option member),
        supplied.valued option (within option member)⟩
  cases supplied.grammar with
  | siteList =>
      rw [bare rfl]
      rfl
  | siteShow id =>
      have site := reads ("--site", id) (by simp)
      simp only [RelationCli.command, site]
      rfl
  | schemaInspect target =>
      have site := reads ("--site", target) (by simp)
      simp only [RelationCli.command, site]
      rfl
  | schemaAdopt target artifact authority =>
      have site := reads ("--site", target) (by simp)
      have schema := reads ("--schema", artifact) (by simp)
      have granted := grants authority (by simp +contextual)
      simp only [RelationCli.command, site, schema, granted]
      rfl
  | schemaApply target artifact authority =>
      have site := reads ("--site", target) (by simp)
      have schema := reads ("--schema", artifact) (by simp)
      have granted := grants authority (by simp +contextual)
      simp only [RelationCli.command, site, schema, granted]
      rfl
  | migrationPlan target artifact =>
      have site := reads ("--site", target) (by simp)
      have migration := reads ("--migration", artifact) (by simp)
      simp only [RelationCli.command, site, migration]
      rfl
  | migrationApply target artifact authority =>
      have site := reads ("--site", target) (by simp)
      have migration := reads ("--migration", artifact) (by simp)
      have granted := grants authority (by simp +contextual)
      simp only [RelationCli.command, site, migration, granted]
      rfl
  | queryRun target plan limit limits limited =>
      have site := reads ("--site", target) (by simp)
      have planned := reads ("--plan", plan) (by simp)
      have bounded := limit_of_supplied supplied limited (by simp +contextual)
        (by simp [definedOptions]) (by simp)
      simp only [RelationCli.command, site, planned, bounded]
      rfl
  | mutationRun target plan limit limits authority limited =>
      have site := reads ("--site", target) (by simp)
      have planned := reads ("--plan", plan) (by simp)
      have bounded := limit_of_supplied supplied limited (by simp +contextual)
        (by simp [definedOptions]) (by simp [Authority.options])
      have granted := grants authority (by simp +contextual)
      simp only [RelationCli.command, site, planned, bounded, granted]
      rfl
  | mountExplain target =>
      have mount := reads ("--mount", target) (by simp)
      simp only [RelationCli.command, mount]
      rfl

/-- The options that commands define start with dashes. -/
theorem definedOptions_dashed :
    ∀ name ∈ definedOptions family action, startsWith "--" name = true := by
  unfold definedOptions
  split <;> decide

theorem definedOptions_nodup :
    (definedOptions family action).Nodup := by
  unfold definedOptions
  split <;> decide

theorem Grammar.defined
    (grammar : Grammar command family action own)
    {option : String × String} (member : option ∈ own) :
    option.1 ∈ definedOptions family action := by
  have named := List.mem_map_of_mem (f := Prod.fst) member
  rcases grammar.names with all | rest
  · rwa [all] at named
  · rw [rest] at named
    exact List.mem_of_mem_erase named

theorem Grammar.distinct
    (grammar : Grammar command family action own) :
    (own.map Prod.fst).Nodup := by
  rcases grammar.names with all | rest
  · rw [all]
    exact definedOptions_nodup
  · rw [rest]
    exact definedOptions_nodup.erase _

/-- What is parsed: no raw SQL, and a command with its own options supplied. -/
theorem parse_eq_ok_iff
    {args : List String} :
    parse args = .ok command ↔
      (∀ arg ∈ unprefixed args, rawSql arg = false) ∧
        ∃ family action own options,
          unprefixed args = family :: action :: Options.spell options ∧
          (∀ option ∈ options, startsWith "--" option.1 = true) ∧
          Supplied command family action own options ∧
          (command = .site .list none → options = []) := by
  rw [parse]
  split
  · next raw =>
      refine ⟨nofun, fun parts => ?_⟩
      obtain ⟨arg, member, sql⟩ := List.any_eq_true.mp raw
      rw [parts.1 arg member] at sql
      cases sql
  next plain =>
    have clean : ∀ arg ∈ unprefixed args, rawSql arg = false := by
      simpa using plain
    refine Iff.trans ?_ (and_iff_right clean).symm
    cases words : unprefixed args with
    | nil => exact ⟨nofun, fun ⟨_, _, _, _, same, _⟩ => nomatch same⟩
    | cons family rest =>
    cases rest with
    | nil => exact ⟨nofun, fun ⟨_, _, _, _, same, _⟩ => nomatch same⟩
    | cons action rest =>
    rw [bind_ok_iff]
    constructor
    · rintro ⟨options, parsed, read⟩
      obtain ⟨rfl, dashed, distinct⟩ := parse_ok_iff.mp parsed
      obtain ⟨⟨own, supplied⟩, bare⟩ := supplied_of_command distinct read
      exact ⟨family, action, own, options, rfl, dashed, supplied, bare⟩
    · rintro ⟨_, _, own, options, same, dashed, supplied, bare⟩
      cases same
      exact ⟨options, parse_ok_iff.mpr ⟨rfl, dashed, supplied.distinct⟩,
        command_of_supplied supplied bare⟩

/--
Every vector of the grammar without raw SQL is parsed as its command; a vector
that is parsed has the words of its command and, among options with different
names after dashes, exactly the command's own of those that it defines, each
with a value; a list of sites has no options.
-/
theorem parse_grammar
    (args : List String) (command : RelationCommand) :
    (parse args = .ok command →
      (∀ arg ∈ unprefixed args, rawSql arg = false) ∧
      ∃ family action own options,
        unprefixed args = family :: action :: Options.spell options ∧
        (∀ option ∈ options, startsWith "--" option.1 = true) ∧
        Supplied command family action own options ∧
        (command = .site .list none → options = [])) ∧
      (Form command args → (∀ arg ∈ unprefixed args, rawSql arg = false) →
        parse args = .ok command) := by
  refine ⟨parse_eq_ok_iff.mp, fun form clean => ?_⟩
  obtain ⟨family, action, own, options, grammar, valued, order, words⟩ := form
  have distinct : (options.map Prod.fst).Nodup :=
    (order.map Prod.fst).nodup_iff.mpr grammar.distinct
  refine parse_eq_ok_iff.mpr
    ⟨clean, family, action, own, options, words, ?_, ?_, ?_⟩
  · exact fun option member => definedOptions_dashed _
      (grammar.defined (order.mem_iff.mp member))
  · exact ⟨grammar, valued, distinct,
      fun option member => order.mem_iff.mpr member,
      fun option member _ => order.mem_iff.mp member⟩
  · rintro rfl
    cases grammar with
    | siteList => exact List.perm_nil.mp order

/-- A query with its options in another order, and the default limit. -/
theorem parse_query :
    parse ["relation", "query", "run", "--plan", "p", "--site", "db"] =
      .ok (.query "db" "p" defaultRowLimit) := by
  refine (parse_grammar _ _).2 ?_ (by decide)
  refine ⟨"query", "run", [("--site", "db"), ("--plan", "p")],
    [("--plan", "p"), ("--site", "db")], .queryRun _ _ _ _ .missing, ?_, ?_, rfl⟩
  · decide
  · exact .swap _ _ _

/-- A misspelled limit is ignored, and a value that looks like SQL is refused. -/
theorem misspelled_limit_ignored :
    (∃ args command, parse args = .ok command ∧ ¬ Form command args) ∧
      ∃ args command, Form command args ∧ parse args ≠ .ok command := by
  refine ⟨⟨["query", "run", "--site", "db", "--plan", "p", "--limt", "5"],
      .query "db" "p" defaultRowLimit, by decide, ?_⟩,
    ["site", "show", "--site", "--sql"], .site .show (some "--sql"), ?_,
    by decide⟩
  · rintro ⟨family, action, own, options, grammar, _, order, words⟩
    obtain ⟨rfl, rest⟩ := List.cons.inj words
    obtain ⟨rfl, spelled⟩ := List.cons.inj rest
    have given : ("--limt", "5") ∈ options := by
      rw [← pairs_spell options, ← spelled]
      decide
    have defined := grammar.defined (order.mem_iff.mp given)
    exact absurd defined (by decide)
  · exact ⟨"site", "show", [("--site", "--sql")], _, .siteShow _, by decide,
      .refl _, rfl⟩

end Commands

end SimStorage.RelationCli
