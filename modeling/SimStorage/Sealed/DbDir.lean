import SimStorage.Sealed.Contract
import Mathlib.Data.List.Dedup

namespace SimStorage.Sealed

/-!
# Directory backends

A directory backend keeps values under symbols in directories, and directories
under names in directories.  `Backend.DirLike` says what its operations do to
the values and the directories; `DbDir` is a backend of that kind.
-/

open Codec Interaction

variable {Handle Value Expr σ κ : Type}

/--
A backend whose handles stand for directory paths.  Lookups see values only;
probes and enumerations see directories too, and a removal takes everything
below.  Names have to be legal.
-/
structure Backend.DirLike (primitives : Primitives Value Expr)
    (backend : Backend Handle Value σ) (legal : String → Prop)
    (path : Handle → List String)
    (contents : σ → List String × Symbol → Option Value)
    (dirs : σ → Set (List String)) : Prop where
  isDirectory : ∀ handle, backend.isDirectory handle = true
  get : ∀ handle key store, Yields (backend.get handle key) store
    (orNil primitives (contents store (path handle, key))) store
  has : ∀ handle key store, legal key.name → ∃ present,
    Yields (backend.has handle key) store (.ok present) store ∧
      (present = true ↔ (contents store (path handle, key)).isSome ∨
        path handle ++ [key.name] ∈ dirs store)
  set : ∀ handle key value store, legal key.name →
    path handle ++ [key.name] ∉ dirs store → ∃ after,
      Yields (backend.set handle key value) store (.ok ()) after ∧
        contents after = Function.update (contents store) (path handle, key)
          (some value) ∧
        dirs after = dirs store
  setDir : ∀ handle key value store, legal key.name →
    path handle ++ [key.name] ∈ dirs store → ∃ error,
      Yields (backend.set handle key value) store (.error error) store
  del : ∀ handle key store, ∃ prior after,
    Yields (backend.del handle key) store (.ok prior) after ∧
      contents after = Function.update (contents store) (path handle, key)
        none ∧
      dirs after = dirs store
  keys : ∀ handle store, ∃ listed,
    Yields (backend.keys handle) store (.ok listed) store ∧ listed.Nodup ∧
      ∀ key, key ∈ listed ↔ (contents store (path handle, key)).isSome ∨
        key.space = none ∧ ∃ rest, path handle ++ key.name :: rest ∈ dirs store
  mkdir : ∀ handle name store, legal name.name →
    contents store (path handle, name) = none → ∃ child after,
      Yields (backend.mkdir handle name) store (.ok child) after ∧
        path child = path handle ++ [name.name] ∧
        contents after = contents store ∧
        dirs after = insert (path child) (dirs store)
  mkdirFile : ∀ handle name store, legal name.name →
    (contents store (path handle, name)).isSome → ∃ error,
      Yields (backend.mkdir handle name) store (.error error) store
  opendir : ∀ handle name store, legal name.name → ∃ outcome,
    Yields (backend.opendir handle name) store outcome store ∧
      ∀ child, outcome = .ok (some child) →
        path child = path handle ++ [name.name]
  rmdir : ∀ handle name store, legal name.name →
    path handle ++ [name.name] ∈ dirs store → ∃ reply after,
      Yields (backend.rmdir handle name) store (.ok reply) after ∧
        (∀ slot, contents after slot =
          if path handle ++ [name.name] <+: slot.1 then none
          else contents store slot) ∧
        dirs after =
          { dir ∈ dirs store | ¬ path handle ++ [name.name] <+: dir }
  rmdirMissing : ∀ handle name store, legal name.name →
    path handle ++ [name.name] ∉ dirs store → ∃ error,
      Yields (backend.rmdir handle name) store (.error error) store
  isDir : ∀ handle name store, legal name.name → ∃ present,
    Yields (backend.isDir handle name) store (.ok present) store ∧
      (present = true ↔ path handle ++ [name.name] ∈ dirs store)

/-- `Store`: the values by path and key, and the paths of the directories. -/
structure DbStore (Value : Type) where
  values : List ((List String × Symbol) × Value)
  dirs : List (List String)

/-- `DbDir`: a view of the store at a path, as the list of its segments. -/
structure DbDir where
  path : List String
  deriving Repr, DecidableEq

namespace DbDir

/-- The store of a fresh root directory. -/
def openStore (Value : Type) : DbStore Value where
  values := []
  dirs := [[]]

/-- An evaluation error of the directory. -/
def refused (text : String) : EvalError :=
  ⟨"table/db: " ++ text⟩

variable (isLegal : String → Bool)
variable (primitives : Primitives Value Expr)
variable (dir : DbDir)

/-- `child_path`. -/
def childPath (name : Symbol) : Except EvalError (List String) :=
  if isLegal name.name then
    .ok (dir.path ++ [name.name])
  else
    .error (refused ("illegal name " ++ debugText name.name))

/-- `direct_subdirs`: the first segments below the path. -/
def directSubdirs (store : DbStore Value) : List Symbol :=
  store.dirs.filterMap fun path =>
    match path.dropPrefix? dir.path with
    | some (head :: _) => some (.new head)
    | _ => none

/-- `get`. -/
def get (key : Symbol) : EStateM EvalError (DbStore Value) Value := do
  let store ← MonadState.get
  ofExcept (orNil primitives (store.values.lookup (dir.path, key)))

/-- `set`: refused under the name of a directory. -/
def set (key : Symbol) (value : Value) :
    EStateM EvalError (DbStore Value) Unit := do
  let path ← ofExcept (dir.childPath isLegal key)
  let store ← MonadState.get
  if path ∈ store.dirs then
    throw (refused (key.asQualifiedStr ++ " is a directory"))
  else
    MonadState.set { store with
      values := ((dir.path, key), value) ::
        store.values.filter fun entry => entry.1 ≠ (dir.path, key) }

/-- `has`: a value or a directory. -/
def has (key : Symbol) : EStateM EvalError (DbStore Value) Bool := do
  let path ← ofExcept (dir.childPath isLegal key)
  let store ← MonadState.get
  return (store.values.lookup (dir.path, key)).isSome || path ∈ store.dirs

/-- `del`. -/
def del (key : Symbol) : EStateM EvalError (DbStore Value) Value := do
  let store ← MonadState.get
  MonadState.set { store with
    values := store.values.filter fun entry => entry.1 ≠ (dir.path, key) }
  ofExcept (orNil primitives (store.values.lookup (dir.path, key)))

/-- `keys`: of the values at the path, and of the directories below. -/
def keys : EStateM EvalError (DbStore Value) (List Symbol) := do
  let store ← MonadState.get
  let values := store.values.filter fun entry => entry.1.1 = dir.path
  return (values.map (fun entry => entry.1.2) ++ dir.directSubdirs store).dedup

/-- `mkdir`: refused under the key of a value. -/
def mkdir (name : Symbol) : EStateM EvalError (DbStore Value) DbDir := do
  let path ← ofExcept (dir.childPath isLegal name)
  let store ← MonadState.get
  if (store.values.lookup (dir.path, name)).isSome then
    throw (refused (name.asQualifiedStr ++ " is a file"))
  else
    MonadState.set { store with dirs := store.dirs.insert path }
    return ⟨path⟩

/-- `opendir`. -/
def opendir (name : Symbol) :
    EStateM EvalError (DbStore Value) (Option DbDir) := do
  let path ← ofExcept (dir.childPath isLegal name)
  let store ← MonadState.get
  if path ∈ store.dirs then
    return some ⟨path⟩
  else if (store.values.lookup (dir.path, name)).isSome then
    throw (refused (name.asQualifiedStr ++ " is not a directory"))
  else
    return none

/-- `rmdir`: with everything below. -/
def rmdir (name : Symbol) : EStateM EvalError (DbStore Value) Value := do
  let path ← ofExcept (dir.childPath isLegal name)
  let store ← MonadState.get
  if path ∉ store.dirs then
    throw (refused (name.asQualifiedStr ++ " is not a directory"))
  else
    MonadState.set {
      values := store.values.filter fun entry => ¬ path.isPrefixOf entry.1.1
      dirs := store.dirs.filter fun other => ¬ path.isPrefixOf other }
    ofExcept primitives.nil

/-- `is_dir`. -/
def isDir (name : Symbol) : EStateM EvalError (DbStore Value) Bool := do
  let path ← ofExcept (dir.childPath isLegal name)
  let store ← MonadState.get
  return decide (path ∈ store.dirs)

/-- `DbDir` as a backend; all capabilities are granted. -/
def backend : Backend DbDir Value (DbStore Value) where
  isTable _ := true
  get := get primitives
  set := set isLegal
  has := has isLegal
  del := del primitives
  keys := keys
  isDirectory _ := true
  mkdir := mkdir isLegal
  opendir := opendir isLegal
  rmdir := rmdir isLegal primitives
  isDir := isDir isLegal

section Laws

variable {isLegal primitives dir}

theorem lookup_filter
    [BEq κ] [LawfulBEq κ]
    (keep : κ → Bool) (entries : List (κ × Value)) (key : κ) :
    (entries.filter fun entry => keep entry.1).lookup key =
      if keep key then entries.lookup key else none := by
  induction entries with
  | nil => simp
  | cons head rest inductionHypothesis =>
      obtain ⟨name, value⟩ := head
      cases kept : keep name with
      | false =>
          rw [List.filter_cons_of_neg (by simp [kept]), inductionHypothesis,
            List.lookup_cons]
          by_cases same : key = name
          · subst same
            simp [kept]
          · have differs : (key == name) = false := beq_false_of_ne same
            simp only [differs]
      | true =>
          rw [List.filter_cons_of_pos (by exact kept), List.lookup_cons,
            List.lookup_cons, inductionHypothesis]
          by_cases same : key = name
          · subst same
            simp [kept]
          · have differs : (key == name) = false := beq_false_of_ne same
            simp only [differs]

/-- The values of a store by path and key. -/
def contents (store : DbStore Value) (slot : List String × Symbol) :
    Option Value :=
  store.values.lookup slot

/-- The directories of a store. -/
def dirs (store : DbStore Value) : Set (List String) :=
  { path | path ∈ store.dirs }

theorem contents_isSome
    {store : DbStore Value} {slot : List String × Symbol} :
    (contents store slot).isSome ↔ ∃ entry ∈ store.values, entry.1 = slot := by
  rw [contents, List.lookup_isSome_iff]
  constructor
  · rintro ⟨entry, isEntry, same⟩
    exact ⟨entry, isEntry, (eq_of_beq same).symm⟩
  · rintro ⟨entry, isEntry, rfl⟩
    exact ⟨entry, isEntry, BEq.rfl⟩

theorem mem_directSubdirs
    {store : DbStore Value} {key : Symbol} :
    key ∈ dir.directSubdirs store ↔
      key.space = none ∧ ∃ rest, dir.path ++ key.name :: rest ∈ store.dirs := by
  rw [directSubdirs, List.mem_filterMap]
  constructor
  · rintro ⟨path, member, named⟩
    split at named
    next head rest found =>
      cases named
      obtain ⟨start, rfl, same⟩ := List.dropPrefix?_eq_some_iff.mp found
      rw [eq_of_beq same] at member
      exact ⟨rfl, rest, member⟩
    · cases named
  · rintro ⟨bare, rest, member⟩
    refine ⟨_, member, ?_⟩
    have found : (dir.path ++ key.name :: rest).dropPrefix? dir.path =
        some (key.name :: rest) :=
      List.dropPrefix?_eq_some_iff.mpr ⟨dir.path, rfl, by simp⟩
    simp only [found]
    rw [SealedTable.new_name bare]

theorem childPath_of_legal
    {name : Symbol}
    (legal : isLegal name.name = true) :
    dir.childPath isLegal name = .ok (dir.path ++ [name.name]) :=
  if_pos legal

theorem contents_insert
    (store : DbStore Value) (slot : List String × Symbol) (value : Value) :
    contents { store with
      values := (slot, value) ::
        store.values.filter fun entry => entry.1 ≠ slot } =
      Function.update (contents store) slot (some value) := by
  funext query
  by_cases same : query = slot
  · subst same
    simp [contents]
  · have differs : (query == slot) = false := beq_false_of_ne same
    rw [Function.update_of_ne same, contents, List.lookup_cons, differs,
      lookup_filter fun found => decide (found ≠ slot)]
    simp [contents, same]

theorem contents_remove
    (store : DbStore Value) (slot : List String × Symbol) :
    contents { store with
      values := store.values.filter fun entry => entry.1 ≠ slot } =
      Function.update (contents store) slot none := by
  funext query
  rw [contents, lookup_filter fun found => decide (found ≠ slot)]
  by_cases same : query = slot
  · subst same
    simp
  · simp [contents, same]

theorem mem_listed
    {store : DbStore Value} {key : Symbol} :
    key ∈ (store.values.filter fun entry => entry.1.1 = dir.path).map
        (fun entry => entry.1.2) ↔
      (contents store (dir.path, key)).isSome := by
  rw [contents_isSome, List.mem_map]
  constructor
  · rintro ⟨entry, member, rfl⟩
    obtain ⟨isEntry, here⟩ := List.mem_filter.mp member
    exact ⟨entry, isEntry, Prod.ext (of_decide_eq_true here) rfl⟩
  · rintro ⟨entry, isEntry, slot⟩
    have here : entry.1.1 = dir.path := congrArg Prod.fst slot
    exact ⟨entry, List.mem_filter.mpr ⟨isEntry, decide_eq_true here⟩,
      congrArg Prod.snd slot⟩

/-- After the name, an operation sees the store. -/
theorem named
    {α : Type} {name : Symbol} {store after : DbStore Value}
    {outcome : Except EvalError α}
    {next : List String → DbStore Value → EStateM EvalError (DbStore Value) α}
    (legal : isLegal name.name = true)
    (rest : Yields (next (dir.path ++ [name.name]) store) store outcome
      after) :
    Yields (do
      let path ← MonadExcept.ofExcept (dir.childPath isLegal name)
      let store ← MonadState.get
      next path store) store outcome after :=
  (Yields.of_ok (childPath_of_legal legal) store).bind
    ((Yields.get store).bind rest)

/-- `DbDir` is a directory backend. -/
theorem backend_dirLike
    (lawful : primitives.Lawful) :
    (backend isLegal primitives).DirLike primitives (isLegal · = true)
      DbDir.path contents dirs where
  isDirectory _ := rfl
  get dir key store := (Yields.get store).bind (.ofExcept _ store)
  has dir key store legal :=
    ⟨_, named legal (.pure _ store), by simp [contents, dirs]⟩
  set dir key value store legal absent := by
    refine ⟨_, named legal ?_, contents_insert store (dir.path, key) value, rfl⟩
    rw [if_neg (by exact absent)]
    exact .set _ store
  setDir dir key value store legal present := by
    have here : dir.path ++ [key.name] ∈ store.dirs := present
    apply Exists.intro
    apply named legal
    rw [if_pos here]
    exact .throw _ store
  del dir key store := by
    obtain ⟨nil, _, made, _⟩ := lawful.nil
    have found : ∃ prior, orNil primitives
        (store.values.lookup (dir.path, key)) = .ok prior := by
      cases store.values.lookup (dir.path, key) with
      | none => exact ⟨nil, made⟩
      | some value => exact ⟨value, rfl⟩
    obtain ⟨prior, looked⟩ := found
    exact ⟨prior, _, (Yields.get store).bind
      ((Yields.set _ store).bind (.of_ok looked _)),
      contents_remove store (dir.path, key), rfl⟩
  keys dir store := by
    refine ⟨_, (Yields.get store).bind (.pure _ store), List.nodup_dedup _,
      fun key => ?_⟩
    rw [List.mem_dedup, List.mem_append, mem_listed, mem_directSubdirs]
    rfl
  mkdir dir name store legal absent := by
    have free : ¬ (store.values.lookup (dir.path, name)).isSome := by
      rw [← contents, absent]
      nofun
    have made : Yields ((backend isLegal primitives).mkdir dir name) store
        (.ok ⟨dir.path ++ [name.name]⟩)
        { store with dirs := store.dirs.insert (dir.path ++ [name.name]) } := by
      apply named legal
      rw [if_neg free]
      exact (Yields.set _ store).bind (.pure _ _)
    refine ⟨_, _, made, rfl, rfl, ?_⟩
    ext path
    simp [dirs]
  mkdirFile dir name store legal present := by
    have isFile : (store.values.lookup (dir.path, name)).isSome := present
    apply Exists.intro
    apply named legal
    rw [if_pos isFile]
    exact .throw _ store
  opendir dir name store legal := by
    by_cases here : dir.path ++ [name.name] ∈ store.dirs
    · have opened : Yields ((backend isLegal primitives).opendir dir name) store
          (.ok (some ⟨dir.path ++ [name.name]⟩)) store := by
        apply named legal
        rw [if_pos here]
        exact .pure _ store
      refine ⟨_, opened, ?_⟩
      rintro child ⟨⟩
      rfl
    by_cases isFile : (store.values.lookup (dir.path, name)).isSome = true
    · have failed : Yields ((backend isLegal primitives).opendir dir name) store
          (.error (refused (name.asQualifiedStr ++ " is not a directory")))
          store := by
        apply named legal
        rw [if_neg here, if_pos isFile]
        exact .throw _ store
      exact ⟨_, failed, nofun⟩
    · have nothing : Yields ((backend isLegal primitives).opendir dir name)
          store (.ok none) store := by
        apply named legal
        rw [if_neg here, if_neg isFile]
        exact .pure _ store
      exact ⟨_, nothing, nofun⟩
  rmdir dir name store legal present := by
    obtain ⟨nil, _, made, _⟩ := lawful.nil
    have kept : ¬ dir.path ++ [name.name] ∉ store.dirs := not_not.mpr present
    have removed : Yields ((backend isLegal primitives).rmdir dir name) store
        (.ok nil)
        { values := store.values.filter fun entry =>
            ¬ (dir.path ++ [name.name]).isPrefixOf entry.1.1
          dirs := store.dirs.filter fun other =>
            ¬ (dir.path ++ [name.name]).isPrefixOf other } := by
      apply named legal
      rw [if_neg kept]
      exact (Yields.set _ store).bind (.of_ok made _)
    refine ⟨_, _, removed, fun slot => ?_, ?_⟩
    · rw [contents, lookup_filter fun slot : List String × Symbol =>
        decide ¬ (dir.path ++ [name.name]).isPrefixOf slot.1]
      simp [contents]
    · ext path
      simp [dirs]
  rmdirMissing dir name store legal absent := by
    have missing : dir.path ++ [name.name] ∉ store.dirs := absent
    apply Exists.intro
    apply named legal
    rw [if_pos missing]
    exact .throw _ store
  isDir dir name store legal :=
    ⟨_, named legal (.pure _ store), by simp [dirs]⟩

end Laws

end DbDir

end SimStorage.Sealed
