import SimStorage.LazyTable.AtMostOnce

namespace SimStorage.LazyTables

/-!
# Lazy tables as maps of outcomes

For one caller, and loaders whose results do not change, a lazy table shows a
map from keys to outcomes.  It is that map, except that a deletion whose loader
fails has removed the key.  Hash tables hold values where lazy tables hold
outcomes.
-/

open Interaction

variable {K V ε L σ : Type}

/-- A map of outcomes for every table. -/
abbrev Outcomes (K V ε : Type) :=
  List (List (K × Except ε V))

/-- A request with its reply. -/
abbrev Reading (K V ε L σ : Type) :=
  (request : Request K V L σ) × Reply ε request

/-- The values of entries in order, or the first failure. -/
def gathered : List (K × Except ε V) → Except ε (List (K × V))
  | [] => .ok []
  | (key, .ok value) :: rest =>
      (gathered rest).map fun values => (key, value) :: values
  | (_, .error error) :: _ => .error error

section Reference

variable [LinearOrder K]
variable (outcome : L → Except ε V) (nil : Except ε V)

/-- The entries in the order of their keys, or the first failure. -/
def listed (table : List (K × Except ε V)) : Except ε (List (K × V)) :=
  gathered (sorted table)

/-- `del` on a map of outcomes; what fails is not removed. -/
def deleted (table : List (K × Except ε V)) (key : K) :
    Except ε V × List (K × Except ε V) :=
  match Entries.find table key with
  | some (.ok value) => (.ok value, Entries.remove table key)
  | some (.error error) => (.error error, table)
  | none => (nil, table)

/-- A request to maps of outcomes. -/
def perform (tables : Outcomes K V ε) :
    (request : Request K V L σ) → Option (Reply ε request × Outcomes K V ε)
  | .withLoaders pairs =>
      some (tables.length, tables ++
        [Entries.collect (Entries.withValues outcome pairs)])
  | .withEntries entries =>
      some (tables.length, tables ++
        [Entries.collect (Entries.withValues .ok entries)])
  | .clone name => do
      let table ← tables[name]?
      return (tables.length, tables ++ [table])
  | .putLazy name key loader => do
      let table ← tables[name]?
      return ((), tables.set name (Entries.insert table key (outcome loader)))
  | .get name key => do
      let table ← tables[name]?
      return ((Entries.find table key).getD nil, tables)
  | .set name key value => do
      let table ← tables[name]?
      return (.ok (), tables.set name (Entries.insert table key (.ok value)))
  | .has name key => do
      let table ← tables[name]?
      return (.ok (Entries.find table key).isSome, tables)
  | .del name key => do
      let table ← tables[name]?
      let (reply, table) := deleted nil table key
      return (reply, tables.set name table)
  | .keys name => do
      let table ← tables[name]?
      let keys := (table.map Prod.fst).mergeSort fun left right => left ≤ right
      return (.ok keys, tables)
  | .entries name => do
      let table ← tables[name]?
      return (listed table, tables)
  | .len name => do
      let table ← tables[name]?
      return (.ok table.length, tables)
  | .clear name => do
      let _ ← tables[name]?
      return (.ok (), tables.set name [])
  | .outside _ => none

/-- The replies of the maps of outcomes to requests. -/
def answers : Outcomes K V ε → List (Request K V L σ) →
    Option (List (Reading K V ε L σ))
  | _, [] => some []
  | tables, request :: rest => do
      let (reply, later) ← perform outcome nil tables request
      let log ← answers later rest
      return ⟨request, reply⟩ :: log

/-- The request does not delete a key whose outcome is an error. -/
def Kept (tables : Outcomes K V ε) (request : Request K V L σ) : Prop :=
  ∀ name key table error, request = .del name key →
    tables[name]? = some table → Entries.find table key ≠ some (.error error)

/-- A sequence of requests with the replies of the maps of outcomes. -/
inductive Session (outcome : L → Except ε V) (nil : Except ε V) :
    Outcomes K V ε → List (Reading K V ε L σ) → Outcomes K V ε → Prop where
  | nil (tables : Outcomes K V ε) : Session outcome nil tables [] tables
  | cons {tables later after : Outcomes K V ε} {request : Request K V L σ}
      {reply : Reply ε request} {log : List (Reading K V ε L σ)} :
      perform outcome nil tables request = some (reply, later) →
      Kept tables request →
      Session outcome nil later log after →
      Session outcome nil tables (⟨request, reply⟩ :: log) after

/-- The reply is an error. -/
def Failed : Reading K V ε L σ → Prop
  | ⟨.get _ _, reply⟩ => ∃ error, reply = .error error
  | ⟨.set _ _ _, reply⟩ => ∃ error, reply = .error error
  | ⟨.has _ _, reply⟩ => ∃ error, reply = .error error
  | ⟨.del _ _, reply⟩ => ∃ error, reply = .error error
  | ⟨.keys _, reply⟩ => ∃ error, reply = .error error
  | ⟨.entries _, reply⟩ => ∃ error, reply = .error error
  | ⟨.len _, reply⟩ => ∃ error, reply = .error error
  | ⟨.clear _, reply⟩ => ∃ error, reply = .error error
  | _ => False

end Reference

namespace HashTable

variable [LinearOrder K]
variable (inner : List (K × V)) (key : K)

/-- `HashTable::with_entries`. -/
def withEntries (entries : List (K × V)) : List (K × V) :=
  Entries.collect entries

/-- `get`. -/
def get (nil : Except ε V) : Except ε V :=
  match Entries.find inner key with
  | some value => .ok value
  | none => nil

/-- `set`. -/
def set (value : V) : Except ε Unit × List (K × V) :=
  (.ok (), Entries.insert inner key value)

/-- `has`. -/
def has : Except ε Bool :=
  .ok (Entries.find inner key).isSome

/-- `del`. -/
def del (nil : Except ε V) : Except ε V × List (K × V) :=
  match Entries.find inner key with
  | some value => (.ok value, Entries.remove inner key)
  | none => (nil, inner)

/-- `keys`. -/
def keys : Except ε (List K) :=
  .ok ((inner.map Prod.fst).mergeSort fun left right => left ≤ right)

/-- `entries`. -/
def entries : Except ε (List (K × V)) :=
  .ok (sorted inner)

/-- `len`. -/
def len : Except ε Nat :=
  .ok inner.length

/-- `clear`. -/
def clear : Except ε Unit × List (K × V) :=
  (.ok (), [])

/-- A request to hash tables, with the values of loaders for the loaders. -/
def perform (value : L → V) (nil : Except ε V) (tables : List (List (K × V))) :
    (request : Request K V L σ) →
      Option (Reply ε request × List (List (K × V)))
  | .withLoaders pairs =>
      some (tables.length,
        tables ++ [withEntries (Entries.withValues value pairs)])
  | .withEntries entries =>
      some (tables.length, tables ++ [withEntries entries])
  | .clone name => do
      let inner ← tables[name]?
      return (tables.length, tables ++ [inner])
  | .putLazy name key loader => do
      let inner ← tables[name]?
      let (_, inner) : Except ε Unit × _ := set inner key (value loader)
      return ((), tables.set name inner)
  | .get name key => do
      let inner ← tables[name]?
      return (get inner key nil, tables)
  | .set name key value => do
      let inner ← tables[name]?
      let (reply, inner) := set inner key value
      return (reply, tables.set name inner)
  | .has name key => do
      let inner ← tables[name]?
      return (has inner key, tables)
  | .del name key => do
      let inner ← tables[name]?
      let (reply, inner) := del inner key nil
      return (reply, tables.set name inner)
  | .keys name => do
      let inner ← tables[name]?
      return (keys inner, tables)
  | .entries name => do
      let inner ← tables[name]?
      return (entries inner, tables)
  | .len name => do
      let inner ← tables[name]?
      return (len inner, tables)
  | .clear name => do
      let _ ← tables[name]?
      let (reply, inner) := clear
      return (reply, tables.set name inner)
  | .outside _ => none

/-- A sequence of requests with the replies of hash tables. -/
inductive Session (value : L → V) (nil : Except ε V) :
    List (List (K × V)) → List (Reading K V ε L σ) → List (List (K × V)) →
      Prop where
  | nil (tables : List (List (K × V))) : Session value nil tables [] tables
  | cons {tables later after : List (List (K × V))}
      {request : Request K V L σ} {reply : Reply ε request}
      {log : List (Reading K V ε L σ)} :
      perform value nil tables request = some (reply, later) →
      Session value nil later log after →
      Session value nil tables (⟨request, reply⟩ :: log) after

end HashTable

/-- A program that makes requests one after the other. -/
def ask : List (Request K V L σ) →
    (List (Reading K V ε L σ) → Code K V ε L σ) → Code K V ε L σ
  | [], next => next []
  | request :: rest, next =>
      .call request fun reply => ask rest fun log =>
        next (⟨request, reply⟩ :: log)

/-- Code that gives a result whatever it sees outside of the tables. -/
inductive Gives (result : Except ε V) : Code K V ε L σ → Prop where
  | ret (value : V) : result = .ok value → Gives result (.ret value)
  | fail (error : ε) : result = .error error → Gives result (.fail error)
  | outside (change : σ → σ) (next : σ → Code K V ε L σ) :
      (∀ seen, Gives result (next seen)) →
      Gives result (.call (.outside change) next)

section Meaning

variable (outcome : L → Except ε V)

/-- What an entry gives when it is forced. -/
def LazyEntry.meaning (entry : LazyEntry V ε L) : Except ε V :=
  entry.cache.getD <|
    match entry.loader with
    | .given loader => outcome loader
    | .constant value => .ok value

/-- What an entry by reference gives. -/
def meaning (nil : Except ε V) (heap : List (LazyEntry V ε L)) (name : Nat) :
    Except ε V :=
  (heap[name]?.map fun entry => entry.meaning outcome).getD nil

/-- The maps of outcomes that the tables show. -/
def Shared.outcomes (nil : Except ε V) (shared : Shared K V ε L σ) :
    Outcomes K V ε :=
  shared.tables.map fun table =>
    Entries.withValues (meaning outcome nil shared.heap) table.entries

end Meaning

/-- Nobody holds a lock, and the entries are there. -/
structure Shared.Quiet (shared : Shared K V ε L σ) : Prop where
  unlocked : ∀ table ∈ shared.tables,
    table.readers = 0 ∧ table.writing = false
  placed : ∀ table ∈ shared.tables, ∀ entry ∈ table.entries,
    entry.2 < shared.heap.length

section Still

variable {outcome : L → Except ε V} {nil : Except ε V}
variable {shared after : Shared K V ε L σ}

/-- The tables are the same, and every entry gives what it gave. -/
structure Shared.Still (outcome : L → Except ε V) (nil : Except ε V)
    (shared after : Shared K V ε L σ) : Prop where
  tables : after.tables = shared.tables
  length : after.heap.length = shared.heap.length
  meaning : ∀ name, meaning outcome nil after.heap name =
    meaning outcome nil shared.heap name

theorem Shared.Still.refl
    (shared : Shared K V ε L σ) :
    shared.Still outcome nil shared :=
  ⟨rfl, rfl, fun _ => rfl⟩

theorem Shared.Still.trans
    {middle : Shared K V ε L σ}
    (first : shared.Still outcome nil middle)
    (second : middle.Still outcome nil after) :
    shared.Still outcome nil after :=
  ⟨second.tables.trans first.tables, second.length.trans first.length,
    fun name => (second.meaning name).trans (first.meaning name)⟩

/-- Setting a cache to what the entry gives changes nothing that shows. -/
theorem Shared.Still.cached
    {name : Nat} {entry : LazyEntry V ε L}
    (placed : shared.heap[name]? = some entry) (outside : σ) :
    shared.Still outcome nil {
      heap := shared.heap.modify name fun found =>
        found.cached (entry.meaning outcome)
      tables := shared.tables
      outside := outside } := by
  refine ⟨rfl, List.length_modify .., fun other => ?_⟩
  have same : (entry.cached (entry.meaning outcome)).meaning outcome =
      entry.meaning outcome := by
    cases cache : entry.cache with
    | none => simp [LazyEntry.cached, LazyEntry.meaning, cache]
    | some result => simp [LazyEntry.cached, LazyEntry.meaning, cache]
  simp only [LazyTables.meaning, List.getElem?_modify]
  by_cases target : name = other
  · subst target
    simp [placed, same]
  · simp [target]

/-- The tables are at rest and show maps of outcomes. -/
structure Shared.Shows (outcome : L → Except ε V) (nil : Except ε V)
    (shared : Shared K V ε L σ) (tables : Outcomes K V ε) : Prop where
  quiet : shared.Quiet
  outcomes : shared.outcomes outcome nil = tables

variable {tables : Outcomes K V ε} {name : Nat}

/-- What gives what it gave shows what it showed. -/
theorem Shared.Shows.still
    (shows : shared.Shows outcome nil tables)
    (still : shared.Still outcome nil after) :
    after.Shows outcome nil tables := by
  obtain ⟨⟨unlocked, placed⟩, rfl⟩ := shows
  refine ⟨⟨?_, ?_⟩, ?_⟩
  · rw [still.tables]
    exact unlocked
  · rw [still.tables, still.length]
    exact placed
  · have same : LazyTables.meaning outcome nil after.heap =
        LazyTables.meaning outcome nil shared.heap :=
      funext still.meaning
    rw [Shared.outcomes, same, still.tables]
    rfl

/-- A table that shows outcomes is at rest. -/
theorem Shared.Shows.table
    {found : List (K × Except ε V)}
    (shows : shared.Shows outcome nil tables)
    (present : tables[name]? = some found) :
    ∃ table, shared.tables[name]? = some table ∧
      shared.read name = some table ∧ shared.write name = some table ∧
      table.readers = 0 ∧ table.writing = false ∧
      found = Entries.withValues (meaning outcome nil shared.heap)
        table.entries := by
  obtain ⟨⟨unlocked, _⟩, rfl⟩ := shows
  rw [Shared.outcomes, List.getElem?_map, Option.map_eq_some_iff] at present
  obtain ⟨table, there, rfl⟩ := present
  obtain ⟨readers, writing⟩ := unlocked table (List.mem_of_getElem? there)
  exact ⟨table, there, by simp [Shared.read, there, writing],
    by simp [Shared.write, there, writing, readers], readers, writing, rfl⟩

/-- Other entries in a table at rest show other outcomes. -/
theorem Shared.Shows.place
    (shows : shared.Shows outcome nil tables) (name : Nat)
    {entries : List (K × Nat)}
    (placed : ∀ entry ∈ entries, entry.2 < shared.heap.length) :
    (shared.place name ⟨entries, 0, false⟩).Shows outcome nil
      (tables.set name (Entries.withValues (meaning outcome nil shared.heap)
        entries)) := by
  obtain ⟨⟨unlocked, before⟩, rfl⟩ := shows
  refine ⟨⟨fun table member => ?_, fun table member => ?_⟩, ?_⟩
  · rcases List.mem_or_eq_of_mem_set member with old | rfl
    · exact unlocked table old
    · exact ⟨rfl, rfl⟩
  · rcases List.mem_or_eq_of_mem_set member with old | rfl
    · exact before table old
    · exact placed
  · simp [Shared.outcomes, Shared.place, List.map_set]

/-- New entries do not change what old ones give. -/
theorem withValues_install
    {entries : List (K × Nat)}
    (placed : ∀ entry ∈ entries, entry.2 < shared.heap.length)
    (more : List (LazyEntry V ε L)) :
    Entries.withValues (meaning outcome nil (shared.install more).heap)
        entries =
      Entries.withValues (meaning outcome nil shared.heap) entries := by
  refine List.map_congr_left fun entry within => ?_
  have before := placed entry within
  simp [LazyTables.meaning, Shared.install, List.getElem?_append_left before]

/-- New entries change nothing that shows. -/
theorem Shared.Shows.install
    (shows : shared.Shows outcome nil tables)
    (more : List (LazyEntry V ε L)) :
    (shared.install more).Shows outcome nil tables := by
  obtain ⟨⟨unlocked, placed⟩, rfl⟩ := shows
  refine ⟨⟨unlocked, fun table member entry within => ?_⟩, ?_⟩
  · have before := placed table member entry within
    simp only [Shared.install, List.length_append]
    omega
  · exact List.map_congr_left fun table member =>
      withValues_install (placed table member) more

/-- A new table shows the outcomes of its entries. -/
theorem Shared.Shows.create
    (shows : shared.Shows outcome nil tables)
    {entries : List (K × Nat)}
    (placed : ∀ entry ∈ entries, entry.2 < shared.heap.length) :
    (shared.create entries).Shows outcome nil
      (tables ++ [Entries.withValues (meaning outcome nil shared.heap)
        entries]) := by
  obtain ⟨⟨unlocked, before⟩, rfl⟩ := shows
  refine ⟨⟨fun table member => ?_, fun table member => ?_⟩, ?_⟩
  · rcases List.mem_append.mp member with old | new
    · exact unlocked table old
    · rw [List.mem_singleton.mp new]
      exact ⟨rfl, rfl⟩
  · rcases List.mem_append.mp member with old | new
    · exact before table old
    · rw [List.mem_singleton.mp new]
      exact placed
  · simp [Shared.outcomes, Shared.create]

end Still

section Moves

variable [LinearOrder K]
variable (loaders : L → Nat → Code K V ε L σ) (nil : Except ε V)

/-- A step of the only caller. -/
def Moves (before after : Next K V ε L σ) : Prop :=
  ∃ events, advance loaders nil 0 before.1 before.2 = some (after, events)

/-- Steps of the only caller. -/
abbrev Reaches (before after : Next K V ε L σ) : Prop :=
  Relation.ReflTransGen (Moves loaders nil) before after

variable {loaders nil}
variable {outcome : L → Except ε V}
variable {shared after : Shared K V ε L σ} {stack : List (Frame K V ε L σ)}

/-- One step of the only caller. -/
theorem Moves.reaches
    {before after : Next K V ε L σ} (events : List (Event V ε))
    (moved : advance loaders nil 0 before.1 before.2 = some (after, events)) :
    Reaches loaders nil before after :=
  .single ⟨events, moved⟩

/-- Code that gives a result returns it to the force that waits. -/
theorem Gives.reaches
    {result : Except ε V} {code : Code K V ε L σ}
    (gives : Gives result code) (frame : Frame K V ε L σ)
    (shared : Shared K V ε L σ) :
    ∃ outside, Reaches loaders nil (shared, .run code (frame :: stack))
      ({ shared with outside := outside },
        .store frame.entry result frame.wait stack) := by
  induction gives generalizing shared with
  | ret value same =>
      subst same
      exact ⟨shared.outside, Moves.reaches _ rfl⟩
  | fail error same =>
      subst same
      exact ⟨shared.outside, Moves.reaches _ rfl⟩
  | outside change next _ inductionHypothesis =>
      obtain ⟨outside, reaches⟩ := inductionHypothesis shared.outside
        { shared with outside := change shared.outside }
      have moved : Reaches loaders nil
          (shared, .run (.call (.outside change) next) (frame :: stack))
          ({ shared with outside := change shared.outside },
            .run (next shared.outside) (frame :: stack)) :=
        Moves.reaches _ rfl
      exact ⟨outside, moved.trans reaches⟩

/-- A force gives what the entry means. -/
theorem force_reaches
    (gives : ∀ loader, Gives (outcome loader) (loaders loader 0))
    {name : Nat} (placed : name < shared.heap.length)
    (wait : Wait K V ε L σ) :
    ∃ after, shared.Still outcome nil after ∧
      Reaches loaders nil (shared, .force name wait stack)
        (receive stack after (meaning outcome nil shared.heap name) wait) := by
  obtain ⟨entry, found⟩ : ∃ entry, shared.heap[name]? = some entry :=
    ⟨_, List.getElem?_eq_getElem placed⟩
  have means : meaning outcome nil shared.heap name = entry.meaning outcome := by
    rw [meaning, found]
    rfl
  rw [means]
  cases cache : entry.cache with
  | some result =>
      have hit : entry.meaning outcome = result := by
        rw [LazyEntry.meaning, cache, Option.getD_some]
      refine ⟨shared, .refl shared, Moves.reaches [.forced name result] ?_⟩
      simp [advance, found, cache, hit]
  | none =>
      have code : Gives (entry.meaning outcome) (entry.loader.code loaders 0) := by
        rw [LazyEntry.meaning, cache, Option.getD_none]
        cases entry.loader with
        | given loader => exact gives loader
        | constant value => exact .ret value rfl
      have missed : Reaches loaders nil (shared, .force name wait stack)
          (shared, .load name wait stack) := by
        refine Moves.reaches [.missed name] ?_
        simp [advance, found, cache]
      have ran : Reaches loaders nil (shared, .load name wait stack)
          (shared, .run (entry.loader.code loaders 0)
            (⟨name, wait⟩ :: stack)) := by
        refine Moves.reaches [.ran name] ?_
        simp [advance, found]
      obtain ⟨outside, returned⟩ : ∃ outside, Reaches loaders nil
          (shared, .run (entry.loader.code loaders 0) (⟨name, wait⟩ :: stack))
          ({ shared with outside := outside },
            .store name (entry.meaning outcome) wait stack) :=
        code.reaches ⟨name, wait⟩ shared
      refine ⟨_, .cached found outside, ?_⟩
      refine missed.trans (ran.trans (returned.trans ?_))
      exact Moves.reaches [.forced name (entry.meaning outcome)] rfl

section Requests

variable {tables later : Outcomes K V ε} {name : Nat} {key : K}

/-- New entries in a row under keys show the outcomes of the pairs. -/
theorem collect_shows
    {α : Type} (heap : List (LazyEntry V ε L)) (pairs : List (K × α))
    (new : α → LazyEntry V ε L) :
    Entries.withValues
        (meaning outcome nil (heap ++ pairs.map fun pair => new pair.2))
        (collect heap.length (pairs.map Prod.fst)) =
      Entries.collect (Entries.withValues
        (fun item => (new item).meaning outcome) pairs) := by
  rw [collect, ← Entries.collect_withValues]
  congr 1
  refine List.ext_getElem (by simp) fun index inside within => ?_
  have bound : index < pairs.length := by simpa using within
  simp [meaning, bound]

theorem collect_placed
    {α : Type} (heap : List (LazyEntry V ε L)) (pairs : List (K × α))
    (new : α → LazyEntry V ε L) :
    ∀ entry ∈ collect heap.length (pairs.map Prod.fst),
      entry.2 < (heap ++ pairs.map fun pair => new pair.2).length := by
  intro entry member
  have numbered := Entries.mem_collect member
  obtain ⟨_, inside, _⟩ := List.mem_zipIdx numbered
  simp only [List.length_append, List.length_map] at inside ⊢
  omega

/-- A new entry under a key shows its outcome. -/
theorem putEntry_reaches
    {found : List (K × Except ε V)}
    (shows : shared.Shows outcome nil tables)
    (present : tables[name]? = some found)
    (entry : LazyEntry V ε L) (code : Code K V ε L σ) :
    ∃ after, after.Shows outcome nil
        (tables.set name (Entries.insert found key (entry.meaning outcome))) ∧
      putEntry stack shared name key entry code =
        some (after, .run code stack) := by
  obtain ⟨table, there, _, writable, readers, writing, rfl⟩ :=
    shows.table present
  have installed := shows.install [entry]
  have placed : ∀ pair ∈ Entries.insert table.entries key shared.heap.length,
      pair.2 < (shared.install [entry]).heap.length := by
    intro pair member
    have grown : (shared.install [entry]).heap.length =
        shared.heap.length + 1 := List.length_append
    rcases Entries.mem_insert member with rfl | before
    · rw [grown]
      exact Nat.lt_succ_self _
    · rw [grown]
      exact Nat.lt_succ_of_lt (shows.quiet.placed table
        (List.mem_of_getElem? there) pair before)
  have before := shows.quiet.placed table (List.mem_of_getElem? there)
  have fresh : meaning outcome nil (shared.install [entry]).heap
      shared.heap.length = entry.meaning outcome := by
    simp [meaning, Shared.install]
  have shown := installed.place name placed
  rw [← Entries.insert_withValues, withValues_install before, fresh] at shown
  refine ⟨_, shown, ?_⟩
  obtain ⟨entries, _, _⟩ := table
  cases readers
  cases writing
  rw [putEntry, writable]
  rfl

/-- A request that is answered at once is one step. -/
theorem issue_reaches
    {request : Request K V L σ} {next : Reply ε request → Code K V ε L σ}
    {answered : Next K V ε L σ}
    (issued : issue stack shared nil request next = some answered) :
    Reaches loaders nil (shared, .run (.call request next) stack) answered := by
  refine Moves.reaches [] ?_
  simp [advance, issued]

theorem modify_set
    {α : Type} (items : List α) (index : Nat) (item : α) (change : α → α) :
    (items.set index item).modify index change =
      items.set index (change item) := by
  refine List.ext_getElem? fun other => ?_
  by_cases same : index = other
  · subst same
    by_cases inside : index < items.length
    · simp [inside]
    · simp [inside]
  · simp [same]

theorem set_same
    {α : Type} {items : List α} {index : Nat} {item : α}
    (found : items[index]? = some item) :
    items.set index item = items := by
  obtain ⟨inside, rfl⟩ := List.getElem?_eq_some_iff.mp found
  exact List.set_getElem_self inside

/-- A read forces the entry, and shows the same outcomes afterwards. -/
theorem get_reaches
    (gives : ∀ loader, Gives (outcome loader) (loaders loader 0))
    {found : List (K × Except ε V)}
    (shows : shared.Shows outcome nil tables)
    (present : tables[name]? = some found)
    (next : Except ε V → Code K V ε L σ) :
    ∃ after, after.Shows outcome nil tables ∧
      Reaches loaders nil (shared, .run (.call (.get name key) next) stack)
        (after, .run (next ((Entries.find found key).getD nil)) stack) := by
  obtain ⟨table, there, readable, _, readers, writing, rfl⟩ :=
    shows.table present
  rw [Entries.find_withValues]
  cases held : Entries.find table.entries key with
  | none =>
      refine ⟨shared, shows, issue_reaches ?_⟩
      simp [issue, get, readable, held]
  | some entry =>
      have placed : entry < shared.heap.length :=
        shows.quiet.placed table (List.mem_of_getElem? there) _
          (Entries.mem_of_find held)
      let reading := shared.place name
        { table with readers := table.readers + 1 }
      have issued : Reaches loaders nil
          (shared, .run (.call (.get name key) next) stack)
          (reading, .force entry (.get name next) stack) := by
        refine issue_reaches ?_
        simp [issue, get, readable, held, reading]
      obtain ⟨after, still, forced⟩ : ∃ after,
          reading.Still outcome nil after ∧
          Reaches loaders nil (reading, .force entry (.get name next) stack)
            (receive stack after (meaning outcome nil shared.heap entry)
              (.get name next)) := by
        have within : entry < reading.heap.length := placed
        exact force_reaches gives within _
      have released : shared.Still outcome nil (after.release name) := by
        refine ⟨?_, still.length, still.meaning⟩
        have tables : (after.release name).tables =
            (shared.tables.set name _).modify name _ :=
          congrArg (List.modify · name _) still.tables
        rw [tables, modify_set]
        exact set_same there
      exact ⟨_, shows.still released, issued.trans forced⟩

/-- A deletion whose outcome is no error removes the key. -/
theorem del_reaches
    (gives : ∀ loader, Gives (outcome loader) (loaders loader 0))
    {found : List (K × Except ε V)}
    (shows : shared.Shows outcome nil tables)
    (present : tables[name]? = some found)
    (kept : ∀ error, Entries.find found key ≠ some (.error error))
    (next : Except ε V → Code K V ε L σ) :
    ∃ after, after.Shows outcome nil
        (tables.set name (deleted nil found key).2) ∧
      Reaches loaders nil (shared, .run (.call (.del name key) next) stack)
        (after, .run (next (deleted nil found key).1) stack) := by
  obtain ⟨table, there, _, writable, readers, writing, rfl⟩ :=
    shows.table present
  have removed := Entries.remove_withValues
    (meaning outcome nil shared.heap) table.entries key
  have looked := Entries.find_withValues
    (meaning outcome nil shared.heap) table.entries key
  cases held : Entries.find table.entries key with
  | none =>
      rw [held] at looked
      have nothing : deleted nil (Entries.withValues
          (meaning outcome nil shared.heap) table.entries) key =
          (nil, Entries.withValues (meaning outcome nil shared.heap)
            table.entries) := by
        simp [deleted, looked]
      refine ⟨shared, ?_, issue_reaches ?_⟩
      · rw [nothing, set_same present]
        exact shows
      · simp [issue, del, writable, held, nothing]
  | some entry =>
      rw [held] at looked
      cases means : meaning outcome nil shared.heap entry with
      | error error =>
          rw [Option.map_some, means] at looked
          exact absurd looked (kept error)
      | ok value =>
      rw [Option.map_some, means] at looked
      have taken : deleted nil (Entries.withValues
          (meaning outcome nil shared.heap) table.entries) key =
          (.ok value, Entries.withValues (meaning outcome nil shared.heap)
            (Entries.remove table.entries key)) := by
        simp only [deleted, looked, removed]
      rw [taken]
      have placed : ∀ pair ∈ table.entries, pair.2 < shared.heap.length :=
        shows.quiet.placed table (List.mem_of_getElem? there)
      let rest : LazyTable K := ⟨Entries.remove table.entries key, 0, false⟩
      let deleting := shared.place name { rest with writing := true }
      have issued : Reaches loaders nil
          (shared, .run (.call (.del name key) next) stack)
          (deleting, .force entry (.del name next) stack) := by
        refine issue_reaches ?_
        simp [issue, del, writable, held, deleting, rest, readers]
      obtain ⟨after, still, forced⟩ : ∃ after,
          deleting.Still outcome nil after ∧
          Reaches loaders nil (deleting, .force entry (.del name next) stack)
            (receive stack after (meaning outcome nil shared.heap entry)
              (.del name next)) := by
        have within : entry < deleting.heap.length :=
          placed _ (Entries.mem_of_find held)
        exact force_reaches gives within _
      have unlocked : (shared.place name rest).Still outcome nil
          (after.unlock name) := by
        refine ⟨?_, still.length, still.meaning⟩
        have tables : (after.unlock name).tables =
            (shared.tables.set name _).modify name _ :=
          congrArg (List.modify · name _) still.tables
        rw [tables, modify_set]
        rfl
      have fewer : ∀ pair ∈ Entries.remove table.entries key,
          pair.2 < shared.heap.length :=
        fun pair member => placed pair (List.mem_filter.mp member).1
      have shown := shows.place name fewer
      rw [means] at forced
      exact ⟨_, shown.still unlocked, issued.trans forced⟩

/-- A listing forces its snapshot in order, up to the first failure. -/
theorem listing_reaches
    (gives : ∀ loader, Gives (outcome loader) (loaders loader 0))
    (snapshot : List (K × Nat))
    (placed : ∀ entry ∈ snapshot, entry.2 < shared.heap.length)
    (out : List (K × V)) (next : Except ε (List (K × V)) → Code K V ε L σ) :
    ∃ after, shared.Still outcome nil after ∧
      Reaches loaders nil (shared, listing stack snapshot out next)
        (after, .run (next
          ((gathered (Entries.withValues (meaning outcome nil shared.heap)
            snapshot)).map (out ++ ·))) stack) := by
  induction snapshot generalizing shared out with
  | nil =>
      have whole : (gathered (Entries.withValues
          (meaning outcome nil shared.heap) ([] : List (K × Nat)))).map
            (out ++ ·) = .ok out := by
        exact congrArg Except.ok (List.append_nil out)
      rw [whole]
      exact ⟨shared, .refl shared, .refl⟩
  | cons head rest inductionHypothesis =>
      obtain ⟨key, entry⟩ := head
      obtain ⟨middle, still, forced⟩ : ∃ middle,
          shared.Still outcome nil middle ∧
          Reaches loaders nil
            (shared, .force entry (.entries key rest out next) stack)
            (receive stack middle (meaning outcome nil shared.heap entry)
              (.entries key rest out next)) :=
        force_reaches gives (placed _ List.mem_cons_self) _
      cases means : meaning outcome nil shared.heap entry with
      | error error =>
          rw [means] at forced
          have stopped : gathered (Entries.withValues
              (meaning outcome nil shared.heap) ((key, entry) :: rest)) =
                .error error := by
            rw [Entries.withValues, List.map_cons, means]
            rfl
          rw [stopped]
          exact ⟨middle, still, forced⟩
      | ok value =>
          rw [means] at forced
          have later : ∀ entry ∈ rest, entry.2 < middle.heap.length := by
            intro entry member
            rw [still.length]
            exact placed entry (List.mem_cons_of_mem _ member)
          obtain ⟨after, unchanged, listed⟩ :=
            inductionHypothesis later (out ++ [(key, value)])
          have same : meaning outcome nil middle.heap =
              meaning outcome nil shared.heap := funext still.meaning
          rw [same] at listed
          have whole : (gathered (Entries.withValues
              (meaning outcome nil shared.heap) ((key, entry) :: rest))).map
                (out ++ ·) =
              (gathered (Entries.withValues
                (meaning outcome nil shared.heap) rest)).map
                  (out ++ [(key, value)] ++ ·) := by
            rw [Entries.withValues, List.map_cons, means, gathered]
            cases gathered (rest.map fun entry =>
                (entry.1, meaning outcome nil shared.heap entry.2)) with
            | ok values => simp [Except.map]
            | error error => rfl
          rw [whole]
          exact ⟨after, still.trans unchanged, forced.trans listed⟩

theorem sorted_withValues
    {α β : Type} (change : α → β) (entries : List (K × α)) :
    sorted (Entries.withValues change entries) =
      Entries.withValues change (sorted entries) := by
  have ordered : ∀ first ∈ entries, ∀ second ∈ entries,
      decide (first.1 ≤ second.1) =
        decide ((first.1, change first.2).1 ≤ (second.1, change second.2).1) :=
    fun _ _ _ _ => rfl
  exact (List.map_mergeSort
    (f := fun entry : K × α => (entry.1, change entry.2)) ordered).symm

/-- A request shows what it does to the maps of outcomes. -/
theorem serve
    (gives : ∀ loader, Gives (outcome loader) (loaders loader 0))
    (shows : shared.Shows outcome nil tables)
    {request : Request K V L σ} {reply : Reply ε request}
    (performed : perform outcome nil tables request = some (reply, later))
    (kept : Kept tables request)
    (next : Reply ε request → Code K V ε L σ) :
    ∃ after, after.Shows outcome nil later ∧
      Reaches loaders nil (shared, .run (.call request next) stack)
        (after, .run (next reply) stack) := by
  have count : shared.tables.length = tables.length := by
    rw [← shows.outcomes, Shared.outcomes, List.length_map]
  cases request with
  | withLoaders pairs =>
      cases performed
      have shown := (shows.install (pairs.map fun pair =>
        .promised pair.2)).create (collect_placed shared.heap pairs .promised)
      have means : Entries.withValues (meaning outcome nil (shared.install
          (pairs.map fun pair => .promised pair.2)).heap)
            (collect shared.heap.length (pairs.map Prod.fst)) =
          Entries.collect (Entries.withValues outcome pairs) :=
        collect_shows shared.heap pairs .promised
      rw [means] at shown
      refine ⟨_, shown, issue_reaches ?_⟩
      rw [issue, withLoaders, count]
  | withEntries entries =>
      cases performed
      have shown := (shows.install (entries.map fun entry =>
        .eager entry.2)).create (collect_placed shared.heap entries .eager)
      have means : Entries.withValues (meaning outcome nil (shared.install
          (entries.map fun entry => .eager entry.2)).heap)
            (collect shared.heap.length (entries.map Prod.fst)) =
          Entries.collect (Entries.withValues .ok entries) :=
        collect_shows shared.heap entries .eager
      rw [means] at shown
      refine ⟨_, shown, issue_reaches ?_⟩
      rw [issue, withEntries, count]
  | clone name =>
      obtain ⟨found, present, same⟩ := Option.bind_eq_some_iff.mp performed
      cases same
      obtain ⟨table, there, readable, _, _, _, rfl⟩ := shows.table present
      have shown := shows.create (shows.quiet.placed table
        (List.mem_of_getElem? there))
      refine ⟨_, shown, issue_reaches ?_⟩
      simp [issue, clone, readable, count]
  | putLazy name key loader =>
      obtain ⟨found, present, same⟩ := Option.bind_eq_some_iff.mp performed
      cases same
      obtain ⟨after, shown, put⟩ :=
        putEntry_reaches shows present (.promised loader) (next ())
      exact ⟨after, shown, issue_reaches put⟩
  | get name key =>
      obtain ⟨found, present, same⟩ := Option.bind_eq_some_iff.mp performed
      cases same
      exact get_reaches gives shows present next
  | set name key value =>
      obtain ⟨found, present, same⟩ := Option.bind_eq_some_iff.mp performed
      cases same
      obtain ⟨after, shown, put⟩ :=
        putEntry_reaches shows present (.eager value) (next (.ok ()))
      exact ⟨after, shown, issue_reaches put⟩
  | has name key =>
      obtain ⟨found, present, same⟩ := Option.bind_eq_some_iff.mp performed
      cases same
      obtain ⟨table, there, readable, _, _, _, rfl⟩ := shows.table present
      refine ⟨shared, shows, issue_reaches ?_⟩
      simp [issue, has, readable, Entries.find_withValues]
  | del name key =>
      obtain ⟨found, present, same⟩ := Option.bind_eq_some_iff.mp performed
      cases same
      exact del_reaches gives shows present
        (fun error => kept name key found error rfl present) next
  | keys name =>
      obtain ⟨found, present, same⟩ := Option.bind_eq_some_iff.mp performed
      cases same
      obtain ⟨table, there, readable, _, _, _, rfl⟩ := shows.table present
      refine ⟨shared, shows, issue_reaches ?_⟩
      simp [issue, keys, readable, Function.comp_def]
  | entries name =>
      obtain ⟨found, present, same⟩ := Option.bind_eq_some_iff.mp performed
      cases same
      obtain ⟨table, there, readable, _, _, _, rfl⟩ := shows.table present
      have placed : ∀ entry ∈ sorted table.entries,
          entry.2 < shared.heap.length := fun entry member =>
        shows.quiet.placed table (List.mem_of_getElem? there) entry
          ((List.mergeSort_perm _ _).mem_iff.mp member)
      have issued : Reaches loaders nil
          (shared, .run (.call (.entries name) next) stack)
          (shared, listing stack (sorted table.entries) [] next) := by
        refine issue_reaches ?_
        simp [issue, entries, readable]
      obtain ⟨after, still, forced⟩ : ∃ after,
          shared.Still outcome nil after ∧
          Reaches loaders nil
            (shared, listing stack (sorted table.entries) [] next)
            (after, .run (next (listed (Entries.withValues
              (meaning outcome nil shared.heap) table.entries))) stack) := by
        have whole : (gathered (Entries.withValues
            (meaning outcome nil shared.heap) (sorted table.entries))).map
              ([] ++ ·) =
            listed (Entries.withValues (meaning outcome nil shared.heap)
              table.entries) := by
          rw [listed, sorted_withValues]
          cases gathered (Entries.withValues (meaning outcome nil shared.heap)
              (sorted table.entries)) <;> rfl
        rw [← whole]
        exact listing_reaches gives _ placed [] next
      exact ⟨after, shows.still still, issued.trans forced⟩
  | len name =>
      obtain ⟨found, present, same⟩ := Option.bind_eq_some_iff.mp performed
      cases same
      obtain ⟨table, there, readable, _, _, _, rfl⟩ := shows.table present
      refine ⟨shared, shows, issue_reaches ?_⟩
      simp [issue, len, readable]
  | clear name =>
      obtain ⟨found, present, same⟩ := Option.bind_eq_some_iff.mp performed
      cases same
      obtain ⟨table, there, _, writable, readers, writing, rfl⟩ :=
        shows.table present
      have shown : (shared.place name ⟨[], 0, false⟩).Shows outcome nil
          (tables.set name []) :=
        shows.place name fun entry member => by cases member
      refine ⟨_, shown, issue_reaches ?_⟩
      simp [issue, clear, writable, readers, writing]
  | outside change => cases performed

/-- A sequence of requests gets the replies of the maps of outcomes. -/
theorem session_reaches
    (gives : ∀ loader, Gives (outcome loader) (loaders loader 0))
    {log : List (Reading K V ε L σ)}
    (session : Session outcome nil tables log later)
    (shows : shared.Shows outcome nil tables)
    (next : List (Reading K V ε L σ) → Code K V ε L σ) :
    ∃ after, after.Shows outcome nil later ∧
      Reaches loaders nil
        (shared, .run (ask (log.map Sigma.fst) next) stack)
        (after, .run (next log) stack) := by
  induction session generalizing shared next with
  | nil tables => exact ⟨shared, shows, .refl⟩
  | cons performed kept _ inductionHypothesis =>
      obtain ⟨middle, shown, served⟩ := serve gives shows performed kept _
      obtain ⟨after, last, rest⟩ := inductionHypothesis shown _
      exact ⟨after, last, served.trans rest⟩

/-- What fails changes no map. -/
theorem perform_failed
    {request : Request K V L σ} {reply : Reply ε request}
    (performed : perform outcome nil tables request = some (reply, later))
    (failed : Failed ⟨request, reply⟩) :
    later = tables := by
  cases request with
  | withLoaders pairs => cases failed
  | withEntries entries => cases failed
  | clone name => cases failed
  | putLazy name key loader => cases failed
  | outside change => cases failed
  | get name key =>
      obtain ⟨found, _, same⟩ := Option.bind_eq_some_iff.mp performed
      cases same
      rfl
  | set name key value =>
      obtain ⟨found, _, same⟩ := Option.bind_eq_some_iff.mp performed
      obtain ⟨error, rfl⟩ := failed
      cases same
  | has name key =>
      obtain ⟨found, _, same⟩ := Option.bind_eq_some_iff.mp performed
      cases same
      rfl
  | del name key =>
      obtain ⟨found, present, same⟩ := Option.bind_eq_some_iff.mp performed
      obtain ⟨error, rfl⟩ := failed
      cases outcome : Entries.find found key with
      | none =>
          simp only [deleted, outcome] at same
          cases same
          exact set_same present
      | some result =>
          cases result with
          | ok value =>
              simp only [deleted, outcome] at same
              cases same
          | error other =>
              simp only [deleted, outcome] at same
              cases same
              exact set_same present
  | keys name =>
      obtain ⟨found, _, same⟩ := Option.bind_eq_some_iff.mp performed
      cases same
      rfl
  | entries name =>
      obtain ⟨found, _, same⟩ := Option.bind_eq_some_iff.mp performed
      cases same
      rfl
  | len name =>
      obtain ⟨found, _, same⟩ := Option.bind_eq_some_iff.mp performed
      cases same
      rfl
  | clear name =>
      obtain ⟨found, _, same⟩ := Option.bind_eq_some_iff.mp performed
      obtain ⟨error, rfl⟩ := failed
      cases same

/-- A sequence without a request that failed gets the same replies. -/
theorem Session.without_failed
    {before rest : List (Reading K V ε L σ)} {failed : Reading K V ε L σ}
    (session : Session outcome nil tables (before ++ failed :: rest) later)
    (fails : Failed failed) :
    Session outcome nil tables (before ++ rest) later := by
  induction before generalizing tables with
  | nil =>
      cases session with
      | cons performed _ others =>
          obtain rfl := perform_failed performed fails
          exact others
  | cons head before inductionHypothesis =>
      cases session with
      | cons performed kept others =>
          exact .cons performed kept (inductionHypothesis others)

end Requests

section Hash

variable {value : L → V} {hashes : List (List (K × V))}

/-- Hash tables as maps of outcomes. -/
abbrev successes (hashes : List (List (K × V))) : Outcomes K V ε :=
  hashes.map (Entries.withValues .ok)

omit [LinearOrder K] in
theorem gathered_ok
    (entries : List (K × V)) :
    gathered (Entries.withValues (Except.ok : V → Except ε V) entries) =
      .ok entries := by
  induction entries with
  | nil => rfl
  | cons head rest inductionHypothesis =>
      rw [Entries.withValues, List.map_cons, gathered, inductionHypothesis]
      rfl

theorem deleted_hash
    (inner : List (K × V)) (key : K) :
    deleted nil (Entries.withValues .ok inner) key =
      ((HashTable.del inner key nil).1,
        Entries.withValues .ok (HashTable.del inner key nil).2) := by
  have removed := Entries.remove_withValues
    (Except.ok : V → Except ε V) inner key
  have looked := Entries.find_withValues
    (Except.ok : V → Except ε V) inner key
  cases held : Entries.find inner key with
  | none => simp [deleted, HashTable.del, looked, held]
  | some value => simp [deleted, HashTable.del, looked, held, removed]

/-- When all loaders succeed, the maps of outcomes are hash tables. -/
theorem perform_hash
    (request : Request K V L σ) :
    perform (fun loader => .ok (value loader)) nil (successes hashes) request =
      (HashTable.perform value nil hashes request).map fun answer =>
        (answer.1, successes answer.2) := by
  have inserted (inner : List (K × V)) :=
    Entries.insert_withValues (Except.ok : V → Except ε V) inner
  have collected (entries : List (K × V)) :=
    Entries.collect_withValues (Except.ok : V → Except ε V) entries
  cases request with
  | withLoaders pairs =>
      have collects := collected (Entries.withValues value pairs)
      rw [Entries.withValues, List.map_map] at collects
      simp [perform, HashTable.perform, HashTable.withEntries, ← collects,
        Function.comp_def]
  | withEntries entries =>
      simp [perform, HashTable.perform, HashTable.withEntries, collected]
  | clone name =>
      cases found : hashes[name]? <;>
        simp [perform, HashTable.perform, found]
  | putLazy name key loader =>
      cases found : hashes[name]? <;>
        simp [perform, HashTable.perform, HashTable.set, found, inserted,
          List.map_set]
  | outside change => rfl
  | get name key =>
      cases found : hashes[name]? with
      | none => simp [perform, HashTable.perform, found]
      | some inner =>
          cases held : Entries.find inner key <;>
            simp [perform, HashTable.perform, HashTable.get, found,
              Entries.find_withValues, held]
  | set name key value =>
      cases found : hashes[name]? <;>
        simp [perform, HashTable.perform, HashTable.set, found, inserted,
          List.map_set]
  | has name key =>
      cases found : hashes[name]? <;>
        simp [perform, HashTable.perform, HashTable.has, found,
          Entries.find_withValues]
  | del name key =>
      cases found : hashes[name]? <;>
        simp [perform, HashTable.perform, deleted_hash, found, List.map_set]
  | keys name =>
      cases found : hashes[name]? <;>
        simp [perform, HashTable.perform, HashTable.keys, found,
          Function.comp_def]
  | entries name =>
      cases found : hashes[name]? <;>
        simp [perform, HashTable.perform, HashTable.entries, listed,
          sorted_withValues, gathered_ok, found]
  | len name =>
      cases found : hashes[name]? <;>
        simp [perform, HashTable.perform, HashTable.len, found]
  | clear name =>
      cases found : hashes[name]? <;>
        simp [perform, HashTable.perform, HashTable.clear, found, List.map_set]

/-- A session of hash tables is one of maps of outcomes. -/
theorem HashTable.Session.outcomes
    {log : List (Reading K V ε L σ)} {after : List (List (K × V))}
    (session : HashTable.Session value nil hashes log after) :
    LazyTables.Session (fun loader => .ok (value loader)) nil
      (successes hashes) log (successes after) := by
  induction session with
  | nil tables => exact .nil _
  | @cons hashes _ _ request _ _ performed _ inductionHypothesis =>
      have agrees : LazyTables.perform (fun loader => .ok (value loader)) nil
          (successes hashes) request =
            (perform value nil hashes request).map fun answer =>
              (answer.1, successes answer.2) :=
        perform_hash request
      rw [performed] at agrees
      refine .cons agrees ?_ inductionHypothesis
      rintro name key found error rfl present impossible
      rw [List.getElem?_map, Option.map_eq_some_iff] at present
      obtain ⟨inner, _, rfl⟩ := present
      rw [Entries.find_withValues, Option.map_eq_some_iff] at impossible
      obtain ⟨_, _, impossible⟩ := impossible
      cases impossible

end Hash

/-- Steps of the only caller are steps of the world. -/
theorem Reaches.world
    {before after : Next K V ε L σ}
    (reaches : Reaches loaders nil before after)
    (trace : List (Event V ε)) :
    ∃ events, Relation.ReflTransGen
      (fun world later => step loaders nil 0 world = some later)
      ⟨before.1, [before.2], trace⟩ ⟨after.1, [after.2], events⟩ := by
  induction reaches with
  | refl => exact ⟨trace, .refl⟩
  | tail _ moved inductionHypothesis =>
      obtain ⟨events, before⟩ := inductionHypothesis
      obtain ⟨more, advanced⟩ := moved
      refine ⟨more ++ events, before.tail ?_⟩
      simp [step, advanced]

/-- A caller alone, without tables at first, gets the replies. -/
def Gets (loaders : L → Nat → Code K V ε L σ) (nil : Except ε V)
    (log : List (Reading K V ε L σ)) : Prop :=
  ∀ outside next, ∃ shared trace, Relation.ReflTransGen
    (fun world later => step loaders nil 0 world = some later)
    ⟨⟨[], [], outside⟩, [.run (ask (log.map Sigma.fst) next) []], []⟩
    ⟨shared, [.run (next log) []], trace⟩

/-- A session from no tables is what a caller gets. -/
theorem Session.gets
    (gives : ∀ loader, Gives (outcome loader) (loaders loader 0))
    {log : List (Reading K V ε L σ)} {later : Outcomes K V ε}
    (session : Session outcome nil [] log later) :
    Gets loaders nil log := by
  intro outside next
  have shows : (⟨[], [], outside⟩ : Shared K V ε L σ).Shows outcome nil [] :=
    ⟨⟨nofun, nofun⟩, rfl⟩
  obtain ⟨after, _, reaches⟩ := session_reaches gives session shows next
  obtain ⟨trace, steps⟩ := reaches.world []
  exact ⟨after, trace, steps⟩

/--
Lazy tables are maps of outcomes as long as no deletion names a key whose
outcome is an error: requests get their replies, and a request that failed
makes no difference.  When all loaders succeed, they are hash tables.
-/
theorem outcomes_agree
    (gives : ∀ loader, Gives (outcome loader) (loaders loader 0)) :
    (∀ log after, Session outcome nil [] log after →
        Gets loaders nil log) ∧
      (∀ before failed rest after,
        Session outcome nil [] (before ++ failed :: rest) after →
        Failed failed → Gets loaders nil (before ++ rest)) ∧
      ∀ value log hashes,
        (∀ loader, outcome loader = .ok (value loader)) →
        HashTable.Session value nil [] log hashes →
        Gets loaders nil log := by
  refine ⟨fun log after session => session.gets gives, ?_, ?_⟩
  · intro before failed rest after session fails
    exact (session.without_failed fails).gets gives
  · intro value log hashes succeeds session
    obtain rfl : outcome = fun loader => .ok (value loader) :=
      funext succeeds
    exact session.outcomes.gets gives

end Moves

section Outcome

/-- A loader that succeeds under `true` and fails under `false`. -/
def choosing : Bool → Nat → Code Nat Nat String Bool Unit :=
  fun succeeds _ => if succeeds then .ret 5 else .fail "no"

/-- What it gives. -/
def chosen (succeeds : Bool) : Except String Nat :=
  if succeeds then .ok 5 else .error "no"

theorem choosing_gives
    (succeeds : Bool) :
    Gives (chosen succeeds) (choosing succeeds 0) := by
  cases succeeds with
  | true => exact .ret 5 rfl
  | false => exact .fail "no" rfl

/-- A table with a key that fails, one that succeeds, and requests to it. -/
def sampleLog : List (Reading Nat Nat String Bool Unit) :=
  [⟨.withLoaders [(1, false), (2, true)], (0 : Nat)⟩,
    ⟨.get 0 1, (.error "no" : Except String Nat)⟩,
    ⟨.del 0 2, (.ok 5 : Except String Nat)⟩,
    ⟨.has 0 1, (.ok true : Except String Bool)⟩]

/-- The requests get the replies of the map of outcomes. -/
theorem sampleLog_gets :
    Gets choosing (.ok 0) sampleLog := by
  have session : Session chosen (.ok 0) [] sampleLog
      [[(1, .error "no")]] := by
    refine .cons rfl nofun (.cons rfl nofun (.cons rfl ?_
      (.cons rfl nofun (.nil _))))
    rintro name key found error same present failed
    cases same
    cases present
    cases failed
  exact (outcomes_agree choosing_gives).1 _ _ session

/-- A deletion of a key whose loader fails, and whether the key stays. -/
def failingLog (stays : Bool) : List (Reading Nat Nat String Bool Unit) :=
  [⟨.withLoaders [(1, false)], (0 : Nat)⟩,
    ⟨.del 0 1, (.error "no" : Except String Nat)⟩,
    ⟨.has 0 1, (.ok stays : Except String Bool)⟩]

/-- The failed deletion has removed the key, which the map of outcomes keeps. -/
theorem failed_deletion_removes :
    answers chosen (.ok 0) [] ((failingLog true).map Sigma.fst) =
        some (failingLog true) ∧
      Gets choosing (.ok 0) (failingLog false) := by
  refine ⟨rfl, ?_⟩
  intro outside next
  refine ⟨_, _, .head rfl (.head rfl (.head rfl (.head rfl (.head rfl (.head rfl
    (.head rfl .refl))))))⟩

end Outcome

end SimStorage.LazyTables
