import Mathlib.Algebra.Order.BigOperators.Group.List
import Mathlib.Algebra.Order.Ring.Nat
import SimStorage.LazyTable.Model

namespace SimStorage.LazyTables

/-!
# Loaders run once

A force looks at the cache, runs the loader and sets the cache in three steps
of its caller.  A loader runs once exactly when no caller looks at an unset
cache while a force of the entry is under way.
-/

open Interaction

variable {K V ε L σ : Type}

/-- One for the entry itself. -/
def one (entry name : Nat) : Nat :=
  if name = entry then 1 else 0

theorem one_ne
    {entry name : Nat}
    (differs : name ≠ entry) :
    one entry name = 0 :=
  if_neg differs

/-- How many loaders of a stack run for the entry. -/
def frames (entry : Nat) (stack : List (Frame K V ε L σ)) : Nat :=
  (stack.map fun frame => one entry frame.entry).sum

namespace Thread

/-- Forces of the entry between the look at its cache and the try to set it. -/
def pending (entry : Nat) : Thread K V ε L σ → Nat
  | .run _ stack => frames entry stack
  | .force _ _ stack => frames entry stack
  | .load name _ stack => one entry name + frames entry stack
  | .store name _ _ stack => one entry name + frames entry stack

/-- Forces of the entry that are about to run its loader. -/
def loads (entry : Nat) : Thread K V ε L σ → Nat
  | .load name _ _ => one entry name
  | _ => 0

/-- Forces of the entry that are about to set its cache. -/
def stores (entry : Nat) : Thread K V ε L σ → Nat
  | .store name _ _ _ => one entry name
  | _ => 0

end Thread

namespace Event

/-- A look at the unset cache of the entry. -/
def misses (entry : Nat) : Event V ε → Nat
  | .missed name => one entry name
  | _ => 0

/-- A run of the entry's loader. -/
def runs (entry : Nat) : Event V ε → Nat
  | .ran name => one entry name
  | _ => 0

/-- A result of the entry's loader. -/
def returns (entry : Nat) : Event V ε → Nat
  | .returned name _ => one entry name
  | _ => 0

end Event

namespace World

variable (world : World K V ε L σ) (entry : Nat)

/-- Forces of the entry that are under way. -/
def pending : Nat :=
  (world.threads.map fun thread => thread.pending entry).sum

/-- Forces of the entry that are about to run its loader. -/
def loads : Nat :=
  (world.threads.map fun thread => thread.loads entry).sum

/-- Forces of the entry that are about to set its cache. -/
def stores : Nat :=
  (world.threads.map fun thread => thread.stores entry).sum

/-- Looks at the unset cache of the entry. -/
def misses : Nat :=
  (world.trace.map fun event => event.misses entry).sum

/-- Runs of the entry's loader. -/
def runs : Nat :=
  (world.trace.map fun event => event.runs entry).sum

/-- Results of the entry's loader. -/
def returns : Nat :=
  (world.trace.map fun event => event.returns entry).sum

/-- Nothing happened yet: there are no tables, and every caller starts. -/
structure Fresh : Prop where
  heap : world.shared.heap = []
  tables : world.shared.tables = []
  threads : ∀ thread ∈ world.threads, ∃ code, thread = .run code []
  trace : world.trace = []

/--
Every loader runs at most once, and every force gives the result of that run,
or the value of an eager entry.
-/
structure Once : Prop where
  runs : ∀ entry, world.runs entry ≤ 1
  returns : ∀ entry, world.returns entry ≤ 1
  forced : ∀ entry result, .forced entry result ∈ world.trace →
    .returned entry result ∈ world.trace ∨
      ∃ value, result = .ok value ∧
        world.shared.heap[entry]? = some (.eager value)

end World

/-- A caller does not look at an unset cache while a force is under way. -/
def Alone (caller : Nat) (world : World K V ε L σ) : Prop :=
  ∀ name wait stack entry,
    world.threads[caller]? = some (.force name wait stack) →
    world.shared.heap[name]? = some entry → entry.cache = none →
    world.pending name = 0

section Kinds

/-- The caller runs code or is about to look at a cache. -/
inductive Calm (stack : List (Frame K V ε L σ)) : Thread K V ε L σ → Prop where
  | run (code : Code K V ε L σ) : Calm stack (.run code stack)
  | force (entry : Nat) (wait : Wait K V ε L σ) :
      Calm stack (.force entry wait stack)

/-- Entries are promised, or eager with their value. -/
def LazyEntry.New (entry : LazyEntry V ε L) : Prop :=
  (∃ loader, entry = .promised loader) ∨ ∃ value, entry = .eager value

/-- What a step does, one case per kind of step. -/
inductive Advance (shared : Shared K V ε L σ) :
    Thread K V ε L σ → Shared K V ε L σ → Thread K V ε L σ →
      List (Event V ε) → Prop where
  | quiet {code : Code K V ε L σ} {stack : List (Frame K V ε L σ)}
      {after : Shared K V ε L σ} {later : Thread K V ε L σ}
      (more : List (LazyEntry V ε L)) :
      after.heap = shared.heap ++ more → (∀ entry ∈ more, entry.New) →
      Calm stack later →
      Advance shared (.run code stack) after later []
  | returned (code : Code K V ε L σ) (frame : Frame K V ε L σ)
      (stack : List (Frame K V ε L σ)) (result : Except ε V) :
      Advance shared (.run code (frame :: stack)) shared
        (.store frame.entry result frame.wait stack)
        [.returned frame.entry result]
  | hit {name : Nat} {wait : Wait K V ε L σ}
      {stack : List (Frame K V ε L σ)} {entry : LazyEntry V ε L}
      {result : Except ε V} {after : Shared K V ε L σ}
      {later : Thread K V ε L σ} :
      shared.heap[name]? = some entry → entry.cache = some result →
      after.heap = shared.heap → Calm stack later →
      Advance shared (.force name wait stack) after later [.forced name result]
  | missed {name : Nat} {wait : Wait K V ε L σ}
      {stack : List (Frame K V ε L σ)} {entry : LazyEntry V ε L} :
      shared.heap[name]? = some entry → entry.cache = none →
      Advance shared (.force name wait stack) shared (.load name wait stack)
        [.missed name]
  | ran {name : Nat} {wait : Wait K V ε L σ}
      {stack : List (Frame K V ε L σ)} {code : Code K V ε L σ} :
      Advance shared (.load name wait stack) shared
        (.run code (⟨name, wait⟩ :: stack)) [.ran name]
  | stored {name : Nat} {result : Except ε V} {wait : Wait K V ε L σ}
      {stack : List (Frame K V ε L σ)} {after : Shared K V ε L σ}
      {later : Thread K V ε L σ} :
      after.heap = shared.heap.modify name (fun entry => entry.cached result) →
      Calm stack later →
      Advance shared (.store name result wait stack) after later
        [.forced name result]

variable {shared after : Shared K V ε L σ}
variable {stack : List (Frame K V ε L σ)} {later : Thread K V ε L σ}

theorem listing_calm
    (snapshot : List (K × Nat)) (out : List (K × V))
    (next : Except ε (List (K × V)) → Code K V ε L σ) :
    Calm stack (listing stack snapshot out next) := by
  cases snapshot with
  | nil => exact .run _
  | cons head rest => exact .force _ _

/-- A result that is received changes no entry. -/
theorem receive_calm
    (stack : List (Frame K V ε L σ)) (shared : Shared K V ε L σ)
    (result : Except ε V) (wait : Wait K V ε L σ) :
    (receive stack shared result wait).1.heap = shared.heap ∧
      Calm stack (receive stack shared result wait).2 := by
  cases wait with
  | get name next => exact ⟨rfl, .run _⟩
  | del name next => exact ⟨rfl, .run _⟩
  | entries key rest out next =>
      cases result with
      | ok value => exact ⟨rfl, listing_calm _ _ _⟩
      | error error => exact ⟨rfl, .run _⟩

/-- The heap only grows, by new entries. -/
def Shared.Grows (shared after : Shared K V ε L σ) : Prop :=
  ∃ more, after.heap = shared.heap ++ more ∧ ∀ entry ∈ more, entry.New

theorem Shared.Grows.of_eq
    (same : after.heap = shared.heap) :
    shared.Grows after :=
  ⟨[], by rw [same, List.append_nil],
    fun _ member => absurd member List.not_mem_nil⟩

end Kinds

section Inversion

variable [LinearOrder K]
variable {loaders : L → Nat → Code K V ε L σ} {nil : Except ε V}
variable {shared after : Shared K V ε L σ}
variable {stack : List (Frame K V ε L σ)} {later : Thread K V ε L σ}

theorem putEntry_calm
    {name : Nat} {key : K} {entry : LazyEntry V ε L}
    {code : Code K V ε L σ}
    (fresh : entry.New)
    (issued : putEntry stack shared name key entry code =
      some (after, later)) :
    shared.Grows after ∧ Calm stack later := by
  obtain ⟨table, _, placed⟩ := Option.bind_eq_some_iff.mp issued
  cases placed
  refine ⟨⟨[entry], rfl, fun found member => ?_⟩, .run _⟩
  rw [List.mem_singleton.mp member]
  exact fresh

/-- A request only adds new entries. -/
theorem issue_calm
    {request : Request K V L σ} {next : Reply ε request → Code K V ε L σ}
    (issued : issue stack shared nil request next = some (after, later)) :
    shared.Grows after ∧ Calm stack later := by
  cases request with
  | withLoaders pairs =>
      cases issued
      refine ⟨⟨_, rfl, fun entry member => ?_⟩, .run _⟩
      obtain ⟨pair, _, rfl⟩ := List.mem_map.mp member
      exact .inl ⟨pair.2, rfl⟩
  | withEntries entries =>
      cases issued
      refine ⟨⟨_, rfl, fun entry member => ?_⟩, .run _⟩
      obtain ⟨pair, _, rfl⟩ := List.mem_map.mp member
      exact .inr ⟨pair.2, rfl⟩
  | clone name =>
      obtain ⟨table, _, created⟩ := Option.bind_eq_some_iff.mp issued
      cases created
      exact ⟨.of_eq rfl, .run _⟩
  | putLazy name key loader => exact putEntry_calm (.inl ⟨loader, rfl⟩) issued
  | get name key =>
      obtain ⟨table, _, looked⟩ := Option.bind_eq_some_iff.mp issued
      split at looked
      · cases looked
        exact ⟨.of_eq rfl, .force _ _⟩
      · cases looked
        exact ⟨.of_eq rfl, .run _⟩
  | set name key value => exact putEntry_calm (.inr ⟨value, rfl⟩) issued
  | has name key =>
      obtain ⟨table, _, looked⟩ := Option.bind_eq_some_iff.mp issued
      cases looked
      exact ⟨.of_eq rfl, .run _⟩
  | del name key =>
      obtain ⟨table, _, removed⟩ := Option.bind_eq_some_iff.mp issued
      split at removed
      · cases removed
        exact ⟨.of_eq rfl, .force _ _⟩
      · cases removed
        exact ⟨.of_eq rfl, .run _⟩
  | keys name =>
      obtain ⟨table, _, looked⟩ := Option.bind_eq_some_iff.mp issued
      cases looked
      exact ⟨.of_eq rfl, .run _⟩
  | entries name =>
      obtain ⟨table, _, looked⟩ := Option.bind_eq_some_iff.mp issued
      cases looked
      exact ⟨.of_eq rfl, listing_calm _ _ _⟩
  | len name =>
      obtain ⟨table, _, looked⟩ := Option.bind_eq_some_iff.mp issued
      cases looked
      exact ⟨.of_eq rfl, .run _⟩
  | clear name =>
      obtain ⟨table, _, cleared⟩ := Option.bind_eq_some_iff.mp issued
      cases cleared
      exact ⟨.of_eq rfl, .run _⟩
  | outside change =>
      cases issued
      exact ⟨.of_eq rfl, .run _⟩

/-- A step of a caller is one of the kinds. -/
theorem advance_cases
    {caller : Nat} {thread : Thread K V ε L σ} {events : List (Event V ε)}
    (advanced : advance loaders nil caller shared thread =
      some ((after, later), events)) :
    Advance shared thread after later events := by
  cases thread with
  | run code stack =>
      cases code with
      | ret value =>
          cases stack with
          | nil => cases advanced
          | cons frame stack =>
              cases advanced
              exact .returned _ frame stack _
      | fail error =>
          cases stack with
          | nil => cases advanced
          | cons frame stack =>
              cases advanced
              exact .returned _ frame stack _
      | call request next =>
          obtain ⟨⟨_, _⟩, issued, same⟩ := Option.bind_eq_some_iff.mp advanced
          cases same
          obtain ⟨⟨more, grows, fresh⟩, calm⟩ := issue_calm issued
          exact .quiet more grows fresh calm
  | force name wait stack =>
      obtain ⟨entry, found, looked⟩ := Option.bind_eq_some_iff.mp advanced
      cases cached : entry.cache with
      | some result =>
          rw [cached] at looked
          obtain ⟨received, rfl⟩ := Prod.mk.inj (Option.some.inj looked)
          obtain ⟨same, calm⟩ := receive_calm stack shared result wait
          rw [received] at same calm
          exact .hit found cached same calm
      | none =>
          rw [cached] at looked
          cases looked
          exact .missed found cached
  | load name wait stack =>
      obtain ⟨entry, found, loaded⟩ := Option.bind_eq_some_iff.mp advanced
      cases loaded
      exact .ran
  | store name result wait stack =>
      obtain ⟨received, rfl⟩ := Prod.mk.inj (Option.some.inj advanced)
      obtain ⟨same, calm⟩ := receive_calm stack { shared with
        heap := shared.heap.modify name fun entry => entry.cached result }
        result wait
      rw [received] at same calm
      exact .stored same calm

/-- A step of the world is a step of the caller's thread. -/
theorem step_cases
    {caller : Nat} {world after : World K V ε L σ}
    (stepped : step loaders nil caller world = some after) :
    ∃ thread shared later events,
      world.threads[caller]? = some thread ∧
      Advance world.shared thread shared later events ∧
      after = ⟨shared, world.threads.set caller later,
        events ++ world.trace⟩ := by
  obtain ⟨thread, found, rest⟩ := Option.bind_eq_some_iff.mp stepped
  obtain ⟨⟨⟨shared, later⟩, events⟩, advanced, same⟩ :=
    Option.bind_eq_some_iff.mp rest
  cases same
  exact ⟨thread, shared, later, events, found, advance_cases advanced, rfl⟩

end Inversion

section Counting

/-- Replacing one item changes a total by the difference. -/
theorem sum_set
    {α : Type} (weight : α → Nat) {items : List α} {index : Nat}
    {old : α} (new : α)
    (found : items[index]? = some old) :
    ((items.set index new).map weight).sum + weight old =
      (items.map weight).sum + weight new := by
  induction items generalizing index with
  | nil => cases found
  | cons head rest inductionHypothesis =>
      cases index with
      | zero =>
          cases found
          simp only [List.set_cons_zero, List.map_cons, List.sum_cons]
          omega
      | succ index =>
          have later := inductionHypothesis found
          simp only [List.set_cons_succ, List.map_cons, List.sum_cons]
          omega

variable {stack : List (Frame K V ε L σ)} {thread later : Thread K V ε L σ}
variable {world : World K V ε L σ} {caller : Nat}

theorem Calm.pending
    (calm : Calm stack later) (entry : Nat) :
    later.pending entry = frames entry stack := by
  cases calm <;> rfl

theorem Calm.loads
    (calm : Calm stack later) (entry : Nat) :
    later.loads entry = 0 := by
  cases calm <;> rfl

theorem Calm.stores
    (calm : Calm stack later) (entry : Nat) :
    later.stores entry = 0 := by
  cases calm <;> rfl

theorem Thread.stores_le
    (thread : Thread K V ε L σ) (entry : Nat) :
    thread.stores entry ≤ thread.pending entry := by
  cases thread with
  | store name result wait stack => exact Nat.le_add_right _ _
  | run code stack => exact Nat.zero_le _
  | force name wait stack => exact Nat.zero_le _
  | load name wait stack => exact Nat.zero_le _

theorem World.stores_le
    (world : World K V ε L σ) (entry : Nat) :
    world.stores entry ≤ world.pending entry :=
  List.sum_le_sum fun thread _ => thread.stores_le entry

theorem World.pending_le
    (found : world.threads[caller]? = some thread) (entry : Nat) :
    thread.pending entry ≤ world.pending entry :=
  List.le_sum_of_mem
    (List.mem_map.mpr ⟨thread, List.mem_of_getElem? found, rfl⟩)

/-- A world in which the caller made a step. -/
abbrev World.moved (world : World K V ε L σ) (caller : Nat)
    (shared : Shared K V ε L σ) (later : Thread K V ε L σ)
    (events : List (Event V ε)) : World K V ε L σ :=
  ⟨shared, world.threads.set caller later, events ++ world.trace⟩

/-- The change of the totals in a step. -/
theorem World.moved_totals
    (found : world.threads[caller]? = some thread)
    (shared : Shared K V ε L σ) (later : Thread K V ε L σ)
    (events : List (Event V ε)) (entry : Nat) :
    let after := world.moved caller shared later events
    after.pending entry + thread.pending entry =
        world.pending entry + later.pending entry ∧
      after.loads entry + thread.loads entry =
        world.loads entry + later.loads entry ∧
      after.stores entry + thread.stores entry =
        world.stores entry + later.stores entry :=
  ⟨sum_set _ later found, sum_set _ later found, sum_set _ later found⟩

/-- The change of the counts in a step. -/
theorem World.moved_counts
    (world : World K V ε L σ) (caller : Nat)
    (shared : Shared K V ε L σ) (later : Thread K V ε L σ)
    (events : List (Event V ε)) (entry : Nat) :
    let after := world.moved caller shared later events
    after.misses entry = (events.map (Event.misses entry)).sum +
        world.misses entry ∧
      after.runs entry = (events.map (Event.runs entry)).sum +
        world.runs entry ∧
      after.returns entry = (events.map (Event.returns entry)).sum +
        world.returns entry := by
  simp [World.misses, World.runs, World.returns]

/-- A missed cache leads to a run of the loader, and counts as under way. -/
structure World.Counted (world : World K V ε L σ) (entry : Nat) : Prop where
  loading : world.runs entry + world.loads entry = world.misses entry
  under : world.pending entry ≤ world.misses entry

/-- A step keeps the balance of misses, runs and loads. -/
theorem World.Counted.moved
    {shared : Shared K V ε L σ} {events : List (Event V ε)} {entry : Nat}
    (counted : world.Counted entry)
    (found : world.threads[caller]? = some thread)
    (advance : Advance world.shared thread shared later events) :
    (world.moved caller shared later events).Counted entry := by
  obtain ⟨loading, under⟩ := counted
  obtain ⟨pending, loads, _⟩ :=
    World.moved_totals found shared later events entry
  obtain ⟨misses, runs, _⟩ :=
    world.moved_counts caller shared later events entry
  cases advance with
  | quiet more grows fresh calm =>
      rw [calm.pending] at pending
      rw [calm.loads] at loads
      simp [Thread.pending, Thread.loads] at pending loads misses runs
      constructor <;> omega
  | returned code frame stack result =>
      simp [Thread.pending, Thread.loads, Event.misses, Event.runs, frames]
        at pending loads misses runs
      constructor <;> omega
  | hit placed cached same calm =>
      rw [calm.pending] at pending
      rw [calm.loads] at loads
      simp [Thread.pending, Thread.loads, Event.misses, Event.runs]
        at pending loads misses runs
      constructor <;> omega
  | missed placed unset =>
      simp [Thread.pending, Thread.loads, Event.misses, Event.runs]
        at pending loads misses runs
      constructor <;> omega
  | ran =>
      simp [Thread.pending, Thread.loads, Event.misses, Event.runs, frames]
        at pending loads misses runs
      constructor <;> omega
  | stored same calm =>
      rw [calm.pending] at pending
      rw [calm.loads] at loads
      simp [Thread.pending, Thread.loads, Event.misses, Event.runs]
        at pending loads misses runs
      constructor <;> omega

/-- Nothing is counted before the first step. -/
theorem World.Fresh.totals
    (fresh : world.Fresh) (entry : Nat) :
    world.pending entry = 0 ∧ world.loads entry = 0 ∧ world.stores entry = 0 ∧
      world.misses entry = 0 ∧ world.runs entry = 0 ∧
      world.returns entry = 0 := by
  have calm : ∀ thread ∈ world.threads, thread.pending entry = 0 ∧
      thread.loads entry = 0 ∧ thread.stores entry = 0 := by
    intro thread member
    obtain ⟨code, rfl⟩ := fresh.threads thread member
    exact ⟨rfl, rfl, rfl⟩
  refine ⟨?_, ?_, ?_, ?_, ?_, ?_⟩
  · exact List.sum_eq_zero (List.forall_mem_map.mpr fun thread member =>
      (calm thread member).1)
  · exact List.sum_eq_zero (List.forall_mem_map.mpr fun thread member =>
      (calm thread member).2.1)
  · exact List.sum_eq_zero (List.forall_mem_map.mpr fun thread member =>
      (calm thread member).2.2)
  · simp [World.misses, fresh.trace]
  · simp [World.runs, fresh.trace]
  · simp [World.returns, fresh.trace]

end Counting

section Phases

variable {world : World K V ε L σ} {caller : Nat}

/-- How far an entry is: not there, unset, or with a result in its cache. -/
inductive Phase (world : World K V ε L σ) (name : Nat) : Prop where
  | absent :
      world.shared.heap[name]? = none → world.pending name = 0 →
      world.misses name = 0 → world.returns name = 0 →
      (∀ result, .forced name result ∉ world.trace) →
      Phase world name
  | unset (entry : LazyEntry V ε L) :
      world.shared.heap[name]? = some entry → entry.cache = none →
      world.pending name = world.misses name → world.misses name ≤ 1 →
      world.returns name = world.stores name →
      (∀ result, .forced name result ∉ world.trace) →
      Phase world name
  | cached (entry : LazyEntry V ε L) (result : Except ε V) :
      world.shared.heap[name]? = some entry → entry.cache = some result →
      world.pending name = 0 → world.misses name ≤ 1 →
      world.returns name ≤ 1 →
      (.returned name result ∈ world.trace ∨
        ∃ value, result = .ok value ∧ entry = .eager value) →
      (∀ other, .forced name other ∈ world.trace → other = result) →
      Phase world name

/-- A result that is about to be stored is one of the loader. -/
def World.Stored (world : World K V ε L σ) : Prop :=
  ∀ name result wait stack, .store name result wait stack ∈ world.threads →
    .returned name result ∈ world.trace

/-- What does not concern an entry keeps its phase. -/
theorem Phase.kept
    {after : World K V ε L σ} {name : Nat}
    (phase : Phase world name)
    (heap : after.shared.heap[name]? = world.shared.heap[name]?)
    (pending : after.pending name = world.pending name)
    (stores : after.stores name = world.stores name)
    (misses : after.misses name = world.misses name)
    (returns : after.returns name = world.returns name)
    (forced : ∀ result, .forced name result ∈ after.trace →
      .forced name result ∈ world.trace)
    (kept : ∀ event ∈ world.trace, event ∈ after.trace) :
    Phase after name := by
  cases phase with
  | absent found none missed returned quiet =>
      exact .absent (heap.trans found) (pending.trans none)
        (misses.trans missed) (returns.trans returned)
        fun result member => quiet result (forced result member)
  | unset entry found unset under once returned quiet =>
      exact .unset entry (heap.trans found) unset
        (pending.trans (under.trans misses.symm)) (misses.trans_le once)
        (returns.trans (returned.trans stores.symm))
        fun result member => quiet result (forced result member)
  | cached entry result found cached none once returned origin same =>
      exact .cached entry result (heap.trans found) cached (pending.trans none)
        (misses.trans_le once) (returns.trans_le returned)
        (origin.imp_left (kept _))
        fun other member => same other (forced other member)

variable {thread later : Thread K V ε L σ} {shared : Shared K V ε L σ}
variable {events : List (Event V ε)} {name : Nat}

/-- An entry that is not there was not forced. -/
theorem Phase.absent_inv
    (phase : Phase world name)
    (found : world.shared.heap[name]? = none) :
    world.pending name = 0 ∧ world.misses name = 0 ∧ world.returns name = 0 ∧
      ∀ result, .forced name result ∉ world.trace := by
  cases phase with
  | absent _ pending misses returns quiet =>
      exact ⟨pending, misses, returns, quiet⟩
  | unset entry present => exact absurd (found.symm.trans present) nofun
  | cached entry result present => exact absurd (found.symm.trans present) nofun

/-- A new entry has a phase at once. -/
theorem Phase.quiet
    (phase : Phase world name) {more : List (LazyEntry V ε L)}
    (grows : shared.heap = world.shared.heap ++ more)
    (fresh : ∀ entry ∈ more, entry.New)
    {threads : List (Thread K V ε L σ)}
    (pending : (World.mk shared threads world.trace).pending name =
      world.pending name)
    (stores : (World.mk shared threads world.trace).stores name =
      world.stores name) :
    Phase ⟨shared, threads, world.trace⟩ name := by
  cases found : world.shared.heap[name]? with
  | some entry =>
      have inside : name < world.shared.heap.length :=
        (List.getElem?_eq_some_iff.mp found).1
      have heap : shared.heap[name]? = world.shared.heap[name]? := by
        rw [grows, List.getElem?_append_left inside]
      exact phase.kept heap pending stores rfl rfl (fun _ member => member)
        fun _ member => member
  | none =>
      obtain ⟨idle, missed, returned, unforced⟩ := phase.absent_inv found
      have none' := pending.trans idle
      have unstored : (World.mk shared threads world.trace).stores name = 0 :=
        Nat.le_zero.mp (none' ▸ World.stores_le _ name)
      cases placed : shared.heap[name]? with
      | none => exact .absent placed none' missed returned unforced
      | some entry =>
          have member : entry ∈ more := by
            have outside := List.getElem?_eq_none_iff.mp found
            rw [grows, List.getElem?_append_right outside] at placed
            exact List.mem_of_getElem? placed
          have missedOnce : world.misses name ≤ 1 :=
            missed.trans_le (Nat.zero_le 1)
          rcases fresh entry member with ⟨loader, rfl⟩ | ⟨value, rfl⟩
          · exact .unset _ placed rfl (none'.trans missed.symm) missedOnce
              (returned.trans unstored.symm) unforced
          · exact .cached _ _ placed rfl none' missedOnce
              (returned.trans_le (Nat.zero_le 1))
              (.inr ⟨value, rfl, rfl⟩)
              fun result member => absurd member (unforced result)

/-- A step of a caller that is alone keeps every phase. -/
theorem Phase.moved
    (phase : Phase world name) (stored : world.Stored)
    (alone : Alone caller world)
    (found : world.threads[caller]? = some thread)
    (advance : Advance world.shared thread shared later events) :
    Phase (world.moved caller shared later events) name := by
  obtain ⟨pending, _, stores⟩ :=
    World.moved_totals found shared later events name
  obtain ⟨misses, _, returns⟩ :=
    world.moved_counts caller shared later events name
  cases advance with
  | quiet more grows fresh calm =>
      rw [calm.pending] at pending
      rw [calm.stores] at stores
      simp only [Thread.pending, Thread.stores] at pending stores
      exact phase.quiet grows fresh (Nat.add_right_cancel pending) stores
  | returned code frame stack result =>
      simp [Thread.pending, Thread.stores, Event.misses, Event.returns, frames]
        at pending stores misses returns
      rcases eq_or_ne frame.entry name with rfl | differs
      · -- the loader that returns is under way, so the cache is unset
        have under := World.pending_le found frame.entry
        simp [Thread.pending, frames, one] at under
        simp only [one, if_pos] at stores returns
        cases phase with
        | absent placed none missed returned quiet => omega
        | cached entry result placed cached none once returned origin same =>
            omega
        | unset entry placed unset balance once returned quiet =>
            refine .unset entry placed unset ?_ ?_ ?_ ?_
            · omega
            · omega
            · omega
            · simpa using quiet
      · rw [one_ne differs] at stores returns
        refine phase.kept rfl ?_ ?_ ?_ ?_ ?_
          fun _ => List.mem_append_right _
        · omega
        · omega
        · omega
        · omega
        · simp
  | @hit target wait stack entry result after later placed cached same calm =>
      rw [calm.pending] at pending
      rw [calm.stores] at stores
      simp [Thread.pending, Thread.stores, Event.misses, Event.returns]
        at pending stores misses returns
      rcases eq_or_ne target name with rfl | differs
      · cases phase with
        | absent absent => exact absurd (placed.symm.trans absent) nofun
        | unset entry there unset =>
            cases placed.symm.trans there
            exact absurd (cached.symm.trans unset) nofun
        | cached entry result there once none missed returned origin same' =>
            cases placed.symm.trans there
            cases cached.symm.trans once
            refine .cached entry result ?_ once ?_ ?_ ?_ ?_ ?_
            · exact (congrArg (·[target]?) same).trans there
            · omega
            · omega
            · omega
            · exact origin.imp_left (List.mem_append_right _)
            · simpa using same'
      · refine phase.kept (congrArg (·[name]?) same) ?_ ?_ ?_ ?_ ?_
          fun _ => List.mem_append_right _
        · omega
        · omega
        · omega
        · omega
        · simp [differs.symm]
  | @missed target wait stack entry placed unset =>
      simp [Thread.pending, Thread.stores, Event.misses, Event.returns]
        at pending stores misses returns
      rcases eq_or_ne target name with rfl | differs
      · have free := alone target wait stack entry found placed unset
        simp only [one, if_pos] at pending misses
        cases phase with
        | absent absent => exact absurd (placed.symm.trans absent) nofun
        | cached other result there once =>
            cases placed.symm.trans there
            exact absurd (once.symm.trans unset) nofun
        | unset other there unset balance once returned quiet =>
            refine .unset other there unset ?_ ?_ ?_ ?_
            · omega
            · omega
            · omega
            · simpa using quiet
      · rw [one_ne differs] at pending misses
        refine phase.kept rfl ?_ ?_ ?_ ?_ ?_
          fun _ => List.mem_append_right _
        · omega
        · omega
        · omega
        · omega
        · simp
  | @ran target wait stack code =>
      simp [Thread.pending, Thread.stores, Event.misses, Event.returns, frames]
        at pending stores misses returns
      refine phase.kept rfl ?_ ?_ ?_ ?_ ?_
        fun _ => List.mem_append_right _
      · omega
      · omega
      · omega
      · omega
      · simp
  | @stored target result wait stack after later same calm =>
      have under := World.pending_le found target
      simp [Thread.pending, one] at under
      rw [calm.pending] at pending
      rw [calm.stores] at stores
      simp [Thread.pending, Thread.stores, Event.misses, Event.returns]
        at pending stores misses returns
      rcases eq_or_ne target name with rfl | differs
      · -- the force that stores is the only one, so the cache is unset
        simp only [one, if_pos] at pending stores
        cases phase with
        | absent placed none missed returned quiet => omega
        | cached entry result placed cached none once returned origin same =>
            omega
        | unset entry placed unset balance once returned quiet =>
            have few := world.stores_le target
            have heap : shared.heap[target]? = some (entry.cached result) := by
              rw [same]
              simp [placed]
            refine .cached (entry.cached result) result heap ?_ ?_ ?_ ?_ ?_ ?_
            · rw [LazyEntry.cached, unset, Option.getD_none]
            · omega
            · omega
            · omega
            · have origin := stored target result wait stack
                (List.mem_of_getElem? found)
              exact .inl (List.mem_append_right _ origin)
            · intro other member
              simpa [quiet] using member
      · rw [one_ne differs] at pending stores
        have heap : shared.heap[name]? = world.shared.heap[name]? := by
          rw [same]
          simp [differs]
        refine phase.kept heap ?_ ?_ ?_ ?_ ?_ fun _ => List.mem_append_right _
        · omega
        · omega
        · omega
        · omega
        · simp [differs.symm]

/-- A result that is about to be stored stays one of the loader. -/
theorem World.Stored.moved
    (stored : world.Stored)
    (advance : Advance world.shared thread shared later events) :
    (world.moved caller shared later events).Stored := by
  intro name result wait stack member
  rcases List.mem_or_eq_of_mem_set member with before | rfl
  · exact List.mem_append_right _ (stored name result wait stack before)
  · cases advance with
    | quiet _ _ _ calm => cases calm
    | returned code frame stack result => exact List.mem_cons_self
    | hit _ _ _ calm => cases calm
    | stored _ calm => cases calm

/-- At the start no entry is there. -/
theorem World.Fresh.phase
    (fresh : world.Fresh) (name : Nat) :
    Phase world name := by
  obtain ⟨pending, _, _, misses, _, returns⟩ := fresh.totals name
  refine .absent ?_ pending misses returns fun result member => ?_
  · rw [fresh.heap, List.getElem?_nil]
  · rw [fresh.trace] at member
    exact absurd member List.not_mem_nil

/-- When every entry has a phase, the loaders ran once. -/
theorem World.Once.of_phases
    (counted : ∀ name, world.Counted name)
    (phases : ∀ name, Phase world name) :
    world.Once := by
  refine ⟨fun name => ?_, fun name => ?_, fun name result forced => ?_⟩
  · have balance := (counted name).loading
    cases phases name with
    | absent _ _ missed => omega
    | unset _ _ _ _ once => omega
    | cached _ _ _ _ _ once => omega
  · cases phases name with
    | absent _ _ _ returned => omega
    | unset _ _ _ balance once returned =>
        have few := world.stores_le name
        omega
    | cached _ _ _ _ _ _ returned => exact returned
  · cases phases name with
    | absent _ _ _ _ quiet => exact absurd forced (quiet result)
    | unset _ _ _ _ _ _ quiet => exact absurd forced (quiet result)
    | cached entry found placed _ _ _ _ origin same =>
        obtain rfl := same result forced
        rcases origin with returned | ⟨value, rfl, rfl⟩
        · exact .inl returned
        · exact .inr ⟨value, rfl, placed⟩

end Phases

section Runs

variable [LinearOrder K]
variable {loaders : L → Nat → Code K V ε L σ} {nil : Except ε V}
variable {start world : World K V ε L σ}
variable {steps : List (Nat × World K V ε L σ)} {caller : Nat}

/-- A run: every step with its caller and the world before it, latest first. -/
inductive Run (loaders : L → Nat → Code K V ε L σ) (nil : Except ε V)
    (start : World K V ε L σ) :
    World K V ε L σ → List (Nat × World K V ε L σ) → Prop where
  | start : Run loaders nil start start []
  | step {world after : World K V ε L σ}
      {steps : List (Nat × World K V ε L σ)} {caller : Nat} :
      Run loaders nil start world steps →
      step loaders nil caller world = some after →
      Run loaders nil start after ((caller, world) :: steps)

/-- Every run keeps the balance. -/
theorem Run.counted
    (run : Run loaders nil start world steps)
    (fresh : start.Fresh) (entry : Nat) :
    world.Counted entry := by
  induction run with
  | start =>
      obtain ⟨pending, loads, _, misses, runs, _⟩ := fresh.totals entry
      exact ⟨by rw [runs, loads, misses], (pending.trans misses.symm).le⟩
  | step _ stepped inductionHypothesis =>
      obtain ⟨thread, shared, later, events, found, advance, rfl⟩ :=
        step_cases stepped
      exact inductionHypothesis.moved found advance

/-- A run of callers that are alone keeps every phase. -/
theorem Run.phases
    (run : Run loaders nil start world steps)
    (fresh : start.Fresh)
    (alone : ∀ step ∈ steps, Alone step.1 step.2) :
    world.Stored ∧ ∀ name, Phase world name := by
  induction run with
  | start =>
      refine ⟨fun name result wait stack member => ?_, fresh.phase⟩
      obtain ⟨code, impossible⟩ := fresh.threads _ member
      cases impossible
  | @step world after steps caller _ stepped inductionHypothesis =>
      obtain ⟨stored, phases⟩ := inductionHypothesis fun step member =>
        alone step (List.mem_cons_of_mem _ member)
      obtain ⟨thread, shared, later, events, found, advance, rfl⟩ :=
        step_cases stepped
      have free : Alone caller world := alone (caller, world) List.mem_cons_self
      exact ⟨stored.moved advance,
        fun name => (phases name).moved stored free found advance⟩

/-- After a look at an unset cache during a force, there are two misses. -/
theorem Run.crossed
    (run : Run loaders nil start world steps)
    (fresh : start.Fresh)
    {before : World K V ε L σ}
    (member : (caller, before) ∈ steps)
    (crossed : ¬ Alone caller before) :
    ∃ name, 2 ≤ world.misses name := by
  induction run with
  | start => cases member
  | @step middle after steps mover ran stepped inductionHypothesis =>
      obtain ⟨thread, shared, later, events, found, advance, rfl⟩ :=
        step_cases stepped
      rcases List.mem_cons.mp member with same | earlier
      · cases same
        simp only [Alone, not_forall] at crossed
        obtain ⟨name, wait, stack, entry, forces, placed, unset, busy⟩ := crossed
        have under := (ran.counted fresh name).under
        obtain ⟨misses, _⟩ :=
          before.moved_counts caller shared later events name
        cases found.symm.trans forces
        cases advance with
        | hit there cached =>
            cases placed.symm.trans there
            exact absurd (unset.symm.trans cached) nofun
        | missed there unset =>
            simp [Event.misses, one] at misses
            have grown : 2 ≤ (before.moved caller before.shared
                (.load name wait stack) [.missed name]).misses name := by
              omega
            exact ⟨name, grown⟩
      · obtain ⟨name, twice⟩ := inductionHypothesis earlier
        obtain ⟨misses, _⟩ :=
          middle.moved_counts mover shared later events name
        have grown : 2 ≤
            (middle.moved mover shared later events).misses name := by
          omega
        exact ⟨name, grown⟩

/--
When every caller is alone, loaders run once and every force gives the result
of that run.  When no force is about to run a loader, this is the only way.
-/
theorem once_iff
    (fresh : start.Fresh)
    (run : Run loaders nil start world steps) :
    ((∀ step ∈ steps, Alone step.1 step.2) → world.Once) ∧
      ((∀ entry, world.loads entry = 0) → world.Once →
        ∀ step ∈ steps, Alone step.1 step.2) := by
  refine ⟨fun alone => ?_, fun idle once step member => ?_⟩
  · obtain ⟨_, phases⟩ := run.phases fresh alone
    exact .of_phases (run.counted fresh) phases
  · by_contra crossed
    obtain ⟨name, twice⟩ := run.crossed fresh member crossed
    have balance := (run.counted fresh name).loading
    have once := once.runs name
    have none := idle name
    omega

/-- Steps of the callers in an order. -/
def play (loaders : L → Nat → Code K V ε L σ) (nil : Except ε V) :
    List Nat → World K V ε L σ → Option (World K V ε L σ)
  | [], world => some world
  | caller :: order, world =>
      (step loaders nil caller world).bind (play loaders nil order)

/-- What is played is a run, after a run. -/
theorem Run.play
    {after : World K V ε L σ} {order : List Nat}
    (run : Run loaders nil start world steps)
    (played : play loaders nil order world = some after) :
    ∃ steps, Run loaders nil start after steps := by
  induction order generalizing world steps with
  | nil =>
      cases played
      exact ⟨steps, run⟩
  | cons caller order inductionHypothesis =>
      obtain ⟨middle, stepped, rest⟩ := Option.bind_eq_some_iff.mp played
      exact inductionHypothesis (run.step stepped) rest

end Runs

section Sample

/-- A loader that counts its runs. -/
def counting : Unit → Nat → Code Nat Nat String Unit Nat :=
  fun _ _ => .call (.outside (· + 1)) fun count => .ret count

/-- One caller makes a table and reads its entry, another reads it too. -/
def sampleStart : World Nat Nat String Unit Nat where
  shared := ⟨[], [], 0⟩
  threads := [
    .run (.call (.withLoaders [(7, ())]) fun table =>
      .call (.get table 7) .ofExcept) [],
    .run (.call (.get 0 7) .ofExcept) []]
  trace := []

theorem sampleStart_fresh :
    sampleStart.Fresh where
  heap := rfl
  tables := rfl
  threads := by
    intro thread member
    rcases List.mem_cons.mp member with rfl | member
    · exact ⟨_, rfl⟩
    · exact ⟨_, List.mem_singleton.mp member⟩
  trace := rfl

/-- Both callers look at the cache before either runs the loader. -/
def overlapping : List Nat :=
  [0, 0, 1, 0, 1, 0, 0, 0, 0, 1, 1, 1, 1]

theorem overlapping_played :
    ∃ world, play counting (.ok 0) overlapping sampleStart = some world ∧
      world.runs 0 = 2 ∧ Event.forced 0 (.ok 0) ∈ world.trace ∧
      Event.forced 0 (.ok 1) ∈ world.trace := by
  refine ⟨_, rfl, rfl, ?_, ?_⟩
  · exact List.mem_of_getElem? (i := 3) rfl
  · exact List.mem_cons_self

/-- Callers that overlap run a loader twice, so some caller is not alone. -/
theorem overlapping_not_alone :
    ∃ world steps, Run counting (.ok 0) sampleStart world steps ∧
      play counting (.ok 0) overlapping sampleStart = some world ∧
      ¬ ∀ step ∈ steps, Alone step.1 step.2 := by
  obtain ⟨world, played, twice, _⟩ := overlapping_played
  obtain ⟨steps, run⟩ := Run.start.play played
  refine ⟨world, steps, run, played, fun alone => ?_⟩
  have once := (once_iff sampleStart_fresh run).1 alone
  exact absurd (once.runs 0) (by rw [twice]; decide)

/-- Two callers run one loader twice and get the results of different runs. -/
theorem overlapping_runs_twice :
    ∃ world steps, Run counting (.ok 0) sampleStart world steps ∧
      world.runs 0 = 2 ∧
      .forced 0 (.ok 0) ∈ world.trace ∧ .forced 0 (.ok 1) ∈ world.trace := by
  obtain ⟨world, played, twice, first, second⟩ := overlapping_played
  obtain ⟨steps, run⟩ := Run.start.play played
  exact ⟨world, steps, run, twice, first, second⟩

end Sample

end SimStorage.LazyTables
