import SimStorage.Journal.Host.Committed
import SimStorage.Journal.HeadIdentity

namespace SimStorage.Journal.Host

/-!
# Deployments

Any number of journal calls on one port.  Each call runs one operation on one
coordinator's handle; the requests of the calls interleave in any order, a call
may stop after any request, and a v1 writer may share the store until a
coordinator upgrades it.
-/

open Codec NativeCodec Interaction

/-- Paths of the v2 format, other than the state leaf. -/
def V2Layout (path : Path) : Prop :=
  path.head? = some "objects-v2" ∨ path.head? = some "namespaces-v2" ∨
    path.head? = some "compat-v1"

instance (path : Path) : Decidable (V2Layout path) := by
  unfold V2Layout
  infer_instance

/-- The leaves at or below the head of a v1 state leaf. -/
inductive V1Leaf (kernel : Kernel) (files : Path → Option Bytes)
    (stateBytes : Bytes) : Path → Prop where
  | entry {fence : UInt64} {head : JournalHead} {sequence : Nat} :
      decodeV1State kernel stateBytes = .ok (fence, some head) →
      sequence ≤ head.sequence.toNat →
      V1Leaf kernel files stateBytes (v1EntryPath (UInt64.ofNat sequence))
  | object {fence : UInt64} {head : JournalHead} {sequence : Nat}
      {bytes : Bytes} {old : V1Entry} {id : ContentId} :
      decodeV1State kernel stateBytes = .ok (fence, some head) →
      sequence ≤ head.sequence.toNat →
      files (v1EntryPath (UInt64.ofNat sequence)) = some bytes →
      decodeV1Entry kernel bytes = .ok old →
      id ∈ old.payloads →
      V1Leaf kernel files stateBytes (v1ObjectPath id)

/-- The state leaf has had this content. -/
def World.Ever (world : World) (bytes : Bytes) : Prop :=
  world.state = some bytes ∨
    ∃ caller old new, .exchanged caller old new ∈ world.history ∧
      (old = some bytes ∨ new = some bytes)

/-- A leaf at or below a v1 head that was committed. -/
def V1Reached (kernel : Kernel) (world : World) (path : Path) : Prop :=
  ∃ bytes, world.Ever bytes ∧ V1Leaf kernel world.leaf bytes path

/--
What a v1 writer may do: write leaves and directories outside the v2 layout,
except at or below a committed v1 head, and exchange one v1 state for another.
-/
inductive V1Writer (kernel : Kernel) (port : Port) :
    World → World → Prop where
  | leaf {world : World} {path : Path} {new : Option Bytes} :
      port.legacy →
      path ≠ statePath →
      ¬ V2Layout path →
      ¬ V1Reached kernel world path →
      V1Writer kernel port world
        (world.replace none path (world.leaf path) new)
  | directory {world : World} {path : Path} :
      port.legacy →
      ¬ V2Layout path →
      V1Writer kernel port world (world.addDir path)
  | state {world : World} {old new : Bytes} :
      port.legacy →
      world.Free statePath →
      world.state = some old →
      isV1State old = true →
      isV1State new = true →
      V1Writer kernel port world
        (world.replace none statePath (some old) (some new))

/-- The kernel, the port, and the calls with their coordinators' handles. -/
structure Deployment where
  kernel : Kernel
  port : Port
  backends : CallId → HostDirJournalBackend
  workload : CallId → Operation

/-- A system of journal calls. -/
abbrev HostSystem :=
  System CallId HostCall HostReply Fault Outcome World

namespace Deployment

variable (deployment : Deployment)

/-- The port as the calls and the v1 writer share it. -/
def service : Service CallId HostCall HostReply World where
  exec := Exec deployment.port
  crash := Crash
  environment := V1Writer deployment.kernel deployment.port

/-- The program of a call. -/
def program (me : CallId) : HostProgram Outcome :=
  callProgram deployment.kernel (deployment.backends me)
    (deployment.workload me)

/-- How a call goes on after a round of the lease loop. -/
def resume (me : CallId) (outcome : Outcome) :
    Option (HostProgram Outcome) :=
  resumeProgram deployment.kernel (deployment.backends me) outcome

/-- All calls at their start, on a given store. -/
def initial (world : World) : HostSystem :=
  ⟨world, fun me => some (deployment.program me)⟩

/-- One step of any party. -/
def Step : HostSystem → HostSystem → Prop :=
  System.Step deployment.service deployment.resume

/-- Any number of steps of any parties. -/
def Steps : HostSystem → HostSystem → Prop :=
  System.Steps deployment.service deployment.resume

/-- The systems that calls reach from a store. -/
def Reaches (world : World) (system : HostSystem) : Prop :=
  deployment.Steps (deployment.initial world) system

end Deployment

/-- A store before any call: nothing is held and nothing is recorded. -/
structure Untouched (world : World) : Prop where
  free : world.held = none
  history : world.history = []

/-- A store without leaves and directories. -/
structure Empty (world : World) : Prop extends Untouched world where
  noLeaf : ∀ path, world.leaf path = none
  noDirectory : ∀ path, path ∉ world.dirs

/-- The leaves of a store. -/
def World.present (world : World) (path : Path) (bytes : Bytes) : Prop :=
  world.leaf path = some bytes

/-- What `read_state` of some coordinator returns on the store as it stands. -/
def World.Decodes (kernel : Kernel) (world : World) (state : StoredState) :
    Prop :=
  ∃ backend, Anchored world.present
    (readStateFrom kernel backend world.state) (.ok state)

section Reference

/-- A store that nothing was written to. -/
def World.vacant : World :=
  ⟨∅, ∅, none, [], []⟩

theorem World.vacant_empty : Empty World.vacant where
  free := rfl
  history := rfl
  noLeaf _ := Std.ExtTreeMap.getElem?_empty
  noDirectory _ := Std.ExtTreeSet.not_mem_empty

/-- A publication of the first entry under the first lease. -/
def referencePublication : Publication where
  lease := ⟨1⟩
  expected := none
  objects := [referenceObject [1, 2, 3]]
  entries := [referenceEntry]

/--
A deployment on the reference kernel and a guarded port: one call acquires a
lease and the others publish the first entry.
-/
def Deployment.reference : Deployment where
  kernel := Reference.kernel
  port := ⟨true, fun _ => True, False⟩
  backends _ := ⟨⟨true, true⟩, 64⟩
  workload
    | 0 => .acquireLease
    | _ => .publish referencePublication

end Reference

end SimStorage.Journal.Host
