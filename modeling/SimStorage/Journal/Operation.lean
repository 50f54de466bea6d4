import SimStorage.Journal.Log
import SimStorage.Interaction.Program

namespace SimStorage.Journal

/-!
# Journal operations

The calls that a journal's users make, and the verification that every
publication passes before its backend admits it.  Both are the same for every
backend.
-/

open Interaction

/-- The arguments of `publish` and `publish_then`. -/
structure Publication where
  lease : Lease
  expected : Option JournalHead
  objects : List JournalObject
  entries : List JournalEntry

/-- The admission that a publication asks for. -/
def Publication.admission (publication : Publication) : Admission where
  fence := publication.lease.fence
  expected := publication.expected
  objects := publication.objects
  entries := publication.entries

/-- One call of a journal or of its backend. -/
inductive Operation where
  | acquireLease
  | readState
  | publish (publication : Publication)
  | publishThen (publication : Publication)
  | putDatum (object : JournalObject)
  | getDatum (meaning : ContentId)
  | rebuildDatumIndex
  | verifiedSnapshot

/-- The publication that an operation makes. -/
def Operation.publication : Operation → Option Publication
  | .publish publication => some publication
  | .publishThen publication => some publication
  | _ => none

/-- The objects that an operation supplies. -/
def Operation.objects : Operation → List JournalObject
  | .publish publication => publication.objects
  | .publishThen publication => publication.objects
  | .putDatum object => [object]
  | _ => []

/--
What a call returns.  `again` is the end of one round of the lease loop, after
which the call goes on with the next round.
-/
inductive Outcome where
  | again
  | lease (value : Lease)
  | state (value : StoredState)
  | head (value : JournalHead)
  | guarded (value : GuardedAdmission)
  | reference (value : StoredDatumRef)
  | datum (value : Datum)
  | references (value : List StoredDatumRef)
  | snapshot (value : VerifiedSnapshot)

/-- The outcomes that an operation returns. -/
def Operation.Yields : Operation → Outcome → Prop
  | .acquireLease, .again => True
  | .acquireLease, .lease _ => True
  | .readState, .state _ => True
  | .publish _, .head _ => True
  | .publishThen _, .guarded _ => True
  | .putDatum _, .reference _ => True
  | .getDatum _, .datum _ => True
  | .rebuildDatumIndex, .references _ => True
  | .verifiedSnapshot, .snapshot _ => True
  | _, _ => False

variable {Request : Type} {Reply : Request → Type}

/-- `Journal::verified_admission`, over a backend's `read_state`. -/
def verifiedAdmission
    (kernel : Kernel)
    (readState : Program Request Reply Fault StoredState)
    (publication : Publication) :
    Program Request Reply Fault Admission :=
  if publication.entries.isEmpty then
    .fail (.refused .emptyBatch)
  else do
    let before ← readState
    let _ ← Program.ofExcept (verifyState kernel before)
    Program.ofExcept
      (verifyBatch kernel before publication.expected publication.objects
        publication.entries)
    return publication.admission

/-- `Journal::verified_snapshot`, over a backend's `read_state`. -/
def verifiedSnapshot
    (kernel : Kernel)
    (readState : Program Request Reply Fault StoredState) :
    Program Request Reply Fault VerifiedSnapshot := do
  let state ← readState
  Program.ofExcept (VerifiedSnapshot.fromState kernel state)

end SimStorage.Journal
