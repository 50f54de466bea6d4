import SimStorage.Kernel.Datum

namespace SimStorage.Journal

/-!
# Journal errors

The error values of the journal, and the two ways a journal call ends without a
result: it returns an error, or it panics.
-/

open Codec

/-- `JournalError`. -/
inductive JournalError where
  | emptyBatch
  | wrongHead
  | staleLease
  | sequenceGap
  | wrongPrevious
  | corruptEntry
  | corruptObject (id : ContentId)
  | missingPayload (id : ContentId)
  | conflictingObject
  | nonCanonicalDatum
  | missingSemanticObject (id : ContentId)
  | conflictingDelivery
  | corruptState (message : String)
  | backend (message : String)
  | writeRefused (message : String)
  | workBoundExceeded
  | injectedCrash (label : String)
  deriving Repr, DecidableEq

/-- How a call ends when it does not return a value. -/
inductive Fault where
  | refused (error : JournalError)
  | panicked (message : String)
  deriving Repr, DecidableEq

/-- The outcome of a call that reads and writes nothing. -/
abbrev Result := Except Fault

/-- A sequence of two computations succeeds through both. -/
theorem bind_eq_ok
    {α β : Type}
    {first : Result α}
    {next : α → Result β}
    {result : β} :
    (first >>= next) = .ok result ↔
      ∃ value, first = .ok value ∧ next value = .ok result := by
  cases first with
  | error fault => simp [bind, Except.bind]
  | ok value => simp [bind, Except.bind]

/-- Return a journal error. -/
def refuse {α : Type} (error : JournalError) : Result α :=
  .error (.refused error)

/-- Panic with a message. -/
def panicWith {α : Type} (message : String) : Result α :=
  .error (.panicked message)

/-- Report the absence of a value as a journal error. -/
def okOr {α : Type} (value : Option α) (error : JournalError) : Result α :=
  match value with
  | some found => .ok found
  | none => refuse error

@[simp] theorem okOr_eq_ok
    {α : Type}
    {value : Option α}
    {error : JournalError}
    {found : α} :
    okOr value error = .ok found ↔ value = some found := by
  cases value <;> simp [okOr, refuse]

/-- `isize::MAX`: no allocation is larger. -/
def isizeMax : Nat :=
  2 ^ 63 - 1

theorem isizeMax_lt_wordBound : isizeMax < wordBound := by
  decide

/-- `Vec::with_capacity`: room for `count` elements of a given size. -/
def withCapacity (elementSize count : Nat) : Result Unit :=
  if elementSize * count ≤ isizeMax then
    .ok ()
  else
    panicWith "capacity overflow"

/-- A finished byte vector; growing one past the allocation limit panics. -/
def finishBytes (bytes : Bytes) : Result Bytes :=
  if bytes.length ≤ isizeMax then
    .ok bytes
  else
    panicWith "capacity overflow"

theorem finishBytes_eq_ok
    {bytes found : Bytes} :
    finishBytes bytes = .ok found ↔
      found = bytes ∧ bytes.length ≤ isizeMax := by
  unfold finishBytes
  split
  · next small =>
      simp only [Except.ok.injEq]
      exact ⟨fun same => ⟨same.symm, small⟩, fun both => both.1.symm⟩
  · next large => simp [panicWith, large]

/-- `u64::checked_add(1)`. -/
def checkedSucc (value : UInt64) : Option UInt64 :=
  if value.toNat + 1 < 2 ^ 64 then some (value + 1) else none

theorem checkedSucc_eq_some
    {value next : UInt64} :
    checkedSucc value = some next ↔ next.toNat = value.toNat + 1 := by
  unfold checkedSucc
  split
  · next small =>
      have sum : (value + 1).toNat = value.toNat + 1 := by
        rw [UInt64.toNat_add]
        exact Nat.mod_eq_of_lt small
      rw [Option.some.injEq]
      constructor
      · rintro rfl
        exact sum
      · intro same
        exact UInt64.toNat_inj.mp (sum.trans same.symm)
  · next large =>
      have bounded : next.toNat < 2 ^ 64 := next.toNat_lt
      simp only [reduceCtorEq, false_iff]
      omega

end SimStorage.Journal
