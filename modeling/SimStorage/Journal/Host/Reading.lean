import SimStorage.Journal.Host.Backend

namespace SimStorage.Journal.Host

/-!
# Reading programs

The readers of the backend only read leaves, and fail when a read fails.
`Anchored known program outcome` says that a reader, answered with known leaf
bytes, ends in a given outcome.  A run of the reader in which the known leaves
keep their bytes ends in that outcome, whatever else changes meanwhile.
-/

open Codec NativeCodec Interaction

variable {α β : Type}

/-- A program that only reads leaves, and fails when a read fails. -/
def ReadsOnly : HostProgram α → Prop
  | .ret _ => True
  | .fail _ => True
  | .call (.read _) next =>
      (∀ bytes, ReadsOnly (next (.ok bytes))) ∧
        ∀ error, ∃ fault, next (.error error) = .fail fault
  | .call _ _ => False

/-- A reader that is answered with known leaf bytes ends in an outcome. -/
inductive Anchored (known : Path → Bytes → Prop) :
    HostProgram α → Result α → Prop where
  | ret (value : α) :
      Anchored known (.ret value) (.ok value)
  | fail (fault : Fault) :
      Anchored known (.fail fault) (.error fault)
  | read {path : Path} {bytes : Bytes}
      {next : PortResult Bytes → HostProgram α} {outcome : Result α} :
      known path bytes →
      Anchored known (next (.ok bytes)) outcome →
      Anchored known (.call (.read path) next) outcome

/-- A reader that only reads leaves of which each is fixed to its content. -/
def ReadsFixed (fixed : Path → Prop) (current : Path → Option Bytes) :
    HostProgram α → Prop
  | .ret _ => True
  | .fail _ => True
  | .call (.read path) next =>
      fixed path ∧
        ∀ bytes, current path = some bytes →
          ReadsFixed fixed current (next (.ok bytes))
  | .call _ _ => False

namespace ReadsOnly

theorem pureResult
    (result : Result α) :
    ReadsOnly (pureResult result) := by
  cases result <;> exact trivial

theorem bind
    {program : HostProgram α} {next : α → HostProgram β}
    (first : ReadsOnly program)
    (rest : ∀ value, ReadsOnly (next value)) :
    ReadsOnly (program >>= next) := by
  induction program with
  | ret value => exact rest value
  | fail fault => exact trivial
  | call request continuation inductionHypothesis =>
      cases request with
      | read path =>
          refine ⟨fun bytes => ?_, fun error => ?_⟩
          · exact inductionHypothesis (.ok bytes) (first.1 bytes)
          · obtain ⟨fault, failed⟩ := first.2 error
            refine ⟨fault, ?_⟩
            change continuation (.error error) >>= next = _
            rw [failed]
            rfl
      | _ => exact first.elim

theorem load
    (path : Path) :
    ReadsOnly (load path) :=
  ⟨fun _ => trivial, fun error => ⟨portError error, rfl⟩⟩

end ReadsOnly

namespace Anchored

variable {known : Path → Bytes → Prop}

/-- What is known may be weakened to more knowledge. -/
theorem mono
    {wider : Path → Bytes → Prop}
    {program : HostProgram α} {outcome : Result α}
    (anchored : Anchored known program outcome)
    (includes : ∀ path bytes, known path bytes → wider path bytes) :
    Anchored wider program outcome := by
  induction anchored with
  | ret value => exact .ret value
  | fail fault => exact .fail fault
  | read found _ inductionHypothesis =>
      exact .read (includes _ _ found) inductionHypothesis

theorem pureResult
    (result : Result α) :
    Anchored known (pureResult result) result := by
  cases result with
  | ok value => exact .ret value
  | error fault => exact .fail fault

theorem load
    {path : Path} {bytes : Bytes}
    (found : known path bytes) :
    Anchored known (load path) (.ok bytes) :=
  .read found (.ret bytes)

theorem bind
    {program : HostProgram α} {next : α → HostProgram β}
    {value : α} {outcome : Result β}
    (first : Anchored known program (.ok value))
    (rest : Anchored known (next value) outcome) :
    Anchored known (program >>= next) outcome := by
  generalize reached : (Except.ok value : Result α) = result at first
  induction first with
  | ret found =>
      cases reached
      exact rest
  | fail fault => cases reached
  | read found _ inductionHypothesis =>
      exact .read found (inductionHypothesis reached)

theorem bind_error
    {program : HostProgram α} {fault : Fault}
    (next : α → HostProgram β)
    (first : Anchored known program (.error fault)) :
    Anchored known (program >>= next) (.error fault) := by
  generalize reached : (Except.error fault : Result α) = result at first
  induction first with
  | ret found => cases reached
  | fail found =>
      cases reached
      exact .fail fault
  | read found _ inductionHypothesis =>
      exact .read found (inductionHypothesis reached)

/-- A check that makes no request, and the rest. -/
theorem check
    {result : Result α} {next : α → HostProgram β}
    {value : α} {outcome : Result β}
    (passes : result = .ok value)
    (rest : Anchored known (next value) outcome) :
    Anchored known (Host.pureResult result >>= next) outcome := by
  subst passes
  exact rest

/-- A sequence that succeeds does so through both parts. -/
theorem bind_ok
    {program : HostProgram α} {next : α → HostProgram β} {result : β}
    (anchored : Anchored known (program >>= next) (.ok result)) :
    ∃ value, Anchored known program (.ok value) ∧
      Anchored known (next value) (.ok result) := by
  induction program with
  | ret value => exact ⟨value, .ret value, anchored⟩
  | fail fault => cases anchored
  | call request continuation inductionHypothesis =>
      cases request with
      | read path =>
          cases anchored with
          | read found rest =>
              obtain ⟨value, first, later⟩ := inductionHypothesis _ rest
              exact ⟨value, .read found first, later⟩
      | _ => cases anchored

theorem pureResult_ok
    {result : Result α} {value : α}
    (anchored : Anchored known (Host.pureResult result) (.ok value)) :
    result = .ok value := by
  cases result with
  | ok found =>
      cases anchored
      rfl
  | error fault => cases anchored

theorem load_ok
    {path : Path} {bytes : Bytes}
    (anchored : Anchored known (Host.load path) (.ok bytes)) :
    known path bytes := by
  cases anchored with
  | read found rest =>
      cases rest
      exact found

theorem ret_ok
    {value found : α}
    (anchored : Anchored known (.ret value : HostProgram α) (.ok found)) :
    found = value := by
  cases anchored
  rfl

/-- With one value known for each leaf, there is one outcome. -/
theorem unique
    {program : HostProgram α} {first second : Result α}
    (functional : ∀ path bytes other,
      known path bytes → known path other → bytes = other)
    (anchored : Anchored known program first)
    (other : Anchored known program second) :
    first = second := by
  induction anchored with
  | ret value =>
      cases other
      rfl
  | fail fault =>
      cases other
      rfl
  | read found _ inductionHypothesis =>
      cases other with
      | read otherFound rest =>
          cases functional _ _ _ found otherFound
          exact inductionHypothesis rest

/--
A reader run by a call ends in its anchored outcome, when the known leaves keep
their bytes; only a port failure can make it fail otherwise.
-/
theorem safe
    {setting : Setting HostCall HostReply World}
    {port : Port} {me : CallId} {world : World}
    {program : HostProgram α} {outcome : Result α}
    (reads : ReadsOnly program)
    (anchored : Anchored known program outcome)
    (executes : setting.exec = Exec port me)
    (permits : ∀ path later, setting.allowed (.read path) later)
    (keeps : ∀ later, setting.drift world later → ∀ path bytes,
      known path bytes → later.leaf path = some bytes) :
    Safe setting
      (fun value final => outcome = .ok value ∧ setting.drift world final)
      (fun fault final => (outcome = .error fault ∨ port.faulty me) ∧
        setting.drift world final)
      program world := by
  have go : ∀ start, setting.drift world start →
      Safe setting
        (fun value final => outcome = .ok value ∧ setting.drift world final)
        (fun fault final => (outcome = .error fault ∨ port.faulty me) ∧
          setting.drift world final)
        program start := by
    induction anchored with
    | ret value =>
        intro start reached
        exact Safe.ret fun final moved =>
          ⟨rfl, setting.drift_trans reached moved⟩
    | fail fault =>
        intro start reached
        exact Safe.fail fun final moved =>
          ⟨.inl rfl, setting.drift_trans reached moved⟩
    | @read path bytes next outcome found _ inductionHypothesis =>
        intro start reached
        refine Safe.call fun middle moved => ⟨permits path middle, ?_⟩
        have current := setting.drift_trans reached moved
        have holds := keeps middle current path bytes found
        intro reply after executed
        rw [executes] at executed
        cases executed with
        | read present =>
            rw [holds] at present
            cases present
            exact inductionHypothesis (reads.1 _) middle current
        | readMissing missing _ =>
            rw [holds] at missing
            cases missing
        | @readFailed _ _ error faulty _ =>
            obtain ⟨fault, failed⟩ := reads.2 error
            rw [failed]
            exact Safe.fail fun final last =>
              ⟨.inr faulty, setting.drift_trans current last⟩
  exact go world (setting.drift_refl world)

end Anchored

namespace ReadsFixed

variable {fixed : Path → Prop} {current : Path → Option Bytes}

theorem pureResult
    (result : Result α) :
    ReadsFixed fixed current (pureResult result) := by
  cases result <;> exact trivial

theorem load
    {path : Path}
    (isFixed : fixed path) :
    ReadsFixed fixed current (load path) :=
  ⟨isFixed, fun _ _ => trivial⟩

/-- The value that a fixed reader passes on was read from the fixed leaves. -/
theorem bind
    {program : HostProgram α} {next : α → HostProgram β}
    (first : ReadsFixed fixed current program)
    (rest : ∀ value,
      Anchored (fun path bytes => current path = some bytes) program
        (.ok value) →
      ReadsFixed fixed current (next value)) :
    ReadsFixed fixed current (program >>= next) := by
  induction program with
  | ret value => exact rest value (.ret value)
  | fail fault => exact trivial
  | call request continuation inductionHypothesis =>
      cases request with
      | read path =>
          refine ⟨first.1, fun bytes found => ?_⟩
          exact inductionHypothesis (.ok bytes) (first.2 bytes found)
            fun value anchored => rest value (.read found anchored)
      | _ => exact first.elim

/--
A fixed reader run by a call returns what the fixed leaves say, when they keep
their content.
-/
theorem safe
    {setting : Setting HostCall HostReply World}
    {port : Port} {me : CallId} {world : World}
    {program : HostProgram α}
    (reads : ReadsOnly program)
    (isFixed : ReadsFixed fixed current program)
    (executes : setting.exec = Exec port me)
    (permits : ∀ path later, setting.allowed (.read path) later)
    (keeps : ∀ later, setting.drift world later → ∀ path,
      fixed path → later.leaf path = current path) :
    Safe setting
      (fun value final =>
        Anchored (fun path bytes => fixed path ∧ current path = some bytes)
          program (.ok value) ∧ setting.drift world final)
      (fun _ final => setting.drift world final)
      program world := by
  have go : ∀ start, setting.drift world start →
      Safe setting
        (fun value final =>
          Anchored (fun path bytes => fixed path ∧ current path = some bytes)
            program (.ok value) ∧ setting.drift world final)
        (fun _ final => setting.drift world final)
        program start := by
    induction program with
    | ret value =>
        intro start reached
        exact Safe.ret fun final moved =>
          ⟨.ret value, setting.drift_trans reached moved⟩
    | fail fault =>
        intro start reached
        exact Safe.fail fun final moved => setting.drift_trans reached moved
    | call request next inductionHypothesis =>
        intro start reached
        cases request with
        | read path =>
            refine Safe.call fun middle moved => ⟨permits path middle, ?_⟩
            have now := setting.drift_trans reached moved
            have holds := keeps middle now path isFixed.1
            intro reply after executed
            rw [executes] at executed
            cases executed with
            | @read _ _ bytes present =>
                rw [holds] at present
                exact (inductionHypothesis (.ok bytes) (reads.1 bytes)
                  (isFixed.2 bytes present) middle now).weaken
                    (fun _ _ both =>
                      ⟨.read ⟨isFixed.1, present⟩ both.1, both.2⟩)
                    (fun _ _ failed => failed)
            | @readMissing _ _ error _ _ =>
                obtain ⟨fault, failed⟩ := reads.2 error
                rw [failed]
                exact Safe.fail fun final last => setting.drift_trans now last
            | @readFailed _ _ error _ _ =>
                obtain ⟨fault, failed⟩ := reads.2 error
                rw [failed]
                exact Safe.fail fun final last => setting.drift_trans now last
        | _ => exact reads.elim
  exact go world (setting.drift_refl world)

end ReadsFixed

/-- A reader run by a call may do so in any store. -/
theorem ReadsOnly.safe
    {setting : Setting HostCall HostReply World}
    {port : Port} {me : CallId} {world : World}
    {program : HostProgram α}
    (reads : ReadsOnly program)
    (executes : setting.exec = Exec port me)
    (permits : ∀ path later, setting.allowed (.read path) later) :
    Safe setting
      (fun _ final => setting.drift world final)
      (fun _ final => setting.drift world final)
      program world := by
  have go : ∀ start, setting.drift world start →
      Safe setting
        (fun _ final => setting.drift world final)
        (fun _ final => setting.drift world final)
        program start := by
    induction program with
    | ret value =>
        intro start reached
        exact Safe.ret fun final moved => setting.drift_trans reached moved
    | fail fault =>
        intro start reached
        exact Safe.fail fun final moved => setting.drift_trans reached moved
    | call request next inductionHypothesis =>
        intro start reached
        cases request with
        | read path =>
            refine Safe.call fun middle moved => ⟨permits path middle, ?_⟩
            have now := setting.drift_trans reached moved
            intro reply after executed
            rw [executes] at executed
            cases executed with
            | @read _ _ bytes _ =>
                exact inductionHypothesis (.ok bytes) (reads.1 bytes) middle now
            | @readMissing _ _ error _ _ =>
                obtain ⟨fault, failed⟩ := reads.2 error
                rw [failed]
                exact Safe.fail fun final last => setting.drift_trans now last
            | @readFailed _ _ error _ _ =>
                obtain ⟨fault, failed⟩ := reads.2 error
                rw [failed]
                exact Safe.fail fun final last => setting.drift_trans now last
        | _ => exact reads.elim
  exact go world (setting.drift_refl world)

section Readers

variable {kernel : Kernel}

theorem readV1Payloads_readsOnly
    (state : StoredState)
    (payloads : List ContentId) :
    ReadsOnly (readV1Payloads kernel state payloads) := by
  induction payloads generalizing state with
  | nil => exact trivial
  | cons oldId rest inductionHypothesis =>
      refine .bind (.load _) fun payload => ?_
      by_cases differs : v1ObjectId kernel payload ≠ oldId
      · rw [if_pos differs]
        exact trivial
      · rw [if_neg differs]
        refine .bind (.pureResult _) fun object => ?_
        exact .bind (inductionHypothesis _) fun later => trivial

theorem readV1Entries_readsOnly
    (progress : V1Progress)
    (next remaining : Nat) :
    ReadsOnly (readV1Entries kernel progress next remaining) := by
  induction remaining generalizing progress next with
  | zero => exact trivial
  | succ remaining inductionHypothesis =>
      refine .bind ?_ fun later => inductionHypothesis later (next + 1)
      refine .bind (.load _) fun bytes => .bind (.pureResult _) fun old => ?_
      refine .bind (.pureResult _) fun _ => ?_
      refine .bind (readV1Payloads_readsOnly _ _) fun payloads => ?_
      exact .bind (.pureResult _) fun entry => trivial

theorem readV1_readsOnly
    (backend : HostDirJournalBackend)
    (stateBytes : Bytes) :
    ReadsOnly (readV1 kernel backend stateBytes) := by
  refine .bind (.pureResult _) fun found => ?_
  rcases found with ⟨_, _ | physicalHead⟩
  · exact trivial
  · refine .bind (.pureResult _) fun needed => ?_
    exact .bind (readV1Entries_readsOnly _ _ _) fun progress => .pureResult _

theorem readPrefix_readsOnly
    (backend : HostDirJournalBackend)
    (reference : VerifiedNativePrefixRef) :
    ReadsOnly (readPrefix kernel backend reference) := by
  refine .bind (.load _) fun bytes => .bind (.pureResult _) fun checked => ?_
  exact .bind (readV1_readsOnly _ _) fun found => .pureResult _

theorem readV2Payloads_readsOnly
    (state : StoredState)
    (payloads : List (ContentId × StoredDatumRef)) :
    ReadsOnly (readV2Payloads kernel state payloads) := by
  induction payloads generalizing state with
  | nil => exact trivial
  | cons pair rest inductionHypothesis =>
      rcases pair with ⟨meaning, reference⟩
      unfold readV2Payloads
      by_cases differs : meaning ≠ reference.meaning
      · rw [if_pos differs]
        exact trivial
      · rw [if_neg differs]
        refine .bind (.bind (.load _) fun bytes => .pureResult _)
          fun object => ?_
        exact inductionHypothesis _

theorem readV2Entry_readsOnly
    (state : StoredState)
    (current : EntryLocation) :
    ReadsOnly (readV2Entry kernel state current) := by
  refine .bind (.load _) fun bytes => .bind (.pureResult _) fun physical => ?_
  refine .bind (readV2Payloads_readsOnly _ _) fun later => ?_
  by_cases differs :
      physical.entry.payloads.length ≠ physical.payloads.length
  · rw [if_pos differs]
    exact trivial
  · rw [if_neg differs]
    exact trivial

theorem readV2Chain_readsOnly
    (name : EntryNamespace)
    (remaining : Nat)
    (state : StoredState)
    (location : Option EntryLocation)
    (seen : List EntryLocation)
    (suffix : List PhysicalEntry) :
    ReadsOnly (readV2Chain kernel name remaining state location seen suffix) := by
  induction remaining generalizing state location seen suffix with
  | zero =>
      cases location with
      | none => exact trivial
      | some current =>
          unfold readV2Chain
          split <;> exact trivial
  | succ remaining inductionHypothesis =>
      cases location with
      | none => exact trivial
      | some current =>
          unfold readV2Chain
          split
          · exact trivial
          · refine .bind (readV2Entry_readsOnly _ _) fun found => ?_
            exact inductionHypothesis _ _ _ _

theorem readV2_readsOnly
    (backend : HostDirJournalBackend)
    (envelope : NativeStateEnvelope) :
    ReadsOnly (readV2 kernel backend envelope) := by
  unfold readV2
  split
  · exact trivial
  · refine .bind (.load _) fun marker => .bind (.pureResult _) fun _ => ?_
    refine .bind ?_ fun base => ?_
    · unfold readBase
      split
      · exact readPrefix_readsOnly _ _
      · exact trivial
    · exact .bind (readV2Chain_readsOnly _ _ _ _ _ _) fun found =>
        .pureResult _

theorem readStateFrom_readsOnly
    (backend : HostDirJournalBackend)
    (observed : Option Bytes) :
    ReadsOnly (readStateFrom kernel backend observed) := by
  cases observed with
  | none => exact trivial
  | some bytes =>
      simp only [readStateFrom]
      by_cases v1 : isV1State bytes = true
      · rw [if_pos v1]
        apply ReadsOnly.bind (.pureResult _)
        intro found
        rcases found with ⟨_, _ | physicalHead⟩
        · exact trivial
        · exact .bind (readV1_readsOnly _ _) fun state => trivial
      · rw [if_neg v1]
        exact .bind (.pureResult _) fun envelope => readV2_readsOnly _ _

end Readers

end SimStorage.Journal.Host
