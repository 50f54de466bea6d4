import SimStorage.Journal.Host.Readback

namespace SimStorage.Journal.Host

/-!
# The upgrade of a v1 store

Coordinators select the v2 format while a v1 writer still shares the store.
What a reader sees does not change: the new envelope commits the log that the
last v1 state committed, the leaves below a v1 head stay as they are, and no
exchange that expects a v1 state succeeds after the selection.
-/

open Codec NativeCodec Interaction

variable {deployment : Deployment} {me : CallId}
variable {first leaf : Option Bytes} {history : List Event}
variable {start world after : World} {system later : HostSystem}

section Definitions

/-- A content of the state leaf in the v2 format. -/
def IsV2 (leaf : Option Bytes) : Prop :=
  ∃ bytes, leaf = some bytes ∧ isV1State bytes = false

/-- What `read_state` returns when it finds this content in the state leaf. -/
def World.DecodesAs (kernel : Kernel) (world : World) (leaf : Option Bytes)
    (state : StoredState) : Prop :=
  ∃ backend, Anchored world.present (readStateFrom kernel backend leaf)
    (.ok state)

/-- A store before its upgrade, with objects only where their names say. -/
structure V1Store (kernel : Kernel) (world : World) : Prop
    extends Untouched world where
  notV2 : ¬ IsV2 world.state
  placed : ∀ path bytes, world.leaf path = some bytes →
    path.head? = some "objects-v2" →
    Placed kernel (fun _ => True) path bytes

/-- The exchange that selected v2, and only exchanges of v2 states since. -/
structure Deployment.Selection (deployment : Deployment)
    (history : List Event) (last chosen : Option Bytes) : Prop where
  notV2 : ¬ IsV2 last
  isV2 : IsV2 chosen
  recorded : ∃ me events earlier,
    deployment.workload me = .acquireLease ∧
      history = events ++ .exchanged (some me) last chosen :: earlier ∧
      ∀ caller old new, .exchanged caller old new ∈ events → IsV2 old

end Definitions

section Selections

theorem IsV2.of_selects
    {kernel : Kernel} {envelope : NativeStateEnvelope}
    (selects : Selects kernel leaf envelope) :
    IsV2 leaf := by
  obtain ⟨bytes, same, isV2, _⟩ := selects
  exact ⟨bytes, same, isV2⟩

/-- An exchange of a v2 state is a coordinator's and leaves a v2 state. -/
theorem Deployment.Exchange.v2
    {caller : Option CallId} {old new : Option Bytes}
    (exchange : deployment.Exchange True world caller old new)
    (isV2 : IsV2 old) :
    IsV2 new ∧ caller ≠ none := by
  cases exchange with
  | leased _ leases =>
      obtain ⟨_, _, _, selects, _⟩ := leases.fences
      exact ⟨.of_selects selects, by simp⟩
  | appended _ appends =>
      obtain ⟨_, _, _, selects, _⟩ := appends.envelopes
      exact ⟨.of_selects selects, by simp⟩
  | confirmed _ _ => exact ⟨isV2, by simp⟩
  | legacy _ isV1 _ =>
      obtain ⟨_, same, notV1⟩ := isV2
      cases same
      rw [isV1] at notV1
      cases notV1

/-- An exchange from another state to a v2 state is a lease. -/
theorem Deployment.Exchange.selects
    {caller : Option CallId} {old new : Option Bytes}
    (exchange : deployment.Exchange True world caller old new)
    (notV2 : ¬ IsV2 old)
    (isV2 : IsV2 new) :
    ∃ me, caller = some me ∧ deployment.workload me = .acquireLease ∧
      deployment.Leases True world old new := by
  cases exchange with
  | leased working leases => exact ⟨_, rfl, working, leases⟩
  | appended _ appends =>
      obtain ⟨_, _, selects, _⟩ := appends.envelopes
      exact absurd (.of_selects selects) notV2
  | confirmed _ _ => exact absurd isV2 notV2
  | legacy _ _ isV1 =>
      obtain ⟨_, same, notV1⟩ := isV2
      cases same
      rw [isV1] at notV1
      cases notV1

/-- An exchange of a v2 state extends the log that it commits. -/
theorem Deployment.Exchange.continues
    {caller : Option CallId} {old new : Option Bytes}
    {log : List JournalEntry} {state : StoredState}
    (exchange : deployment.Exchange True world caller old new)
    (isV2 : IsV2 old)
    (commits : deployment.Commits world old log state) :
    ∃ more now, deployment.Commits world new (log ++ more) now := by
  cases exchange with
  | leased _ leases =>
      obtain ⟨found, same, before, now⟩ := leases.logs trivial
      obtain ⟨rfl, rfl⟩ := commits.unique before
      exact ⟨[], state, by rwa [List.append_nil]⟩
  | appended _ appends =>
      obtain ⟨found, same, last, before, now⟩ := appends.logs trivial
      obtain ⟨rfl, rfl⟩ := commits.unique before
      exact ⟨_, last, now⟩
  | confirmed _ _ => exact ⟨[], state, by rwa [List.append_nil]⟩
  | legacy _ isV1 _ =>
      obtain ⟨_, same, notV1⟩ := isV2
      cases same
      rw [isV1] at notV1
      cases notV1

/--
The history of a v2 state: it was selected once, with the log of the last
other state, and its log has only grown since.
-/
theorem Recorded.selected
    (recorded : Recorded deployment True world first history leaf)
    (begins : ¬ IsV2 first)
    (isV2 : IsV2 leaf) :
    ∃ last chosen log state more now,
      deployment.Selection history last chosen ∧
        deployment.Commits world last log state ∧
        deployment.Commits world chosen log state ∧
        deployment.Commits world leaf (log ++ more) now := by
  have extended {history : List Event} {caller : Option CallId}
      {last chosen old new : Option Bytes}
      (selection : deployment.Selection history last chosen)
      (wasV2 : IsV2 old) :
      deployment.Selection (.exchanged caller old new :: history) last
        chosen := by
    obtain ⟨me, events, earlier, working, cut, only⟩ := selection.recorded
    refine ⟨selection.notV2, selection.isV2, me,
      .exchanged caller old new :: events, earlier, working, by rw [cut]; rfl,
      fun origin before behind member => ?_⟩
    rcases List.mem_cons.mp member with here | inside
    · cases here
      exact wasV2
    · exact only origin before behind inside
  induction recorded with
  | start => exact absurd isV2 begins
  | @exchanged caller old new history _ exchange inductionHypothesis =>
      by_cases wasV2 : IsV2 old
      · obtain ⟨last, chosen, log, state, more, now, selection, before, same,
          commits⟩ := inductionHypothesis wasV2
        obtain ⟨further, current, grown⟩ := exchange.continues wasV2 commits
        rw [List.append_assoc] at grown
        exact ⟨last, chosen, log, state, _, current, extended selection wasV2,
          before, same, grown⟩
      · obtain ⟨me, rfl, working, leases⟩ := exchange.selects wasV2 isV2
        obtain ⟨log, state, before, now⟩ := leases.logs trivial
        exact ⟨old, new, log, state, [], state,
          ⟨wasV2, isV2, me, [], history, working, rfl, by simp⟩, before, now,
          by rwa [List.append_nil]⟩
  | @acted me publication old new history _ working appends
      inductionHypothesis =>
      obtain ⟨_, _, selects, _⟩ := appends.envelopes
      have wasV2 : IsV2 old := .of_selects selects
      obtain ⟨last, chosen, log, state, more, now, selection, before, same,
        commits⟩ := inductionHypothesis wasV2
      have exchange : deployment.Exchange True world (some me) old new :=
        .appended working appends
      obtain ⟨further, current, grown⟩ := exchange.continues wasV2 commits
      rw [List.append_assoc] at grown
      obtain ⟨notV2, chosenV2, caller, events, earlier, leasing, cut, only⟩ :=
        @extended _ (some me) _ _ _ new selection wasV2
      refine ⟨last, chosen, log, state, _, current,
        ⟨notV2, chosenV2, caller, .acted me :: events, earlier, leasing,
          by rw [cut]; rfl, fun origin before behind member => ?_⟩, before,
        same, grown⟩
      rcases List.mem_cons.mp member with here | inside
      · cases here
      · exact only origin before behind inside

end Selections

section Movement

/-- A move of a v2 store leaves it v2, and only coordinators exchange it. -/
theorem Deployment.Effect.v2
    {caller : Option CallId}
    (effect : deployment.Effect True caller world after)
    (isV2 : IsV2 world.state) :
    IsV2 after.state ∧ ∃ events, after.history = events ++ world.history ∧
      ∀ origin old new, .exchanged origin old new ∈ events →
        IsV2 old ∧ origin ≠ none := by
  cases effect with
  | quiet leaves history =>
      refine ⟨?_, [], history, by simp⟩
      rwa [World.state, leaves]
  | written placed _ leaves history =>
      refine ⟨?_, [], history, by simp⟩
      rwa [World.state, leaves, if_neg (Ne.symm placed.path_ne)]
  | @exchanged old new same exchange leaves history =>
      rw [same] at isV2
      obtain ⟨newV2, coordinator⟩ := exchange.v2 isV2
      refine ⟨?_, [_], history, fun origin before behind member => ?_⟩
      · rwa [World.state, leaves, if_pos rfl]
      · cases List.mem_singleton.mp member
        exact ⟨isV2, coordinator⟩
  | acted _ _ leaves history =>
      refine ⟨?_, [_], history, by simp⟩
      rwa [World.state, leaves]
  | legacy _ _ notState _ _ leaves history =>
      refine ⟨?_, [], history, by simp⟩
      rwa [World.state, leaves, if_neg (Ne.symm notState)]

theorem v2_of_moves
    (moves : Relation.ReflTransGen (deployment.protocol True).Move world after)
    (isV2 : IsV2 world.state) :
    IsV2 after.state ∧ ∃ events, after.history = events ++ world.history ∧
      ∀ origin old new, .exchanged origin old new ∈ events →
        IsV2 old ∧ origin ≠ none := by
  induction moves with
  | refl => exact ⟨isV2, [], rfl, by simp⟩
  | tail _ last inductionHypothesis =>
      obtain ⟨still, events, history, only⟩ := inductionHypothesis
      obtain ⟨_, effect⟩ := effect_of_move last
      obtain ⟨final, more, grown, onlyMore⟩ := effect.v2 still
      refine ⟨final, more ++ events, ?_, fun origin old new member => ?_⟩
      · rw [grown, history, List.append_assoc]
      · rcases List.mem_append.mp member with late | early
        · exact onlyMore origin old new late
        · exact only origin old new early

/-- A leaf that a v1 head has reached is never written. -/
theorem Deployment.Effect.v1Reached
    {caller : Option CallId} {path : Path}
    (effect : deployment.Effect True caller world after)
    (reached : V1Reached deployment.kernel world path) :
    V1Reached deployment.kernel after path ∧
      after.leaf path = world.leaf path := by
  obtain ⟨bytes, ever, leaf⟩ := id reached
  exact ⟨⟨bytes, effect.ever ever, effect.v1Leaf ever leaf⟩,
    effect.constant leaf.outside.1 leaf.outside.2 (.inr reached)⟩

theorem v1Reached_of_moves
    {path : Path}
    (moves : Relation.ReflTransGen (deployment.protocol True).Move world after)
    (reached : V1Reached deployment.kernel world path) :
    V1Reached deployment.kernel after path ∧
      after.leaf path = world.leaf path := by
  induction moves with
  | refl => exact ⟨reached, rfl⟩
  | tail _ last inductionHypothesis =>
      obtain ⟨still, same⟩ := inductionHypothesis
      obtain ⟨_, effect⟩ := effect_of_move last
      obtain ⟨final, kept⟩ := effect.v1Reached still
      exact ⟨final, kept.trans same⟩

end Movement

section Decoding

variable {log : List JournalEntry} {state found : StoredState}

/-- What settled leaves commit for a leaf content is what it decodes to. -/
theorem decodesAs_iff
    (commits : deployment.Commits world leaf log state) :
    world.DecodesAs deployment.kernel leaf found ↔ found = state := by
  have present := commits.mono fun _ _ settled => settled.2
  constructor
  · rintro ⟨backend, anchored⟩
    have expected := Committed.anchored present backend
    have same := anchored.unique
      (fun _ _ _ here there => Option.some.inj (here.symm.trans there))
      expected
    split at same
    · exact Except.ok.inj same
    · cases same
  · rintro rfl
    refine ⟨⟨⟨true, true⟩, log.length⟩, ?_⟩
    have anchored := Committed.anchored present ⟨⟨true, true⟩, log.length⟩
    rwa [if_pos (Nat.le_refl _)] at anchored

/-- A fixed reader that is anchored in the store is anchored in fixed leaves. -/
theorem ReadsFixed.anchored
    {α : Type} {program : HostProgram α} {outcome : Result α}
    {fixed : Path → Prop}
    (isFixed : ReadsFixed fixed world.leaf program)
    (anchored : Anchored world.present program outcome) :
    Anchored (fun path bytes => fixed path ∧ world.leaf path = some bytes)
      program outcome := by
  induction anchored with
  | ret value => exact .ret value
  | fail fault => exact .fail fault
  | read found _ inductionHypothesis =>
      exact .read ⟨isFixed.1, found⟩ (inductionHypothesis (isFixed.2 _ found))

/-- What the store decodes to is committed through settled leaves. -/
theorem commits_of_decodes
    (inv : Inv deployment True first world)
    (decodes : world.Decodes deployment.kernel state) :
    ∃ log, deployment.Commits world world.state log state := by
  obtain ⟨backend, anchored⟩ := id decodes
  cases current : world.state with
  | none =>
      rw [current] at anchored
      obtain rfl := anchored.ret_ok
      exact ⟨[], .absent⟩
  | some bytes =>
      by_cases isV1 : isV1State bytes = true
      · rw [current] at anchored
        simp only [readStateFrom, isV1, if_true] at anchored
        obtain ⟨⟨fence, head⟩, decoded, rest⟩ := anchored.bind_ok
        cases head with
        | none =>
            obtain rfl := rest.ret_ok
            exact ⟨[], .emptyV1 isV1 decoded.pureResult_ok⟩
        | some physicalHead =>
            obtain ⟨⟨found, canonical⟩, read, returned⟩ := rest.bind_ok
            obtain rfl := returned.ret_ok
            have ever : world.Ever bytes := .inl current
            have settled := ((readV1_readsFixed backend).anchored read).mono
              fun path content here =>
                (⟨⟨here.1.outside.1, .inr (.inr ⟨bytes, ever, here.1⟩)⟩,
                  here.2⟩ : deployment.Settled world path content)
            obtain ⟨log, commits, _⟩ := committed_of_readV1 isV1 settled
            exact ⟨log, commits⟩
      · have isV2 : isV1State bytes = false := by simpa using isV1
        obtain ⟨log, other, commits⟩ :=
          inv.commits_of_ever trivial (.inl current) isV2
        rw [← current] at commits
        obtain rfl := (decodes_iff commits).mp decodes
        exact ⟨log, current ▸ commits⟩

end Decoding

section Upgrades

variable {state : StoredState}

/-- The exchange of a lease commits the same state before and after it. -/
theorem Sound.leased
    (sound : Sound deployment True start)
    (reaches : deployment.Reaches start system)
    (step : deployment.Step system later)
    (working : deployment.workload me = .acquireLease)
    {old new : Option Bytes}
    (exchanged : later.world.history =
      .exchanged (some me) old new :: system.world.history) :
    ∃ log state,
      deployment.Commits system.world system.world.state log state ∧
        deployment.Commits later.world later.world.state log state := by
  obtain ⟨_, same | move⟩ :=
    step.sound (resumable sound.lawful) (sound.allSafe reaches)
  · rw [same] at exchanged
    exact absurd exchanged (List.cons_ne_self _ _).symm
  obtain ⟨caller, effect⟩ := effect_of_move move
  have impossible (kept : later.world.history = system.world.history) :
      False :=
    List.cons_ne_self _ _ (exchanged.symm.trans kept)
  cases effect with
  | quiet _ kept => exact (impossible kept).elim
  | written _ _ _ kept => exact (impossible kept).elim
  | legacy _ _ _ _ _ _ kept => exact (impossible kept).elim
  | acted _ _ _ acted =>
      cases (List.cons.inj (exchanged.symm.trans acted)).1
  | exchanged same exchange leaves history =>
      cases (List.cons.inj (exchanged.symm.trans history)).1
      have current : later.world.state = new := by
        rw [World.state, leaves, if_pos rfl]
      have leases : deployment.Leases True system.world old new := by
        cases exchange with
        | leased _ leases => exact leases
        | appended other _ =>
            rw [working] at other
            cases other
        | confirmed other _ =>
            rw [working] at other
            cases other
      obtain ⟨log, state, before, now⟩ := leases.logs trivial
      have kept := Deployment.Effect.commits
        (.exchanged same exchange leaves history) now
      rw [same, current]
      exact ⟨log, state, before, kept⟩

/-- What readers see while coordinators upgrade a store and a v1 writer runs. -/
structure Deployment.Upgrades (deployment : Deployment) (start : World) :
    Prop where
  /-- The exchange of a lease leaves what is read as it is. -/
  leases : ∀ system later me old new, deployment.Reaches start system →
    deployment.Step system later → deployment.workload me = .acquireLease →
    later.world.history =
      .exchanged (some me) old new :: system.world.history →
    ∃ state, ∀ found,
      (system.world.Decodes deployment.kernel found ↔ found = state) ∧
        (later.world.Decodes deployment.kernel found ↔ found = state)
  /-- A v2 store reads as a continuation of the last other state. -/
  continues : ∀ system, deployment.Reaches start system →
    IsV2 system.world.state →
    ∃ last chosen state now,
      deployment.Selection system.world.history last chosen ∧
        system.world.DecodesAs deployment.kernel last state ∧
        system.world.DecodesAs deployment.kernel chosen state ∧
        system.world.Decodes deployment.kernel now ∧
        state.entries.list <+: now.entries.list
  /-- After a selection, no exchange of another state succeeds. -/
  closes : ∀ system later, deployment.Reaches start system →
    deployment.Steps system later → IsV2 system.world.state →
    IsV2 later.world.state ∧
      ∃ events, later.world.history = events ++ system.world.history ∧
        ∀ caller old new, .exchanged caller old new ∈ events →
          IsV2 old ∧ caller ≠ none
  /-- The leaves below a v1 head stay as they are. -/
  keeps : ∀ system later path, deployment.Reaches start system →
    deployment.Steps system later →
    V1Reached deployment.kernel system.world path →
    later.world.leaf path = system.world.leaf path
  /-- A read returns what the store decoded to when it read the state leaf. -/
  reads : ∀ system next later me state, deployment.Reaches start system →
    deployment.workload me = .readState → ¬ deployment.port.faulty me →
    system.programs me = some (deployment.program me) →
    system.world.Decodes deployment.kernel state →
    state.entries.list.length ≤ (deployment.backends me).workBound →
    deployment.Issues me system next → deployment.Steps next later →
    deployment.BoundFor me (.state state) later

/-- A v1 store is a sound start. -/
theorem V1Store.sound
    (store : V1Store deployment.kernel start)
    (lawful : deployment.kernel.Lawful) :
    Sound deployment True start := by
  refine ⟨lawful, store.toUntouched, fun _ => ⟨?_, store.placed⟩⟩
  intro bytes current isV2
  exact absurd ⟨bytes, current, isV2⟩ store.notV2

/-- Upgrades of a v1 store keep its history. -/
theorem upgrade_keeps_history
    (lawful : deployment.kernel.Lawful)
    (store : V1Store deployment.kernel start) :
    deployment.Upgrades start := by
  have sound := store.sound lawful
  refine ⟨?_, ?_, ?_, ?_, ?_⟩
  · intro system later me old new reaches step working exchanged
    obtain ⟨log, state, before, now⟩ :=
      sound.leased reaches step working exchanged
    exact ⟨state, fun found => ⟨decodes_iff before, decodes_iff now⟩⟩
  · intro system reaches isV2
    have recorded := (sound.inv reaches).recorded
    obtain ⟨last, chosen, log, state, more, now, selection, before, same,
      commits⟩ := recorded.selected store.notV2 isV2
    refine ⟨last, chosen, state, now, selection, (decodesAs_iff before).mpr rfl,
      (decodesAs_iff same).mpr rfl, (decodes_iff commits).mpr rfl, ?_⟩
    rw [before.holds.listed, commits.holds.listed]
    exact List.prefix_append log more
  · intro system later reaches steps isV2
    exact v2_of_moves (sound.moves reaches steps) isV2
  · intro system later path reaches steps reached
    exact (v1Reached_of_moves (sound.moves reaches steps) reached).2
  · intro system next later me state reaches reading calm running decodes
      bounded issues steps
    obtain ⟨log, commits⟩ := commits_of_decodes (sound.inv reaches) decodes
    rw [commits.holds.listed] at bounded
    have anchored := anchored_of_issues calm reading running commits bounded
      issues
    have reached := reaches.trans (.single issues.step)
    exact (sound.anchored_steps calm reached steps anchored).boundFor

/-- A store with the leaf of an empty v1 state. -/
def World.v1 : World :=
  { World.vacant with
    files := World.setLeaf ∅ statePath
      (some (stateMagic1 ++ List.replicate 9 0)) }

theorem World.v1_leaf
    (path : Path) :
    World.v1.leaf path = if path = statePath then
      some (stateMagic1 ++ List.replicate 9 0) else none := by
  have replaced := World.leaf_replace .vacant none statePath none
    (some (stateMagic1 ++ List.replicate 9 0)) path
  rw [World.vacant_empty.noLeaf] at replaced
  exact replaced

theorem World.v1_store :
    V1Store Reference.kernel .v1 where
  free := rfl
  history := rfl
  notV2 := by
    rintro ⟨bytes, current, isV2⟩
    rw [World.state, World.v1_leaf, if_pos rfl] at current
    cases current
    revert isV2
    decide
  placed path bytes present inObjects := by
    rw [World.v1_leaf] at present
    split at present
    next here =>
      subst here
      exact absurd inObjects (by decide)
    · cases present

/-- Two calls upgrade a store that a v1 writer shares, and the others read. -/
def Deployment.upgrading : Deployment where
  kernel := Reference.kernel
  port := ⟨true, fun me => me < 2, True⟩
  backends _ := ⟨⟨true, true⟩, 64⟩
  workload
    | 0 => .acquireLease
    | 1 => .acquireLease
    | 2 => .publish referencePublication
    | _ => .readState

theorem upgrading_keeps_history :
    Deployment.upgrading.Upgrades .v1 :=
  upgrade_keeps_history Reference.kernel_lawful World.v1_store

end Upgrades

end SimStorage.Journal.Host
