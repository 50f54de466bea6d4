import SimStorage.Interaction.Transcript
import SimStorage.Site.Effects

namespace SimStorage.Site

/-!
# Bounded rows

What a driver pushes during a query or a mutation, and what of it reaches the
caller's sink.  The bounded sink answers each push by itself: it does not
remember that it refused one.
-/

open Codec Interaction

variable {R : Relations} {Cx ω κ : Type}

/-- The lengths of rows are those of a machine. -/
def Relations.Sized (R : Relations) : Prop :=
  ∀ row, R.cells row < 2 ^ 64 ∧ R.datumText row < 2 ^ 64

/-- A pushed row and its answer. -/
abbrev Push (R : Relations) :=
  Exchange R.Row fun _ => Except SiteError Unit

/-- How the bounded sink answers a push, on the counts and the caller's state. -/
def offer (expected : R.RowType) (limits : Limits) (sink : RowSink R κ)
    (row : R.Row) : EStateM Empty (Counts × κ) (Except SiteError Unit) :=
  fun (counts, caller) =>
    if R.rowType row ≠ expected then
      .ok (.error .rowType) (counts, caller)
    else
      match counts.admitted R limits row with
      | .error error => .ok (.error error) (counts, caller)
      | .ok admitted =>
          match sink row caller with
          | (.ok (), later) => .ok (.ok ()) (admitted, later)
          | (.error error, later) => .ok (.error error) (counts, later)

/-- The counts of the rows so far, if the row passes to the caller's sink. -/
def passes (expected : R.RowType) (limits : Limits) (counts : Counts)
    (row : R.Row) : Option Counts :=
  if R.rowType row = expected then
    (counts.admitted R limits row).toOption
  else
    none

/-- The rows that reach the caller's sink. -/
def reached (expected : R.RowType) (limits : Limits) :
    Counts → List (Push R) → List R.Row
  | _, [] => []
  | counts, ⟨row, answer⟩ :: rest =>
      match passes expected limits counts row, answer with
      | some admitted, .ok () => row :: reached expected limits admitted rest
      | some _, .error _ => row :: reached expected limits counts rest
      | none, _ => reached expected limits counts rest

/--
The driver heeds a refusal: afterwards no row that it pushes would reach the
sink, and it reports an error.
-/
def Heeds (expected : R.RowType) (limits : Limits) {α : Type}
    (result : Except (SiteError × ω) α) : Counts → List (Push R) → Prop
  | _, [] => True
  | counts, ⟨row, .ok ()⟩ :: rest =>
      Heeds expected limits result
        ((passes expected limits counts row).getD counts) rest
  | counts, ⟨_, .error _⟩ :: rest =>
      reached expected limits counts rest = [] ∧ ∃ error, result = .error error

/-- The rows fit the limits. -/
structure Within (R : Relations) (limits : Limits) (items : List R.Row) :
    Prop where
  rows : items.length ≤ limits.rows.toNat
  cells : (items.map R.cells).sum ≤ limits.cells.toNat
  bytes : (items.map R.datumText).sum ≤ limits.bytes.toNat

/-- The counts are those of the rows. -/
structure Counts.Tallies (R : Relations) (counts : Counts)
    (items : List R.Row) : Prop where
  rows : counts.rows.toNat = items.length
  cells : counts.cells.toNat = (items.map R.cells).sum
  bytes : counts.bytes.toNat = (items.map R.datumText).sum

/-- The rows that a trace delivered, in order. -/
def deliveredRows (trace : List (Event R Cx)) : List R.Row :=
  (trace.filterMap fun event =>
    match event with
    | .deliver _ row _ => some row
    | _ => none).reverse

section Counting

theorem Counts.zero_tallies :
    Counts.zero.Tallies R [] :=
  ⟨rfl, rfl, rfl⟩

theorem checkedAdd_eq_ok
    {kind : LimitKind} {first second sum : UInt64} :
    checkedAdd kind first second = .ok sum →
      sum.toNat = first.toNat + second.toNat := by
  intro added
  rw [checkedAdd] at added
  split at added
  · next fits =>
      cases added
      rw [UInt64.toNat_add, Nat.mod_eq_of_lt fits]
  · cases added

/-- An admitted row is counted, and the counts stay within the limits. -/
theorem Counts.Tallies.admitted
    (sized : R.Sized)
    {counts later : Counts} {limits : Limits} {row : R.Row}
    {rows : List R.Row}
    (tallies : counts.Tallies R rows)
    (admits : counts.admitted R limits row = .ok later) :
    later.Tallies R (rows ++ [row]) ∧ Within R limits (rows ++ [row]) := by
  obtain ⟨cells, text⟩ := sized row
  rw [Counts.admitted] at admits
  cases moreRows : checkedAdd .rows counts.rows 1 with
  | error error => simp [moreRows, Bind.bind, Except.bind] at admits
  | ok countedRows =>
  cases moreCells : checkedAdd .cells counts.cells
      (UInt64.ofNat (R.cells row)) with
  | error error => simp [moreRows, moreCells, Bind.bind, Except.bind] at admits
  | ok countedCells =>
  cases moreBytes : checkedAdd .bytes counts.bytes
      (UInt64.ofNat (R.datumText row)) with
  | error error =>
      simp [moreRows, moreCells, moreBytes, Bind.bind, Except.bind] at admits
  | ok countedBytes =>
  simp only [moreRows, moreCells, moreBytes, Bind.bind, Except.bind] at admits
  split at admits
  · cases admits
  next rowsFit =>
  split at admits
  · cases admits
  next cellsFit =>
  split at admits
  · cases admits
  next bytesFit =>
  cases admits
  have sumRows := checkedAdd_eq_ok moreRows
  have sumCells := checkedAdd_eq_ok moreCells
  have sumBytes := checkedAdd_eq_ok moreBytes
  rw [UInt64.toNat_ofNat_of_lt' cells, tallies.cells] at sumCells
  rw [UInt64.toNat_ofNat_of_lt' text, tallies.bytes] at sumBytes
  rw [tallies.rows] at sumRows
  have rowsTallied : countedRows.toNat = (rows ++ [row]).length := by
    rw [sumRows, List.length_append]
    rfl
  have cellsTallied : countedCells.toNat =
      ((rows ++ [row]).map R.cells).sum := by
    rw [sumCells]
    simp
  have bytesTallied : countedBytes.toNat =
      ((rows ++ [row]).map R.datumText).sum := by
    rw [sumBytes]
    simp
  rw [UInt64.lt_iff_toNat_lt, Nat.not_lt] at rowsFit cellsFit bytesFit
  exact ⟨⟨rowsTallied, cellsTallied, bytesTallied⟩,
    ⟨rowsTallied ▸ rowsFit, cellsTallied ▸ cellsFit, bytesTallied ▸ bytesFit⟩⟩

end Counting

section Pushes

variable {expected : R.RowType} {limits : Limits} {sink : RowSink R κ}
variable {row : R.Row} {counts : Counts} {caller : κ}

theorem passes_eq_some
    {admitted : Counts} :
    passes expected limits counts row = some admitted ↔
      R.rowType row = expected ∧
        counts.admitted R limits row = .ok admitted := by
  by_cases typed : R.rowType row = expected
  · cases admits : counts.admitted R limits row <;>
      simp [passes, typed, admits, Except.toOption]
  · simp [passes, typed]

/-- What an offer does: it is refused, or the sink answers it. -/
theorem offer_cases
    {answer : Except SiteError Unit} {after : Counts × κ}
    (offered : Yields (offer expected limits sink row) (counts, caller)
      (.ok answer) after) :
    (passes expected limits counts row = none ∧
        (∃ error, answer = .error error) ∧ after = (counts, caller)) ∨
      ∃ admitted, passes expected limits counts row = some admitted ∧
        sink row caller = (answer, after.2) ∧
        after.1 = if answer = .ok () then admitted else counts := by
  by_cases typed : R.rowType row = expected
  · cases admits : counts.admitted R limits row with
    | error error =>
        have refused : Yields (offer expected limits sink row)
            (counts, caller) (.ok (.error error)) (counts, caller) := by
          simp [Yields, offer, typed, admits, settle]
        obtain ⟨same, rfl⟩ := refused.unique offered
        cases same
        exact .inl ⟨by simp [passes, typed, admits, Except.toOption],
          ⟨error, rfl⟩, rfl⟩
    | ok admitted =>
        have passed : passes expected limits counts row = some admitted :=
          passes_eq_some.mpr ⟨typed, admits⟩
        cases sinks : sink row caller with
        | mk outcome later =>
            cases outcome with
            | ok done =>
                have taken : Yields (offer expected limits sink row)
                    (counts, caller) (.ok (.ok ())) (admitted, later) := by
                  simp [Yields, offer, typed, admits, sinks, settle]
                obtain ⟨same, rfl⟩ := taken.unique offered
                cases same
                exact .inr ⟨admitted, passed, rfl, by simp⟩
            | error error =>
                have failed : Yields (offer expected limits sink row)
                    (counts, caller) (.ok (.error error)) (counts, later) := by
                  simp [Yields, offer, typed, admits, sinks, settle]
                obtain ⟨same, rfl⟩ := failed.unique offered
                cases same
                exact .inr ⟨admitted, passed, rfl, by simp⟩
  · have refused : Yields (offer expected limits sink row)
        (counts, caller) (.ok (.error .rowType)) (counts, caller) := by
      simp [Yields, offer, typed, settle]
    obtain ⟨same, rfl⟩ := refused.unique offered
    cases same
    exact .inl ⟨by simp [passes, typed], ⟨_, rfl⟩, rfl⟩

variable {α : Type}
variable {program : Program R.Row (fun _ => Except SiteError Unit)
  (SiteError × ω) α}
variable {log : List (Push R)} {result : Except (SiteError × ω) α}
variable {start after : Counts × κ}

section Reached

variable {admitted : Counts} {answer : Except SiteError Unit}
variable {error : SiteError} {log : List (Push R)}

theorem reached_refused
    (refused : passes expected limits counts row = none) :
    reached expected limits counts (⟨row, answer⟩ :: log) =
      reached expected limits counts log := by
  simp only [reached, refused]

theorem reached_taken
    (passed : passes expected limits counts row = some admitted) :
    reached expected limits counts (⟨row, .ok ()⟩ :: log) =
      row :: reached expected limits admitted log := by
  simp only [reached, passed]

theorem reached_failed
    (passed : passes expected limits counts row = some admitted) :
    reached expected limits counts (⟨row, .error error⟩ :: log) =
      row :: reached expected limits counts log := by
  simp only [reached, passed]

/-- All rows that reach the sink have the expected type. -/
theorem reached_typed :
    ∀ row ∈ reached expected limits counts log, R.rowType row = expected := by
  induction log generalizing counts with
  | nil => exact fun row member => absurd member List.not_mem_nil
  | cons head rest inductionHypothesis =>
      obtain ⟨row, answer⟩ := head
      intro found member
      cases passed : passes expected limits counts row with
      | none =>
          rw [reached_refused passed] at member
          exact inductionHypothesis found member
      | some admitted =>
          have typed := (passes_eq_some.mp passed).1
          cases answer with
          | ok done =>
              rw [reached_taken passed] at member
              rcases List.mem_cons.mp member with rfl | later
              · exact typed
              · exact inductionHypothesis found later
          | error error =>
              rw [reached_failed passed] at member
              rcases List.mem_cons.mp member with rfl | later
              · exact typed
              · exact inductionHypothesis found later

end Reached

variable {α : Type}
variable {program : Program R.Row (fun _ => Except SiteError Unit)
  (SiteError × ω) α}
variable {log : List (Push R)} {result : Except (SiteError × ω) α}
variable {start after : Counts × κ}

/-- What holds of the pushes of a driver that heeds refusals. -/
structure Orderly (R : Relations) (limits : Limits) {α : Type}
    (before : List R.Row) (log : List (Push R))
    (result : Except (SiteError × ω) α) (rows : List R.Row)
    (counts : Counts) : Prop where
  first : rows <+: log.map fun push => push.1
  within : Within R limits (before ++ rows)
  complete : (∃ value, result = .ok value) →
    (∀ push ∈ log, push.2 = .ok ()) ∧ counts.Tallies R (before ++ rows)

/-- The pushes of a driver that heeds refusals are orderly. -/
theorem orderly_of_heeds
    (sized : R.Sized)
    (transcript : Transcript (offer expected limits sink) program start log
      result after)
    {before : List R.Row}
    (tallies : start.1.Tallies R before)
    (within : Within R limits before)
    (heeds : Heeds expected limits result start.1 log) :
    Orderly R limits before log result (reached expected limits start.1 log)
      after.1 := by
  induction transcript generalizing before with
  | ret value state =>
      refine ⟨List.nil_prefix, ?_, fun _ => ⟨nofun, ?_⟩⟩
      · rwa [reached, List.append_nil]
      · rwa [reached, List.append_nil]
  | fail error state =>
      refine ⟨List.nil_prefix, ?_, ?_⟩
      · rwa [reached, List.append_nil]
      · rintro ⟨value, impossible⟩
        cases impossible
  | @call row next state middle after answer log result offered _
      inductionHypothesis =>
      obtain ⟨counts, caller⟩ := state
      rcases offer_cases offered with ⟨refused, ⟨error, rfl⟩, rfl⟩ |
        ⟨admitted, passed, sinks, counted⟩
      · -- the bound refuses, and nothing later reaches the sink
        obtain ⟨quiet, error, rfl⟩ := heeds
        rw [reached_refused refused, quiet]
        refine ⟨List.nil_prefix, by rwa [List.append_nil], ?_⟩
        rintro ⟨value, impossible⟩
        cases impossible
      · obtain ⟨_, admits⟩ := passes_eq_some.mp passed
        obtain ⟨more, fits⟩ := tallies.admitted sized admits
        cases answer with
        | ok done =>
            rw [if_pos rfl] at counted
            have heedsLater : Heeds expected limits result middle.1 log := by
              rw [counted]
              have later : Heeds expected limits result
                  ((passes expected limits counts row).getD counts) log := heeds
              rwa [passed, Option.getD_some] at later
            have orderly := inductionHypothesis (counted ▸ more) fits heedsLater
            rw [counted] at orderly
            rw [reached_taken passed]
            refine ⟨?_, ?_, fun succeeds => ?_⟩
            · exact List.cons_prefix_cons.mpr ⟨rfl, orderly.first⟩
            · simpa using orderly.within
            · obtain ⟨accepted, tallied⟩ := orderly.complete succeeds
              refine ⟨fun push member => ?_, by simpa using tallied⟩
              rcases List.mem_cons.mp member with rfl | later
              · rfl
              · exact accepted push later
        | error error =>
            -- the sink fails on a row that it has seen
            obtain ⟨quiet, failure, rfl⟩ := heeds
            rw [reached_failed passed, quiet]
            refine ⟨?_, fits, ?_⟩
            · exact List.cons_prefix_cons.mpr ⟨rfl, List.nil_prefix⟩
            · rintro ⟨value, impossible⟩
              cases impossible

end Pushes

section Sinks

variable {expected : R.RowType} {limits : Limits} {sink : RowSink R κ}
variable {row : R.Row} {world after : World R Cx ω κ}

/-- The clock stands where it stood. -/
structure World.SameTime (world after : World R Cx ω κ) : Prop where
  clock : after.clock = world.clock
  ticks : after.ticks = world.ticks

theorem deliveredRows_deliver
    (inBody : Bool) (trace : List (Event R Cx)) :
    deliveredRows (.deliver expected row inBody :: trace) =
      deliveredRows trace ++ [row] := by
  simp [deliveredRows]

/-- A delivered row is in the trace, and the sink answers it. -/
theorem deliver_yields
    (world : World R Cx ω κ) (row : R.Row) :
    ∃ after, Yields (deliver expected sink false row) world
        (sink row world.caller).1 after ∧
      after.caller = (sink row world.caller).2 ∧
      after.counts = world.counts ∧ world.SameTime after ∧
      deliveredRows after.trace = deliveredRows world.trace ++ [row] := by
  let seen : World R Cx ω κ :=
    { world with trace := .deliver expected row false :: world.trace }
  have recorded : Yields (record (.deliver expected row false)) world (.ok ())
      seen := Yields.modify _ _
  have delivered : deliveredRows seen.trace =
      deliveredRows world.trace ++ [row] :=
    deliveredRows_deliver false world.trace
  cases sinks : sink row world.caller with
  | mk outcome later =>
      have answered : sink row seen.caller = (outcome, later) := sinks
      cases outcome with
      | ok done =>
          refine ⟨{ seen with caller := later },
            recorded.bind ((Yields.get _).bind ?_), rfl, rfl, ⟨rfl, rfl⟩,
            delivered⟩
          rw [answered]
          exact (Yields.set _ _).bind (Yields.pure _ _)
      | error error =>
          refine ⟨{ seen with caller := later, trace := .refuse :: seen.trace },
            recorded.bind ((Yields.get _).bind ?_), rfl, rfl, ⟨rfl, rfl⟩,
            delivered⟩
          rw [answered]
          exact (Yields.set _ _).bind
            ((Yields.modify _ _).bind (Yields.throw _ _))

/--
A push always has an answer, as an offer on the counts and the caller's state;
what passes is delivered.
-/
theorem push_yields
    (world : World R Cx ω κ) (row : R.Row) :
    ∃ answer after,
      Yields (boundedPush expected limits (deliver expected sink false) row)
        world answer after ∧
      Yields (offer expected limits sink row) (world.counts, world.caller)
        (.ok answer) (after.counts, after.caller) ∧
      world.SameTime after ∧
      deliveredRows after.trace = deliveredRows world.trace ++
        if (passes expected limits world.counts row).isSome then [row]
        else [] := by
  by_cases typed : R.rowType row = expected
  · cases admits : world.counts.admitted R limits row with
    | error error =>
        refine ⟨.error error, world, ?_, ?_, ⟨rfl, rfl⟩, ?_⟩
        · rw [boundedPush, if_neg (not_not_intro typed)]
          exact (Yields.get _).bind (Yields.of_error admits _).bindError
        · simp [Yields, offer, typed, admits, settle]
        · simp [passes, typed, admits, Except.toOption]
    | ok admitted =>
        have passed : passes expected limits world.counts row = some admitted :=
          passes_eq_some.mpr ⟨typed, admits⟩
        obtain ⟨after, delivers, caller, counts, time, rows⟩ :
            ∃ after, Yields (deliver expected sink false row) world
                (sink row world.caller).1 after ∧ _ :=
          deliver_yields world row
        have admitting := Yields.of_ok admits world
        cases sinks : sink row world.caller with
        | mk outcome later =>
            rw [sinks] at delivers caller
            cases outcome with
            | ok done =>
                refine ⟨.ok (), { after with counts := admitted }, ?_, ?_,
                  ⟨time.clock, time.ticks⟩, ?_⟩
                · rw [boundedPush, if_neg (not_not_intro typed)]
                  exact (Yields.get _).bind (admitting.bind
                    (delivers.bind (Yields.modify _ _)))
                · simp [Yields, offer, typed, admits, sinks, settle, caller]
                · simpa [passed] using rows
            | error error =>
                refine ⟨.error error, after, ?_, ?_, time, ?_⟩
                · rw [boundedPush, if_neg (not_not_intro typed)]
                  exact (Yields.get _).bind (admitting.bind delivers.bindError)
                · simp [Yields, offer, typed, admits, sinks, settle, caller,
                    counts]
                · simpa [passed] using rows
  · refine ⟨.error .rowType, world, ?_, ?_, ⟨rfl, rfl⟩, ?_⟩
    · rw [boundedPush, if_pos typed]
      exact Yields.throw _ _
    · simp [Yields, offer, typed, settle]
    · simp [passes, typed]

/-- What a provider gets as the answer to a push. -/
abbrev answerPush (expected : R.RowType) (limits : Limits) (sink : RowSink R κ)
    (row : R.Row) : SiteM R Cx ω κ (Except SiteError Unit) :=
  observe (boundedPush expected limits (deliver expected sink false) row)

variable {program : Emission R ω}
variable {log : List (Push R)}
variable {result : Except (SiteError × ω) (ProviderStats × ω)}

/-- A run of pushes delivers what reaches the sink, and takes no time. -/
theorem deliveredRows_of_transcript
    (transcript : Transcript (answerPush expected limits sink) program world log
      result after) :
    deliveredRows after.trace =
        deliveredRows world.trace ++ reached expected limits world.counts log ∧
      world.SameTime after := by
  induction transcript with
  | ret value world =>
      exact ⟨(List.append_nil _).symm, rfl, rfl⟩
  | fail error world =>
      exact ⟨(List.append_nil _).symm, rfl, rfl⟩
  | @call row next world middle after answer log result observed _
      inductionHypothesis =>
      obtain ⟨later, time⟩ := inductionHypothesis
      obtain ⟨found, reply, pushed, offered, sameTime, delivered⟩ :=
        push_yields world row
      obtain ⟨same, rfl⟩ := pushed.observe.unique observed
      cases same
      have timely : world.SameTime after :=
        ⟨time.clock.trans sameTime.clock, time.ticks.trans sameTime.ticks⟩
      refine ⟨?_, timely⟩
      rw [later, delivered]
      rcases offer_cases offered with ⟨refused, _, unchanged⟩ |
        ⟨admitted, passed, _, counted⟩
      · have counted : reply.counts = world.counts :=
          congrArg Prod.fst unchanged
        rw [reached_refused refused, refused, counted]
        simp
      · rw [passed]
        cases answer with
        | ok done =>
            have taken : reply.counts = admitted := by simpa using counted
            rw [reached_taken passed, taken]
            simp
        | error error =>
            have same : reply.counts = world.counts := by simpa using counted
            rw [reached_failed passed, same]
            simp

/-- A run of pushes is one of offers. -/
theorem offers_of_transcript
    (transcript : Transcript (answerPush expected limits sink) program world log
      result after) :
    Transcript (offer expected limits sink) program
      (world.counts, world.caller) log result (after.counts, after.caller) := by
  have simulates : ∀ row (world : World R Cx ω κ) answer after,
      Yields (answerPush expected limits sink row) world (.ok answer) after →
      Yields (offer expected limits sink row) (world.counts, world.caller)
        (.ok answer) (after.counts, after.caller) := by
    intro row world answer after observed
    obtain ⟨found, reply, pushed, offered, _⟩ := push_yields world row
    obtain ⟨same, rfl⟩ := pushed.observe.unique observed
    cases same
    exact offered
  have offers :=
    transcript.map (fun world => (world.counts, world.caller)) simulates
  exact offers

end Sinks

end SimStorage.Site
