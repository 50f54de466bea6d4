import SimStorage.Lists.Spine

namespace SimStorage.Lists

/-!
# Scripts of calls on a list

A script makes one call after another and goes on with the rest of a list once
it has been given one.  Lists that answer each call as their sequences do answer
every script so.
-/

open Interaction

variable {Value Handle σ : Type}

/-- `ListValue` and `truth`, and what a handle out of scope does. -/
structure ListValue (Value Handle σ : Type) where
  isEmpty : Handle → EStateM Failure σ Bool
  truth : Handle → EStateM Failure σ Bool
  car : Handle → EStateM Failure σ (Option Value)
  cdr : Handle → EStateM Failure σ (Option Handle)
  get : Handle → Nat → EStateM Failure σ (Option Value)
  lenCmp : Handle → Nat → EStateM Failure σ Ordering
  forEach : Handle → Nat → Option Nat → EStateM Failure σ (List Value × Visit)
  release : Handle → σ → σ

namespace ListValue

variable (lists : ListValue Value Handle σ)

/-- A call on a list. -/
def answer (handle : Handle) : Call → EStateM Failure σ (Answer Value Handle)
  | .isEmpty => .truth <$> lists.isEmpty handle
  | .truth => .truth <$> lists.truth handle
  | .car => .item <$> lists.car handle
  | .cdr => .rest <$> lists.cdr handle
  | .get index => .item <$> lists.get handle index
  | .lenCmp n => .order <$> lists.lenCmp handle n
  | .forEach turns limit =>
      (fun visit => .visited visit.1 visit.2) <$>
        lists.forEach handle turns limit

/-- The answers to a script; a handle goes out of scope for that of a rest. -/
def run : Handle → List Call → EStateM Failure σ (List (Answer Value Unit))
  | _, [] => return []
  | handle, call :: calls => do
      let answer ← lists.answer handle call
      let later ←
        match answer with
        | .rest (some rest) => do
            modify (lists.release handle)
            run rest calls
        | _ => run handle calls
      return answer.map (fun _ => ()) :: later

end ListValue

namespace Sequence

/-- The answers to a script, where each call on a sequence has its answer. -/
def run (answer : Sequence Value → Call → Answer Value (Sequence Value)) :
    Sequence Value → List Call → List (Answer Value Unit)
  | _, [] => []
  | sequence, call :: calls =>
      let given := answer sequence call
      given.map (fun _ => ()) ::
        match given with
        | .rest (some rest) => run answer rest calls
        | _ => run answer sequence calls

end Sequence

section Contract

variable {lists : ListValue Value Handle σ}
variable {holds : Spine.Held Value Handle → σ → Prop}
variable {held : Spine.Held Value Handle} {state : σ}
variable {handle : Handle} {sequence : Sequence Value}
variable {specified : Sequence Value → Call → Answer Value (Sequence Value)}

/--
The handles that are held answer each call as it is specified for what they
give, and give it whatever is done to them.
-/
structure ListValue.Answers (lists : ListValue Value Handle σ)
    (specified : Sequence Value → Call → Answer Value (Sequence Value))
    (holds : Spine.Held Value Handle → σ → Prop) : Prop where
  answers : ∀ held state, holds held state → ∀ handle sequence,
    (handle, sequence) ∈ held → ∀ call,
      ∃ (pairs : Answer Value (Handle × Sequence Value)) (later : σ),
      Yields (lists.answer handle call) state (.ok (pairs.map Prod.fst)) later ∧
        specified sequence call = pairs.map Prod.snd ∧
          holds (pairs.views ++ held) later
  release : ∀ held state handle sequence,
    holds ((handle, sequence) :: held) state →
      holds held (lists.release handle state)
  perm : ∀ held other state, List.Perm held other → holds held state →
    holds other state

/-- Every script is answered as it is specified. -/
theorem ListValue.Answers.run_yields
    (answers : lists.Answers specified holds)
    (script : List Call)
    (holding : holds [(handle, sequence)] state) :
    ∃ later, Yields (lists.run handle script) state
      (.ok (sequence.run specified script)) later := by
  induction script generalizing handle sequence state with
  | nil => exact ⟨state, Yields.pure [] state⟩
  | cons call calls inductionHypothesis =>
      rcases answers.answers _ state holding handle sequence
        List.mem_cons_self call with ⟨pairs, middle, calling, told, kept⟩
      rw [Sequence.run, told]
      cases pairs with
      | rest pair =>
          cases pair with
          | none =>
              rcases inductionHypothesis kept with ⟨later, runs⟩
              exact ⟨later, calling.bind (runs.bind (Yields.pure _ later))⟩
          | some pair =>
              have left := answers.release _ middle handle sequence
                (answers.perm _ _ middle (List.Perm.swap _ _ []) kept)
              rcases inductionHypothesis left with ⟨later, runs⟩
              exact ⟨later, calling.bind ((Yields.modify _ middle).bind
                (runs.bind (Yields.pure _ later)))⟩
      | truth | item | order | visited =>
          rcases inductionHypothesis kept with ⟨later, runs⟩
          exact ⟨later, calling.bind (runs.bind (Yields.pure _ later))⟩

end Contract

end SimStorage.Lists
