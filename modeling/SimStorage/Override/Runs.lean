import SimStorage.Override.Cells
import SimStorage.Table.Reference

namespace SimStorage.Override

/-!
# Runs of an override table

In every run of calls and of changes of the layers, the table is one map to its
callers, and its masks hide what was deleted or cleared.
-/

open Interaction Table

variable {Value Expr σ : Type} {objects : Objects Value Expr σ}
variable {table : OverrideTable objects} {cx : Cx}
variable {content : σ → Value → Symbol → Option Value}
variable {shared later : Shared σ} {hidden : Symbol → Prop}

theorem Call.hides_mono
    {call : Call Value} {map : Symbol → Option Value} {masked : Symbol → Prop}
    {key : Symbol}
    (within : ∀ key, hidden key → masked key)
    (hides : call.hides map hidden key) :
    call.hides map masked key := by
  cases call with
  | set other value => exact ⟨within key hides.1, hides.2⟩
  | del other => exact hides.imp_left (within key)
  | clear => exact hides.imp_left (within key)
  | _ => exact within key hides

/-- The keys that were deleted or cleared and not set since are masked. -/
theorem Reached.masked
    (maps : Maps objects table.layers content)
    (distinct : table.layers.Nodup)
    (reached : Reached table content shared hidden) :
    ∀ key, hidden key → key ∈ shared.masked := by
  induction reached with
  | made layers => exact fun key impossible => impossible.elim
  | returned cx call earlier ran inductionHypothesis =>
      exact fun key hides => (run_settles maps distinct ran).hides rfl key
        (Call.hides_mono inductionHypothesis hides)
  | failed cx call earlier ran inductionHypothesis =>
      rw [((run_settles maps distinct ran).failed _ rfl).1]
      exact inductionHypothesis
  | changed layers earlier inductionHypothesis => exact inductionHypothesis

/--
Whatever is called and however the layers change, the table is one map, and
what was deleted or cleared stays hidden until it is set.
-/
theorem override_refines
    (maps : Maps objects table.layers content)
    (distinct : table.layers.Nodup)
    (reached : Reached table content shared hidden) :
    Refines table content shared hidden where
  get cx key := get_yields maps key
  has cx key := has_yields maps key
  keys cx := by
    rcases keys_yields maps cx shared with ⟨keys, lists, distinct, present⟩
    exact ⟨keys, lists, lists.bind (Yields.pure _ _), distinct, present⟩
  entries cx := entries_yields maps cx shared
  set cx key value outcome layers wrote := set_ends wrote
  del cx key outcome layers wrote := del_ends wrote
  clear cx outcome layers wrote := clear_ends maps wrote
  returned cx call later ran := (run_settles maps distinct ran).returned rfl
  failed cx call error later ran := (run_settles maps distinct ran).failed _ rfl
  rest cx call outcome later ran := (run_settles maps distinct ran).rest
  hidden key hides := by
    rw [visible_apply, if_pos (reached.masked maps distinct key hides)]

section Samples

/-- A table of two layers. -/
def sampleTable : OverrideTable Cells.objects where
  front := .table 0
  rest := [.table 1]
  tables := by decide

/-- Only the lower layer has the key. -/
def sampleLayers : Cells :=
  [[], [(.new "a", .text "back")]]

/-- The key was deleted through the table. -/
def sampleDeleted : Shared Cells where
  masked := [.new "a"]
  layers := sampleLayers

/-- A key was deleted and set again, another one was set and cleared. -/
def sampleShared : Shared Cells where
  masked := [.new "b"]
  layers := [[(.new "a", .text "new")], [(.new "a", .text "back")]]

/-- After the run the table is one map, and it can be set and cleared again. -/
theorem sample_run_refines :
    ∃ hidden, Refines sampleTable Cells.content sampleShared hidden ∧
      hidden (.new "b") ∧
      (∃ later, Yields (sampleTable.set fullCx (.new "b") (.text "again"))
        sampleShared (.ok ()) later) ∧
      ∃ later, Yields (sampleTable.clear fullCx) sampleShared (.ok ()) later := by
  have made : Reached sampleTable Cells.content ⟨[], sampleLayers⟩ _ :=
    .made sampleLayers
  have deleted : Reached sampleTable Cells.content sampleDeleted _ :=
    .returned fullCx (.del (.new "a")) made rfl
  have added : Reached sampleTable Cells.content ⟨[.new "a"],
      [[(.new "b", .text "front")], [(.new "a", .text "back")]]⟩ _ :=
    .returned fullCx (.set (.new "b") (Cell.text "front")) deleted rfl
  have cleared : Reached sampleTable Cells.content ⟨[.new "b", .new "a"],
      sampleLayers⟩ _ :=
    .returned fullCx .clear added rfl
  have renewed : Reached sampleTable Cells.content sampleShared _ :=
    .returned fullCx (.set (.new "a") (Cell.text "new")) cleared rfl
  have refines := override_refines (Cells.objects_maps _) (by decide) renewed
  refine ⟨_, refines, ⟨.inr (by decide), by decide⟩, ?_, ?_⟩
  · obtain ⟨later, sets, _⟩ := refines.set fullCx (.new "b") (.text "again")
      (.ok ()) _ rfl
    exact ⟨later, sets⟩
  · obtain ⟨later, clears, _⟩ := refines.clear fullCx (.ok ()) _ rfl
    exact ⟨later, clears⟩

end Samples

end SimStorage.Override
