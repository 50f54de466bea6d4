import Mathlib.Data.List.Dedup
import SimStorage.Mount.Cabinet

namespace SimStorage.Mount

/-!
# Backends that serve

A backend serves when its directories answer all reads with what they hold, and
`mkdir` makes what it returns.  The drawers serve.
-/

open Interaction Slots Table

variable {Value Expr σ : Type}

/-- In the context, directories answer all reads with what they hold. -/
structure Serves (objects : Objects Value Expr σ) (isLegal : String → Bool)
    (cx : Cx) (content : Content Value σ) : Prop where
  table : ∀ value, objects.isDir value = true → objects.isTable value = true
  held : ∀ state value name child,
    content state value name = some (.dir child) → objects.isDir child = true
  opendir : ∀ value key state, objects.isDir value = true →
    isLegal key.name = true →
      ∃ outcome, Yields (objects.opendir cx value key) state outcome state ∧
        (∀ child, outcome = .ok (some child) ↔
          content state value key.name = some (.dir child)) ∧
        (outcome = .ok none ↔ content state value key.name = none)
  hasDir : ∀ value key state, objects.isDir value = true →
    isLegal key.name = true →
      ∃ found, Yields (objects.hasDir cx value key) state (.ok found) state ∧
        (found = true ↔
          ∃ child, content state value key.name = some (.dir child))
  has : ∀ value name state, objects.isDir value = true →
    isLegal name = true →
      Yields (objects.has cx value (.new name)) state
        (.ok (content state value name).isSome) state
  keys : ∀ value state, objects.isDir value = true →
    ∃ names, Yields (objects.keys cx value) state (.ok names) state ∧
      ∀ name, isLegal name = true →
        (.new name ∈ names ↔ (content state value name).isSome = true)
  entries : ∀ value state, objects.isDir value = true →
    ∃ rows, Yields (objects.entries cx value) state (.ok rows) state ∧
      (∀ name stored, (.new name, stored) ∈ rows ↔
        content state value name = some (.leaf stored)) ∧
      ∀ row ∈ rows,
        Yields (objects.get cx value row.1) state (.ok row.2) state
  mkdir : ∀ value key state child later,
    Yields (objects.mkdir cx value key) state (.ok child) later →
      content later value key.name = some (.dir child) ∧
        ∀ other name found, content state other name = some (.dir found) →
          content later other name = some (.dir found)

namespace Cabinet

/-- A read of the cabinet yields what is read. -/
theorem read_yields
    {α : Type} {reads : Cabinet → Except Error α}
    (cabinet : Cabinet) :
    Yields (read reads) cabinet (reads cabinet) cabinet :=
  (Yields.get cabinet).bind (.ofExcept _ _)

/-- Drawers that were made stay, under the names that they have. -/
theorem make_serves
    {item child : Item} {name : String} {cabinet later : Cabinet}
    (makes : Yields (make item name) cabinet (.ok child) later) :
    content later item name = some (.dir child) ∧
      ∀ other query found, content cabinet other query = some (.dir found) →
        content later other query = some (.dir found) := by
  have rest := (Yields.get cabinet).rest makes
  split at rest
  · next id held =>
      obtain ⟨same, rfl⟩ := (Yields.pure _ _).unique rest
      cases same
      refine ⟨?_, fun _ _ _ held => held⟩
      rw [content, held]
      rfl
  · cases ((Yields.throw _ _).unique rest).1
  · next absent =>
      obtain ⟨_, middle, wrote, appends⟩ := rest.bind_ok
      have returns := (Yields.modify _ middle).rest appends
      obtain ⟨same, rfl⟩ := (Yields.pure _ _).unique returns
      cases same
      rcases write_inv wrote with ⟨_, failed⟩ | ⟨rows, made, _, sets⟩
      · exact absurd rfl failed
      cases made
      rw [Entries.find_insert] at sets
      simp only [content, slot_append, sets]
      refine ⟨by simp [lift], fun other query found held => ?_⟩
      split
      · next here =>
          subst here
          have differs : Symbol.new query ≠ .new name := fun equal => by
            have noSlot : cabinet.slot other (.new query) = none := equal ▸ absent
            rw [noSlot] at held
            cases held
          rw [Function.update_of_ne differs]
          exact held
      · exact held

/-- The drawers answer all reads with what they hold. -/
theorem objects_serve
    (isLegal : String → Bool) (cx : Cx) :
    Serves objects isLegal cx content where
  table _ isDir := isDir
  held cabinet item name child held := by
    obtain ⟨stored, _, lifted⟩ := Option.map_eq_some_iff.mp held
    cases stored <;> cases lifted
    rfl
  opendir item key cabinet _ _ := by
    refine ⟨_, read_yields cabinet, ?_⟩
    simp only [content]
    split
    · next id held => simp [held, lift]
    · next value held => simp [held, lift]
    · next absent => simp [absent]
  hasDir item key cabinet _ _ := by
    refine ⟨_, read_yields cabinet, ?_⟩
    rw [isDrawer_iff]
    rfl
  has item name cabinet _ _ := by
    have same : (content cabinet item name).isSome =
        (cabinet.slot item (.new name)).isSome := Option.isSome_map
    rw [same]
    exact read_yields cabinet
  keys item cabinet _ := by
    refine ⟨_, read_yields cabinet, fun name _ => ?_⟩
    rw [List.mem_dedup, Entries.mem_keys, content, Option.isSome_map]
    rfl
  entries item cabinet _ := by
    refine ⟨_, read_yields cabinet, fun name stored => ?_, fun row member => ?_⟩
    · rw [List.mem_filter, decide_eq_true_eq]
      constructor
      · exact fun member => congrArg (Option.map lift) member.2
      · intro held
        obtain ⟨slot, found, lifted⟩ := Option.map_eq_some_iff.mp held
        cases slot <;> cases lifted
        exact ⟨List.mem_filterMap.mpr
          ⟨(.new name, .leaf stored), Entries.mem_of_find found, rfl⟩, found⟩
    · have found := of_decide_eq_true (List.mem_filter.mp member).2
      have reads : Yields (objects.get cx item row.1) cabinet _ cabinet :=
        read_yields cabinet
      rw [found] at reads
      exact reads
  mkdir item key cabinet child later makes := make_serves makes

end Cabinet

end SimStorage.Mount
