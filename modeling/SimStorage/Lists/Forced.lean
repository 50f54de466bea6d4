import SimStorage.Lists.Lazy

namespace SimStorage.Lists

/-!
# Forced cells give what their closures would

Whatever has been forced, a cell gives the head and the tail that its closures
give, and cells that are added or forced later change nothing of that.  The
chain of `new_list` has no cell behind its last value; that of `new_cons` ends
in the empty cell.
-/

open Interaction Table

variable {Value σ α : Type}

section Definitions

/-- The value that a head closure gives. -/
def HeadFn.value : HeadFn Value → Value
  | .itemAt items index => items.get index
  | .given head => head

/-- What lies behind a value: nothing where the chain is cut, or a cell. -/
def Behind (cut : Bool) (items : List Value) (shows : Nat → Prop) :
    Option (LazyHandle Value) → Prop
  | none => cut = true ∧ items = []
  | some (.inl next) => (cut = true → items ≠ []) ∧ shows next
  | some (.inr _) => False

/-- What a tail closure will give. -/
def TailFn.Promises (cut : Bool) (items : List Value) (shows : Nat → Prop) :
    TailFn Value → Prop
  | .chainBehind all index => cut = true ∧ all.drop (index + 1) = items
  | .given (.inl next) => cut = false ∧ shows next
  | .given (.inr _) => False

/-- A cell has a value, and the rest behind it. -/
structure LazyConsList.Has (cut : Bool) (item : Value) (items : List Value)
    (shows : Nat → Prop) (cell : LazyConsList Value) : Prop where
  full : cell.empty = false
  head : ∃ headFn, cell.headFn = some headFn ∧ headFn.value = item
  headCached : ∀ result, cell.headCache = some result → result = .ok item
  tail : ∃ tailFn, cell.tailFn = some tailFn ∧
    (cell.tailCache = none → tailFn.Promises cut items shows)
  tailCached : ∀ result, cell.tailCache = some result →
    ∃ tail, result = .ok tail ∧ Behind cut items shows tail

/-- The cells show the items from an address on. -/
def Shows (cut : Bool) (cells : List (LazyConsList Value)) :
    List Value → Nat → Prop
  | [], address => ∃ cell, cells[address]? = some cell ∧ cell.empty = true
  | item :: items, address => ∃ cell, cells[address]? = some cell ∧
      cell.Has cut item items (Shows cut cells items)

/-- What a tail closure gave, with the cell that it made. -/
def TailFn.Gave (cells : List (LazyConsList Value)) :
    TailFn Value → Option (LazyHandle Value) → Prop
  | .chainBehind items index, tail =>
      if items.length ≤ index + 1 then
        tail = none
      else
        ∃ next, tail = some (.inl next) ∧
          cells[next]? = some (LazyConsList.chainCell items (index + 1))
  | .given rest, tail => tail = some rest

/-- A cell later: caches may have been filled. -/
structure LazyConsList.Forced (cells : List (LazyConsList Value))
    (cell later : LazyConsList Value) : Prop where
  empty : later.empty = cell.empty
  headFn : later.headFn = cell.headFn
  tailFn : later.tailFn = cell.tailFn
  head : later.headCache = cell.headCache ∨
    ∃ headFn, cell.headFn = some headFn ∧
      later.headCache = some (.ok headFn.value)
  tail : later.tailCache = cell.tailCache ∨
    cell.tailCache = none ∧ ∃ tailFn tail, cell.tailFn = some tailFn ∧
      later.tailCache = some (.ok tail) ∧ tailFn.Gave cells tail

/-- The store later: cells may have been added and forced. -/
def Grows (cells later : List (LazyConsList Value)) : Prop :=
  ∀ (address : Nat) (cell : LazyConsList Value), cells[address]? = some cell →
    ∃ forced, later[address]? = some forced ∧ cell.Forced later forced

end Definitions

variable {cut : Bool} {cells later : List (LazyConsList Value)}
variable {item : Value} {items : List Value} {address : Nat}
variable {shows showsLater : Nat → Prop}

section Growing

theorem Behind.mono
    {tail : Option (LazyHandle Value)}
    (keeps : ∀ next, shows next → showsLater next)
    (behind : Behind cut items shows tail) :
    Behind cut items showsLater tail := by
  rcases tail with _ | next | foreign
  · exact behind
  · exact ⟨behind.1, keeps next behind.2⟩
  · exact behind

theorem TailFn.Promises.mono
    {tailFn : TailFn Value}
    (keeps : ∀ next, shows next → showsLater next)
    (promises : tailFn.Promises cut items shows) :
    tailFn.Promises cut items showsLater := by
  rcases tailFn with ⟨all, index⟩ | (next | foreign)
  · exact promises
  · exact ⟨promises.1, keeps next promises.2⟩
  · exact promises

/-- The cell that `chain_from` makes shows the items from the index on. -/
theorem shows_chainCell
    {index : Nat}
    (found : cells[address]? = some (LazyConsList.chainCell items index)) :
    Shows true cells (items.drop index) address := by
  by_cases within : index < items.length
  · rw [List.drop_eq_getElem_cons within]
    rw [LazyConsList.chainCell, dif_pos within] at found
    refine ⟨_, found, rfl, ⟨_, rfl, rfl⟩, fun _ none => ?_,
      ⟨_, rfl, fun _ => ⟨rfl, rfl⟩⟩, fun _ none => ?_⟩
    · cases none
    · cases none
  · rw [List.drop_eq_nil_of_le (Nat.le_of_not_lt within)]
    rw [LazyConsList.chainCell, dif_neg within] at found
    exact ⟨_, found, rfl⟩

/-- What a closure gave is what it promised. -/
theorem TailFn.Promises.gave
    {tailFn : TailFn Value} {tail : Option (LazyHandle Value)}
    (promises : tailFn.Promises cut items (Shows cut cells items))
    (gave : tailFn.Gave cells tail) :
    Behind cut items (Shows cut cells items) tail := by
  rcases tailFn with ⟨all, index⟩ | (next | foreign)
  · rcases promises with ⟨rfl, rfl⟩
    by_cases ends : all.length ≤ index + 1
    · simp only [Gave, ends, if_true] at gave
      rw [gave]
      exact ⟨rfl, List.drop_eq_nil_of_le ends⟩
    · simp only [Gave, ends, if_false] at gave
      rcases gave with ⟨next, rfl, found⟩
      refine ⟨fun _ empty => ends (List.drop_eq_nil_iff.mp empty), ?_⟩
      exact shows_chainCell found
  · rcases promises with ⟨rfl, shown⟩
    cases gave
    refine ⟨fun impossible => ?_, shown⟩
    cases impossible
  · exact promises.elim

/-- What cells show, they go on to show. -/
theorem Shows.mono
    (grows : Grows cells later)
    (shown : Shows cut cells items address) :
    Shows cut later items address := by
  induction items generalizing address with
  | nil =>
      rcases shown with ⟨cell, found, empty⟩
      rcases grows address cell found with ⟨after, foundLater, forced⟩
      exact ⟨after, foundLater, forced.empty.trans empty⟩
  | cons item items inductionHypothesis =>
      rcases shown with ⟨cell, found, has⟩
      rcases grows address cell found with ⟨after, foundLater, forced⟩
      have keeps : ∀ next, Shows cut cells items next →
          Shows cut later items next := fun _ => inductionHypothesis
      rcases has.head with ⟨headFn, isHead, value⟩
      rcases has.tail with ⟨tailFn, isTail, promises⟩
      refine ⟨after, foundLater, forced.empty.trans has.full,
        ⟨headFn, forced.headFn.trans isHead, value⟩, fun result cached => ?_,
        ⟨tailFn, forced.tailFn.trans isTail, fun pending => ?_⟩,
        fun result cached => ?_⟩
      · rcases forced.head with same | ⟨other, isOther, filled⟩
        · exact has.headCached result (same ▸ cached)
        · cases isHead.symm.trans isOther
          rw [← value]
          exact (Option.some.inj (filled.symm.trans cached)).symm
      · rcases forced.tail with same | ⟨_, _, _, _, filled, _⟩
        · exact (promises (same ▸ pending)).mono keeps
        · cases filled.symm.trans pending
      · rcases forced.tail with same |
          ⟨pending, other, tail, isOther, filled, gave⟩
        · rcases has.tailCached result (same ▸ cached) with ⟨tail, ok, behind⟩
          exact ⟨tail, ok, behind.mono keeps⟩
        · cases isTail.symm.trans isOther
          have promised := (promises pending).mono keeps
          exact ⟨tail, (Option.some.inj (filled.symm.trans cached)).symm,
            promised.gave gave⟩

theorem LazyConsList.Forced.refl
    (cells : List (LazyConsList Value)) (cell : LazyConsList Value) :
    cell.Forced cells cell :=
  ⟨rfl, rfl, rfl, .inl rfl, .inl rfl⟩

theorem Grows.append
    (cells : List (LazyConsList Value)) (cell : LazyConsList Value) :
    Grows cells (cells ++ [cell]) := fun _ old found =>
  ⟨old, List.getElem?_append_left (List.getElem?_eq_some_iff.mp found).1 ▸ found,
    .refl _ old⟩

/-- A cache is filled at an address, as the closure of the cell there gives. -/
theorem Grows.change
    {added : List (LazyConsList Value)}
    {update : LazyConsList Value → LazyConsList Value}
    {cell : LazyConsList Value}
    (found : cells[address]? = some cell)
    (forces : cell.Forced ((cells ++ added).modify address update)
      (update cell)) :
    Grows cells ((cells ++ added).modify address update) := by
  intro other old isOld
  have within : other < cells.length := (List.getElem?_eq_some_iff.mp isOld).1
  rw [List.getElem?_modify, List.getElem?_append_left within, isOld]
  by_cases same : address = other
  · subst same
    cases found.symm.trans isOld
    exact ⟨update cell, by simp, forces⟩
  · exact ⟨old, by simp [same], .refl _ old⟩

theorem Grows.refl
    (cells : List (LazyConsList Value)) :
    Grows cells cells := fun _ cell found =>
  ⟨cell, found, .refl cells cell⟩

end Growing

section Operations

open LazyConsList

variable {store : Cells Value σ} {cell : LazyConsList Value}

theorem cellAt_yields
    (found : store.cells[address]? = some cell) :
    Yields (cellAt address) store (.ok cell) store := by
  refine (Yields.get store).bind ?_
  rw [found]
  exact Yields.pure cell store

theorem alloc_yields
    (cell : LazyConsList Value) (store : Cells Value σ) :
    Yields (alloc cell) store (.ok store.cells.length)
      { store with cells := store.cells ++ [cell] } :=
  (Yields.get store).bind ((Yields.set _ store).bind (Yields.pure _ _))

theorem callHead_yields
    (headFn : HeadFn Value) (store : Cells Value σ) :
    Yields (callHead headFn) store (.ok headFn.value) store := by
  cases headFn <;> exact Yields.pure _ store

/-- The head of a cell that has a value. -/
theorem cachedHead_yields
    (found : store.cells[address]? = some cell)
    (has : cell.Has cut item items shows) :
    ∃ later : Cells Value σ,
      Yields (cachedHead address) store (.ok item) later ∧
        Grows store.cells later.cells ∧ later.lists = store.lists := by
  rcases has.head with ⟨headFn, isHead, rfl⟩
  have reads := cellAt_yields found
  cases cached : cell.headCache with
  | some result =>
      have ok := has.headCached result cached
      refine ⟨store, reads.bind ?_, Grows.refl _, rfl⟩
      simp only [isHead, cached, ok]
      exact Yields.ofExcept _ store
  | none =>
      let fill (cell : LazyConsList Value) : LazyConsList Value :=
        { cell with headCache := some (.ok headFn.value) }
      have grows : Grows store.cells
          ((store.cells ++ []).modify address fill) :=
        Grows.change found
          ⟨rfl, rfl, rfl, .inr ⟨headFn, isHead, rfl⟩, .inl rfl⟩
      rw [List.append_nil] at grows
      refine ⟨{ store with cells := store.cells.modify address fill },
        reads.bind ?_, grows, rfl⟩
      simp only [isHead, cached]
      exact (callHead_yields headFn store).observe.bind
        ((Yields.modify _ store).bind (Yields.ofExcept _ _))

/-- A tail closure gives what it promised, perhaps with a new cell. -/
theorem callTail_yields
    (tailFn : TailFn Value) (store : Cells Value σ) :
    ∃ (tail : Option (LazyHandle Value)) (added : List (LazyConsList Value)),
      Yields (callTail tailFn) store (.ok tail)
          { store with cells := store.cells ++ added } ∧
        ∀ address < store.cells.length, ∀ fill,
          tailFn.Gave ((store.cells ++ added).modify address fill) tail := by
  cases tailFn with
  | given tail =>
      refine ⟨some tail, [], ?_, fun _ _ _ => rfl⟩
      rw [List.append_nil]
      exact Yields.pure _ store
  | chainBehind items index =>
      by_cases ends : items.length ≤ index + 1
      · refine ⟨none, [], ?_, fun _ _ _ => ?_⟩
        · rw [List.append_nil, callTail, if_pos ends]
          exact Yields.pure _ store
        · rw [TailFn.Gave, if_pos ends]
      · have makes := alloc_yields (chainCell items (index + 1)) store
        refine ⟨some (.inl store.cells.length), [chainCell items (index + 1)],
          ?_, fun address within fill => ?_⟩
        · rw [callTail, if_neg ends]
          exact makes.bind (Yields.pure _ _)
        · rw [TailFn.Gave, if_neg ends]
          refine ⟨_, rfl, ?_⟩
          rw [List.getElem?_modify, List.getElem?_concat_length]
          simp [Nat.ne_of_lt within]

/-- The tail of a cell that has a value. -/
theorem cachedTail_yields
    (found : store.cells[address]? = some cell)
    (has : cell.Has cut item items (Shows cut store.cells items)) :
    ∃ (tail : Option (LazyHandle Value)) (later : Cells Value σ),
      Yields (cachedTail address) store (.ok tail) later ∧
        Behind cut items (Shows cut later.cells items) tail ∧
          Grows store.cells later.cells ∧ later.lists = store.lists := by
  rcases has.tail with ⟨tailFn, isTail, promises⟩
  have reads := cellAt_yields found
  cases cached : cell.tailCache with
  | some result =>
      rcases has.tailCached result cached with ⟨tail, rfl, behind⟩
      refine ⟨tail, store, reads.bind ?_, behind, Grows.refl _, rfl⟩
      simp only [isTail, cached]
      exact Yields.ofExcept _ store
  | none =>
      rcases callTail_yields tailFn store with ⟨tail, added, calls, gave⟩
      have within : address < store.cells.length :=
        (List.getElem?_eq_some_iff.mp found).1
      let fill (cell : LazyConsList Value) : LazyConsList Value :=
        { cell with tailCache := some (.ok tail) }
      have grows : Grows store.cells
          ((store.cells ++ added).modify address fill) :=
        Grows.change found ⟨rfl, rfl, rfl, .inl rfl,
          .inr ⟨cached, tailFn, tail, isTail, rfl, gave address within fill⟩⟩
      have behind : Behind cut items
          (Shows cut ((store.cells ++ added).modify address fill) items)
          tail := by
        have shown : Shows cut store.cells (item :: items) address :=
          ⟨cell, found, has⟩
        rcases shown.mono grows with ⟨after, foundAfter, hasAfter⟩
        rw [List.getElem?_modify, List.getElem?_append_left within, found]
          at foundAfter
        have filled : fill cell = after := by simpa using foundAfter
        rcases hasAfter.tailCached (.ok tail) (filled ▸ rfl) with
          ⟨same, ok, behind⟩
        cases ok
        exact behind
      refine ⟨tail,
        { store with cells := (store.cells ++ added).modify address fill },
        reads.bind ?_, behind, grows, rfl⟩
      simp only [isTail, cached]
      exact calls.observe.bind
        ((Yields.modify _ _).bind (Yields.ofExcept _ _))

/-- Nothing is behind a value, as the chain is cut, or the rest is. -/
theorem Behind.eq
    {tail : Option (LazyHandle Value)}
    (behind : Behind cut items shows tail) :
    (cut && items.isEmpty) = tail.isNone ∧
      ∀ handle, tail = some handle →
        ∃ next, handle = .inl next ∧ shows next := by
  rcases tail with _ | next | foreign
  · rcases behind with ⟨rfl, rfl⟩
    refine ⟨rfl, fun handle impossible => ?_⟩
    cases impossible
  · refine ⟨?_, fun handle same => ⟨next, (Option.some.inj same).symm, behind.2⟩⟩
    cases cut with
    | false => rfl
    | true =>
        have more := behind.1 rfl
        rw [Bool.true_and, Option.isNone_some, List.isEmpty_eq_false_iff]
        exact more
  · exact behind.elim

theorem Shows.first
    (shown : Shows cut cells items address) :
    ∃ cell, cells[address]? = some cell ∧ cell.empty = items.isEmpty := by
  cases items with
  | nil => exact shown
  | cons item items =>
      rcases shown with ⟨cell, found, has⟩
      exact ⟨cell, found, has.full⟩

theorem Shows.isEmpty_yields
    (shown : Shows cut store.cells items address) :
    Yields (isEmpty address) store (.ok items.isEmpty) store := by
  rcases shown.first with ⟨cell, found, empty⟩
  rw [← empty]
  exact (cellAt_yields found).bind (Yields.pure cell.empty store)

theorem Shows.truth_yields
    (shown : Shows cut store.cells items address) :
    Yields (truth address) store (.ok !items.isEmpty) store := by
  rcases shown.first with ⟨cell, found, empty⟩
  rw [← empty]
  exact (cellAt_yields found).bind (Yields.pure (!cell.empty) store)

/-- `car` gives the first item. -/
theorem Shows.car_yields
    (shown : Shows cut store.cells items address) :
    ∃ later : Cells Value σ,
      Yields (car address) store (.ok items.head?) later ∧
        Grows store.cells later.cells ∧ later.lists = store.lists := by
  cases items with
  | nil =>
      rcases shown with ⟨cell, found, empty⟩
      refine ⟨store, (cellAt_yields found).bind ?_, Grows.refl _, rfl⟩
      rw [empty, if_pos rfl]
      exact Yields.pure none store
  | cons item items =>
      rcases shown with ⟨cell, found, has⟩
      rcases cachedHead_yields found has with ⟨later, heads, grows, same⟩
      refine ⟨later, (cellAt_yields found).bind ?_, grows, same⟩
      rw [has.full, if_neg Bool.false_ne_true]
      exact heads.map some

/-- `cdr` gives a cell of the rest, or nothing where there is none. -/
theorem Shows.cdr_yields
    (shown : Shows cut store.cells (item :: items) address) :
    ∃ (tail : Option (LazyHandle Value)) (later : Cells Value σ),
      Yields (cdr address) store (.ok tail) later ∧
        Behind cut items (Shows cut later.cells items) tail ∧
          Grows store.cells later.cells ∧ later.lists = store.lists := by
  rcases shown with ⟨cell, found, has⟩
  rcases cachedTail_yields found has with ⟨tail, later, tails, rest⟩
  refine ⟨tail, later, (cellAt_yields found).bind ?_, rest⟩
  rw [has.full, if_neg Bool.false_ne_true]
  exact tails

theorem Shows.cdr_nil
    (shown : Shows cut store.cells ([] : List Value) address) :
    Yields (cdr address) store (.ok none) store := by
  rcases shown with ⟨cell, found, empty⟩
  refine (cellAt_yields found).bind ?_
  rw [empty, if_pos rfl]
  exact Yields.pure none store

end Operations

section Contract

open LazyConsList

variable {lists : ListValue Value Value σ} {isList : Value → Bool}
variable {held : Spine.Held Value (LazyHandle Value)} {store after : Cells Value σ}

/-- A handle of a cell that shows a list. -/
def GivesCell (cut : Bool) (cells : List (LazyConsList Value))
    (handle : LazyHandle Value) (sequence : Sequence Value) : Prop :=
  ∃ address items, handle = .inl address ∧ sequence = .ofList items ∧
    Shows cut cells items address

/-- The handles that are held are of cells that show their lists. -/
def HoldsCells (cut : Bool) (held : Spine.Held Value (LazyHandle Value))
    (store : Cells Value σ) : Prop :=
  ∀ pair ∈ held, GivesCell cut store.cells pair.1 pair.2

theorem HoldsCells.mono
    (holding : HoldsCells cut held store)
    (grows : Grows store.cells after.cells) :
    HoldsCells cut held after := by
  intro pair member
  rcases holding _ member with ⟨address, items, isCell, gives, shown⟩
  exact ⟨address, items, isCell, gives, shown.mono grows⟩

/-- What is behind a value is held as well. -/
theorem HoldsCells.behind
    {tail : Option (LazyHandle Value)}
    (holding : HoldsCells cut held store)
    (behind : Behind cut items (Shows cut store.cells items) tail) :
    HoldsCells cut
      (tail.toList.map (fun handle => (handle, .ofList items)) ++ held)
      store := by
  intro pair member
  rcases List.mem_append.mp member with new | old
  · rcases List.mem_map.mp new with ⟨handle, isTail, rfl⟩
    rcases behind.eq.2 handle (Option.mem_toList.mp isTail) with
      ⟨next, rfl, shown⟩
    exact ⟨next, items, rfl, rfl, shown⟩
  · exact holding pair old

/-- `cdr` of a cell that is held gives a handle of the rest, if there is one. -/
theorem HoldsCells.cdr_yields
    (holding : HoldsCells cut held store)
    (shown : Shows cut store.cells items address) :
    ∃ (tail : Option (LazyHandle Value)) (after : Cells Value σ),
      Yields (cdr address) store (.ok tail) after ∧
        (Sequence.ofList items).answering cut .cdr =
          .rest (tail.map fun _ => (Sequence.ofList items).drop 1) ∧
        HoldsCells cut
          (tail.toList.map (fun handle =>
            (handle, (Sequence.ofList items).drop 1)) ++ held) after ∧
        ∀ handle, tail = some handle → ∃ next, handle = .inl next := by
  cases items with
  | nil =>
      refine ⟨none, store, shown.cdr_nil, ?_, holding, fun handle none => ?_⟩
      · cases cut <;> rfl
      · cases none
  | cons item items =>
      rcases shown.cdr_yields with ⟨tail, after, tails, behind, grows, _⟩
      have cells := (holding.mono grows).behind behind
      rcases behind.eq with ⟨ends, isCell⟩
      rw [Sequence.answering_cdr_ofList, ends, Sequence.ofList_drop]
      refine ⟨tail, after, tails, ?_, cells, fun handle same => ?_⟩
      · cases tail <;> rfl
      · rcases isCell handle same with ⟨next, isNext, _⟩
        exact ⟨next, isNext⟩

/-- The cells that are held keep giving their lists. -/
theorem cells_keep :
    (spine lists isList).Keeps (HoldsCells cut) where
  ends held store holding handle sequence member := by
    rcases holding _ member with ⟨_, items, rfl, rfl, _⟩
    exact Sequence.ofList_ends items
  perm held other store same holding pair member :=
    holding pair (same.mem_iff.mpr member)
  isEmpty held store holding handle sequence member := by
    rcases holding _ member with ⟨address, items, rfl, rfl, shown⟩
    have first : (Sequence.ofList items 0).isNone = items.isEmpty := by
      cases items <;> rfl
    rw [first]
    exact ⟨store, shown.isEmpty_yields, holding⟩
  car held store holding handle sequence member := by
    rcases holding _ member with ⟨address, items, rfl, rfl, shown⟩
    rcases shown.car_yields with ⟨after, heads, grows, _⟩
    rw [List.head?_eq_getElem?] at heads
    exact ⟨after, heads, holding.mono grows⟩
  cdr held store holding handle sequence member := by
    rcases holding _ member with ⟨address, items, rfl, rfl, shown⟩
    rcases holding.cdr_yields shown with ⟨tail, after, tails, told, kept, cells⟩
    have own : tail.bind (asList isList) = tail := by
      cases tail with
      | none => rfl
      | some handle =>
          rcases cells handle rfl with ⟨next, rfl⟩
          rfl
    have walks := tails.map fun tail => tail.bind (asList isList)
    rw [own] at walks
    refine ⟨tail, after, walks, fun none => ?_, kept⟩
    rw [none] at told
    exact Sequence.second_of_no_rest told
  release held store handle sequence holding := by
    have left : HoldsCells cut held store := fun pair member =>
      holding pair (List.mem_cons_of_mem _ member)
    rcases holding _ List.mem_cons_self with ⟨_, _, rfl, _, _⟩
    exact left

/--
`spine_len_cmp` walks a spine by `is_empty` and `cdr` to compare how many values
there are with a number, and lets go of the handles that it was given.
-/
def Compares (spineLenCmp : Spine Value (LazyHandle Value) (Cells Value σ) →
    LazyHandle Value → Nat → Forcing Value σ Ordering) : Prop :=
  ∀ (spine : Spine Value (LazyHandle Value) (Cells Value σ))
    (holds : Spine.Held Value (LazyHandle Value) → Cells Value σ → Prop),
    spine.Keeps holds → ∀ held store, holds held store →
      ∀ handle sequence, (handle, sequence) ∈ held → ∀ n, ∃ after,
        Yields (spineLenCmp spine handle n) store (.ok (sequence.lenCmp n))
            after ∧
          holds held after

/-- Cells answer as the lists that they show, however they are forced. -/
theorem cells_answer
    {spineLenCmp : Spine Value (LazyHandle Value) (Cells Value σ) →
      LazyHandle Value → Nat → Forcing Value σ Ordering}
    (compares : Compares spineLenCmp) :
    (object lists isList spineLenCmp).Answers (Sequence.answering cut)
      (HoldsCells cut) where
  answers held store holding handle sequence member call := by
    have keeps : (spine lists isList).Keeps (HoldsCells cut) := cells_keep
    rcases holding _ member with ⟨address, items, rfl, rfl, shown⟩
    cases call with
    | isEmpty =>
        rcases keeps.isEmpty _ store holding _ _ member with
          ⟨after, runs, kept⟩
        exact ⟨.truth _, after, runs.map _, rfl, kept⟩
    | truth =>
        have told : (!items.isEmpty) = (Sequence.ofList items 0).isSome := by
          cases items <;> rfl
        exact ⟨.truth _, store, shown.truth_yields.map _,
          congrArg Answer.truth told.symm, holding⟩
    | car =>
        rcases keeps.car _ store holding _ _ member with ⟨after, runs, kept⟩
        exact ⟨.item _, after, runs.map _, rfl, kept⟩
    | cdr =>
        rcases holding.cdr_yields shown with ⟨tail, after, tails, told, kept, _⟩
        refine ⟨.rest (tail.map fun handle =>
          (handle, (Sequence.ofList items).drop 1)), after, ?_, ?_, ?_⟩
        · cases tail <;> exact tails.map _
        · rw [told]
          cases tail <;> rfl
        · cases tail <;> exact kept
    | get index =>
        rcases keeps.get_yields holding member index with ⟨after, runs, kept⟩
        exact ⟨.item _, after, runs.map _, rfl, kept⟩
    | lenCmp n =>
        rcases compares _ _ keeps _ store holding _ _ member n with
          ⟨after, runs, kept⟩
        exact ⟨.order _, after, runs.map _, rfl, kept⟩
    | forEach turns limit =>
        rcases keeps.forEach_yields holding member turns limit with
          ⟨after, runs, kept⟩
        exact ⟨.visited _ _, after, runs.map _, rfl, kept⟩
  release := (cells_keep : (spine lists isList).Keeps (HoldsCells cut)).release
  perm := (cells_keep : (spine lists isList).Keeps (HoldsCells cut)).perm

/-- `new_list` makes a chain that is cut at its last value. -/
theorem newList_yields
    (items : List Value) (store : Cells Value σ) :
    ∃ handle after,
      Yields (LazyBackend.newList items) store (.ok handle) after ∧
        HoldsCells true [(handle, .ofList items)] after := by
  have makes := (alloc_yields (chainCell items 0) store).map
    fun address => (.inl address : LazyHandle Value)
  refine ⟨_, _, makes, fun pair member => ?_⟩
  cases List.mem_singleton.mp member
  exact ⟨_, items, rfl, rfl, shows_chainCell List.getElem?_concat_length⟩

/-- Repeated `new_cons` makes a chain that ends in the empty cell. -/
theorem consAll_shows
    (isList : Value → Bool) (items : List Value) (store : Cells Value σ) :
    ∃ (address : Nat) (after : Cells Value σ),
      Yields (LazyBackend.consAll isList items) store (.ok (.inl address))
          after ∧
        Shows false after.cells items address := by
  induction items with
  | nil =>
      have makes := (alloc_yields (chainCell ([] : List Value) 0) store).map
        fun address => (.inl address : LazyHandle Value)
      have found : (store.cells ++ [emptyCell])[store.cells.length]? =
          some (emptyCell : LazyConsList Value) :=
        List.getElem?_concat_length
      exact ⟨_, _, makes, emptyCell, found, rfl⟩
  | cons item items inductionHypothesis =>
      rcases inductionHypothesis with ⟨tail, middle, makes, shown⟩
      let cell : LazyConsList Value := .new (.given item) (.given (.inl tail))
      have more := (alloc_yields cell middle).map
        fun address => (.inl address : LazyHandle Value)
      have found : (middle.cells ++ [cell])[middle.cells.length]? = some cell :=
        List.getElem?_concat_length
      refine ⟨_, _, makes.bind more, cell, found, rfl, ⟨_, rfl, rfl⟩,
        fun _ none => ?_, ⟨_, rfl, fun _ => ⟨rfl, ?_⟩⟩, fun _ none => ?_⟩
      · cases none
      · exact shown.mono (Grows.append middle.cells cell)
      · cases none

theorem consAll_yields
    (isList : Value → Bool) (items : List Value) (store : Cells Value σ) :
    ∃ handle after,
      Yields (LazyBackend.consAll isList items) store (.ok handle) after ∧
        HoldsCells false [(handle, .ofList items)] after := by
  rcases consAll_shows isList items store with ⟨address, after, makes, shown⟩
  refine ⟨.inl address, after, makes, fun pair member => ?_⟩
  cases List.mem_singleton.mp member
  exact ⟨address, items, rfl, rfl, shown⟩

end Contract

end SimStorage.Lists
