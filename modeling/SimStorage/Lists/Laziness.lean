import SimStorage.Lists.Thunks

namespace SimStorage.Lists.Thunks

/-!
# How lazy the lazy cells are

A cell gives the outcomes of its closures, whenever it is forced.  So `get` is
`car` behind `cdr`s, and `for_each` with a limit visits the first elements, just
where nothing fails that the walks force besides.
-/

open Interaction Thunks.LazyConsList

variable {HeadFn TailFn Value Seed σ α : Type}
variable {meaning : Meaning HeadFn TailFn Value}
variable {lists : ListObjects Value σ}
variable {giving : σ → Value → Unrolled Value → Prop}
variable {closures : Closures HeadFn TailFn Value σ}
variable {holds : Store HeadFn TailFn Value σ → Prop}
variable {store middle after : Store HeadFn TailFn Value σ}
variable {cell : LazyConsList HeadFn TailFn Value}
variable {handle : Handle Value} {list : Unrolled Value} {address : Nat}

section Lasting

theorem Later.refl
    (store : Store HeadFn TailFn Value σ) :
    Later giving store store where
  cells _ cell found := ⟨cell, found, rfl, rfl, rfl⟩
  others := Spine.Lasts.refl store.others

theorem Later.trans
    (first : Later giving store middle)
    (second : Later giving middle after) :
    Later giving store after where
  cells address cell found := by
    rcases first.cells address cell found with ⟨next, foundNext, same⟩
    rcases second.cells address next foundNext with ⟨last, foundLast, more⟩
    exact ⟨last, foundLast, more.empty.trans same.empty,
      more.headFn.trans same.headFn, more.tailFn.trans same.tailFn⟩
  others := first.others.trans second.others

theorem Shows.later
    (shown : Shows meaning giving store handle list)
    (later : Later giving store after) :
    Shows meaning giving after handle list := by
  cases handle with
  | inl address =>
      rcases shown with ⟨cell, found, means⟩
      rcases later.cells address cell found with ⟨next, foundNext, same⟩
      refine ⟨next, foundNext, ?_⟩
      rw [LazyConsList.Means, same.empty, same.headFn, same.tailFn]
      exact means
  | inr tail => exact later.others tail list shown

theorem TailShows.later
    {expected : Except Failure (Option (Unrolled Value))}
    {found : Except Failure (Option (Handle Value))}
    (shown : TailShows meaning giving lists store expected found)
    (later : Later giving store after) :
    TailShows meaning giving lists after expected found := by
  cases shown with
  | failed failure => exact .failed failure
  | ended noList => exact .ended noList
  | next shown => exact .next (shown.later later)

/-- A call of another list keeps the cells. -/
theorem onOthers_yields
    {call : EStateM Failure σ α} {outcome : Except Failure α} {others : σ}
    (yields : Yields call store.others outcome others) :
    Yields (onOthers call) store outcome { store with others } := by
  rw [Yields] at yields ⊢
  simp only [onOthers, yields]
  cases outcome <;> rfl

theorem Later.others_only
    {others : σ}
    (lasts : Spine.Lasts giving store.others others) :
    Later giving store { store with others } where
  cells _ cell found := ⟨cell, found, rfl, rfl, rfl⟩
  others := lasts

theorem Cached.others_only
    {others : σ}
    (cached : Cached meaning giving lists store)
    (lasts : Spine.Lasts giving store.others others) :
    Cached meaning giving lists { store with others } where
  head := cached.head
  tail address cell found tailFn isTail result kept :=
    (cached.tail address cell found tailFn isTail result kept).later
      (Later.others_only lasts)

/-- A change of the caches of a cell. -/
theorem Later.changed
    (store : Store HeadFn TailFn Value σ) (address : Nat)
    (update : LazyConsList HeadFn TailFn Value →
      LazyConsList HeadFn TailFn Value)
    (same : ∀ cell : LazyConsList HeadFn TailFn Value,
      cell.Same (update cell)) :
    Later giving store
      { store with cells := store.cells.modify address update } where
  cells other cell found := by
    rw [List.getElem?_modify, found]
    by_cases here : address = other
    · exact ⟨update cell, by simp [here], same cell⟩
    · exact ⟨cell, by simp [here], rfl, rfl, rfl⟩
  others := Spine.Lasts.refl store.others

/-- What is found after a change was there before, changed or not. -/
theorem found_changed
    {cells : List (LazyConsList HeadFn TailFn Value)}
    {update : LazyConsList HeadFn TailFn Value →
      LazyConsList HeadFn TailFn Value}
    {other : Nat}
    (found : (cells.modify address update)[other]? = some cell) :
    ∃ before, cells[other]? = some before ∧
      (address = other ∧ cell = update before ∨ cell = before) := by
  rw [List.getElem?_modify] at found
  rcases Option.map_eq_some_iff.mp found with ⟨before, there, rfl⟩
  by_cases here : address = other
  · exact ⟨before, there, .inl ⟨here, by simp [here]⟩⟩
  · exact ⟨before, there, .inr (by simp [here])⟩

end Lasting

section Caching

theorem cellAt_yields
    (found : store.cells[address]? = some cell) :
    Yields (cellAt address) store (.ok cell) store := by
  refine (Yields.get store).bind ?_
  rw [found]
  exact Yields.pure cell store

/-- The right outcome of a head may be kept. -/
theorem Cached.keepHead
    {headFn : HeadFn}
    (cached : Cached meaning giving lists store)
    (found : store.cells[address]? = some cell)
    (isHead : cell.headFn = some headFn) :
    Cached meaning giving lists { store with
      cells := store.cells.modify address fun cell =>
        { cell with headCache := some (meaning.head headFn) } } where
  head other later foundLater otherFn isOther result kept := by
    rcases found_changed foundLater with ⟨before, there, ⟨rfl, rfl⟩ | rfl⟩
    · cases found.symm.trans there
      cases isHead.symm.trans isOther
      exact (Option.some.inj kept).symm
    · exact cached.head other later there otherFn isOther result kept
  tail other later foundLater tailFn isTail result kept := by
    have changed : Later giving store _ := Later.changed store address
      (fun cell => { cell with headCache := some (meaning.head headFn) })
      fun _ => ⟨rfl, rfl, rfl⟩
    rcases found_changed foundLater with ⟨before, there, ⟨rfl, rfl⟩ | rfl⟩
    · exact (cached.tail _ before there tailFn isTail result kept).later changed
    · exact (cached.tail _ later there tailFn isTail result kept).later changed

/-- The right outcome of a tail may be kept. -/
theorem Cached.keepTail
    {tailFn : TailFn} {result : Except Failure (Option (Handle Value))}
    (cached : Cached meaning giving lists store)
    (found : store.cells[address]? = some cell)
    (isTail : cell.tailFn = some tailFn)
    (right : TailShows meaning giving lists store (meaning.tail tailFn) result) :
    Cached meaning giving lists { store with
      cells := store.cells.modify address fun cell =>
        { cell with tailCache := some result } } where
  head other later foundLater headFn isHead result kept := by
    rcases found_changed foundLater with ⟨before, there, ⟨rfl, rfl⟩ | rfl⟩
    · exact cached.head _ before there headFn isHead result kept
    · exact cached.head _ later there headFn isHead result kept
  tail other later foundLater otherFn isOther kept isKept := by
    have changed : Later giving store _ := Later.changed store address
      (fun cell => { cell with tailCache := some result })
      fun _ => ⟨rfl, rfl, rfl⟩
    rcases found_changed foundLater with ⟨before, there, ⟨rfl, rfl⟩ | rfl⟩
    · cases found.symm.trans there
      cases isTail.symm.trans isOther
      cases isKept
      exact right.later changed
    · exact (cached.tail _ later there otherFn isOther kept isKept).later changed

/-- The head of a cell is the outcome of its closure. -/
theorem cachedHead_yields
    {headFn : HeadFn}
    (steady : Steady meaning giving lists closures holds)
    (kept : holds store)
    (cached : Cached meaning giving lists store)
    (found : store.cells[address]? = some cell)
    (isHead : cell.headFn = some headFn) :
    ∃ after, Yields (cachedHead closures address) store (meaning.head headFn)
        after ∧
      Later giving store after ∧ holds after ∧
        Cached meaning giving lists after := by
  have reads := cellAt_yields found
  cases cache : cell.headCache with
  | some result =>
      have right := cached.head address cell found headFn isHead result cache
      refine ⟨store, reads.bind ?_, Later.refl store, kept, cached⟩
      simp only [isHead, cache, right]
      exact Yields.ofExcept _ store
  | none =>
      rcases steady.head headFn store kept cached with
        ⟨middle, calls, later, keptLater, cachedLater⟩
      rcases later.cells address cell found with ⟨next, foundNext, same⟩
      have isNext := same.headFn.trans isHead
      have changed : Later giving middle _ := Later.changed middle address
        (fun cell => { cell with headCache := some (meaning.head headFn) })
        fun _ => ⟨rfl, rfl, rfl⟩
      have filled := steady.filled middle address
        (fun cell => { cell with headCache := some (meaning.head headFn) })
        (fun _ => ⟨rfl, rfl, rfl⟩) keptLater
      refine ⟨_, reads.bind ?_, later.trans changed, filled,
        cachedLater.keepHead foundNext isNext⟩
      simp only [isHead, cache]
      exact calls.observe.bind
        ((Yields.modify _ middle).bind (Yields.ofExcept _ _))

/-- The tail of a cell is the outcome of its closure. -/
theorem cachedTail_yields
    {tailFn : TailFn}
    (steady : Steady meaning giving lists closures holds)
    (kept : holds store)
    (cached : Cached meaning giving lists store)
    (found : store.cells[address]? = some cell)
    (isTail : cell.tailFn = some tailFn) :
    ∃ result after, Yields (cachedTail closures address) store result after ∧
      Later giving store after ∧ holds after ∧
        Cached meaning giving lists after ∧
          TailShows meaning giving lists after (meaning.tail tailFn) result := by
  have reads := cellAt_yields found
  cases cache : cell.tailCache with
  | some result =>
      have right := cached.tail address cell found tailFn isTail result cache
      refine ⟨result, store, reads.bind ?_, Later.refl store, kept, cached,
        right⟩
      simp only [isTail, cache]
      exact Yields.ofExcept _ store
  | none =>
      rcases steady.tail tailFn store kept cached with
        ⟨result, middle, calls, later, keptLater, cachedLater, right⟩
      rcases later.cells address cell found with ⟨next, foundNext, same⟩
      have isNext := same.tailFn.trans isTail
      have changed : Later giving middle _ := Later.changed middle address
        (fun cell => { cell with tailCache := some result })
        fun _ => ⟨rfl, rfl, rfl⟩
      have filled := steady.filled middle address
        (fun cell => { cell with tailCache := some result })
        (fun _ => ⟨rfl, rfl, rfl⟩) keptLater
      refine ⟨result, _, reads.bind ?_, later.trans changed, filled,
        cachedLater.keepTail foundNext isNext right, right.later changed⟩
      simp only [isTail, cache]
      exact calls.observe.bind
        ((Yields.modify _ middle).bind (Yields.ofExcept _ _))

end Caching

section Giving

theorem Gives.later
    (gives : Gives meaning giving lists holds store handle list)
    (later : Later giving store after)
    (kept : holds after)
    (cached : Cached meaning giving lists after) :
    Gives meaning giving lists holds after handle list :=
  ⟨kept, cached, gives.2.2.later later⟩

/-- What happens to the store changes nothing of what handles give. -/
theorem lasts_of_later
    (later : Later giving store after)
    (kept : holds after)
    (cached : Cached meaning giving lists after) :
    Spine.Lasts (Gives meaning giving lists holds) store after :=
  fun _ _ gives => gives.later later kept cached

/-- A call of another list changes nothing of what handles give. -/
theorem Gives.others
    {others : σ}
    (steady : Steady meaning giving lists closures holds)
    (gives : Gives meaning giving lists holds store handle list)
    (lasts : Spine.Lasts giving store.others others) :
    Spine.Lasts (Gives meaning giving lists holds) store
      { store with others } :=
  lasts_of_later (Later.others_only lasts)
    (steady.others store others lasts gives.1) (gives.2.1.others_only lasts)

/-- The tail of the first cell, as a list. -/
theorem TailShows.followed
    {tailFn : TailFn} {headFn : HeadFn}
    {found : Except Failure (Option (Handle Value))}
    (shown : TailShows meaning giving lists store (meaning.tail tailFn) found)
    (kept : holds store)
    (cached : Cached meaning giving lists store)
    (areLists : ∀ state value list, giving state value list →
      lists.isList value = true) :
    Spine.Followed (Gives meaning giving lists holds) store
      (meaning.unrolled headFn tailFn)
      (found.map (·.bind (asList lists))) := by
  generalize expected : meaning.tail tailFn = outcome at shown
  have first : (meaning.unrolled headFn tailFn 0).tail =
      Option.isSome <$> outcome := by
    rw [← expected]
    rfl
  cases shown with
  | failed failure => exact .failed first
  | @ended tail noList =>
      have ends : Except.map (fun tail => tail.bind (asList lists))
          (.ok tail : Except Failure _) = .ok none := congrArg Except.ok noList
      rw [ends]
      exact .ended first
  | @next list handle shown =>
      have isOwn : asList lists handle = some handle := by
        cases handle with
        | inl address => rfl
        | inr tail => exact if_pos (areLists _ tail list shown)
      have next : Except.map (fun tail => tail.bind (asList lists))
          (.ok (some handle) : Except Failure _) = .ok (some handle) :=
        congrArg Except.ok isOwn
      rw [next]
      refine .next first ⟨kept, cached, ?_⟩
      have behind : (meaning.unrolled headFn tailFn).drop 1 = list := by
        funext index
        rw [Unrolled.drop, Nat.add_comm, Meaning.unrolled, expected]
      rw [behind]
      exact shown

/-- `is_empty` of a lazy cell. -/
theorem isEmpty_yields
    (gives : Gives meaning giving lists holds store (.inl address) list) :
    Yields (isEmpty address) store (.ok (list 0).isEmpty) store := by
  rcases gives.2.2 with ⟨cell, found, means⟩
  have first : (list 0).isEmpty = cell.empty := by
    rcases means with ⟨empty, first⟩ | ⟨full, headFn, tailFn, _, _, rfl⟩
    · rw [first, empty]
      rfl
    · rw [full]
      rfl
  rw [first]
  exact (cellAt_yields found).bind (Yields.pure cell.empty store)

/-- `car` of a lazy cell. -/
theorem car_yields
    (steady : Steady meaning giving lists closures holds)
    (gives : Gives meaning giving lists holds store (.inl address) list) :
    ∃ after, Yields (car closures address) store (list 0).head after ∧
      Spine.Lasts (Gives meaning giving lists holds) store after := by
  rcases gives with ⟨kept, cached, cell, found, means⟩
  have reads := cellAt_yields found
  rcases means with ⟨empty, first⟩ | ⟨full, headFn, tailFn, isHead, _, rfl⟩
  · refine ⟨store, reads.bind ?_, Spine.Lasts.refl store⟩
    rw [empty, if_pos rfl, first]
    exact Yields.pure none store
  · rcases cachedHead_yields steady kept cached found isHead with
      ⟨after, heads, later, keptLater, cachedLater⟩
    refine ⟨after, reads.bind ?_, lasts_of_later later keptLater cachedLater⟩
    rw [full, if_neg Bool.false_ne_true]
    have first : (meaning.unrolled headFn tailFn 0).head =
        some <$> meaning.head headFn := rfl
    rw [first]
    cases outcome : meaning.head headFn with
    | ok value =>
        rw [outcome] at heads
        exact heads.map some
    | error failure =>
        rw [outcome] at heads
        exact heads.mapError some

/-- `cdr` of a lazy cell, as a list. -/
theorem cdr_yields
    (steady : Steady meaning giving lists closures holds)
    (areLists : ∀ state value list, giving state value list →
      lists.isList value = true)
    (gives : Gives meaning giving lists holds store (.inl address) list) :
    ∃ outcome after, Yields
        ((·.bind (asList lists)) <$> cdr closures address) store outcome after ∧
      Spine.Lasts (Gives meaning giving lists holds) store after ∧
        Spine.Followed (Gives meaning giving lists holds) after list
          outcome := by
  rcases gives with ⟨kept, cached, cell, found, means⟩
  have reads := cellAt_yields found
  rcases means with ⟨empty, first⟩ | ⟨full, headFn, tailFn, _, isTail, rfl⟩
  · have nothing : Yields (cdr closures address) store (.ok none) store := by
      refine reads.bind ?_
      rw [empty, if_pos rfl]
      exact Yields.pure none store
    refine ⟨_, store, nothing.map _, Spine.Lasts.refl store, .ended ?_⟩
    rw [first]
    rfl
  · rcases cachedTail_yields steady kept cached found isTail with
      ⟨result, after, tails, later, keptLater, cachedLater, shown⟩
    have whole : Yields (cdr closures address) store result after := by
      refine reads.bind ?_
      rw [full, if_neg Bool.false_ne_true]
      exact tails
    have followed : Spine.Followed (Gives meaning giving lists holds) after
        (meaning.unrolled headFn tailFn) _ :=
      shown.followed keptLater cachedLater areLists
    refine ⟨_, after, ?_, lasts_of_later later keptLater cachedLater, followed⟩
    cases result with
    | ok tail => exact whole.map _
    | error failure => exact whole.mapError _

/-- The lazy cells give their lists. -/
theorem cells_settled
    (steady : Steady meaning giving lists closures holds)
    (settled : (otherSpine lists).Settled giving)
    (areLists : ∀ state value list, giving state value list →
      lists.isList value = true) :
    (spine closures lists).Settled (Gives meaning giving lists holds) where
  isEmpty store handle list gives := by
    cases handle with
    | inl address =>
        exact ⟨store, isEmpty_yields gives, Spine.Lasts.refl store⟩
    | inr tail =>
        rcases settled.isEmpty store.others tail list gives.2.2 with
          ⟨others, empty, lasts⟩
        exact ⟨_, onOthers_yields empty, gives.others steady lasts⟩
  car store handle list gives := by
    cases handle with
    | inl address => exact car_yields steady gives
    | inr tail =>
        rcases settled.car store.others tail list gives.2.2 with
          ⟨others, heads, lasts⟩
        exact ⟨_, onOthers_yields heads, gives.others steady lasts⟩
  cdr store handle list gives := by
    cases handle with
    | inl address => exact cdr_yields steady areLists gives
    | inr tail =>
        rcases settled.cdr store.others tail list gives.2.2 with
          ⟨outcome, others, tails, lasts, followed⟩
        have later := gives.others steady lasts
        have calls : Yields (onOthers ((otherSpine lists).cdr tail)) store
            outcome { store with others } :=
          onOthers_yields tails
        cases followed with
        | failed fails =>
            exact ⟨_, _, calls.mapError _, later, .failed fails⟩
        | ended ends => exact ⟨_, _, calls.map _, later, .ended ends⟩
        | next more given =>
            have kept := later _ _ gives
            exact ⟨_, _, calls.map _, later,
              .next more ⟨kept.1, kept.2.1, given⟩⟩
  release store handle := by
    cases handle with
    | inl address => exact Spine.Lasts.refl store
    | inr tail =>
        intro other list gives
        have lasts := settled.release store.others tail
        exact gives.others steady lasts other list gives

end Giving

section Unfolding

variable {outcome : Seed → Except Failure (Value × Seed)}
variable {step : Seed → EStateM Failure σ (Value × Seed)}

/-- The list of a seed, where a step has its outcome. -/
def unfoldCells (outcome : Seed → Except Failure (Value × Seed)) :
    Nat → Seed → Unrolled.Cell Value
  | 0, seed =>
      .cell (Prod.fst <$> outcome seed) ((fun _ => true) <$> outcome seed)
  | index + 1, seed =>
      match outcome seed with
      | .ok (_, next) => unfoldCells outcome index next
      | .error _ => .empty

/-- The list that `unfold` makes of a seed. -/
def unfolded (outcome : Seed → Except Failure (Value × Seed)) (seed : Seed) :
    Unrolled Value := fun index =>
  unfoldCells outcome index seed

/-- The outcomes of the closures that have captured a seed. -/
def unfoldMeaning (outcome : Seed → Except Failure (Value × Seed)) :
    Meaning Seed Seed Value where
  head seed := Prod.fst <$> outcome seed
  tail seed := (fun pair => some (unfolded outcome pair.2)) <$> outcome seed

theorem unfolded_eq
    (outcome : Seed → Except Failure (Value × Seed)) (seed : Seed) :
    unfolded outcome seed = (unfoldMeaning outcome).unrolled seed seed := by
  funext index
  cases index with
  | zero =>
      rw [unfolded, unfoldCells, Meaning.unrolled]
      cases result : outcome seed with
      | ok pair => simp [unfoldMeaning, result]
      | error failure => simp [unfoldMeaning, result]
  | succ index =>
      rw [unfolded, unfoldCells, Meaning.unrolled]
      cases result : outcome seed with
      | ok pair =>
          simp only [unfoldMeaning, result]
          rfl
      | error failure =>
          simp only [unfoldMeaning, result]
          rfl

/-- What is found beside a new cell was there before, or is the new one. -/
theorem found_appended
    {cells : List (LazyConsList HeadFn TailFn Value)}
    {made : LazyConsList HeadFn TailFn Value}
    (found : (cells ++ [made])[address]? = some cell) :
    cells[address]? = some cell ∨ cell = made := by
  by_cases old : address < cells.length
  · rw [List.getElem?_append_left old] at found
    exact .inl found
  · rw [List.getElem?_append_right (Nat.le_of_not_lt old)] at found
    exact .inr (List.mem_singleton.mp (List.mem_of_getElem? found))

/-- A new cell is stored beside the others. -/
theorem alloc_later
    (cached : Cached meaning giving lists store)
    (headFn : HeadFn) (tailFn : TailFn) :
    ∃ address after, Yields (alloc (.new headFn tailFn)) store (.ok address)
        after ∧
      Later giving store after ∧ Cached meaning giving lists after ∧
        Shows meaning giving after (.inl address)
          (meaning.unrolled headFn tailFn) := by
  have later : Later giving store
      { store with cells := store.cells ++ [.new headFn tailFn] } := by
    refine ⟨fun address cell found => ⟨cell, ?_, rfl, rfl, rfl⟩,
      Spine.Lasts.refl store.others⟩
    rw [List.getElem?_append_left (List.getElem?_eq_some_iff.mp found).1]
    exact found
  refine ⟨store.cells.length, _,
    (Yields.get store).bind ((Yields.set _ _).bind (Yields.pure _ _)),
    later, ⟨?_, ?_⟩, ?_⟩
  · intro address cell found otherFn isHead result kept
    rcases found_appended found with old | rfl
    · exact cached.head address cell old otherFn isHead result kept
    · cases kept
  · intro address cell found otherFn isTail result kept
    rcases found_appended found with old | rfl
    · exact (cached.tail address cell old otherFn isTail result kept).later later
    · cases kept
  · exact ⟨_, List.getElem?_concat_length,
      .inr ⟨rfl, headFn, tailFn, rfl, rfl, rfl⟩⟩

/-- The closures of `unfold` have the outcomes of its steps. -/
theorem unfold_steady
    (steps : ∀ seed state, ∃ after, Yields (step seed) state (outcome seed)
        after ∧
      Spine.Lasts giving state after) :
    Steady (unfoldMeaning outcome) giving lists (unfoldClosures step)
      fun _ => True where
  head seed store _ cached := by
    rcases steps seed store.others with ⟨others, runs, lasts⟩
    have calls : Yields (onOthers (step seed)) store (outcome seed)
        { store with others } := onOthers_yields runs
    refine ⟨_, ?_, Later.others_only lasts, trivial, cached.others_only lasts⟩
    cases result : outcome seed with
    | ok pair =>
        rw [result] at calls
        simp only [unfoldMeaning, result]
        exact calls.bind (Yields.pure _ _)
    | error failure =>
        rw [result] at calls
        simp only [unfoldMeaning, result]
        exact calls.bindError
  tail seed store _ cached := by
    rcases steps seed store.others with ⟨others, runs, lasts⟩
    have calls : Yields (onOthers (step seed)) store (outcome seed)
        { store with others } := onOthers_yields runs
    have later : Later giving store { store with others } :=
      Later.others_only lasts
    have kept := cached.others_only lasts
    cases result : outcome seed with
    | ok pair =>
        rw [result] at calls
        rcases alloc_later kept pair.2 pair.2 with
          ⟨next, after, makes, more, cachedLater, shown⟩
        refine ⟨_, after, calls.bind (makes.bind (Yields.pure _ after)),
          later.trans more, trivial, cachedLater, ?_⟩
        rw [← unfolded_eq] at shown
        simp only [unfoldMeaning, result]
        exact .next shown
    | error failure =>
        rw [result] at calls
        refine ⟨_, _, calls.bindError, later, trivial, kept, ?_⟩
        simp only [unfoldMeaning, result]
        exact .failed failure
  filled _ _ _ _ _ := trivial
  others _ _ _ _ := trivial

/-- `unfold` makes a cell of the list of its seed. -/
theorem unfold_gives
    {store : Store Seed Seed Value σ}
    (cached : Cached (unfoldMeaning outcome) giving lists store)
    (seed : Seed) :
    ∃ address after, Yields (unfold seed) store (.ok address) after ∧
      Gives (unfoldMeaning outcome) giving lists (fun _ => True) after
        (.inl address) (unfolded outcome seed) := by
  rcases alloc_later cached seed seed with
    ⟨address, after, makes, _, cachedLater, shown⟩
  rw [← unfolded_eq] at shown
  exact ⟨address, after, makes, trivial, cachedLater, shown⟩

end Unfolding

section Access

/--
`get` gives what `car` gives behind the `cdr`s just when no head before and not
the last tail fails on its own, and then that of any list with the same tails
and head there; `for_each` gives the first elements, if they succeed, just when
the tail of the last and the cell behind it do not fail.
-/
theorem lazy_access_iff
    (steady : Steady meaning giving lists closures holds)
    (settled : (otherSpine lists).Settled giving)
    (areLists : ∀ state value list, giving state value list →
      lists.isList value = true)
    (gives : Gives meaning giving lists holds store (.inl address) list) :
    (∀ index, (∃ outcome after last,
        Yields (LazyConsList.get closures lists address index) store outcome
            after ∧
          Yields ((spine closures lists).carAfter index (.inl address)) store
            outcome last) ↔
        list.GetsAlone index) ∧
      (∀ index other, list.GetsAlone index →
        (∀ earlier < index, (list earlier).tail = (other earlier).tail) →
          (list index).head = (other index).head →
            ∃ after, Yields (LazyConsList.get closures lists address index)
              store (Unrolled.carAfter index other) after) ∧
      ∀ count turns items, count ≤ turns → list.taken count = .ok items →
        ((∃ after, Yields
            (LazyConsList.forEach closures lists address turns (some count))
            store (.ok (items, .finished)) after) ↔
          list.VisitsAlone count) := by
  have cells := cells_settled steady settled areLists
  refine ⟨fun index => ?_, fun index other alone tails head => ?_,
    fun count turns items fewer takes => ?_⟩
  · rcases cells.get_yields gives index with ⟨after, gets, _⟩
    rcases cells.carAfter_yields gives index with ⟨last, reads, _⟩
    rw [← Unrolled.get_eq_carAfter_iff]
    constructor
    · rintro ⟨outcome, found, walked, first, second⟩
      rw [(gets.unique first).1, (reads.unique second).1]
    · intro same
      exact ⟨_, after, last, gets, same ▸ reads⟩
  · rcases cells.get_yields gives index with ⟨after, gets, _⟩
    rw [(Unrolled.get_eq_carAfter_iff list index).mpr alone,
      Unrolled.carAfter_congr tails head] at gets
    exact ⟨after, gets⟩
  · rcases cells.forEach_yields gives turns (some count) with
      ⟨after, visits, _⟩
    rw [← Unrolled.forEach_eq_taken_iff fewer takes]
    constructor
    · rintro ⟨last, whole⟩
      exact Except.ok.inj (visits.unique whole).1
    · intro same
      exact ⟨after, same ▸ visits⟩

end Access

section Sample

/-- No value of another kind is a list. -/
def noOthers : ListObjects Nat Unit where
  isList _ := false
  isEmpty _ := throw (refused "not a list")
  car _ := throw (refused "not a list")
  cdr _ := throw (refused "not a list")
  release _ state := state

/-- One step, and then no more. -/
def sampleStep (seed : Nat) : EStateM Failure Unit (Nat × Nat) :=
  if seed = 0 then return (7, 1) else throw (refused "no more")

def sampleOutcome (seed : Nat) : Except Failure (Nat × Nat) :=
  if seed = 0 then .ok (7, 1) else .error (refused "no more")

/-- The store of `unfold` of the first seed. -/
def sampleStore : Store Nat Nat Nat Unit where
  cells := [.new 0 0]
  others := ()

/-- Of a list with one element, `get` is lazy and `for_each` is not. -/
theorem sample_lazy_access :
    (∀ index, (∃ outcome after last,
        Yields (LazyConsList.get (unfoldClosures sampleStep) noOthers 0 index)
            sampleStore outcome after ∧
          Yields ((spine (unfoldClosures sampleStep) noOthers).carAfter index
            (.inl 0)) sampleStore outcome last) ↔
        (unfolded sampleOutcome 0).GetsAlone index) ∧
      (∀ index other, (unfolded sampleOutcome 0).GetsAlone index →
        (∀ earlier < index,
          (unfolded sampleOutcome 0 earlier).tail = (other earlier).tail) →
          (unfolded sampleOutcome 0 index).head = (other index).head →
            ∃ after, Yields (LazyConsList.get (unfoldClosures sampleStep)
              noOthers 0 index) sampleStore (Unrolled.carAfter index other)
              after) ∧
      ∀ count turns items, count ≤ turns →
        (unfolded sampleOutcome 0).taken count = .ok items →
          ((∃ after, Yields (LazyConsList.forEach (unfoldClosures sampleStep)
              noOthers 0 turns (some count)) sampleStore
              (.ok (items, .finished)) after) ↔
            (unfolded sampleOutcome 0).VisitsAlone count) := by
  have steps : ∀ seed (state : Unit), ∃ after,
      Yields (sampleStep seed) state (sampleOutcome seed) after ∧
        Spine.Lasts (fun _ (_ : Nat) (_ : Unrolled Nat) => False) state after := by
    intro seed state
    refine ⟨state, ?_, Spine.Lasts.refl state⟩
    by_cases first : seed = 0
    · rw [sampleStep, sampleOutcome, if_pos first, if_pos first]
      exact Yields.pure _ state
    · rw [sampleStep, sampleOutcome, if_neg first, if_neg first]
      exact Yields.throw _ state
  have settled : (otherSpine noOthers).Settled
      (fun (_ : Unit) (_ : Nat) (_ : Unrolled Nat) => False) := by
    refine ⟨?_, ?_, ?_, fun state _ => Spine.Lasts.refl state⟩ <;>
      exact fun _ _ _ impossible => impossible.elim
  have fresh : Cached (unfoldMeaning sampleOutcome) (fun _ _ _ => False)
      noOthers { cells := [], others := () } := by
    refine ⟨fun address cell found => ?_, fun address cell found => ?_⟩ <;>
      cases found
  have gives : Gives (unfoldMeaning sampleOutcome) (fun _ _ _ => False) noOthers
      (fun _ => True) sampleStore (.inl 0) (unfolded sampleOutcome 0) := by
    rcases unfold_gives fresh 0 with ⟨address, after, makes, gives⟩
    have made : Yields (unfold 0) { cells := [], others := () } (.ok 0)
        sampleStore := rfl
    rcases made.unique makes with ⟨same, rfl⟩
    cases same
    exact gives
  exact lazy_access_iff (unfold_steady steps) settled
    (fun _ _ _ impossible => impossible.elim) gives

/-- Closures that only give what they have captured. -/
def constants : Closures (Except Failure Nat)
    (Except Failure (Option (Handle Nat))) Nat Unit where
  callHead := MonadExcept.ofExcept
  callTail := MonadExcept.ofExcept

/-- A cell whose tail fails. -/
def sampleCell : Store (Except Failure Nat)
    (Except Failure (Option (Handle Nat))) Nat Unit where
  cells := [.new (.ok 7) (.error (refused "later"))]
  others := ()

/--
The first element has a head that succeeds; but `get` fails with its tail, and
of an unfolded list `for_each` fails with the step behind its limit.
-/
theorem look_ahead_fails :
    ((∃ after, Yields ((spine constants noOthers).carAfter 0 (.inl 0))
        sampleCell (.ok (some 7)) after) ∧
      ∃ after, Yields (LazyConsList.get constants noOthers 0 0) sampleCell
        (.error (refused "later")) after) ∧
      (unfolded sampleOutcome 0).taken 1 = .ok [7] ∧
        ∃ after, Yields (LazyConsList.forEach (unfoldClosures sampleStep)
          noOthers 0 1 (some 1)) sampleStore
          (.ok ([7], .failed (refused "no more"))) after :=
  ⟨⟨⟨_, rfl⟩, ⟨_, rfl⟩⟩, rfl, ⟨_, rfl⟩⟩

end Sample

end SimStorage.Lists.Thunks
