import Mathlib.Data.Set.Function

namespace SimStorage.Framing

/-!
# Codes that end themselves

A code delimits its items when the code of an item tells the item and where it
ends, whatever follows.  Such codes compose: one after the other, and as a
stream of any number of items before a tail whose length is known.  A stream of
one code before a stream of another is told only up to items of the first that
the second spells.
-/

variable {α β γ : Type}

/-- The code of an item tells the item and where it ends. -/
def Delimits (valid : Set α) (encode : α → List γ) : Prop :=
  ∀ first ∈ valid, ∀ second ∈ valid, ∀ rest other,
    encode first ++ rest = encode second ++ other →
      first = second ∧ rest = other

namespace Delimits

variable {valid : Set α} {encode : α → List γ}

/-- Codes of one length delimit when they are injective. -/
theorem fixed
    {length : Nat}
    (told : Set.InjOn encode valid)
    (sized : ∀ item, (encode item).length = length) :
    Delimits valid encode := by
  intro first isFirst second isSecond rest other same
  obtain ⟨codes, tails⟩ :=
    List.append_inj same ((sized first).trans (sized second).symm)
  exact ⟨told isFirst isSecond codes, tails⟩

/-- What is encoded by its image is delimited by the image's code. -/
theorem comap
    {image : β → α} {source : Set β}
    (delimits : Delimits valid encode)
    (lands : Set.MapsTo image source valid)
    (told : Set.InjOn image source) :
    Delimits source fun item => encode (image item) := by
  intro first isFirst second isSecond rest other same
  obtain ⟨images, tails⟩ :=
    delimits _ (lands isFirst) _ (lands isSecond) rest other same
  exact ⟨told isFirst isSecond images, tails⟩

/-- One code after the other. -/
theorem append
    {later : Set β} {encodeLater : β → List γ}
    (delimits : Delimits valid encode)
    (delimitsLater : Delimits later encodeLater) :
    Delimits (valid ×ˢ later) fun pair =>
      encode pair.1 ++ encodeLater pair.2 := by
  intro first isFirst second isSecond rest other same
  simp only [List.append_assoc] at same
  obtain ⟨heads, same⟩ := delimits _ isFirst.1 _ isSecond.1 _ _ same
  obtain ⟨tails, same⟩ := delimitsLater _ isFirst.2 _ isSecond.2 _ _ same
  exact ⟨Prod.ext heads tails, same⟩

/-- A header that tells the length of a body, and the body. -/
theorem framed
    {valid : Set (List γ)} {header : Nat → List γ}
    (delimits : Delimits (List.length '' valid) header) :
    Delimits valid fun body => header body.length ++ body := by
  intro first isFirst second isSecond rest other same
  simp only [List.append_assoc] at same
  obtain ⟨lengths, same⟩ := delimits _ ⟨first, isFirst, rfl⟩ _
    ⟨second, isSecond, rfl⟩ _ _ same
  exact List.append_inj same lengths

/-- A stream of items and a tail, when the length of the tail is known. -/
theorem flatMap
    (delimits : Delimits valid encode)
    (nonempty : ∀ item, encode item ≠ [])
    {items others : List α} {tail ending : List γ}
    (valid_items : ∀ item ∈ items, item ∈ valid)
    (valid_others : ∀ item ∈ others, item ∈ valid)
    (lengths : tail.length = ending.length)
    (same : items.flatMap encode ++ tail = others.flatMap encode ++ ending) :
    items = others ∧ tail = ending := by
  induction items generalizing others with
  | nil =>
      cases others with
      | nil => exact ⟨rfl, same⟩
      | cons other rest =>
          have longer := congrArg List.length same
          have positive := List.length_pos_iff.mpr (nonempty other)
          simp only [List.flatMap_nil, List.flatMap_cons, List.nil_append,
            List.length_append] at longer
          omega
  | cons item rest inductionHypothesis =>
      cases others with
      | nil =>
          have longer := congrArg List.length same
          have positive := List.length_pos_iff.mpr (nonempty item)
          simp only [List.flatMap_nil, List.flatMap_cons, List.nil_append,
            List.length_append] at longer
          omega
      | cons other later =>
          simp only [List.flatMap_cons, List.append_assoc] at same
          obtain ⟨rfl, later_same⟩ := delimits _ (valid_items _ List.mem_cons_self)
            _ (valid_others _ List.mem_cons_self) _ _ same
          obtain ⟨rfl, tails⟩ := inductionHypothesis
            (fun found member =>
              valid_items found (List.mem_cons_of_mem _ member))
            (fun found member =>
              valid_others found (List.mem_cons_of_mem _ member)) later_same
          exact ⟨rfl, tails⟩

/-- A stream alone. -/
theorem flatMap_injective
    (delimits : Delimits valid encode)
    (nonempty : ∀ item, encode item ≠ [])
    {items others : List α}
    (valid_items : ∀ item ∈ items, item ∈ valid)
    (valid_others : ∀ item ∈ others, item ∈ valid)
    (same : items.flatMap encode = others.flatMap encode) :
    items = others := by
  have padded : items.flatMap encode ++ [] = others.flatMap encode ++ [] := by
    rw [same]
  exact (delimits.flatMap nonempty valid_items valid_others rfl padded).1

/-- Streams before anything: one begins with the other, and the rest is spelt. -/
theorem flatMap_append
    (delimits : Delimits valid encode)
    {items others : List α} {rest ending : List γ}
    (valid_items : ∀ item ∈ items, item ∈ valid)
    (valid_others : ∀ item ∈ others, item ∈ valid)
    (same : items.flatMap encode ++ rest = others.flatMap encode ++ ending) :
    (∃ extra, others = items ++ extra ∧
        rest = extra.flatMap encode ++ ending) ∨
      ∃ extra, items = others ++ extra ∧
        ending = extra.flatMap encode ++ rest := by
  induction items generalizing others with
  | nil => exact .inl ⟨others, rfl, same⟩
  | cons item later inductionHypothesis =>
      cases others with
      | nil => exact .inr ⟨item :: later, rfl, same.symm⟩
      | cons other others =>
          simp only [List.flatMap_cons, List.append_assoc] at same
          obtain ⟨rfl, later_same⟩ := delimits _ (valid_items _ List.mem_cons_self)
            _ (valid_others _ List.mem_cons_self) _ _ same
          rcases inductionHypothesis
            (fun found member =>
              valid_items found (List.mem_cons_of_mem _ member))
            (fun found member =>
              valid_others found (List.mem_cons_of_mem _ member))
            later_same with
            ⟨extra, rfl, spelt⟩ | ⟨extra, rfl, spelt⟩
          · exact .inl ⟨extra, rfl, spelt⟩
          · exact .inr ⟨extra, rfl, spelt⟩

end Delimits

end SimStorage.Framing
