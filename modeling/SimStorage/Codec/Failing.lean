import SimStorage.Codec.Spelling

namespace SimStorage.Codec

/-!
# Where a decoder fails

`FailsOn` describes the inputs on which a decoder ends with an error of a given
kind, in terms of the bytes that are left to read.  It composes along the
decoder monad wherever the first read is local: what it reads then stands in
front of the input of the second.
-/

variable {ε α β : Type} {bad : ε → Prop}

section Definitions

/-- The decoder ends with an error of the kind. -/
def Fails (bad : ε → Prop) (decoder : Decoder ε α) (cursor : Cursor) : Prop :=
  ∃ error, decoder cursor = .error error ∧ bad error

/-- The decoder never ends with an error of the kind. -/
def NeverFails (bad : ε → Prop) (decoder : Decoder ε α) : Prop :=
  ∀ cursor, ¬ Fails bad decoder cursor

/-- Within the machine word, the kind of error depends on the rest only. -/
def FailsOn (bad : ε → Prop) (decoder : Decoder ε α) (demand : Bytes → Prop) :
    Prop :=
  ∀ position rest, position + rest.length < wordBound →
    (Fails bad decoder ⟨position, rest⟩ ↔ demand rest)

/-- What a decoder reads depends on the bytes only that it consumes. -/
abbrev Local (decoder : Decoder ε α) : Prop :=
  Spelling decoder fun value bytes => Decodes decoder bytes value

/-- Some items are read in front of one that is not. -/
inductive Among (item : Decoder ε α) (demand : Bytes → Prop) :
    Nat → Bytes → Prop where
  | here {count : Nat} {rest : Bytes} :
      demand rest → Among item demand (count + 1) rest
  | later {count : Nat} {value : α} {leading rest : Bytes} :
      Decodes item leading value → Among item demand count rest →
      Among item demand (count + 1) (leading ++ rest)

/-- Something is read in front of an input that fails. -/
def Behind (relation : α → Bytes → Prop) (demand : α → Bytes → Prop)
    (rest : Bytes) : Prop :=
  ∃ value leading trailing, rest = leading ++ trailing ∧
    relation value leading ∧ demand value trailing

end Definitions

/-- A sequence of two reads fails in the first or in the second. -/
theorem bind_fails
    {first : Decoder ε α} {next : α → Decoder ε β} {cursor : Cursor} :
    Fails bad (first >>= next) cursor ↔
      Fails bad first cursor ∨
        ∃ value later, first cursor = .ok (value, later) ∧
          Fails bad (next value) later := by
  change Fails bad (Decoder.bind first next) cursor ↔ _
  unfold Fails Decoder.bind
  cases read : first cursor with
  | error error => simp
  | ok found =>
      obtain ⟨value, later⟩ := found
      simp

/-- A whole run fails where the decoder does. -/
theorem run_fails
    {decoder : Decoder ε α} {bytes : Bytes} :
    (∃ error, decoder.run bytes = .error error ∧ bad error) ↔
      Fails bad decoder ⟨0, bytes⟩ := by
  unfold Fails Decoder.run
  cases decoder ⟨0, bytes⟩ with
  | error error => simp [Except.map]
  | ok found => simp [Except.map]

namespace Spelling

variable {relation : α → Bytes → Prop}

theorem finish
    {trailing : ε} :
    Spelling (Decoder.finish trailing) fun _ bytes => bytes = [] := by
  intro cursor value later accepted
  unfold Decoder.finish at accepted
  split at accepted
  · cases accepted
    exact ⟨[], rfl, rfl⟩
  · cases accepted

/-- What a run reads is related to the bytes that it consumes. -/
theorem run
    {decoder : Decoder ε α} {bytes : Bytes} {value : α}
    (spelling : Spelling decoder relation)
    (read : decoder.run bytes = .ok value) :
    ∃ taken rest, bytes = taken ++ rest ∧ relation value taken := by
  unfold Decoder.run at read
  cases step : decoder ⟨0, bytes⟩ with
  | error error =>
      rw [step] at read
      cases read
  | ok found =>
      rw [step] at read
      cases read
      obtain ⟨taken, split, related⟩ := spelling _ _ _ step
      exact ⟨taken, _, split, related⟩

/-- Items that are read one after another consume their parts. -/
theorem many
    {item : Decoder ε α}
    (each : Spelling item relation) :
    ∀ count, Spelling (Decoder.many item count) fun values bytes =>
      values.length = count ∧ ∃ parts : List Bytes,
        bytes = parts.flatten ∧ List.Forall₂ relation values parts
  | 0 => .pure ⟨rfl, [], rfl, .nil⟩
  | count + 1 => by
      refine .bind each fun value leading related => ?_
      refine .bind (many each count) fun values bytes counted => .pure ?_
      obtain ⟨length, parts, rfl, all⟩ := counted
      refine ⟨by rw [List.length_cons, length], leading :: parts, ?_,
        .cons related all⟩
      rw [List.append_nil, List.flatten_cons]

end Spelling

namespace NeverFails

theorem pure
    {value : α} :
    NeverFails bad (pure value : Decoder ε α) := by
  rintro cursor ⟨error, impossible, _⟩
  cases impossible

theorem fail
    {error : ε}
    (good : ¬ bad error) :
    NeverFails bad (Decoder.fail error : Decoder ε α) := by
  rintro cursor ⟨_, ⟨⟩, isBad⟩
  exact good isBad

theorem lift
    {check : Except ε α}
    (good : ∀ error, check = .error error → ¬ bad error) :
    NeverFails bad (Decoder.lift check) := by
  cases check with
  | ok value => exact pure
  | error error => exact fail (good error rfl)

theorem bind
    {first : Decoder ε α} {next : α → Decoder ε β}
    (head : NeverFails bad first)
    (tail : ∀ value, NeverFails bad (next value)) :
    NeverFails bad (first >>= next) := by
  intro cursor fails
  rcases bind_fails.mp fails with early | ⟨value, later, _, late⟩
  · exact head cursor early
  · exact tail value later late

theorem take
    {overflow truncated : ε} {length : Nat}
    (inWord : ¬ bad overflow)
    (enough : ¬ bad truncated) :
    NeverFails bad (Decoder.take overflow truncated length) := by
  rintro cursor ⟨error, failed, isBad⟩
  unfold Decoder.take at failed
  split at failed
  · cases failed
    exact inWord isBad
  · split at failed
    · cases failed
      exact enough isBad
    · cases failed

theorem finish
    {trailing : ε}
    (good : ¬ bad trailing) :
    NeverFails bad (Decoder.finish trailing) := by
  rintro cursor ⟨error, failed, isBad⟩
  unfold Decoder.finish at failed
  split at failed
  · cases failed
  · cases failed
    exact good isBad

theorem many
    {item : Decoder ε α}
    (each : NeverFails bad item) :
    ∀ count, NeverFails bad (Decoder.many item count)
  | 0 => pure
  | count + 1 => bind each fun _ => bind (many each count) fun _ => pure

end NeverFails

namespace Local

theorem pure
    {value : α} :
    Local (pure value : Decoder ε α) :=
  Spelling.pure (Decodes.pure value)

theorem fail
    {error : ε} :
    Local (Decoder.fail error : Decoder ε α) :=
  Spelling.fail error

theorem lift
    {check : Except ε α} :
    Local (Decoder.lift check) :=
  Spelling.lift fun _ passed => Decodes.lift passed

theorem take
    {overflow truncated : ε} {length : Nat} :
    Local (Decoder.take overflow truncated length) := by
  intro cursor value later accepted
  obtain ⟨bytes, taken, rfl, sized⟩ := Spelling.take cursor value later accepted
  exact ⟨value, taken, Decodes.take sized⟩

theorem bind
    {first : Decoder ε α} {next : α → Decoder ε β}
    (head : Local first)
    (tail : ∀ value, Local (next value)) :
    Local (first >>= next) := by
  refine Spelling.bind head fun value leading read => ?_
  intro cursor result later accepted
  obtain ⟨trailing, taken, readLater⟩ := tail value cursor result later accepted
  exact ⟨trailing, taken, read.bind readLater⟩

theorem many
    {item : Decoder ε α}
    (each : Local item) :
    ∀ count, Local (Decoder.many item count)
  | 0 => pure
  | count + 1 => bind each fun _ => bind (many each count) fun _ => pure

end Local

namespace FailsOn

variable {demand : Bytes → Prop}

theorem congr
    {decoder : Decoder ε α} {other : Bytes → Prop}
    (fails : FailsOn bad decoder demand)
    (same : ∀ rest, demand rest ↔ other rest) :
    FailsOn bad decoder other :=
  fun position rest inWord => (fails position rest inWord).trans (same rest)

theorem never
    {decoder : Decoder ε α}
    (safe : NeverFails bad decoder) :
    FailsOn bad decoder fun _ => False :=
  fun _ _ _ => iff_of_false (safe _) id

theorem lift
    {check : Except ε α} :
    FailsOn bad (Decoder.lift check) fun _ =>
      ∃ error, check = .error error ∧ bad error := by
  intro position rest _
  unfold Fails
  cases check with
  | ok value => exact iff_of_false (by rintro ⟨_, ⟨⟩, _⟩) (by rintro ⟨_, ⟨⟩, _⟩)
  | error error =>
      constructor
      · rintro ⟨_, ⟨⟩, isBad⟩
        exact ⟨error, rfl, isBad⟩
      · rintro ⟨_, ⟨⟩, isBad⟩
        exact ⟨error, rfl, isBad⟩

/-- What follows without a failure of the kind does not matter. -/
theorem ending
    {first : Decoder ε α} {next : α → Decoder ε β}
    (fails : FailsOn bad first demand)
    (safe : ∀ value, NeverFails bad (next value)) :
    FailsOn bad (first >>= next) demand := by
  intro position rest inWord
  rw [bind_fails, ← fails position rest inWord]
  refine ⟨?_, .inl⟩
  rintro (early | ⟨value, later, _, late⟩)
  · exact early
  · exact (safe value later late).elim

/-- The second read fails on what the first one leaves. -/
theorem bind
    {first : Decoder ε α} {next : α → Decoder ε β}
    {relation : α → Bytes → Prop} {further : α → Bytes → Prop}
    (fails : FailsOn bad first demand)
    (spells : Spelling first relation)
    (decodes : ∀ value bytes, relation value bytes →
      Decodes first bytes value)
    (later : ∀ value, FailsOn bad (next value) (further value)) :
    FailsOn bad (first >>= next) fun rest =>
      demand rest ∨ Behind relation further rest := by
  intro position rest inWord
  rw [bind_fails, fails position rest inWord]
  refine or_congr_right ⟨?_, ?_⟩
  · rintro ⟨value, ⟨place, trailing⟩, read, late⟩
    obtain ⟨leading, taken, related⟩ := spells _ _ _ read
    change rest = leading ++ trailing at taken
    subst taken
    rw [List.length_append] at inWord
    have again := decodes value leading related position trailing (by omega)
    rw [read] at again
    cases again
    refine ⟨value, leading, trailing, rfl, related, ?_⟩
    exact (later value _ trailing (by omega)).mp late
  · rintro ⟨value, leading, trailing, rfl, related, late⟩
    rw [List.length_append] at inWord
    refine ⟨value, _, decodes value leading related position trailing
      (by omega), ?_⟩
    exact (later value _ trailing (by omega)).mpr late

/-- After a read that does not fail so, only the second one may. -/
theorem behind
    {first : Decoder ε α} {next : α → Decoder ε β}
    {relation : α → Bytes → Prop} {further : α → Bytes → Prop}
    (safe : NeverFails bad first)
    (spells : Spelling first relation)
    (decodes : ∀ value bytes, relation value bytes →
      Decodes first bytes value)
    (later : ∀ value, FailsOn bad (next value) (further value)) :
    FailsOn bad (first >>= next) (Behind relation further) :=
  (bind (never safe) spells decodes later).congr fun _ => by
    rw [false_or]

/-- A check fails, or what follows it. -/
theorem checked
    {check : Except ε α} {next : α → Decoder ε β} {further : α → Bytes → Prop}
    (later : ∀ value, check = .ok value → FailsOn bad (next value)
      (further value)) :
    FailsOn bad (Decoder.lift check >>= next) fun rest =>
      (∃ error, check = .error error ∧ bad error) ∨
        ∃ value, check = .ok value ∧ further value rest := by
  intro position rest inWord
  cases check with
  | error error =>
      constructor
      · rintro ⟨_, ⟨⟩, isBad⟩
        exact .inl ⟨error, rfl, isBad⟩
      · rintro (⟨_, ⟨⟩, isBad⟩ | ⟨_, ⟨⟩, _⟩)
        exact ⟨error, rfl, isBad⟩
  | ok value =>
      refine (later value rfl position rest inWord).trans ⟨?_, ?_⟩
      · exact fun late => .inr ⟨value, rfl, late⟩
      · rintro (⟨_, ⟨⟩, _⟩ | ⟨_, ⟨⟩, late⟩)
        exact late

/-- A loop fails at one of its items, after those that are read. -/
theorem many
    {item : Decoder ε α}
    (fails : FailsOn bad item demand)
    (each : Local item) :
    ∀ count, FailsOn bad (Decoder.many item count) (Among item demand count)
  | 0 => by
      refine (never NeverFails.pure).congr fun rest => ?_
      refine iff_of_false id ?_
      rintro ⟨⟩
  | count + 1 => by
      have whole : FailsOn bad (Decoder.many item (count + 1)) fun rest =>
          demand rest ∨ Behind (fun value bytes => Decodes item bytes value)
            (fun _ => Among item demand count) rest :=
        bind fails each (fun _ _ read => read) fun _ =>
          (many fails each count).ending fun _ => NeverFails.pure
      refine whole.congr fun rest => ⟨?_, ?_⟩
      · rintro (now | ⟨value, leading, trailing, rfl, read, later⟩)
        · exact .here now
        · exact .later read later
      · intro among
        cases among with
        | here now => exact .inl now
        | later read later => exact .inr ⟨_, _, _, rfl, read, later⟩

end FailsOn

end SimStorage.Codec
