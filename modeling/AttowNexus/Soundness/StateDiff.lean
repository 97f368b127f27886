import AttowNexus.Proofs.Diff
import AttowNexus.Proofs.Payload
import AttowNexus.Proofs.Utf8

/-! # State diffs

The entries of two states are none exactly for equal states, and exchanging the states exchanges the sides of every
entry. They determine the later state from the earlier one as long as no two places that are looked at have one path.
-/

namespace AttowNexus

variable {deps : External} {path key : String}

section Empty

theorem keyEntries_eq_nil_iff {before after : JsonMap}
    (ih : ∀ old new, before.get key = some old → after.get key = some new →
      (diffValue deps (childPath path key) old new = [] ↔ old.Same new)) :
    keyEntries deps path before after key = [] ↔ Option.Rel Json.Same (before.get key) (after.get key) := by
  rw [keyEntries]
  cases foundL : before.get key with
  | none => cases after.get key <;> simp
  | some old =>
    cases foundR : after.get key with
    | none => simp
    | some new =>
      rw [ih old new foundL foundR]
      exact (Option.rel_some_some).symm

/-- There are no entries exactly for equal values. -/
theorem diffValue_eq_nil_iff {before after : Json} (sortedL : before.Sorted) (sortedR : after.Sorted) :
    diffValue deps path before after = [] ↔ before.Same after := by
  induction after using Json.structural generalizing path before with
  | object members ih =>
    rcases objects_or_whole before (.object members) with ⟨left, right, rfl, same⟩ | whole
    · obtain rfl := Json.object.inj same
      rw [diffValue_object sortedL.1.nodup sortedR.1.nodup, List.flatMap_eq_nil_iff, Json.Same.object_iff]
      have each : ∀ key, keyEntries deps path left members key = [] ↔
          Option.Rel Json.Same (JsonMap.get key left) (JsonMap.get key members) := fun key =>
        keyEntries_eq_nil_iff fun old new foundL foundR =>
          ih (key, new) (JsonMap.mem_of_get foundR) (sorted_of_get sortedL foundL) (sorted_of_get sortedR foundR)
      constructor
      · intro bare
        refine ⟨members, rfl, (JsonMap.eqMembers_iff_get sortedL.1 sortedR.1).mpr fun key => (each key).mp ?_⟩
        by_cases listed : key ∈ diffKeys left members
        · exact bare key listed
        · exact keyEntries_of_notMem listed
      · rintro ⟨others, equal, same⟩ key _
        obtain rfl := Json.object.inj equal
        exact (each key).mpr ((JsonMap.eqMembers_iff_get sortedL.1 sortedR.1).mp same key)
    · rw [diffValue_whole whole]
      exact ite_eq_left_iff.trans (by simp [Json.Same])
  | _ =>
    rw [diffValue_whole (by simp [Whole])]
    exact ite_eq_left_iff.trans (by simp [Json.Same])

end Empty

section Swap

/-- What an entry becomes when the two states are exchanged -/
def DiffEntry.swap (entry : DiffEntry) : DiffEntry where
  path := entry.path
  changeType :=
    if entry.changeType = "added" then "removed" else if entry.changeType = "removed" then "added" else entry.changeType
  beforeJson := entry.afterJson
  afterJson := entry.beforeJson

theorem keyEntries_swap {before after : JsonMap}
    (ih : ∀ old new, before.get key = some old → after.get key = some new →
      (diffValue deps (childPath path key) new old).Perm ((diffValue deps (childPath path key) old new).map .swap)) :
    (keyEntries deps path after before key).Perm ((keyEntries deps path before after key).map .swap) := by
  rw [keyEntries, keyEntries]
  cases foundL : before.get key with
  | none => cases after.get key <;> exact .refl _
  | some old =>
    cases foundR : after.get key with
    | none => exact .refl _
    | some new => exact ih old new foundL foundR

/-- Values that are not both objects exchange the sides of their only entry. -/
theorem diffValue_swap_whole {before after : Json} (whole : Whole before after) :
    diffValue deps path after before = (diffValue deps path before after).map .swap := by
  rw [diffValue_whole whole, diffValue_whole whole.symm]
  by_cases same : before.eq after = true
  · have same' : after.eq before = true := Json.Same.symm same
    rw [if_pos same', if_pos same, List.map_nil]
  · have other : after.eq before ≠ true := fun equal => same (Json.Same.symm equal)
    rw [if_neg other, if_neg same]
    rfl

/-- Exchanging the values exchanges the sides of every entry. -/
theorem diffValue_swap {before after : Json} (sortedL : before.Sorted) (sortedR : after.Sorted) :
    (diffValue deps path after before).Perm ((diffValue deps path before after).map .swap) := by
  induction after using Json.structural generalizing path before with
  | object members ih =>
    rcases objects_or_whole before (.object members) with ⟨left, right, rfl, same⟩ | whole
    · obtain rfl := Json.object.inj same
      have distinctL := sortedL.1.nodup
      have distinctR := sortedR.1.nodup
      rw [diffValue_object distinctL distinctR, diffValue_object distinctR distinctL, List.map_flatMap]
      have keys : (diffKeys members left).Perm (diffKeys left members) := by
        apply (List.perm_ext_iff_of_nodup (nodup_diffKeys distinctR distinctL) (nodup_diffKeys distinctL distinctR)).mpr
        intro key
        rw [mem_diffKeys, mem_diffKeys, or_comm]
      refine (keys.flatMap_right _).trans (List.Perm.flatMap_left _ fun key _ => keyEntries_swap ?_)
      intro old new foundL foundR
      exact ih (key, new) (JsonMap.mem_of_get foundR) (sorted_of_get sortedL foundL) (sorted_of_get sortedR foundR)
    · rw [diffValue_swap_whole whole]
  | _ => rw [diffValue_swap_whole (by simp [Whole])]

/-- The diff of two states is empty exactly for equal states, and the diff the other way has the same entries with their
sides exchanged. -/
theorem diffValue_exact_antisymmetric (deps : External) (path : String) (before after : JsonValue) :
    (diffValue deps path before.1 after.1 = [] ↔ before.1.Same after.1) ∧
      (diffValue deps path after.1 before.1).Perm ((diffValue deps path before.1 after.1).map .swap) :=
  ⟨diffValue_eq_nil_iff before.2 after.2, diffValue_swap before.2 after.2⟩

end Swap

section Paths

/-- The path of a place below another -/
def dotted (path : String) (keys : List String) : String := keys.foldl childPath path

/-- The places that the comparison of two values looks at: the way there leads through objects on both sides. -/
def Visited : List String → Json → Json → Prop
  | [], _, _ => True
  | key :: rest, .object left, .object right =>
      match JsonMap.get key left, JsonMap.get key right with
      | some old, some new => Visited rest old new
      | none, none => False
      | _, _ => rest = []
  | _ :: _, _, _ => False

variable {before after : JsonMap} {rest : List String}

theorem visited_both {old new : Json} (foundL : before.get key = some old) (foundR : after.get key = some new) :
    Visited (key :: rest) (.object before) (.object after) ↔ Visited rest old new := by
  rw [Visited, foundL, foundR]

theorem visited_key (listed : before.get key ≠ none ∨ after.get key ≠ none) :
    Visited [key] (.object before) (.object after) := by
  rw [Visited]
  cases foundL : before.get key with
  | none =>
    cases foundR : after.get key with
    | none => exact absurd listed (by simp [foundL, foundR])
    | some new => exact rfl
  | some old =>
    cases after.get key with
    | none => exact rfl
    | some new => exact trivial

/-- An entry is about the value as a whole, or about a place below it. -/
def AboutOrBelow (deps : External) (path : String) (before after : Json) (entry : DiffEntry) : Prop :=
  (Whole before after ∧ entry = diffEntry deps path "changed" before after) ∨
    ∃ key rest, Visited (key :: rest) before after ∧ entry.path = dotted path (key :: rest)

theorem keyEntries_path {entry : DiffEntry}
    (ih : ∀ old new, before.get key = some old → after.get key = some new →
      entry ∈ diffValue deps (childPath path key) old new → AboutOrBelow deps (childPath path key) old new entry)
    (member : entry ∈ keyEntries deps path before after key) :
    ∃ rest, Visited (key :: rest) (.object before) (.object after) ∧ entry.path = dotted path (key :: rest) := by
  rw [keyEntries] at member
  cases foundL : before.get key with
  | none =>
    cases foundR : after.get key with
    | none =>
      rw [foundL, foundR] at member
      exact absurd member List.not_mem_nil
    | some new =>
      rw [foundL, foundR] at member
      exact ⟨[], visited_key (by simp [foundR]), congrArg DiffEntry.path (List.mem_singleton.mp member)⟩
  | some old =>
    cases foundR : after.get key with
    | none =>
      rw [foundL, foundR] at member
      exact ⟨[], visited_key (by simp [foundL]), congrArg DiffEntry.path (List.mem_singleton.mp member)⟩
    | some new =>
      rw [foundL, foundR] at member
      rcases ih old new foundL foundR member with ⟨_, rfl⟩ | ⟨next, rest, visited, at_⟩
      · exact ⟨[], visited_key (by simp [foundL]), rfl⟩
      · exact ⟨next :: rest, (visited_both foundL foundR).mpr visited, at_⟩

/-- Every entry is about a place that is looked at, never about two objects as a whole. -/
theorem diffValue_path {before after : Json} (sortedL : before.Sorted) (sortedR : after.Sorted) {entry : DiffEntry}
    (member : entry ∈ diffValue deps path before after) : AboutOrBelow deps path before after entry := by
  induction after using Json.structural generalizing path before with
  | object members ih =>
    rcases objects_or_whole before (.object members) with ⟨left, right, rfl, same⟩ | whole
    · obtain rfl := Json.object.inj same
      rw [diffValue_object sortedL.1.nodup sortedR.1.nodup] at member
      obtain ⟨key, _, member⟩ := List.mem_flatMap.mp member
      obtain ⟨rest, visited, at_⟩ := keyEntries_path (fun old new foundL foundR => ih (key, new)
        (JsonMap.mem_of_get foundR) (sorted_of_get sortedL foundL) (sorted_of_get sortedR foundR)) member
      exact .inr ⟨key, rest, visited, at_⟩
    · exact .inl ⟨whole, ((mem_diffValue_whole whole).mp member).2⟩
  | _ => exact .inl ⟨by simp [Whole], ((mem_diffValue_whole (by simp [Whole])).mp member).2⟩

/-- No two places that the diffs with two later values look at have one path. -/
def Unambiguous (path : String) (before after after' : Json) : Prop :=
  ∀ p q, Visited p before after ∨ Visited p before after' → Visited q before after ∨ Visited q before after' →
    dotted path p = dotted path q → p = q

variable {after' : JsonMap}

theorem Unambiguous.symm {before after after' : Json} (clear : Unambiguous path before after after') :
    Unambiguous path before after' after :=
  fun p q first second => clear p q first.symm second.symm

theorem Unambiguous.left {before after after' : Json} (clear : Unambiguous path before after after') :
    Unambiguous path before after after :=
  fun p q first second => clear p q (.inl (first.elim id id)) (.inl (second.elim id id))

/-- The same holds below a key. -/
theorem Unambiguous.child {old new new' : Json} (foundL : before.get key = some old)
    (foundR : after.get key = some new) (foundR' : after'.get key = some new')
    (clear : Unambiguous path (.object before) (.object after) (.object after')) :
    Unambiguous (childPath path key) old new new' := by
  intro p q first second same
  have up : ∀ {keys}, Visited keys old new ∨ Visited keys old new' →
      Visited (key :: keys) (.object before) (.object after) ∨
        Visited (key :: keys) (.object before) (.object after') :=
    Or.imp (visited_both foundL foundR).mpr (visited_both foundL foundR').mpr
  exact (List.cons.inj (clear (key :: p) (key :: q) (up first) (up second) same)).2

/-- Below two objects no entry has the path of the objects. -/
theorem Unambiguous.objects_notMem {left right : JsonMap} {after' : Json} {entry : DiffEntry}
    (sortedL : (Json.object left).Sorted) (sortedR : (Json.object right).Sorted)
    (clear : Unambiguous path (.object left) (.object right) after') (here : entry.path = path) :
    entry ∉ diffValue deps path (.object left) (.object right) := by
  intro member
  rcases diffValue_path sortedL sortedR member with ⟨whole, _⟩ | ⟨key, rest, visited, at_⟩
  · exact whole left right rfl rfl
  · exact absurd (clear [] (key :: rest) (.inl trivial) (.inl visited) (here.symm.trans at_)) (by simp)

/-- A key that only one side has leaves an entry that a key of both sides does not leave. -/
theorem Unambiguous.removed_notMem {old new new' : Json} (sortedL : old.Sorted) (sortedR : new.Sorted)
    (clear : Unambiguous (childPath path key) old new new') :
    diffEntry deps (childPath path key) "removed" old .null ∉ diffValue deps (childPath path key) old new := by
  intro member
  rcases diffValue_path sortedL sortedR member with ⟨_, same⟩ | ⟨next, rest, visited, at_⟩
  · exact absurd (congrArg DiffEntry.changeType same) (by simp [diffEntry])
  · exact absurd (clear [] (next :: rest) (.inl trivial) (.inl visited) at_) (by simp)

end Paths

section Lossless

variable {before after after' : JsonMap}

/-- The value itself, and the values under the keys of its objects -/
inductive Part : Json → Json → Prop where
  | whole (value : Json) : Part value value
  | under {members : JsonMap} {key : String} {value part : Json} (found : members.get key = some value)
      (inside : Part part value) : Part part (.object members)

/-- Different parts of two values are printed differently. -/
def PrintsApart (deps : External) (after after' : Json) : Prop :=
  ∀ left right : JsonValue, Part left.1 after → Part right.1 after' →
    deps.jsonText left.1 = deps.jsonText right.1 → left.1 = right.1

theorem PrintsApart.child {new new' : Json} (apart : PrintsApart deps (.object after) (.object after'))
    (foundR : after.get key = some new) (foundR' : after'.get key = some new') : PrintsApart deps new new' :=
  fun left right inside inside' => apart left right (.under foundR inside) (.under foundR' inside')

theorem mem_diffValue_object {entry : DiffEntry} (sortedL : (Json.object before).Sorted)
    (sortedR : (Json.object after).Sorted) : entry ∈ diffValue deps path (.object before) (.object after) ↔
      ∃ key, entry ∈ keyEntries deps path before after key := by
  rw [diffValue_object sortedL.1.nodup sortedR.1.nodup, List.mem_flatMap]
  constructor
  · rintro ⟨key, _, member⟩
    exact ⟨key, member⟩
  · rintro ⟨key, member⟩
    refine ⟨key, ?_, member⟩
    by_contra absent
    rw [keyEntries_of_notMem absent] at member
    exact List.not_mem_nil member

/-- Without ambiguous paths, an entry of a key comes from that key on the other side too. -/
theorem keyEntries_transfer {entry : DiffEntry} (sortedL : (Json.object before).Sorted)
    (sortedR : (Json.object after).Sorted) (sortedR' : (Json.object after').Sorted)
    (clear : Unambiguous path (.object before) (.object after) (.object after'))
    (moves : entry ∈ diffValue deps path (.object before) (.object after) →
      entry ∈ diffValue deps path (.object before) (.object after'))
    (member : entry ∈ keyEntries deps path before after key) : entry ∈ keyEntries deps path before after' key := by
  have about : ∀ {other : JsonMap}, (Json.object other).Sorted → ∀ {key},
      entry ∈ keyEntries deps path before other key →
        ∃ rest, Visited (key :: rest) (.object before) (.object other) ∧ entry.path = dotted path (key :: rest) :=
    fun {_} sorted {_} member => keyEntries_path (fun _ _ foundL foundR =>
      diffValue_path (sorted_of_get sortedL foundL) (sorted_of_get sorted foundR)) member
  obtain ⟨key', member'⟩ := (mem_diffValue_object sortedL sortedR').mp
    (moves ((mem_diffValue_object sortedL sortedR).mpr ⟨key, member⟩))
  obtain ⟨rest, visited, here⟩ := about sortedR member
  obtain ⟨rest', visited', there⟩ := about sortedR' member'
  have same := clear _ _ (.inl visited) (.inr visited') (here.symm.trans there)
  rwa [(List.cons.inj same).1]

/-- A key with the same entries on both sides has equal later values. -/
theorem same_at_key (apart : PrintsApart deps (.object after) (.object after')) (sortedL : (Json.object before).Sorted)
    (sortedR : (Json.object after).Sorted) (sortedR' : (Json.object after').Sorted)
    (clear : Unambiguous path (.object before) (.object after) (.object after'))
    (ih : ∀ old new new', before.get key = some old → after.get key = some new → after'.get key = some new' →
      (∀ entry, entry ∈ diffValue deps (childPath path key) old new ↔
        entry ∈ diffValue deps (childPath path key) old new') → new.Same new')
    (same : ∀ entry,
      entry ∈ keyEntries deps path before after key ↔ entry ∈ keyEntries deps path before after' key) :
    Option.Rel Json.Same (after.get key) (after'.get key) := by
  simp only [keyEntries] at same
  cases foundL : before.get key with
  | none =>
    cases foundR : after.get key with
    | none =>
      cases foundR' : after'.get key with
      | none => exact .none
      | some new' =>
        rw [foundL, foundR, foundR'] at same
        exact absurd ((same _).mpr (List.mem_singleton_self _)) List.not_mem_nil
    | some new =>
      rw [foundL, foundR] at same
      cases foundR' : after'.get key with
      | none =>
        rw [foundR'] at same
        exact absurd ((same _).mp (List.mem_singleton_self _)) List.not_mem_nil
      | some new' =>
        rw [foundR'] at same
        have equal := List.mem_singleton.mp ((same _).mp (List.mem_singleton_self _))
        have value : new = new' := (apart.child foundR foundR') ⟨new, sorted_of_get sortedR foundR⟩
          ⟨new', sorted_of_get sortedR' foundR'⟩ (.whole new) (.whole new') (congrArg DiffEntry.afterJson equal)
        exact .some (value ▸ .refl new)
  | some old =>
    have sortedOld := sorted_of_get sortedL foundL
    cases foundR : after.get key with
    | none =>
      rw [foundL, foundR] at same
      cases foundR' : after'.get key with
      | none => exact .none
      | some new' =>
        rw [foundR'] at same
        exact absurd ((same _).mp (List.mem_singleton_self _))
          ((clear.symm.left.child foundL foundR' foundR').removed_notMem sortedOld (sorted_of_get sortedR' foundR'))
    | some new =>
      rw [foundL, foundR] at same
      cases foundR' : after'.get key with
      | none =>
        rw [foundR'] at same
        exact absurd ((same _).mpr (List.mem_singleton_self _))
          ((clear.left.child foundL foundR foundR).removed_notMem sortedOld (sorted_of_get sortedR foundR))
      | some new' =>
        rw [foundR'] at same
        exact .some (ih old new new' foundL foundR foundR' same)

theorem same_of_whole {before after after' : Json} (apart : PrintsApart deps after after') (sortedR : after.Sorted)
    (sortedR' : after'.Sorted) (whole : Whole before after) (whole' : Whole before after')
    (same : ∀ entry, entry ∈ diffValue deps path before after ↔ entry ∈ diffValue deps path before after') :
    after.Same after' := by
  simp only [mem_diffValue_whole whole, mem_diffValue_whole whole'] at same
  by_cases kept : before.Same after
  · by_contra other
    have kept' : ¬ before.Same after' := fun kept' => other (kept.symm.trans kept')
    exact ((same _).mpr ⟨kept', rfl⟩).1 kept
  · obtain ⟨_, equal⟩ := (same _).mp ⟨kept, rfl⟩
    have value : after = after' := apart ⟨after, sortedR⟩ ⟨after', sortedR'⟩ (.whole after) (.whole after')
      (congrArg DiffEntry.afterJson equal)
    exact value ▸ .refl after

/-- Two objects do not leave the entries that an object and something else leave. -/
theorem entries_differ {left right : JsonMap} {after' : Json} (sortedL : (Json.object left).Sorted)
    (sortedR : (Json.object right).Sorted) (whole : Whole (.object left) after')
    (clear : Unambiguous path (.object left) (.object right) after')
    (same : ∀ entry, entry ∈ diffValue deps path (.object left) (.object right) ↔
      entry ∈ diffValue deps path (.object left) after') : False := by
  have other : ¬ (Json.object left).Same after' := by
    intro equal
    obtain ⟨others, rfl, _⟩ := Json.Same.object_iff.1 equal
    exact whole left others rfl rfl
  exact clear.objects_notMem sortedL sortedR rfl ((same _).mpr ((mem_diffValue_whole whole).mpr ⟨other, rfl⟩))

/-- Without ambiguous paths, later values with the same entries are equal. -/
theorem same_of_entries {before after after' : Json} (apart : PrintsApart deps after after') (sortedL : before.Sorted)
    (sortedR : after.Sorted) (sortedR' : after'.Sorted) (clear : Unambiguous path before after after')
    (same : ∀ entry, entry ∈ diffValue deps path before after ↔ entry ∈ diffValue deps path before after') :
    after.Same after' := by
  induction after using Json.structural generalizing path before after' with
  | object members ih =>
    rcases objects_or_whole before (.object members) with ⟨left, right, rfl, equal⟩ | whole
    · obtain rfl := Json.object.inj equal
      rcases objects_or_whole (.object left) after' with ⟨_, right', _, rfl⟩ | whole'
      · apply Json.Same.object_iff.2
        refine ⟨right', rfl, (JsonMap.eqMembers_iff_get sortedR.1 sortedR'.1).mpr fun key => ?_⟩
        refine same_at_key apart sortedL sortedR sortedR' clear (fun old new new' foundL foundR foundR' => ?_) ?_
        · exact ih (key, new) (JsonMap.mem_of_get foundR) (apart.child foundR foundR') (sorted_of_get sortedL foundL)
            (sorted_of_get sortedR foundR) (sorted_of_get sortedR' foundR') (clear.child foundL foundR foundR')
        · exact fun entry => ⟨keyEntries_transfer sortedL sortedR sortedR' clear (same entry).mp,
            keyEntries_transfer sortedL sortedR' sortedR clear.symm (same entry).mpr⟩
      · exact (entries_differ sortedL sortedR whole' clear same).elim
    · rcases objects_or_whole before after' with ⟨left, right', rfl, rfl⟩ | whole'
      · exact (entries_differ sortedL sortedR' whole clear.symm fun entry => (same entry).symm).elim
      · exact same_of_whole apart sortedR sortedR' whole whole' same
  | _ =>
    rcases objects_or_whole before after' with ⟨left, right', rfl, rfl⟩ | whole'
    · exact (entries_differ sortedL sortedR' (by simp [Whole]) clear.symm fun entry => (same entry).symm).elim
    · exact same_of_whole apart sortedR sortedR' (by simp [Whole]) whole' same

/-- The value is printed as a text that is parsed as the value. -/
def PrintsText (deps : External) (value : JsonValue) : Prop :=
  deps.Prints value ∧ ∃ text, deps.toVec value.1 = utf8Bytes text

theorem PrintsText.injective {left right : JsonValue} (first : PrintsText deps left) (second : PrintsText deps right)
    (same : deps.jsonText left.1 = deps.jsonText right.1) : left.1 = right.1 := by
  obtain ⟨prints, text, encoded⟩ := first
  obtain ⟨prints', text', encoded'⟩ := second
  rw [External.jsonText, External.jsonText, encoded, encoded', fromUtf8Lossy_utf8Bytes, fromUtf8Lossy_utf8Bytes] at same
  have parsed : deps.fromSlice (deps.toVec left.1) = deps.fromSlice (deps.toVec right.1) := by
    rw [encoded, encoded', same]
  rw [prints, prints'] at parsed
  exact congrArg Subtype.val (Option.some.inj parsed)

/-- The earlier state and the entries determine the later state, as long as no two places that are looked at have one
path. -/
theorem later_state_of_diff (path : String) (before after after' : JsonValue)
    (apart : PrintsApart deps after.1 after'.1)
    (clear : Unambiguous path before.1 after.1 after'.1)
    (same : diffValue deps path before.1 after.1 = diffValue deps path before.1 after'.1) :
    after.1.Same after'.1 :=
  same_of_entries apart before.2 after.2 after'.2 clear fun entry => by rw [same]

end Lossless

section Dots

theorem toList_dotted (path : String) (keys : List String) :
    (dotted path keys).toList = path.toList ++ keys.flatMap fun key => '.' :: key.toList := by
  induction keys generalizing path with
  | nil => exact (List.append_nil _).symm
  | cons key keys ih =>
    rw [dotted, List.foldl_cons, ← dotted, ih, childPath, String.toList_append, String.toList_append,
      List.flatMap_cons, List.append_assoc, List.append_assoc]
    rfl

/-- Keys without dots can be read off the path. -/
theorem dotted_injective {path : String} {p q : List String} (plainL : ∀ key ∈ p, '.' ∉ key.toList)
    (plainR : ∀ key ∈ q, '.' ∉ key.toList) (same : dotted path p = dotted path q) : p = q := by
  have chars := congrArg String.toList same
  rw [toList_dotted, toList_dotted] at chars
  have tails := List.append_cancel_left chars
  clear same chars
  induction p generalizing q with
  | nil =>
    cases q with
    | nil => rfl
    | cons key q => simp at tails
  | cons key p ih =>
    cases q with
    | nil => simp at tails
    | cons key' q =>
      obtain ⟨here, plainL⟩ := List.forall_mem_cons.mp plainL
      obtain ⟨here', plainR⟩ := List.forall_mem_cons.mp plainR
      simp only [List.flatMap_cons, List.cons_append, List.cons.injEq, true_and] at tails
      -- What follows a key is empty or starts with a dot, so both keys end at the first dot.
      have cut : ∀ {chars : List Char}, '.' ∉ chars → ∀ keys : List String,
          (chars ++ keys.flatMap fun key => '.' :: key.toList).takeWhile (· ≠ '.') = chars := by
        intro chars plain keys
        rw [List.takeWhile_append_of_pos fun c inside => by simpa using fun same : c = '.' => plain (same ▸ inside)]
        cases keys with
        | nil => simp
        | cons key keys => simp
      have keys : key.toList = key'.toList := by
        have first := cut here p
        rw [tails, cut here' q] at first
        exact first.symm
      rw [keys] at tails
      rw [String.toList_inj.mp keys, ih plainL plainR (List.append_cancel_left tails)]

/-- Without dots in the keys, no two places have one path. -/
theorem unambiguous_of_plain {path : String} {before after after' : Json} (plain : ∀ keys,
    Visited keys before after ∨ Visited keys before after' → ∀ key ∈ keys, '.' ∉ key.toList) :
    Unambiguous path before after after' :=
  fun p q first second same => dotted_injective (plain p first) (plain q second) same

end Dots

section Sample

private def unit : JsonValue := ⟨.number (.posInt 1), trivial⟩

private def under (key : String) (value : JsonValue) : JsonValue :=
  ⟨.object [(key, value.1)], List.pairwise_singleton _ _, value.2, trivial⟩

private def bare : JsonValue := ⟨.object [], Json.sorted_empty⟩

/-- A key with a dot next to the object that the dot could lead into -/
private def dottedOne : JsonValue :=
  ⟨.ofMembers [("a", .object []), ("a.b", unit.1)], Json.ofMembers_sorted ⟨bare.2, unit.2, trivial⟩⟩

/-- A key with a dot and a nested key leave the same entry. -/
theorem same_entries_dotted :
    diffValue .sample "$" (under "a" bare).1 (under "a" (under "b" unit)).1 =
        diffValue .sample "$" (under "a" bare).1 dottedOne.1 ∧
      ¬ (under "a" (under "b" unit)).1.Same dottedOne.1 := by
  refine ⟨by decide, fun same => ?_⟩
  have other : (under "a" (under "b" unit)).1.eq dottedOne.1 = false := by decide
  exact Bool.false_ne_true (other.symm.trans same)

private def twoDocuments : External := Sample.knowing [unit, under "a" unit]

private theorem prints_one : twoDocuments.Prints unit := Sample.knowing_prints [] _ rfl

private theorem prints_under : twoDocuments.Prints (under "a" unit) := Sample.knowing_prints [unit] [] (by decide)

/-- From the empty object, a diff looks at the keys of the later one. -/
private theorem visited_of_bare {key : String} {rest : List String} {after : JsonMap}
    (visited : Visited (key :: rest) bare.1 (.object after)) : key ∈ after.map (·.1) ∧ rest = [] := by
  have absent : JsonMap.get key [] = none := rfl
  rw [bare, Visited, absent] at visited
  cases found : after.get key with
  | none =>
    rw [found] at visited
    exact visited.elim
  | some value =>
    rw [found] at visited
    exact ⟨List.mem_map_of_mem (JsonMap.mem_of_get found), visited⟩

/-- One key, added to the empty object -/
theorem later_state_of_diff_added :
    diffValue twoDocuments "$" bare.1 (under "a" unit).1 = [⟨"$.a", "added", "null", "1"⟩] ∧
      (under "a" unit).1.Same (under "a" unit).1 := by
  have prints : ∀ value : JsonValue, Part value.1 (under "a" unit).1 → PrintsText twoDocuments value := by
    rintro ⟨value, sorted⟩ part
    cases part with
    | whole => exact ⟨prints_under, _, rfl⟩
    | under found inside =>
      obtain ⟨_, rfl⟩ := Prod.mk.inj (List.mem_singleton.mp (JsonMap.mem_of_get found))
      cases inside
      exact ⟨prints_one, _, rfl⟩
  have plain : ∀ keys, Visited keys bare.1 (under "a" unit).1 → ∀ key ∈ keys, '.' ∉ key.toList := by
    intro keys visited
    cases keys with
    | nil => exact fun _ absent => absurd absent List.not_mem_nil
    | cons key rest =>
      obtain ⟨listed, rfl⟩ := visited_of_bare visited
      obtain rfl := List.mem_singleton.mp listed
      exact List.forall_mem_singleton.mpr (by decide)
  exact ⟨by decide, later_state_of_diff "$" bare (under "a" unit) (under "a" unit)
    (fun left right inside inside' => (prints left inside).injective (prints right inside'))
    (unambiguous_of_plain fun keys visited => plain keys (or_self_iff.mp visited))
    (Eq.refl (diffValue twoDocuments "$" bare.1 (under "a" unit).1))⟩

end Sample

end AttowNexus
