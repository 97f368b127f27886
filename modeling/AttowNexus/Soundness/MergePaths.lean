import AttowNexus.Proofs.JsonPaths
import AttowNexus.Proofs.Merge

/-! # What a merge holds at a path

A replay reads the last writer at every path: where the patch has a value the merge has it too, merged with what was there
if it is an object; where the patch has no say the merge has what was there before.
-/

namespace AttowNexus

namespace Json

/-- The value under a sequence of keys -/
def underKeys (value : Json) (keys : List String) : Option Json := value.valueAt (keys.map .key)

variable {value found : Json} {keys : List String}

theorem underKeys_nil (value : Json) : value.underKeys [] = some value := rfl

theorem underKeys_cons (value : Json) (key : String) (keys : List String) :
    value.underKeys (key :: keys) = (JsonMap.get key value.members).bind (·.underKeys keys) := by
  cases value <;> rfl

/-- Nothing but null is at a path of null. -/
theorem underKeys_null (keys : List String) : (Json.null.underKeys keys).getD .null = .null := by
  cases keys with
  | nil => rfl
  | cons key rest => rfl

theorem underKeys_append (value : Json) (before after : List String) :
    value.underKeys (before ++ after) = (value.underKeys before).bind (·.underKeys after) := by
  simp only [underKeys, valueAt, List.map_append, Paths.follow_append]

theorem Sorted.underKeys (sorted : value.Sorted) (read : value.underKeys keys = some found) : found.Sorted := by
  induction keys generalizing value with
  | nil => exact Option.some.inj read ▸ sorted
  | cons key rest ih =>
    rw [underKeys_cons, Option.bind_eq_some_iff] at read
    obtain ⟨inner, held, read⟩ := read
    exact ih (sortedMembers_iff.1 sorted.members.2 _ (JsonMap.mem_of_get held)) read

end Json

variable {target patch found : Json} {keys : List String}

/-- Where the patch has a value, the merge has the merge with what the target has there. -/
theorem underKeys_mergeValue (sorted : patch.Sorted) (read : patch.underKeys keys = some found) :
    (mergeValue target patch).underKeys keys = some (mergeValue ((target.underKeys keys).getD .null) found) := by
  induction keys generalizing target patch with
  | nil => rw [Json.underKeys_nil, Json.underKeys_nil, Option.getD_some, Option.some.inj read]
  | cons key rest ih =>
    rw [Json.underKeys_cons, Option.bind_eq_some_iff] at read
    obtain ⟨inner, held, read⟩ := read
    obtain ⟨members, rfl⟩ : ∃ members, patch = .object members := by
      cases patch with
      | object members => exact ⟨members, rfl⟩
      | _ => exact absurd held nofun
    have here : JsonMap.get key members = some inner := held
    have slot : ((((JsonMap.get key target.members).getD .null).underKeys rest).getD .null) =
        (target.underKeys (key :: rest)).getD .null := by
      rw [Json.underKeys_cons]
      cases JsonMap.get key target.members with
      | none => rw [Option.getD_none, Option.bind_none, Json.underKeys_null, Option.getD_none]
      | some old => rw [Option.getD_some, Option.bind_some]
    rw [mergeValue_object target sorted.1, Json.underKeys_cons, Json.members, get_mergeMembers sorted.1.nodup, here]
    rw [Option.bind_some, ih (sortedMembers_iff.1 sorted.2 _ (JsonMap.mem_of_get here)) read, slot]

/-- A path that the patch leaves at an object without the next key holds what it held. -/
theorem underKeys_mergeValue_of_absent {before after : List String} {key : String} {members : JsonMap}
    (sorted : patch.Sorted) (read : patch.underKeys before = some (.object members))
    (absent : JsonMap.get key members = none) :
    (mergeValue target patch).underKeys (before ++ key :: after) = target.underKeys (before ++ key :: after) := by
  have ordered : (Json.object members).Sorted := sorted.underKeys read
  rw [Json.underKeys_append, underKeys_mergeValue sorted read, Option.bind_some, mergeValue_object _ ordered.1,
    Json.underKeys_cons, Json.members, get_mergeMembers ordered.1.nodup, absent, Json.underKeys_append]
  cases target.underKeys before with
  | none => rfl
  | some old => rw [Option.getD_some, Option.bind_some, Json.underKeys_cons]

/-- A path that goes on below a value that the patch puts there leads nowhere. -/
theorem underKeys_mergeValue_of_leaf {before after : List String} {key : String} (sorted : patch.Sorted)
    (read : patch.underKeys before = some found) (leaf : ∀ members, found ≠ .object members) :
    (mergeValue target patch).underKeys (before ++ key :: after) = none := by
  rw [Json.underKeys_append, underKeys_mergeValue sorted read, Option.bind_some, mergeValue_of_ne_object leaf,
    Json.underKeys_cons]
  cases found with
  | object members => exact absurd rfl (leaf members)
  | _ => rfl

/-- A merge is read over what it is merged into, path by path, and merging again changes nothing. -/
theorem merge_read_over_write (target patch : JsonValue) :
    (∀ keys found, patch.1.underKeys keys = some found → (∀ members, found ≠ .object members) →
      (mergeValue target.1 patch.1).underKeys keys = some found) ∧
    (∀ keys members, patch.1.underKeys keys = some (.object members) →
      (mergeValue target.1 patch.1).underKeys keys =
        some (mergeValue ((target.1.underKeys keys).getD .null) (.object members))) ∧
    (∀ before key after found, patch.1.underKeys before = some found → (∀ members, found ≠ .object members) →
      (mergeValue target.1 patch.1).underKeys (before ++ key :: after) = none) ∧
    (∀ before key after members, patch.1.underKeys before = some (.object members) → JsonMap.get key members = none →
      (mergeValue target.1 patch.1).underKeys (before ++ key :: after) = target.1.underKeys (before ++ key :: after)) ∧
    mergeValue (mergeValue target.1 patch.1) patch.1 = mergeValue target.1 patch.1 := by
  obtain ⟨target, ordered⟩ := target
  obtain ⟨patch, sorted⟩ := patch
  refine ⟨fun keys found read leaf => ?_, fun keys members read => underKeys_mergeValue sorted read,
    fun before key after found read leaf => underKeys_mergeValue_of_leaf sorted read leaf,
    fun before key after members read absent => underKeys_mergeValue_of_absent sorted read absent,
    mergeValue_again target patch ordered sorted⟩
  rw [underKeys_mergeValue sorted read, mergeValue_of_ne_object leaf]

end AttowNexus
