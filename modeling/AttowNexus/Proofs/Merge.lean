import AttowNexus.Proofs.Diff

/-! # Merging key by key

Two maps in key order are the same when they hold the same under every key. So what a merge does is said key by key: a key
of the patch holds the merge of what both sides have there, every other key what the target has.
-/

namespace AttowNexus

namespace JsonMap

variable {key : String} {value : Json} {members left right : JsonMap}

/-- Maps in key order are determined by what they hold. -/
theorem ext_get (ascendingL : Ascending left) (ascendingR : Ascending right)
    (same : ∀ key, get key left = get key right) : left = right := by
  have keys : ∀ {members : JsonMap}, Ascending members → members.Pairwise fun a b => a.1 < b.1 :=
    fun ascending => List.pairwise_map.mp ascending
  have nodup : ∀ {members : JsonMap}, Ascending members → members.Nodup :=
    fun ascending => ascending.nodup.of_map
  have perm : left.Perm right := by
    refine (List.perm_ext_iff_of_nodup (nodup ascendingL) (nodup ascendingR)).mpr fun ⟨key, value⟩ => ?_
    constructor
    · intro member
      exact mem_of_get (same key ▸ get_of_mem ascendingL.nodup member)
    · intro member
      exact mem_of_get (same key ▸ get_of_mem ascendingR.nodup member)
  exact perm.eq_of_pairwise (fun a b _ _ below above => absurd above (lt_asymm below)) (keys ascendingL) (keys ascendingR)

/-- Inserting what is there changes nothing. -/
theorem insert_of_get (ascending : Ascending members) (found : get key members = some value) :
    insert key value members = members := by
  refine ext_get ascending.insert ascending fun other => ?_
  rw [get_insert]
  split_ifs with same
  · rw [← same, found]
  · rfl

end JsonMap

/-- A merge, seen at one key -/
theorem get_mergeMembers {target patch : JsonMap} (distinct : (patch.map (·.1)).Nodup) (key : String) :
    JsonMap.get key (mergeMembers target patch) =
      match JsonMap.get key patch with
      | none => JsonMap.get key target
      | some value => some (mergeValue ((JsonMap.get key target).getD .null) value) := by
  induction patch generalizing target with
  | nil => rw [mergeMembers, show JsonMap.get key [] = none from rfl]
  | cons member rest ih =>
    obtain ⟨first, value⟩ := member
    obtain ⟨new, distinct⟩ := List.nodup_cons.mp distinct
    rw [mergeMembers, ih distinct, JsonMap.get_insert, JsonMap.get_cons]
    by_cases same : first = key
    · have absent : JsonMap.get key rest = none := JsonMap.get_eq_none_iff.2 (same ▸ new)
      rw [absent, if_pos same, if_pos same, same]
    · rw [if_neg same, if_neg same]

/-- The members of an object; other values have none. -/
def Json.members : Json → JsonMap
  | .object members => members
  | _ => []

theorem Json.Sorted.members {value : Json} (sorted : value.Sorted) : (Json.object value.members).Sorted := by
  cases value with
  | object members => exact sorted
  | _ => exact ⟨List.Pairwise.nil, trivial⟩

/-- Anything but an object replaces the target. -/
theorem mergeValue_of_ne_object {patch : Json} (leaf : ∀ members, patch ≠ .object members) (target : Json) :
    mergeValue target patch = patch := by
  cases patch with
  | object members => exact absurd rfl (leaf members)
  | _ => cases target <;> rfl

/-- A merge of an object is a merge of its members. -/
theorem mergeValue_object (target : Json) {patch : JsonMap} (ascending : JsonMap.Ascending patch) :
    mergeValue target (.object patch) = .object (mergeMembers target.members patch) := by
  cases target with
  | object members => rw [mergeValue, Json.members]
  | _ => exact (mergeValue_empty ascending).symm

/-- A merge that changes no slot changes nothing. -/
theorem mergeMembers_of_fixed {target patch : JsonMap} (ascending : JsonMap.Ascending target)
    (fixed : ∀ member ∈ patch, ∃ old, JsonMap.get member.1 target = some old ∧ mergeValue old member.2 = old) :
    mergeMembers target patch = target := by
  induction patch with
  | nil => rw [mergeMembers]
  | cons member rest ih =>
    obtain ⟨key, value⟩ := member
    obtain ⟨⟨old, found, same⟩, later⟩ := List.forall_mem_cons.mp fixed
    rw [mergeMembers, found, Option.getD_some, same, JsonMap.insert_of_get ascending found, ih later]

/-- Merging a patch again changes nothing. -/
theorem mergeValue_again (target patch : Json) (left : target.Sorted) (right : patch.Sorted) :
    mergeValue (mergeValue target patch) patch = mergeValue target patch := by
  induction patch using Json.structural generalizing target with
  | object patch ih =>
    obtain ⟨ascending, sorted⟩ := right
    rw [mergeValue_object target ascending, mergeValue]
    congr 1
    refine mergeMembers_of_fixed (mergeMembers_sorted _ _ left.members sorted).1 fun ⟨key, value⟩ inside => ?_
    refine ⟨mergeValue ((JsonMap.get key target.members).getD .null) value, ?_, ?_⟩
    · rw [get_mergeMembers ascending.nodup, JsonMap.get_of_mem ascending.nodup inside]
    · exact ih _ inside _ left.members.2.get (sortedMembers_iff.1 sorted _ inside)
  | _ => rw [mergeValue_of_ne_object (by simp), mergeValue_of_ne_object (by simp)]

section Folds

variable {target : JsonMap} {patches : List JsonMap}

/-- Merges one after the other, seen at one key: only the patches that have the key count. -/
theorem get_foldl_mergeMembers (distinct : ∀ patch ∈ patches, (patch.map (·.1)).Nodup) (key : String) :
    JsonMap.get key (patches.foldl mergeMembers target) =
      (patches.filterMap (JsonMap.get key)).foldl (fun old value => some (mergeValue (old.getD .null) value))
        (JsonMap.get key target) := by
  induction patches generalizing target with
  | nil => rfl
  | cons patch rest ih =>
    obtain ⟨here, later⟩ := List.forall_mem_cons.mp distinct
    rw [List.foldl_cons, ih later, get_mergeMembers here, List.filterMap_cons]
    cases JsonMap.get key patch with
    | none => rfl
    | some value => rfl

theorem foldl_mergeMembers_sorted (ordered : (Json.object target).Sorted)
    (sorted : ∀ patch ∈ patches, (Json.object patch).Sorted) :
    (Json.object (patches.foldl mergeMembers target)).Sorted := by
  induction patches generalizing target with
  | nil => exact ordered
  | cons patch rest ih =>
    obtain ⟨here, later⟩ := List.forall_mem_cons.mp sorted
    exact ih (mergeMembers_sorted target patch ordered here.2) later

/-- Patches that bring the same to every key in the same order make the same of a target. -/
theorem foldl_mergeMembers_congr {others : List JsonMap} (ordered : (Json.object target).Sorted)
    (sorted : ∀ patch ∈ patches, (Json.object patch).Sorted) (sorted' : ∀ patch ∈ others, (Json.object patch).Sorted)
    (same : ∀ key, patches.filterMap (JsonMap.get key) = others.filterMap (JsonMap.get key)) :
    patches.foldl mergeMembers target = others.foldl mergeMembers target := by
  refine JsonMap.ext_get (foldl_mergeMembers_sorted ordered sorted).1 (foldl_mergeMembers_sorted ordered sorted').1 ?_
  intro key
  rw [get_foldl_mergeMembers fun patch member => (sorted patch member).1.nodup,
    get_foldl_mergeMembers fun patch member => (sorted' patch member).1.nodup, same]

/-- Merging at least one object gives an object. -/
theorem foldl_mergeValue_objects (ascending : ∀ patch ∈ patches, JsonMap.Ascending patch) (some : patches ≠ [])
    (state : Json) :
    (patches.map Json.object).foldl mergeValue state = .object (patches.foldl mergeMembers state.members) := by
  induction patches generalizing state with
  | nil => exact absurd rfl some
  | cons patch rest ih =>
    obtain ⟨here, later⟩ := List.forall_mem_cons.mp ascending
    rw [List.map_cons, List.foldl_cons, List.foldl_cons, mergeValue_object state here]
    cases rest with
    | nil => rfl
    | cons next rest => exact ih later (List.cons_ne_nil _ _) _

end Folds

end AttowNexus
