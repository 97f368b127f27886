import AttowNexus.Model.SdkEvents
import AttowNexus.Proofs.LangGraphStream
import AttowNexus.Proofs.PlainEvents
import AttowNexus.Proofs.SdkPayloads

/-! # Payloads with data of any kind

The fields of an event that hold no data of the user come through the conversion of a payload as they are, or cut to the
bound on strings where the data has to be converted. The data itself keeps its names, and a dictionary stays one.
-/

namespace AttowNexus

namespace Python

open Checks

variable {Obj Exc : Type}

namespace Value

variable {interpreter : Interpreter Obj Exc} {engine : RegexEngine} {fuel : ℕ} {entries : List (Value Obj × Value Obj)}
  {value : Value Obj} {json : Json}

theorem dict_of_redact (run : redact interpreter engine fuel (.dict entries) = .ok value) :
    ∃ redacted, value = .dict redacted ∧ List.Forall₂ (fun entry other => other.1 = entry.1 ∧
      ∀ members, entry.2 = .dict members → ∃ changed, other.2 = .dict changed ∨
        ∃ text, entry.1 = .str text ∧ Sdk.secretKey text = true) entries redacted := by
  cases fuel with
  | zero => cases run
  | succ fuel =>
    obtain ⟨redacted, each, same⟩ := bind_eq_ok_iff.1 run
    refine ⟨redacted, (Except.ok.inj same).symm, (mapM_eq_ok_iff.1 each).imp ?_⟩
    rintro ⟨key, child⟩ other made
    cases key with
    | str text =>
      dsimp only at made
      split_ifs at made with secret
      · obtain rfl := Except.ok.inj made
        exact ⟨rfl, fun _ _ => ⟨[], .inr ⟨text, rfl, secret⟩⟩⟩
      · obtain ⟨changed, redacts, rfl⟩ := map_eq_ok_iff.1 made
        refine ⟨rfl, ?_⟩
        rintro members rfl
        cases fuel with
        | zero => cases redacts
        | succ fuel =>
          obtain ⟨inner, _, same⟩ := bind_eq_ok_iff.1 redacts
          exact ⟨inner, .inl (Except.ok.inj same).symm⟩
    | _ => cases made

theorem dict_of_safeJsonable (run : safeJsonable interpreter fuel (.dict entries) = .ok value) :
    ∃ converted, value = .dict converted := by
  cases fuel with
  | zero => cases run
  | succ fuel =>
    simp only [safeJsonable] at run
    split at run
    · exact ⟨_, (Except.ok.inj run).symm⟩
    · obtain ⟨_, _, same⟩ := bind_eq_ok_iff.1 run
      exact ⟨_, (Except.ok.inj same).symm⟩
    · cases run

/-- The members of the object that a dictionary is written as -/
def toMembers (interpreter : Interpreter Obj Exc) (fuel : ℕ) (entries : List (Value Obj × Value Obj)) :
    Option (List (String × Json)) :=
  entries.mapM fun (key, child) => do
    let key ← keyText interpreter key
    let child ← toJson interpreter fuel child
    some (key, child)

theorem toJson_dict_iff : toJson interpreter (fuel + 1) (.dict entries) = some json ↔
    ∃ members, toMembers interpreter fuel entries = some members ∧ json = .object (JsonMap.ofMembers members) := by
  change (toMembers interpreter fuel entries >>= fun members => some (.object (JsonMap.ofMembers members))) = some json ↔ _
  cases toMembers interpreter fuel entries with
  | none => exact ⟨nofun, by rintro ⟨_, ⟨⟩, _⟩⟩
  | some members =>
    constructor
    · intro same
      exact ⟨members, rfl, (Option.some.inj same).symm⟩
    · rintro ⟨_, same, rfl⟩
      rw [← Option.some.inj same]
      rfl

theorem toMembers_append {more : List (Value Obj × Value Obj)} {members : List (String × Json)} :
    toMembers interpreter fuel (entries ++ more) = some members ↔
      ∃ first second, toMembers interpreter fuel entries = some first ∧
        toMembers interpreter fuel more = some second ∧ members = first ++ second := by
  rw [toMembers, List.mapM_append]
  change (toMembers interpreter fuel entries >>= fun first => toMembers interpreter fuel more >>= fun second =>
    some (first ++ second)) = some members ↔ _
  cases toMembers interpreter fuel entries with
  | none => exact ⟨nofun, by rintro ⟨_, _, ⟨⟩, _⟩⟩
  | some first =>
    cases toMembers interpreter fuel more with
    | none => exact ⟨nofun, by rintro ⟨_, _, _, ⟨⟩, _⟩⟩
    | some second =>
      constructor
      · intro same
        exact ⟨first, second, rfl, rfl, (Option.some.inj same).symm⟩
      · rintro ⟨_, _, same, same', rfl⟩
        rw [← Option.some.inj same, ← Option.some.inj same']
        rfl

/-- Each entry is written as a member. -/
theorem forall₂_toMembers {members : List (String × Json)} (run : toMembers interpreter fuel entries = some members) :
    List.Forall₂ (fun entry member => keyText interpreter entry.1 = some member.1 ∧
      toJson interpreter fuel entry.2 = some member.2) entries members := by
  induction entries generalizing members with
  | nil =>
    obtain rfl : [] = members := Option.some.inj run
    exact .nil
  | cons entry rest ih =>
    rw [toMembers, List.mapM_cons] at run
    obtain ⟨member, written, run⟩ := Option.bind_eq_some_iff.1 run
    obtain ⟨others, later, same⟩ := Option.bind_eq_some_iff.1 run
    obtain rfl := Option.some.inj same
    obtain ⟨key, named, written⟩ := Option.bind_eq_some_iff.1 written
    obtain ⟨child, wrote, same⟩ := Option.bind_eq_some_iff.1 written
    obtain rfl := Option.some.inj same
    exact .cons ⟨named, wrote⟩ (ih later)

/-- Pairs whose keys are new and different are put at the end. -/
theorem setEntries_of_nodup {pairs : List (String × Value Obj)} (distinct : (pairs.map (·.1)).Nodup)
    (fresh : ∀ pair ∈ pairs, ∀ entry ∈ entries, entry.1 ≠ .str pair.1) :
    setEntries pairs entries = entries ++ textEntries pairs := by
  induction pairs generalizing entries with
  | nil => exact (List.append_nil _).symm
  | cons pair rest ih =>
    obtain ⟨apart, distinct⟩ := List.nodup_cons.mp distinct
    have absent : entries.any (·.1.isKey pair.1) = false := by
      rw [List.any_eq_false]
      exact fun entry member here => fresh pair List.mem_cons_self entry member (isKey_iff.1 here)
    have set : setEntry pair.1 pair.2 entries = entries ++ [(.str pair.1, pair.2)] := by
      rw [setEntry, absent]
      rfl
    change setEntries rest (setEntry pair.1 pair.2 entries) = _
    rw [set, ih distinct, List.append_assoc]
    · rfl
    · intro other member entry inside
      rcases List.mem_append.mp inside with old | new
      · exact fresh other (List.mem_cons_of_mem _ member) entry old
      · obtain rfl := List.mem_singleton.mp new
        exact fun same => apart (List.mem_map.mpr ⟨other, member, (Value.str.inj same).symm⟩)

end Value

section Plain

variable {interpreter : Interpreter Obj Exc} {fuel room : ℕ} {plain : JsonMap}
  {kept : List (Value Obj × Value Obj)} {json : Json} {timestampMs : ℕ}

/-- What `safe_jsonable` leaves of a field without data, when it converts it -/
def cutField : Json → Json
  | .string text => .string (Value.truncated text)
  | json => json

/-- A field without data that is sent -/
def SentField (timestampMs : ℕ) (json : Json) : Prop :=
  (∃ text, json = .string text) ∨ (∃ texts : List String, json = .array (texts.map .string)) ∨
    json = .number (.posInt timestampMs)

theorem SentField.flat (sent : SentField timestampMs json) : FlatField timestampMs json := .inr sent

theorem SentField.cut (sent : SentField timestampMs json) : SentField timestampMs (cutField json) := by
  rcases sent with ⟨text, rfl⟩ | ⟨texts, rfl⟩ | rfl
  · exact .inl ⟨_, rfl⟩
  · exact .inr (.inl ⟨texts, rfl⟩)
  · exact .inr (.inr rfl)

theorem SentField.toJson (sent : SentField timestampMs json) :
    Value.toJson interpreter (fuel + 1) (Value.ofJson json) = some json := by
  rcases sent with ⟨text, rfl⟩ | ⟨texts, rfl⟩ | rfl
  · rfl
  · have each : (texts.map (.str : String → Value Obj)).mapM (Value.toJson interpreter fuel) =
        some (texts.map .string) := by
      induction texts with
      | nil => rfl
      | cons text rest ih =>
        rw [List.map_cons, List.mapM_cons, ih]
        cases fuel <;> rfl
    rw [Value.ofJson, Value.ofItems_string, Value.toJson, each]
    rfl
  · exact congrArg (fun number => some (Json.number number)) (if_pos (Int.natCast_nonneg timestampMs))

theorem SentField.safeJsonable (deep : 0 < interpreter.recursionLimit)
    (prints : interpreter.prints timestampMs = true) (sent : SentField timestampMs json) :
    Value.safeJsonable interpreter (fuel + 1) (Value.ofJson json) = .ok (Value.ofJson (cutField json)) := by
  obtain ⟨less, limit⟩ := Nat.exists_eq_add_one.mpr deep
  have dumped : Value.dumps interpreter interpreter.recursionLimit [] (Value.ofJson json) = .ok () := by
    rw [limit]
    exact sent.flat.dumps prints
  rcases sent with ⟨text, rfl⟩ | ⟨texts, rfl⟩ | rfl
  · rfl
  · rw [Value.ofJson] at dumped ⊢
    simp only [Value.safeJsonable]
    rw [dumped]
    rfl
  · rw [Value.ofJson] at dumped ⊢
    simp only [Value.safeJsonable]
    rw [dumped]
    rfl

variable (each : ∀ member ∈ plain, SentField timestampMs member.2)
include each

theorem toMembers_ofMembers : Value.toMembers interpreter (fuel + 1) (Value.ofMembers plain) = some plain := by
  induction plain with
  | nil => rfl
  | cons member rest ih =>
    obtain ⟨here, later⟩ := List.forall_mem_cons.mp each
    have ih := ih later
    rw [Value.toMembers] at ih
    rw [Value.toMembers, Value.ofMembers, List.mapM_cons, ih]
    dsimp only
    rw [here.toJson]
    rfl

/-- The fields without data do not matter for `json.dumps`. -/
theorem dumps_plain_append (prints : interpreter.prints timestampMs = true) :
    Value.dumps interpreter (room + 2) [] (.dict (Value.ofMembers plain ++ kept)) =
      Value.dumps interpreter (room + 2) [] (.dict kept) := by
  induction plain with
  | nil => rfl
  | cons member rest ih =>
    obtain ⟨here, later⟩ := List.forall_mem_cons.mp each
    rw [← ih later]
    change ((Value.ofMembers (member :: rest) ++ kept).forM fun entry : Value Obj × Value Obj => do
      Value.dumpsKey interpreter entry.1
      Value.dumps interpreter (room + 1) [] entry.2) = (Value.ofMembers rest ++ kept).forM _
    rw [Value.ofMembers, List.cons_append, List.forM_eq_forM, List.forM_cons, here.flat.dumps prints]
    rfl

/-- Nor do they for the conversion, apart from the bound on strings. -/
theorem mapM_plain_append (deep : 0 < interpreter.recursionLimit) (prints : interpreter.prints timestampMs = true)
    {convert : Value Obj × Value Obj → Except (Exn Exc) (String × Value Obj)}
    (converts : ∀ entry, convert entry = (do
      let key ← Value.print interpreter entry.1
      let child ← Value.safeJsonable interpreter (fuel + 1) entry.2
      .ok (key, child))) :
    (Value.ofMembers plain ++ kept).mapM convert = (do
      let pairs ← kept.mapM convert
      .ok (plain.map (fun member => (member.1, Value.ofJson (cutField member.2))) ++ pairs)) := by
  induction plain with
  | nil =>
    change kept.mapM convert = (kept.mapM convert >>= fun pairs => .ok pairs)
    cases kept.mapM convert <;> rfl
  | cons member rest ih =>
    obtain ⟨here, later⟩ := List.forall_mem_cons.mp each
    rw [Value.ofMembers, List.cons_append, List.mapM_cons, ih later, converts]
    dsimp only
    rw [here.safeJsonable deep prints]
    cases kept.mapM convert <;> rfl

end Plain

/-- Entries under names of the fields with data -/
structure DataEntries (entries : List (Value Obj × Value Obj)) : Prop where
  distinct : (entries.map (·.1)).Nodup
  named : ∀ entry ∈ entries, ∃ name ∈ dataFields, entry.1 = .str name
  metadata : ∀ entry ∈ entries, entry.1 = .str "metadata" → ∃ members, entry.2 = .dict members

section Conversion

variable {interpreter : Interpreter Obj Exc} {fuel room : ℕ} {plain : JsonMap} {timestampMs : ℕ}
  {kept : List (Value Obj × Value Obj)} {pairs : List (String × Value Obj)} {payload : Value Obj}

/-- The conversion of one entry of a dictionary -/
def convertEntry (interpreter : Interpreter Obj Exc) (fuel : ℕ) (entry : Value Obj × Value Obj) :
    Except (Exn Exc) (String × Value Obj) := do
  let key ← Value.print interpreter entry.1
  let child ← Value.safeJsonable interpreter fuel entry.2
  .ok (key, child)

theorem convertEntry_named {entry : Value Obj × Value Obj} {name : String} {pair : String × Value Obj}
    (named : entry.1 = .str name) (run : convertEntry interpreter fuel entry = .ok pair) :
    entry.1 = .str pair.1 ∧ Value.safeJsonable interpreter fuel entry.2 = .ok pair.2 := by
  rcases entry with ⟨_, child⟩
  obtain rfl := named
  obtain ⟨key, prints, run⟩ := bind_eq_ok_iff.1 run
  obtain ⟨child, converts, same⟩ := bind_eq_ok_iff.1 run
  obtain rfl := Except.ok.inj same
  exact ⟨congrArg Value.str (Except.ok.inj prints), converts⟩

/-- Converted entries are under the same names. -/
theorem DataEntries.converted (data : DataEntries kept) (run : kept.mapM (convertEntry interpreter fuel) = .ok pairs) :
    kept.map (·.1) = pairs.map (fun pair => .str pair.1) ∧ DataEntries (Value.textEntries pairs) := by
  have each := mapM_eq_ok_iff.1 run
  have keys : kept.map (·.1) = pairs.map (fun pair => (.str pair.1 : Value Obj)) := by
    have named := data.named
    clear data run
    induction each with
    | nil => rfl
    | cons here _ ih =>
      obtain ⟨⟨name, _, key⟩, later⟩ := List.forall_mem_cons.mp named
      rw [List.map_cons, List.map_cons, (convertEntry_named key here).1, ih later]
  have listed : (Value.textEntries pairs).map (·.1) = kept.map (·.1) := by
    rw [keys, Value.textEntries, List.map_map]
    rfl
  have back : ∀ entry ∈ Value.textEntries pairs, ∃ old ∈ kept, old.1 = entry.1 ∧
      Value.safeJsonable interpreter fuel old.2 = .ok entry.2 := by
    intro entry member
    obtain ⟨pair, inside, rfl⟩ := List.mem_map.mp member
    obtain ⟨old, there, made⟩ := (mem_of_mapM run).1 pair inside
    obtain ⟨name, _, key⟩ := data.named old there
    obtain ⟨same, converts⟩ := convertEntry_named key made
    exact ⟨old, there, same, converts⟩
  refine ⟨keys, listed ▸ data.distinct, fun entry member => ?_, fun entry member key => ?_⟩
  · obtain ⟨old, there, same, _⟩ := back entry member
    rw [← same]
    exact data.named old there
  · obtain ⟨old, there, same, converts⟩ := back entry member
    obtain ⟨members, dictionary⟩ := data.metadata old there (same.trans key)
    rw [dictionary] at converts
    exact Value.dict_of_safeJsonable converts

theorem textEntries_cut : Value.textEntries (plain.map fun member => (member.1, Value.ofJson (cutField member.2))) =
    (Value.ofMembers (plain.map fun member => (member.1, cutField member.2)) : List (Value Obj × Value Obj)) := by
  induction plain with
  | nil => rfl
  | cons member rest ih => exact congrArg _ ih

theorem setEntries_of_dataEntries (data : DataEntries (Value.textEntries pairs)) :
    Value.setEntries pairs [] = Value.textEntries pairs := by
  refine Value.setEntries_of_nodup ?_ fun _ _ _ absent => absurd absent List.not_mem_nil
  have distinct := data.distinct
  rw [Value.textEntries, List.map_map] at distinct
  exact List.Nodup.of_map (fun name => (.str name : Value Obj)) (by rwa [List.map_map])

theorem safeJsonable_dict : Value.safeJsonable interpreter (fuel + 1) (.dict kept) =
    match Value.dumps interpreter interpreter.recursionLimit [] (.dict kept) with
    | .ok () => .ok (.dict kept)
    | .error .typeError =>
        kept.mapM (convertEntry interpreter fuel) >>= fun pairs => .ok (.dict (Value.setEntries pairs []))
    | .error raised => .error raised := by
  simp only [Value.safeJsonable]
  rfl

/-- A payload is converted when its data is. If the data has to be, long strings in the other fields are cut. -/
theorem safeJsonable_append_iff (each : ∀ member ∈ plain, SentField timestampMs member.2)
    (prints : interpreter.prints timestampMs = true) (distinct : (plain.map (·.1)).Nodup)
    (apart : ∀ member ∈ plain, member.1 ∉ dataFields) (data : DataEntries kept)
    (limit : interpreter.recursionLimit = room + 2) :
    Value.safeJsonable interpreter interpreter.recursionLimit (.dict (Value.ofMembers plain ++ kept)) = .ok payload ↔
      ∃ converted sentPlain, Value.safeJsonable interpreter interpreter.recursionLimit (.dict kept) = .ok (.dict converted) ∧
        payload = .dict (Value.ofMembers sentPlain ++ converted) ∧
          (Value.dumps interpreter interpreter.recursionLimit [] (.dict kept) = .ok () ∧ sentPlain = plain ∨
            Value.dumps interpreter interpreter.recursionLimit [] (.dict kept) ≠ .ok () ∧
              sentPlain = plain.map fun member => (member.1, cutField member.2)) := by
  have other := @dumps_plain_append _ _ interpreter room plain kept timestampMs each prints
  rw [← limit] at other
  have unfolds : ∀ entries : List (Value Obj × Value Obj), _ := fun entries =>
    (congrArg (fun fuel => Value.safeJsonable interpreter fuel (.dict entries)) limit).trans safeJsonable_dict
  rw [unfolds, unfolds, other]
  have joined : ∀ pairs : List (String × Value Obj), kept.map (·.1) = pairs.map (fun pair => .str pair.1) →
      Value.setEntries (plain.map (fun member => (member.1, Value.ofJson (cutField member.2))) ++ pairs) [] =
        Value.ofMembers (plain.map fun member => (member.1, cutField member.2)) ++ Value.textEntries pairs := by
    intro pairs keys
    have names : ∀ pair ∈ pairs, pair.1 ∈ dataFields := by
      intro pair member
      have listed : (.str pair.1 : Value Obj) ∈ kept.map (·.1) := by
        rw [keys]
        exact List.mem_map_of_mem member
      obtain ⟨entry, inside, key⟩ := List.mem_map.mp listed
      obtain ⟨name, known, named⟩ := data.named entry inside
      exact Value.str.inj (named.symm.trans key) ▸ known
    have pairsDistinct : (pairs.map (·.1)).Nodup := by
      have all := data.distinct
      rw [keys] at all
      exact List.Nodup.of_map (fun name => (.str name : Value Obj)) (by rwa [List.map_map])
    rw [Value.setEntries_of_nodup, List.nil_append, Value.textEntries, List.map_append, ← Value.textEntries,
      ← Value.textEntries, textEntries_cut]
    · rw [List.map_append, List.map_map]
      refine List.Nodup.append distinct pairsDistinct fun name first second => ?_
      obtain ⟨member, inside, rfl⟩ := List.mem_map.mp first
      obtain ⟨pair, there, same⟩ := List.mem_map.mp second
      have same : pair.1 = member.1 := same
      exact apart member inside (same ▸ names pair there)
    · exact fun _ _ _ absent => absurd absent List.not_mem_nil
  rcases dumped : Value.dumps interpreter interpreter.recursionLimit [] (.dict kept) with raised | ⟨⟩
  · cases raised with
    | typeError =>
      dsimp only
      have mapped := @mapM_plain_append _ _ interpreter room plain kept timestampMs each (by omega) prints
        (convertEntry interpreter (room + 1)) fun _ => rfl
      rw [mapped]
      constructor
      · intro run
        obtain ⟨whole, maps, same⟩ := bind_eq_ok_iff.1 run
        obtain ⟨pairs, converts, appended⟩ := bind_eq_ok_iff.1 maps
        obtain rfl := Except.ok.inj appended
        obtain rfl := Except.ok.inj same
        obtain ⟨keys, converted⟩ := data.converted converts
        refine ⟨Value.textEntries pairs, _, bind_eq_ok_iff.2 ⟨pairs, converts, ?_⟩, ?_, .inr ⟨by rintro ⟨⟩, rfl⟩⟩
        · rw [setEntries_of_dataEntries converted]
        · rw [joined pairs keys]
      · rintro ⟨converted, sentPlain, run, rfl, ⟨⟨⟩, _⟩ | ⟨_, rfl⟩⟩
        obtain ⟨pairs, converts, same⟩ := bind_eq_ok_iff.1 run
        obtain ⟨keys, made⟩ := data.converted converts
        rw [setEntries_of_dataEntries made] at same
        obtain rfl := Value.dict.inj (Except.ok.inj same)
        refine bind_eq_ok_iff.2 ⟨_, bind_eq_ok_iff.2 ⟨pairs, converts, rfl⟩, ?_⟩
        rw [joined pairs keys]
    | _ => exact iff_of_false (by rintro ⟨⟩) (by rintro ⟨_, _, ⟨⟩, _⟩)
  · dsimp only
    constructor
    · intro same
      exact ⟨kept, plain, rfl, (Except.ok.inj same).symm, .inl ⟨rfl, rfl⟩⟩
    · rintro ⟨converted, sentPlain, same, rfl, ⟨_, rfl⟩ | ⟨wrong, _⟩⟩
      · rw [Value.dict.inj (Except.ok.inj same)]
      · exact absurd rfl wrong

end Conversion

end Python

end AttowNexus
