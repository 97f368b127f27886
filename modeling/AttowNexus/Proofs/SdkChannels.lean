import AttowNexus.Library.Listing
import AttowNexus.Proofs.SdkRedaction

/-! # The channels that the SDKs derive

An event that names no channel is sent to one made of its ids and its tool, with colons between them. Since no
match of a redaction pattern goes over a colon of such a text, the channel holds a secret only where one of its
parts does.
-/

namespace AttowNexus

open Regex

/-- Every character may stand in the name of a channel. -/
def IsName (text : String) : Prop := ∀ c ∈ text.toList, IsIdChar c ∨ c = '*'

instance (text : String) : Decidable (IsName text) := inferInstanceAs (Decidable (∀ c ∈ text.toList, _))

theorem IsId.name {text : String} (named : IsId text) : IsName text := fun c member => .inl (named.2 c member)

section Colons

variable {left right kind name text : String}

private theorem toList_joined : (left ++ ":" ++ right).toList = left.toList ++ ':' :: right.toList := by
  rw [String.toList_append, String.toList_append, List.append_assoc]
  rfl

theorem isName_joined : IsName (left ++ ":" ++ right) ↔ IsName left ∧ IsName right := by
  rw [IsName, toList_joined, List.forall_mem_append, List.forall_mem_cons]
  exact and_congr_right fun _ => and_iff_right (.inl (by decide))

/-- All characters of names -/
private def nameChars : List Char :=
  "ABCDEFGHIJKLMNOPQRSTUVWXYZabcdefghijklmnopqrstuvwxyz0123456789_.:-*".toList

private theorem mem_nameChars {c : Char} (listed : IsIdChar c ∨ c = '*') : c ∈ nameChars := by
  have ascii : c.toNat < 128 := by
    rcases listed with inId | rfl
    · exact inId.plain.1.1
    · decide
  have every : ∀ n : Fin 128, IsIdChar (Char.ofNat n) ∨ Char.ofNat n = '*' → Char.ofNat n ∈ nameChars := by decide +kernel
  exact ascii_forall (P := fun c => IsIdChar c ∨ c = '*' → c ∈ nameChars) every ascii listed

/-- A match in a name has no colon: a pattern that can take one asks for characters that no name has. -/
theorem colon_notMem {regex : Regex} (member : regex ∈ redactionPatterns.map (·.2)) (named : IsName text)
    {before middle after : List Char} (split : text.toList = before ++ (middle ++ after))
    (matched : Matches .ascii regex false before middle after) : ':' ∉ middle := by
  have checked : ∀ regex ∈ redactionPatterns.map (·.2),
      regex.mustLeave nameChars false = true ∨ regex.mayTake false ':' = false := by decide
  intro inside
  rcases checked regex member with leaves | avoids
  · obtain ⟨c, taken, outside⟩ := matched.exists_notMem leaves (Alphabet.ascii.isSpace_of_all (by decide))
    refine outside (mem_nameChars (named c ?_))
    rw [split]
    exact List.mem_append_right _ (List.mem_append_left _ taken)
  · have taken := matched.mayTake inside rfl
    rw [avoids] at taken
    exact Bool.false_ne_true taken

theorem secretless_joined (named : IsName (left ++ ":" ++ right)) :
    Secretless (left ++ ":" ++ right) ↔ Secretless left ∧ Secretless right := by
  have parts : ∀ regex ∈ redactionPatterns.map (·.2), Free .ascii regex (left ++ ":" ++ right).toList ↔
      Free .ascii regex left.toList ∧ Free .ascii regex right.toList := by
    intro regex member
    rw [toList_joined]
    refine free_append_cons_iff (redactionPatterns_checked regex member).1 rfl fun before middle after split matched => ?_
    exact colon_notMem member named (toList_joined.trans split) matched
  constructor
  · intro secretless
    exact ⟨fun regex member => ((parts regex member).mp (secretless regex member)).1,
      fun regex member => ((parts regex member).mp (secretless regex member)).2⟩
  · rintro ⟨first, second⟩ regex member
    exact (parts regex member).mpr ⟨first regex member, second regex member⟩

theorem IsChannelKind.colon_notMem {kind : List Char} (kinded : IsChannelKind kind) : ':' ∉ kind := by
  obtain ⟨first, rest, rfl, small, body⟩ := kinded
  intro member
  rcases List.mem_cons.mp member with rfl | later
  · exact absurd small (by decide)
  · exact absurd (body ':' later) (by decide)

/-- Behind its kind a channel has a name that is not empty. -/
theorem isChannel_joined (kinded : IsChannelKind kind.toList) : IsChannel (kind ++ ":" ++ name) ↔ name ≠ "" ∧ IsName name := by
  have empty_iff : name = "" ↔ name.toList = [] := String.toList_eq_nil_iff.symm
  rw [IsChannel, toList_joined, Ne, empty_iff]
  constructor
  · rintro ⟨kind', name', same, kinded', full, named⟩
    obtain ⟨rfl, rfl⟩ := Listing.eq_of_append_separator_eq kinded.colon_notMem kinded'.colon_notMem same
    exact ⟨full, named⟩
  · rintro ⟨full, named⟩
    exact ⟨_, _, rfl, kinded, full, named⟩

end Colons

section Derived

variable {framework runId threadId eventType toolName : String}

/-- The channel of an event that names none -/
def derivedChannel (toolName eventType framework runId threadId : String) : String :=
  if toolName ≠ "" then "tool:" ++ runId ++ ":" ++ toolName
  else if eventType ∈ ["run_start", "run_end"] then "framework:" ++ framework ++ ":" ++ runId
  else if eventType ∈ ["step_end", "node_end", "task_end", "state_checkpoint"] then
    "state:" ++ runId ++ ":" ++ threadId
  else "events:" ++ runId ++ ":" ++ threadId

/-- A text that fits into an event as it is -/
structure Clean (text : String) : Prop where
  named : IsName text
  secretless : Secretless text

/-- The frameworks and the kinds of derived channels -/
theorem clean_of_known {text : String} (known : text ∈ frameworks ++ ["tool", "framework", "state", "events"]) : Clean text := by
  have checked : ∀ text ∈ frameworks ++ ["tool", "framework", "state", "events"],
      (∀ c ∈ text.toList, IsIdChar c ∨ c = '*') ∧ secretless text = true := by decide +kernel
  exact ⟨(checked text known).1, secretless_of_check (checked text known).2⟩

theorem clean_empty : Clean "" := ⟨fun _ absent => absurd absent List.not_mem_nil, secretless_of_check (by decide)⟩

private theorem isChannel_derived (kind : String) {left right : String} (kinded : IsChannelKind kind.toList)
    (named : IsName left) : IsChannel (kind ++ ":" ++ left ++ ":" ++ right) ↔ IsName right := by
  have full : left ++ ":" ++ right ≠ "" := by
    intro empty
    have bare : left.toList ++ ':' :: right.toList = [] := toList_joined.symm.trans (congrArg String.toList empty)
    exact absurd bare (List.append_ne_nil_of_right_ne_nil _ (List.cons_ne_nil _ _))
  have nested : kind ++ ":" ++ left ++ ":" ++ right = kind ++ ":" ++ (left ++ ":" ++ right) := by
    simp only [String.append_assoc]
  rw [nested, isChannel_joined kinded, isName_joined, and_iff_right full, and_iff_right named]

private theorem secretless_derived (kind : String) {left right : String} (plain : Clean kind) (clean : Clean left)
    (named : IsName right) : Secretless (kind ++ ":" ++ left ++ ":" ++ right) ↔ Secretless right := by
  have inner : IsName (kind ++ ":" ++ left) := isName_joined.2 ⟨plain.named, clean.named⟩
  rw [secretless_joined (isName_joined.2 ⟨inner, named⟩), secretless_joined inner,
    and_iff_right ⟨plain.secretless, clean.secretless⟩]

/-- Of a derived channel only the tool can break the pattern. -/
theorem isChannel_derivedChannel_iff (framed : framework ∈ frameworks) (run : IsName runId) (thread : IsName threadId) :
    IsChannel (derivedChannel toolName eventType framework runId threadId) ↔ IsName toolName := by
  have named : IsName framework := (clean_of_known (List.mem_append_left _ framed)).named
  rw [derivedChannel]
  by_cases bare : toolName = ""
  · rw [if_neg (not_not.mpr bare), bare]
    refine iff_of_true ?_ clean_empty.named
    split_ifs
    · exact (isChannel_derived "framework" ⟨'f', "ramework".toList, rfl, by decide, by decide⟩ named).mpr run
    · exact (isChannel_derived "state" ⟨'s', "tate".toList, rfl, by decide, by decide⟩ run).mpr thread
    · exact (isChannel_derived "events" ⟨'e', "vents".toList, rfl, by decide, by decide⟩ run).mpr thread
  · rw [if_pos bare]
    exact isChannel_derived "tool" ⟨'t', "ool".toList, rfl, by decide, by decide⟩ run

/-- With clean ids only the tool can bring a secret into a derived channel. -/
theorem secretless_derivedChannel_iff (framed : framework ∈ frameworks) (run : Clean runId) (thread : Clean threadId)
    (tool : IsName toolName) :
    Secretless (derivedChannel toolName eventType framework runId threadId) ↔ Secretless toolName := by
  have plain : ∀ kind ∈ ["tool", "framework", "state", "events"], Clean kind :=
    fun _ member => clean_of_known (List.mem_append_right _ member)
  have clean : Clean framework := clean_of_known (List.mem_append_left _ framed)
  rw [derivedChannel]
  by_cases bare : toolName = ""
  · rw [if_neg (not_not.mpr bare), bare]
    refine iff_of_true ?_ clean_empty.secretless
    split_ifs
    · exact (secretless_derived "framework" (plain _ (by decide)) clean run.named).mpr run.secretless
    · exact (secretless_derived "state" (plain _ (by decide)) run thread.named).mpr thread.secretless
    · exact (secretless_derived "events" (plain _ (by decide)) run thread.named).mpr thread.secretless
  · rw [if_pos bare]
    exact secretless_derived "tool" (plain _ (by decide)) run tool

/-- The ids that the SDKs make up are clean. -/
theorem generated_id {digits : List Char} (hex : ∀ c ∈ digits, c ∈ "0123456789abcdef".toList) :
    IsId ("evt_" ++ String.ofList digits) ∧ Secretless ("evt_" ++ String.ofList digits) := by
  have chars : ∀ c ∈ ("evt_" ++ String.ofList digits).toList, c ∈ "evt_0123456789abcdef".toList := by
    intro c member
    have whole : "evt_0123456789abcdef".toList = "evt_".toList ++ "0123456789abcdef".toList := by decide
    rw [whole, List.mem_append]
    rw [String.toList_append, List.mem_append, String.toList_ofList (l := digits)] at member
    exact member.imp_right (hex c)
  constructor
  · constructor
    · rw [String.toList_append]
      exact List.append_ne_nil_of_left_ne_nil (by decide) _
    · have listed : ∀ c ∈ "evt_0123456789abcdef".toList, IsIdChar c := by decide
      exact fun c member => listed c (chars c member)
  · intro regex member left middle right split matched
    have leaves : ∀ regex ∈ redactionPatterns.map (·.2), regex.mustLeave "evt_0123456789abcdef".toList false = true := by
      decide
    obtain ⟨c, taken, outside⟩ := matched.exists_notMem (leaves regex member)
      (Alphabet.ascii.isSpace_of_all (by decide))
    refine outside (chars c ?_)
    rw [split]
    exact List.mem_append_right _ (List.mem_append_left _ taken)

theorem digitChar_mem (n : ℕ) (small : n < 16) : Nat.digitChar n ∈ "0123456789abcdef".toList := by
  have checked : ∀ n : Fin 16, Nat.digitChar n ∈ "0123456789abcdef".toList := by decide
  exact checked ⟨n, small⟩

theorem mem_hexDigits {count value : ℕ} {c : Char} (member : c ∈ hexDigits count value) :
    c ∈ "0123456789abcdef".toList := by
  induction count generalizing value with
  | zero => exact absurd member List.not_mem_nil
  | succ count ih =>
    rw [hexDigits] at member
    rcases List.mem_append.mp member with early | late
    · exact ih early
    · exact List.mem_singleton.mp late ▸ digitChar_mem _ (Nat.mod_lt _ (by decide))

end Derived

end AttowNexus
