import Mathlib.Data.List.Chain

/-! # Entries that name the one before them

Each entry of a log may become a key, and names some keys. In a linked log an entry names the key of the one before it
and nothing else.
-/

section Linked

variable {ε κ : Type} (names : ε → List κ) (key : ε → Option κ)

/-- From the first to the last keys, each entry names the key of the one before it. -/
def Linked : List κ → List ε → List κ → Prop
  | keys, [], last => keys = last
  | keys, entry :: rest, last => names entry = keys ∧ ∃ own, key entry = some own ∧ Linked [own] rest last

variable {names key} {keys middle last : List κ} {entries more : List ε} {entry : ε} {own : κ}

namespace Linked

theorem nil (keys : List κ) : Linked names key keys [] keys := rfl

theorem singleton (named : names entry = keys) (keyed : key entry = some own) : Linked names key keys [entry] [own] :=
  ⟨named, own, keyed, rfl⟩

theorem append (first : Linked names key keys entries middle) (second : Linked names key middle more last) :
    Linked names key keys (entries ++ more) last := by
  induction entries generalizing keys with
  | nil =>
    obtain rfl : keys = middle := first
    exact second
  | cons entry entries ih =>
    obtain ⟨named, own, keyed, rest⟩ := first
    exact ⟨named, own, keyed, ih rest⟩

/-- Neighbours are linked. -/
theorem isChain (linked : Linked names key keys entries last) :
    entries.IsChain fun earlier later => ∃ own, key earlier = some own ∧ names later = [own] := by
  induction entries generalizing keys with
  | nil => exact List.isChain_nil
  | cons entry entries ih =>
    obtain ⟨_, own, keyed, rest⟩ := linked
    cases entries with
    | nil => exact List.isChain_singleton _
    | cons next entries => exact List.isChain_cons_cons.mpr ⟨⟨own, keyed, rest.1⟩, ih rest⟩

end Linked

end Linked
