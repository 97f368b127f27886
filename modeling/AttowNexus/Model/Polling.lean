import AttowNexus.Library.Run
import AttowNexus.Model.Bus
import Mathlib.Data.Finset.Insert

/-! # Watching a channel by polling

`nexus subscribe` of the CLI, `subscribe` of the Python SDK and `pollJson` of the TypeScript SDK ask
`/api/channels/{channel}/deltas` again and again, which answers with the recent deltas of the channel. Between two
polls the bus goes on.
-/

namespace AttowNexus

/-- The loop of `subscribe` in the CLI: the length of its last answer, and what it printed -/
structure CliSubscription where
  seen : ℕ
  printed : List DeltaInfo
deriving Repr

namespace CliSubscription

def start : CliSubscription := ⟨0, []⟩

def poll (items : List DeltaInfo) (loop : CliSubscription) : CliSubscription :=
  ⟨items.length, loop.printed ++ items.drop loop.seen⟩

end CliSubscription

/-- The loop of the SDKs: the keys that were seen, and what was yielded -/
structure PollJson (κ : Type) where
  seen : Finset κ
  yielded : List DeltaInfo

namespace PollJson

variable {κ : Type} [DecidableEq κ]

def start : PollJson κ := ⟨∅, []⟩

/-- The inner loop for one item -/
def take (key : DeltaInfo → κ) (loop : PollJson κ) (item : DeltaInfo) : PollJson κ :=
  if key item ∈ loop.seen then loop else ⟨insert (key item) loop.seen, loop.yielded ++ [item]⟩

def poll (key : DeltaInfo → κ) (items : List DeltaInfo) (loop : PollJson κ) : PollJson κ := items.foldl (take key) loop

end PollJson

/-- `update.get("delta_id") or update.get("deltaId")`: an answer has no `deltaId`, and an empty string counts as none. -/
def Python.deltaKey (update : DeltaInfo) : Option String := if update.deltaId = "" then none else some update.deltaId

/-- `String(item.delta_id ?? …)` -/
def TypeScript.deltaKey (item : DeltaInfo) : String := item.deltaId

namespace Bus

variable {σ : Type}

/-- The bus goes on, and then the loop polls the channel. -/
def Round (channel : String) (poll : List DeltaInfo → σ → σ) (before : Bus × σ) (actions : List Action)
    (after : Bus × σ) : Prop :=
  Run Acts before.1 actions after.1 ∧ after.2 = poll (after.1.recentDeltasOf (some channel)) before.2

/-- A loop that polls the channel for the first time after a history of the bus, and then once in every round. -/
def Watch (channel : String) (poll : List DeltaInfo → σ → σ) (start : σ) (history : List Action)
    (rounds : List (List Action)) (loop : σ) : Prop :=
  ∃ joined bus, Run Acts new history joined ∧
    Run (Round channel poll) (joined, poll (joined.recentDeltasOf (some channel)) start) rounds (bus, loop)

end Bus

end AttowNexus
