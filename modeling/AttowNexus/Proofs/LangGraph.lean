import AttowNexus.Library.Checks
import AttowNexus.Proofs.PythonAdapters

/-! # Parts of a LangGraph call

The start and the end of a call are pairs of events, and a callback names no parents. Nothing but the calls of the client
and the records of the adapter makes up a call, so what these keep is kept by the whole.
-/

namespace AttowNexus

namespace Python

open Checks AdapterState NexusAdapterBase

variable {Obj Exc : Type} {world : AdapterWorld Obj Exc}

namespace NexusLangGraphProxy

variable {proxy : NexusLangGraphProxy Obj} {method threadId : String}

/-- Two events, of which the second has what the first returned for its parents -/
def eventPair (world : AdapterWorld Obj Exc) (proxy : NexusLangGraphProxy Obj) (converted : Except (Exn Exc) (Value Obj))
    (firstType secondType field method threadId : String) (explicit : Option (List String)) :
    Adapter Obj Exc (List String) := do
  let value ← Fallible.lift converted
  let parents ← proxy.base.record world (some threadId) (stepArguments firstType method [(field, value)] explicit)
  let value ← Fallible.lift converted
  proxy.base.record world (some threadId) (stepArguments secondType method [(field, value)] (some parents))

/-- A callback names no parents. -/
theorem callbackArguments_parents {callback : ChainCallback Obj Exc} {arguments : EventArguments Obj}
    (computed : callbackArguments world callback = .ok arguments) : arguments.parentCommitIds = none := by
  cases callback with
  | onChainStart serialized inputs =>
    obtain ⟨_, _, rest⟩ := bind_eq_ok_iff.1 computed
    obtain ⟨_, _, same⟩ := bind_eq_ok_iff.1 rest
    exact Except.ok.inj same ▸ rfl
  | onChainEnd outputs =>
    obtain ⟨_, _, same⟩ := bind_eq_ok_iff.1 computed
    exact Except.ok.inj same ▸ rfl
  | onChainError error =>
    obtain ⟨_, _, same⟩ := bind_eq_ok_iff.1 computed
    exact Except.ok.inj same ▸ rfl

section Frame

variable {R : AdapterState Obj Exc → AdapterState Obj Exc → Prop} (trans : ∀ s t u, R s t → R t u → R s u)
  (calls : ∀ request, Fallible.Keeps R (proxy.base.call world request)) (rest : ∀ s t, t.calls = s.calls → R s t)

include trans calls rest

theorem eventPair_keeps {converted : Except (Exn Exc) (Value Obj)} {firstType secondType field : String}
    {explicit : Option (List String)} :
    Fallible.Keeps R (eventPair world proxy converted firstType secondType field method threadId explicit) := by
  have refl : ∀ s, R s s := fun s => rest s s rfl
  have records : ∀ arguments, Fallible.Keeps R (proxy.base.record world (some threadId) arguments) :=
    record_keeps trans calls rest (some threadId)
  refine .bind trans (.lift refl _) fun _ => .bind trans (records _) fun _ => ?_
  exact .bind trans (.lift refl _) fun _ => records _

theorem handle_keeps (prepared : PreparedCall Obj) (callback : ChainCallback Obj Exc) :
    Fallible.Keeps R (proxy.handle world prepared callback) := by
  have refl : ∀ s, R s s := fun s => rest s s rfl
  refine .ite (.pure refl _) (.bind trans (.lift refl _) fun _ => ?_)
  exact .bind trans (record_keeps trans calls rest _ _) fun _ => .pure refl _

/-- What is kept by the calls of the client, and by all that makes no call, is kept by a call of the graph. -/
theorem invoke_keeps {graph : Graph Obj Exc} {input : Value Obj} {config : Option (List (Value Obj × Value Obj))} :
    Fallible.Keeps R (proxy.invoke world graph input config) := by
  have refl : ∀ s, R s s := fun s => rest s s rfl
  refine .bind trans ?prepares fun prepared => .bind trans (eventPair_keeps trans calls rest) fun parents => ?_
  case prepares =>
    refine .bind trans (.lift refl _) fun prepared => ?_
    exact .bind trans (register_keeps trans calls rest _) fun _ => .pure refl _
  refine .bind trans ?wrapped fun result => .bind trans (eventPair_keeps trans calls rest) fun _ => .pure refl _
  case wrapped =>
    refine Fallible.Keeps.reraising trans (WrappedCall.run_keeps refl trans (handle_keeps trans calls rest prepared) _) fun _ => ?_
    refine .ite (.pure refl _) (.bind trans (.lift refl _) fun _ => ?_)
    exact record_keeps trans calls rest _ _

end Frame

end NexusLangGraphProxy

end Python

end AttowNexus
