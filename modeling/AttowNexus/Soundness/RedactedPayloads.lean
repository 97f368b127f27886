import AttowNexus.Proofs.Frame
import AttowNexus.Proofs.LoopDetector
import AttowNexus.Proofs.Naming
import AttowNexus.Proofs.RedactedText

/-! # Payloads are redacted before they are stored or sent

A checkpoint or a publish prepares one payload, and both the commit and the delta on the bus have it from there. So
nothing in the strings of a payload that one of the patterns finds gets past a daemon with redaction on. The other
fields of a request are not looked at, and go into the commit and to the subscribers as they are.
-/

namespace AttowNexus

open Fallible AppState Regex

variable {deps : External} {config : Config} {ambient : Ambient} {s t : AppState}

section Messages

/-- What came onto the bus has the property. -/
def Sends (allowed : BroadcastDelta → Prop) (s t : AppState) : Prop :=
  ∃ sent, t.bus = s.bus ++ sent ∧ ∀ message ∈ sent.filterMap BusCall.message, allowed message

namespace Sends

variable {allowed : BroadcastDelta → Prop}

theorem of_bus (same : t.bus = s.bus) : Sends allowed s t :=
  ⟨[], by rw [same, List.append_nil], fun _ absent => absurd absent List.not_mem_nil⟩

theorem refl (s : AppState) : Sends allowed s s := of_bus rfl

theorem trans (s t u : AppState) (first : Sends allowed s t) (second : Sends allowed t u) : Sends allowed s u := by
  obtain ⟨sent, bus, before⟩ := first
  obtain ⟨more, bus', later⟩ := second
  refine ⟨sent ++ more, by rw [bus', bus, List.append_assoc], ?_⟩
  rw [List.filterMap_append]
  exact List.forall_mem_append.mpr ⟨before, later⟩

theorem of_watch {α : Type} {x : Fallible AppState Error α} (keeps : Keeps SameWatch x) : Keeps (Sends allowed) x :=
  fun s => of_bus (keeps s).2

theorem of_broadcast {delta : StateDelta} {commitId : String} (holds : allowed ⟨some delta, commitId, true⟩) :
    Keeps (Sends allowed) (broadcast delta commitId) :=
  .modify fun _ => ⟨[.broadcast delta commitId], rfl, List.forall_mem_singleton.mpr holds⟩

theorem of_reportLoop (warned : ∀ warning, allowed ⟨some (loopWarningDelta deps ambient warning), "", true⟩)
    (found : Option LoopWarning) : Keeps (Sends allowed) (reportLoop deps ambient found) := by
  cases found with
  | none => exact .pure refl _
  | some warning => exact .bind trans (of_watch (onStore_keepsWatch _)) fun _ => of_broadcast (warned warning)

/-- Recording a plan sends its delta, and a warning perhaps. -/
theorem of_record {plan : Plan} (announced : allowed ⟨some plan.delta, plan.commit.commitId, true⟩)
    (warned : ∀ warning, allowed ⟨some (loopWarningDelta deps ambient warning), "", true⟩) :
    Keeps (Sends allowed) (record deps config ambient plan) := by
  refine .bind trans (of_watch (persistCommit_keepsWatch plan.commit)) fun _ => .bind trans (of_broadcast announced) fun _ => ?_
  refine .ite (.pure refl _) (.bind trans (.get refl) fun state => .bind trans (.modify fun _ => of_bus rfl) fun _ => ?_)
  exact of_reportLoop warned _

end Sends

/-- Planning sends nothing, and what the plan does after that is for the plan to say. -/
theorem Sends.of_plan {α β : Type} {plan : Fallible AppState Error α} {rest : α → Fallible AppState Error β}
    {allowed : BroadcastDelta → Prop} {r : Except Error β} (watch : Keeps SameWatch plan)
    (keeps : ∀ out middle, plan s = (.ok out, middle) → Keeps (Sends allowed) (rest out))
    (run : (plan >>= rest) s = (r, t)) : Sends allowed s t := by
  obtain ⟨planned, middle, went⟩ : ∃ planned middle, plan s = (planned, middle) := ⟨_, _, rfl⟩
  have same : Sends allowed s middle := .of_bus (SameWatch.of_run watch went).2
  cases planned with
  | error error =>
    rw [bind_of_error went] at run
    exact (Prod.mk.inj run).2 ▸ same
  | ok out =>
    rw [bind_of_ok went] at run
    have later := keeps out middle went middle
    rw [run] at later
    exact same.trans _ _ _ later

/-- A checkpoint or a publish sends deltas with the prepared payload, and warnings. -/
theorem Step.sends {event : Event} {given : Payload} {allowed : BroadcastDelta → Prop}
    (submitted : event.call.request.payload deps = some given) (step : Step deps config s event t)
    (announced : ∀ delta commitId, delta.payload = some (preparedPayload deps config (some given)).1 →
      allowed ⟨some delta, commitId, true⟩)
    (warned : ∀ warning, allowed ⟨some (loopWarningDelta deps event.call.ambient warning), "", true⟩) :
    Sends allowed s t := by
  obtain ⟨⟨request, ambient⟩, outcome⟩ := event
  cases request with
  | publishDelta request =>
    obtain ⟨r, run, _⟩ := step_publishDelta step
    refine .of_plan (planPublish_keepsWatch request) (fun plan middle planned => ?_) run
    obtain ⟨delta, admits, rfl⟩ := planPublish_eq_ok_iff.1 ⟨middle, planned⟩
    have handed : delta.payload.getD (emptyJsonPayload deps) = given := by
      rw [Request.payload, admits.given] at submitted
      exact Option.some.inj submitted
    have prepared : (publishDelta deps config ambient delta).payload = some (preparedPayload deps config (some given)).1 := by
      rw [← handed]
      rfl
    rw [publishPlan]
    split_ifs
    · exact .bind Sends.trans (.of_broadcast (announced _ _ prepared)) fun _ => .pure Sends.refl _
    · exact .bind Sends.trans (.of_record (announced _ _ prepared) warned) fun _ => .pure Sends.refl _
  | checkpoint request =>
    obtain ⟨r, run, _⟩ := step_checkpoint step
    refine .of_plan (planCheckpoint_keepsWatch request) (fun plan middle planned => ?_) run
    obtain ⟨_, rfl⟩ := planCheckpoint_eq_ok_iff.1 ⟨middle, planned⟩
    have handed : request.payload.getD (emptyJsonPayload deps) = given := Option.some.inj submitted
    have prepared : (preparedCheckpointDelta deps config ambient request).payload =
        some (preparedPayload deps config (some given)).1 := by
      rw [← handed]
      rfl
    exact .bind Sends.trans (.of_record (announced _ _ prepared) warned) fun _ => .pure Sends.refl _
  | registerAgent => cases submitted
  | rollback => cases submitted
  | fork => cases submitted

end Messages

/-- The content of the delta is redacted. -/
def SendsRedacted (deps : External) (alphabet : Alphabet) (given : Payload) (message : BroadcastDelta) : Prop :=
  message.redacted = true ∧ ∃ delta, message.delta = some delta ∧
    ∃ kept, delta.payload = some kept ∧ RedactedFrom deps alphabet given kept

/-- With redaction on, a checkpoint or a publish stores no commit and sends no delta, its own warnings apart, whose
payload is not redacted. -/
theorem payloads_redacted {alphabet : Alphabet} (leftmost : deps.ReplacesLeftmost alphabet)
    (enabled : config.redactionEnabled = true) {event : Event} {given : Payload}
    (submitted : event.call.request.payload deps = some given) (step : Step deps config s event t) :
    (∀ commit ∈ t.store.tables.stored, commit ∉ s.store.tables.stored →
      ∃ kept, commit.stateDelta = some kept ∧ commit.messagesDelta = none ∧ RedactedFrom deps alphabet given kept) ∧
    Sends (fun message => SendsRedacted deps alphabet given message ∨
      ∃ warning, message.delta = some (loopWarningDelta deps event.call.ambient warning)) s t := by
  have redacted := preparedPayload_redactedFrom leftmost enabled given
  constructor
  · intro commit member new
    have recorded := (step.mem_stored member).resolve_left new
    obtain ⟨kept, only⟩ := recordedBy_payload submitted recorded
    exact ⟨_, kept, only, redacted⟩
  · refine step.sends submitted (fun delta commitId prepared => ?_) fun warning => .inr ⟨warning, rfl⟩
    exact .inl ⟨rfl, delta, rfl, _, prepared, redacted⟩

section Sample

/-- Two strings that make a URL with a password where one ends and the other begins. -/
private def urlHalves : JsonValue := ⟨.array [.string "a://b", .string "c:d@"], ⟨trivial, trivial, trivial⟩⟩

/-- A daemon with a working engine, and a parser that knows the two strings. -/
private def engineSample : External := (Sample.knowing [urlHalves]).withEngine

private def secret : String := "Bearer abc"

private theorem secret_found : ¬ CleanText .ascii secret := by
  intro clean
  have member : (secret.toList, []) ∈ splits .ascii bearerToken false [] secret.toList := by decide
  exact not_free_of_mem_splits member (clean redactionPatterns[0] (List.getElem_mem _))

private theorem urlHalves_found : ¬ CleanText .ascii (Sample.render urlHalves.1) := by
  intro clean
  have text : (Sample.render urlHalves.1).toList = "[\"".toList ++ "a://b\",\"c:d@\"]".toList := by decide
  have member : ("a://b\",\"c:d@".toList, "\"]".toList) ∈
      splits .ascii databaseUrlPassword false "[\"".toList "a://b\",\"c:d@\"]".toList := by decide
  have free := clean redactionPatterns[7] (List.getElem_mem _)
  rw [text] at free
  exact not_free_of_mem_splits member free

private def payloadOf (encoding : PayloadEncoding) (text : String) : Payload :=
  ⟨encoding.toI32, utf8Bytes text, some ⟨[(secret, .stringValue secret)]⟩, 0, "", false, ""⟩

/-- A checkpoint with the secret in its summary and in a key. -/
private def leaky (encoding : PayloadEncoding) (text : String) : Call :=
  ⟨.checkpoint { Sample.checkpointRequest "r" [] [] with summary := secret, payload := some (payloadOf encoding text) },
    .calm ⟨1, 0⟩ 1⟩

private def afterLeaky (encoding : PayloadEncoding) (text : String) : AppState :=
  (exec engineSample Sample.config (leaky encoding text) .initial).2

/-- The summary, the data and the first key of each stored commit. -/
private def storedTexts (state : AppState) : List (String × Option String × Option String) :=
  state.store.tables.stored.map fun commit =>
    (commit.summary, commit.stateDelta.bind fun kept => fromUtf8 kept.data,
      commit.stateDelta.bind fun kept => kept.structData.bind fun value => value.fields.head?.map (·.1))

/-- The mark and the summary of each message. -/
private def sentSummaries (state : AppState) : List (Bool × Option String) :=
  (state.bus.filterMap BusCall.message).map fun message => (message.redacted, message.delta.map (·.summary))

/-- A bearer token is stored and sent in a summary, a key and bytes, and a database URL in the text of a document. -/
theorem other_texts_not_redacted :
    engineSample.ReplacesLeftmost .ascii ∧ Sample.config.redactionEnabled = true ∧
    ¬ CleanText .ascii secret ∧ ¬ CleanText .ascii (Sample.render urlHalves.1) ∧
    storedTexts (afterLeaky .bytes secret) = [(secret, some secret, some secret)] ∧
    sentSummaries (afterLeaky .bytes secret) = [(true, some secret)] ∧
    storedTexts (afterLeaky .json (Sample.render urlHalves.1)) =
      [(secret, some (Sample.render urlHalves.1), some secret)] :=
  ⟨(withEngine_leftmost _), rfl, secret_found, urlHalves_found, by decide, by decide, by decide⟩

/-- As a text the token is replaced. -/
theorem payloads_redacted_token :
    ∃ commit ∈ (afterLeaky .text secret).store.tables.stored, ∃ kept, commit.stateDelta = some kept ∧
      RedactedFrom engineSample .ascii (payloadOf .text secret) kept ∧ fromUtf8 kept.data = some "[REDACTED]" := by
  have texts : storedTexts (afterLeaky .text secret) = [(secret, some "[REDACTED]", some secret)] := by decide
  obtain ⟨commit, only, same⟩ := List.map_eq_singleton_iff.mp texts
  have member : commit ∈ (afterLeaky .text secret).store.tables.stored := by
    rw [only]
    exact List.mem_singleton_self _
  have step : Step engineSample Sample.config .initial
      ⟨leaky .text secret, (exec engineSample Sample.config (leaky .text secret) .initial).1⟩ (afterLeaky .text secret) := rfl
  obtain ⟨stored, _⟩ := payloads_redacted (withEngine_leftmost _) rfl rfl step
  obtain ⟨kept, handed, _, redacted⟩ := stored commit member List.not_mem_nil
  refine ⟨commit, member, kept, handed, redacted, ?_⟩
  have data := (Prod.mk.inj (Prod.mk.inj same).2).1
  rwa [handed] at data

end Sample

end AttowNexus
