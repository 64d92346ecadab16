import FileProcessing.Lemmas.Wire

/-!
# The Redis channel of the events

The subscriber reads the type and the job of an event in the channel, and lays the payload over them: the payload's own `type` and
`jobId`, where it has them, win. So an event names the type and the job of its channel just when the payload names no others.
-/

namespace FileProcessing

/-- The type of an event: a text without a colon. -/
structure EventType where
  text : String
  noColon : ':' ∉ text.toList

/-- What `JSON.parse` makes of a text: an object has no property twice. `none` when it throws. -/
structure ParsedText where
  value : Option Json
  nodup : ∀ payload, value = some payload → (payload.fields.map Prod.fst).Nodup

/-- An object, as a payload. -/
structure JsonObject where
  fields : List (String × Json)
  nodup : (fields.map Prod.fst).Nodup

/-- `job:<eventType>:<jobId>`. -/
def eventChannel (eventType jobId : String) : String := "job:" ++ eventType ++ ":" ++ jobId

/-- The payload's own type and job id, where it has them, are these. -/
def NamesNoOther (payload : Json) (eventType jobId : String) : Prop :=
  (∀ value, ("type", value) ∈ payload.fields → value = .string ("job:" ++ eventType)) ∧
    ∀ value, ("jobId", value) ∈ payload.fields → value = .string jobId

/-- What is published is broadcast to the job of the channel, as an event with the type and the job of the channel and all the
fields of the payload. -/
def RoundTrips (stack : Nat) (eventType : EventType) (jobId : String) (payload : JsonObject) : Prop :=
  ∃ event, onPmessage stack (eventChannel eventType.text jobId) (some (.object payload.fields)) = .ok (some (jobId, event)) ∧
    event.get "type" = .string ("job:" ++ eventType.text) ∧ event.get "jobId" = .string jobId ∧
    ∀ name value, (name, value) ∈ payload.fields → event.get name = .json value

/-- The handler does not throw, and whatever it broadcasts of a message goes to the job of its channel and has the type and the job of
the channel. -/
structure OfItsChannel (stack : Nat) (channel : String) (text : ParsedText) : Prop where
  noThrow : ∃ out, onPmessage stack channel text.value = .ok out
  names : ∀ target event, onPmessage stack channel text.value = .ok (some (target, event)) →
    ∃ eventType, channelParts channel = some (eventType, target) ∧ event.get "type" = .string ("job:" ++ eventType) ∧
      event.get "jobId" = .string target

/-! ## Reading a channel -/

/-- The parts of a channel are what it was made of, colons in the job id included. -/
theorem channelParts_eventChannel (eventType : EventType) (jobId : String) :
    channelParts (eventChannel eventType.text jobId) = some (eventType.text, jobId) := by
  have hchannel : (eventChannel eventType.text jobId).toList =
      "job".toList ++ ':' :: (eventType.text.toList ++ ':' :: jobId.toList) := by
    simp [eventChannel]
  cases hparts : jobId.toList.splitOn ':' with
  | nil => exact absurd hparts (List.splitOn_ne_nil ':' jobId.toList)
  | cons part rest =>
    have hjoin : [':'].intercalate (part :: rest) = jobId.toList := by
      rw [← hparts]
      exact List.intercalate_splitOn ':'
    rw [channelParts, hchannel, List.splitOn_append_cons_self_of_not_mem (by decide),
      List.splitOn_append_cons_self_of_not_mem eventType.noColon, hparts]
    simp only [hjoin, String.ofList_toList]

/-- What comes to be broadcast: the payload laid over the type and the job of the channel. -/
theorem pmessageEvent_iff {channel target : String} {message : Option Json} {event : Json} :
    pmessageEvent channel message = some (target, event) ↔
      ∃ eventType payload, channelParts channel = some (eventType, target) ∧ message = some payload ∧
        ((∃ items, payload = .array items) ∨ ∃ fields, payload = .object fields) ∧
        event = Json.spread [("type", .string ("job:" ++ eventType)), ("jobId", .string target)] payload := by
  constructor
  · intro h
    unfold pmessageEvent at h
    split at h
    · rename_i eventType jobId items hparts
      cases h
      exact ⟨eventType, _, hparts, rfl, Or.inl ⟨items, rfl⟩, rfl⟩
    · rename_i eventType jobId fields hparts
      cases h
      exact ⟨eventType, _, hparts, rfl, Or.inr ⟨fields, rfl⟩, rfl⟩
    · cases h
  · rintro ⟨eventType, payload, hparts, rfl, ⟨items, rfl⟩ | ⟨fields, rfl⟩, rfl⟩
    · simp only [pmessageEvent, hparts]
    · simp only [pmessageEvent, hparts]

/-- What the handler broadcasts is what has come so far and is not nested too deep. -/
theorem onPmessage_iff {stack : Nat} {channel target : String} {message : Option Json} {event : Json} :
    onPmessage stack channel message = .ok (some (target, event)) ↔
      pmessageEvent channel message = some (target, event) ∧ event.nestedWithin stack = true := by
  unfold onPmessage
  cases he : pmessageEvent channel message with
  | none => simp
  | some x =>
    obtain ⟨target', event'⟩ := x
    dsimp only
    split
    · simp only [Except.ok.injEq, Option.some.injEq, Prod.mk.injEq]
      constructor
      · rintro ⟨rfl, rfl⟩
        exact ⟨⟨rfl, rfl⟩, ‹_›⟩
      · exact And.left
    · rename_i hdeep
      simp only [reduceCtorEq, Option.some.injEq, Prod.mk.injEq, false_iff]
      rintro ⟨⟨rfl, rfl⟩, hnested⟩
      exact hdeep hnested

/-- The handler does not throw just when what comes to be broadcast is not nested too deep. -/
theorem onPmessage_ok_iff {stack : Nat} {channel : String} {message : Option Json} :
    (∃ out, onPmessage stack channel message = .ok out) ↔
      ∀ target event, pmessageEvent channel message = some (target, event) → event.nestedWithin stack = true := by
  constructor
  · rintro ⟨out, hout⟩ target event he
    by_contra hdeep
    simp only [onPmessage, he, if_neg hdeep] at hout
    cases hout
  · intro h
    cases he : pmessageEvent channel message with
    | none => exact ⟨none, by simp only [onPmessage, he]⟩
    | some x => exact ⟨some x, onPmessage_iff.2 ⟨he, h x.1 x.2 he⟩⟩

/-! ## Laying the payload over the channel -/

/-- The type of the event is that of the channel just when the payload has no other; and so with the job. -/
theorem spread_names {payload : Json} (hnodup : (payload.fields.map Prod.fst).Nodup) (eventType jobId : String) :
    (Json.spread [("type", .string ("job:" ++ eventType)), ("jobId", .string jobId)] payload).get "type" =
          .string ("job:" ++ eventType) ∧
        (Json.spread [("type", .string ("job:" ++ eventType)), ("jobId", .string jobId)] payload).get "jobId" = .string jobId ↔
      NamesNoOther payload eventType jobId := by
  have hname {name text : String} {fields : List (String × Json)} (hf : (Json.object fields).get name = .string text) :
      (Json.spread fields payload).get name = .string text ↔ ∀ value, (name, value) ∈ payload.fields → value = .string text := by
    constructor
    · intro hget value hmem
      rw [Json.get_spread_of_mem fields hnodup hmem] at hget
      exact JsValue.json.inj hget
    · intro hall
      by_cases hmem : ∃ value, (name, value) ∈ payload.fields
      · obtain ⟨value, hmem⟩ := hmem
        rw [Json.get_spread_of_mem fields hnodup hmem, hall value hmem]
        rfl
      · rw [Json.get_spread_of_not_mem fields (fun value hv => hmem ⟨value, hv⟩), hf]
  rw [NamesNoOther, hname (by rfl), hname (by rfl)]

/-- The event is nested as deep as the payload. -/
theorem spread_nested {payload : Json} (hnodup : (payload.fields.map Prod.fst).Nodup)
    (hpayload : (∃ items, payload = .array items) ∨ ∃ fields, payload = .object fields) (eventType jobId : String) (stack : Nat) :
    (Json.spread [("type", .string ("job:" ++ eventType)), ("jobId", .string jobId)] payload).nestedWithin stack = true ↔
      payload.nestedWithin stack = true :=
  Json.nestedWithin_spread hnodup (by simp) hpayload stack

/-- What is published on a channel of an event type and a job arrives as it was published just when it is not nested too deep and
names no other type and no other job. -/
theorem roundTrips_iff (stack : Nat) (eventType : EventType) (jobId : String) (payload : JsonObject) :
    RoundTrips stack eventType jobId payload ↔
      (Json.object payload.fields).nestedWithin stack = true ∧ NamesNoOther (.object payload.fields) eventType.text jobId := by
  have hnodup : ((Json.object payload.fields).fields.map Prod.fst).Nodup := payload.nodup
  rw [← spread_names hnodup, ← spread_nested hnodup (Or.inr ⟨_, rfl⟩) eventType.text jobId]
  constructor
  · rintro ⟨event, hon, htype, hjob, -⟩
    obtain ⟨hevent, hnested⟩ := onPmessage_iff.mp hon
    obtain ⟨eventType', payload', hparts, hpayload, -, rfl⟩ := pmessageEvent_iff.mp hevent
    rw [channelParts_eventChannel] at hparts
    cases hparts
    cases hpayload
    exact ⟨hnested, htype, hjob⟩
  · rintro ⟨hnested, htype, hjob⟩
    refine ⟨_, onPmessage_iff.mpr ⟨pmessageEvent_iff.mpr ⟨eventType.text, _, channelParts_eventChannel eventType jobId, rfl,
      Or.inr ⟨_, rfl⟩, rfl⟩, hnested⟩, htype, hjob, fun name value hmem => ?_⟩
    exact Json.get_spread_of_mem _ hnodup hmem

/-- A value that is no array and no object is nested within any stack. -/
theorem nested_of_leaf {payload : Json} (h : ¬((∃ items, payload = .array items) ∨ ∃ fields, payload = .object fields)) (stack : Nat) :
    payload.nestedWithin stack = true ∧ payload.fields = [] := by
  cases payload with
  | array items => exact absurd (Or.inl ⟨items, rfl⟩) h
  | object fields => exact absurd (Or.inr ⟨fields, rfl⟩) h
  | null | bool | number | string => cases stack <;> exact ⟨rfl, rfl⟩

/-- The handler does not throw, and whatever is broadcast of a message is of its channel, just when the message is not nested too deep
and names no other type and no other job. -/
theorem ofItsChannel_iff (stack : Nat) (channel : String) (text : ParsedText) :
    OfItsChannel stack channel text ↔
      ∀ eventType jobId payload, channelParts channel = some (eventType, jobId) → text.value = some payload →
        payload.nestedWithin stack = true ∧ NamesNoOther payload eventType jobId := by
  constructor
  · rintro ⟨hok, h⟩ eventType jobId payload hparts htext
    have hnodup := text.nodup payload htext
    by_cases hobject : (∃ items, payload = .array items) ∨ ∃ fields, payload = .object fields
    · have hevent := pmessageEvent_iff.mpr ⟨eventType, payload, hparts, htext, hobject, rfl⟩
      have hnested := onPmessage_ok_iff.mp hok _ _ hevent
      obtain ⟨eventType', hparts', htype, hjob⟩ := h jobId _ (onPmessage_iff.mpr ⟨hevent, hnested⟩)
      rw [hparts] at hparts'
      cases hparts'
      exact ⟨(spread_nested hnodup hobject eventType jobId stack).mp hnested, (spread_names hnodup eventType jobId).mp ⟨htype, hjob⟩⟩
    · obtain ⟨hnested, hempty⟩ := nested_of_leaf hobject stack
      exact ⟨hnested, by simp [NamesNoOther, hempty]⟩
  · intro h
    refine ⟨onPmessage_ok_iff.mpr (fun target event hevent => ?_), fun target event hon => ?_⟩
    · obtain ⟨eventType, payload, hparts, htext, hobject, rfl⟩ := pmessageEvent_iff.mp hevent
      exact (spread_nested (text.nodup payload htext) hobject eventType target stack).mpr (h eventType target payload hparts htext).1
    · obtain ⟨eventType, payload, hparts, htext, -, rfl⟩ := pmessageEvent_iff.mp (onPmessage_iff.mp hon).1
      have hnames := (h eventType target payload hparts htext).2
      exact ⟨eventType, hparts, (spread_names (text.nodup payload htext) eventType target).mpr hnames⟩

/-- The channel decodes what it encodes just when the payload is not nested deeper than the stack allows and names no other type and no
other job: for what is published on a channel of an event type and a job, and for any message that comes. -/
theorem eventChannel_iff (stack : Nat) (eventType : EventType) (jobId : String) (payload : JsonObject) (channel : String)
    (text : ParsedText) :
    (RoundTrips stack eventType jobId payload ↔
        (Json.object payload.fields).nestedWithin stack = true ∧ NamesNoOther (.object payload.fields) eventType.text jobId) ∧
      (OfItsChannel stack channel text ↔
        ∀ eventType jobId payload, channelParts channel = some (eventType, jobId) → text.value = some payload →
          payload.nestedWithin stack = true ∧ NamesNoOther payload eventType jobId) :=
  ⟨roundTrips_iff stack eventType jobId payload, ofItsChannel_iff stack channel text⟩

/-- What the worker publishes is flat and names no type and no job. -/
theorem namesNoOther_payload (m : Message) :
    m.event.payload.nestedWithin 1 = true ∧ NamesNoOther m.event.payload m.event.type m.jobId.text := by
  obtain ⟨jobId, event⟩ := m
  cases event <;> simp [NamesNoOther, JobEvent.payload, Json.fields, Json.nestedWithin]

/-- A message of a job that calls itself another's. -/
def disguised : ParsedText where
  value := some (.object [("jobId", .string "b")])
  nodup := by
    rintro payload h
    cases h
    exact List.nodup_singleton _

/-- Not every message is broadcast as one of its channel, however much of the stack is left. -/
theorem not_ofItsChannel : ¬ ∃ stack, ∀ channel text, OfItsChannel stack channel text := by
  rintro ⟨stack, h⟩
  have hparts : channelParts (eventChannel "progress" "a") = some ("progress", "a") :=
    channelParts_eventChannel ⟨"progress", by decide⟩ "a"
  obtain ⟨-, -, hnames⟩ := (ofItsChannel_iff stack _ disguised).mp (h _ disguised) "progress" "a" _ hparts rfl
  have hb := hnames (.string "b") (by simp [Json.fields])
  simp at hb

end FileProcessing
