import FileProcessing.Lemmas.Announcements
import FileProcessing.Lemmas.Subscriptions
import FileProcessing.Web.LiveView

/-!
# What arrives is what was sent

The Redis subscriber decodes the channel and the payload of a message the worker publishes, the page reads the fields the payload
had, and the API reads a subscription as the page wrote it.
-/

namespace FileProcessing

/-- The event a page reads of a message of the worker. -/
def Message.serverEvent (m : Message) : ServerEvent :=
  match m.event with
  | .progress n status => ⟨"job:progress", some m.jobId.text, some (.finite n), some status, none, none⟩
  | .completed fileId => ⟨"job:completed", some m.jobId.text, none, none, none, some fileId.text⟩
  | .failed message => ⟨"job:failed", some m.jobId.text, none, none, some message, none⟩

/-- The event names the job. -/
@[simp] theorem serverEvent_jobId (m : Message) : m.serverEvent.jobId = some m.jobId.text := by
  obtain ⟨jobId, event⟩ := m
  cases event <;> rfl

/-- A page that hears of a message shows the status it tells. -/
theorem handle_serverEvent (m : Message) (state : JobWsState) :
    (state.handle (.message m.serverEvent)).status = m.event.status := by
  obtain ⟨jobId, event⟩ := m
  cases event <;> rfl

/-- The parts of the channel of a message. -/
theorem channelParts_channel (m : Message) : channelParts m.channel = some (m.event.type, m.jobId.text) := by
  have hid : m.jobId.chars.splitOn ':' = [m.jobId.chars] := List.splitOn_eq_singleton (m.jobId.not_mem_chars (by decide) (by decide))
  have htype : ':' ∉ m.event.type.toList := by
    cases m.event <;> simp [JobEvent.type]
  have hchannel : m.channel.toList = "job".toList ++ ':' :: (m.event.type.toList ++ ':' :: m.jobId.chars) := by
    simp [Message.channel, Uuid.text]
  rw [channelParts, hchannel, List.splitOn_append_cons_self_of_not_mem (by decide),
    List.splitOn_append_cons_self_of_not_mem htype, hid]
  simp [Uuid.text]

/-- A status is read as it was written. -/
theorem jobStatusOf_text (status : JobStatus) : jobStatusOf (.json (.string status.text)) = some status := by
  cases status <;> rfl

/-- The Redis subscriber broadcasts a message of the worker to the job it is about, and a page reads its event. -/
theorem onPmessage_message (m : Message) : ∃ event,
    onPmessage 1 m.channel (some m.event.payload) = .ok (some (m.jobId.text, event)) ∧ ServerEvent.ofJson event = m.serverEvent := by
  obtain ⟨jobId, event⟩ := m
  have hparts := channelParts_channel ⟨jobId, event⟩
  cases event with
  | progress n status =>
    refine ⟨_, by simp only [onPmessage, pmessageEvent, hparts, JobEvent.payload]; rfl, ?_⟩
    simp [ServerEvent.ofJson, Json.spread, Json.setField, Json.fields, Json.get, Message.serverEvent, jobStatusOf_text,
      JsValue.asString, JsValue.asNumber, JobEvent.type]
  | completed fileId =>
    refine ⟨_, by simp only [onPmessage, pmessageEvent, hparts, JobEvent.payload]; rfl, ?_⟩
    simp [ServerEvent.ofJson, Json.spread, Json.setField, Json.fields, Json.get, Message.serverEvent, jobStatusOf,
      JsValue.asString, JsValue.asNumber, JobEvent.type]
  | failed message =>
    refine ⟨_, by simp only [onPmessage, pmessageEvent, hparts, JobEvent.payload]; rfl, ?_⟩
    simp [ServerEvent.ofJson, Json.spread, Json.setField, Json.fields, Json.get, Message.serverEvent, jobStatusOf,
      JsValue.asString, JsValue.asNumber, JobEvent.type]

end FileProcessing
