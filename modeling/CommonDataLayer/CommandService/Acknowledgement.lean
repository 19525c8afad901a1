import CommonDataLayer.CommandService.MessageRouter

/-! # What an acknowledged insert has gone through

`Handled` specifies the message router: the output plugin resolves the message and, with a full
report sender, the resolution is published; the router succeeds exactly when that publish does.
Both inputs acknowledge a message only after the router succeeded. With a full sender the message
was therefore stored or its failure was reported. With reporting disabled the reporter is `()`,
which succeeds whatever the resolution was.
-/
namespace CommonDataLayer.CommandService
open Interaction
open MessagingSystem (CommunicationMessage)
set_option autoImplicit false

abbrev Trace : Type := List (Event Answer)

variable {json : SerdeJson}

/-- The calls and the result of the message router. -/
inductive Handled (json : SerdeJson) (message : BorrowedInsertMessage) :
    ReportSender → Trace → Except Report.Error Unit → Prop where
  | reported {base : FullReportSenderBase} {owned : OwnedInsertMessage} (status : Resolution)
      (delivery : Except MessagingSystem.Error Unit) (valid : message.toOwned json = .ok owned) :
      Handled json message (.full base)
        [⟨.outputPlugin message, status⟩,
          ⟨.publishMessage base.topic reportKey (reportBody base owned status.display), delivery⟩]
        (delivery.mapError .failedToReport)
  | unreported (status : Resolution) :
      Handled json message .disabled [⟨.outputPlugin message, status⟩] (.ok ())

theorem returns_report_full {base : FullReportSenderBase} {owned : OwnedInsertMessage}
    {description : String} {t : Trace} {r : Except Report.Error Unit} :
    Returns ((Reporter.full base owned).report description) t r ↔
      ∃ delivery : Except MessagingSystem.Error Unit,
        t = [⟨.publishMessage base.topic reportKey (reportBody base owned description), delivery⟩] ∧
          r = delivery.mapError .failedToReport := by
  constructor
  · intro h
    obtain ⟨delivery, t₁, t₂, rfl, h₁, h₂⟩ := returns_bind.mp h
    obtain rfl := returns_perform.mp h₁
    cases delivery with
    | error e =>
      obtain ⟨rfl, hr⟩ := steps_ret.mp h₂
      cases hr
      exact ⟨.error e, rfl, rfl⟩
    | ok u =>
      obtain ⟨rfl, hr⟩ := steps_ret.mp h₂
      cases hr
      exact ⟨.ok u, rfl, rfl⟩
  · rintro ⟨delivery, rfl, rfl⟩
    cases delivery <;> exact .call (.refl _)

theorem returns_withMessageBody {sender : ReportSender} {message : BorrowedInsertMessage}
    {t : Trace} {reporter : Reporter} :
    Returns (sender.withMessageBody json message) t reporter ↔ t = [] ∧
      ((sender = .disabled ∧ reporter = .unit) ∨ ∃ base owned, sender = .full base ∧
        message.toOwned json = .ok owned ∧ reporter = .full base owned) := by
  cases sender with
  | disabled => simp [ReportSender.withMessageBody, steps_ret, eq_comm]
  | full base =>
    unfold ReportSender.withMessageBody
    cases message.toOwned json with
    | error e =>
      constructor
      · intro h
        cases h with
        | @call _ _ a => exact a.elim
      · rintro ⟨_, ⟨h, _⟩ | ⟨_, _, _, h, _⟩⟩ <;> cases h
    | ok owned => simp [steps_ret, eq_comm]

theorem returns_routeMessage {sender : ReportSender} {message : BorrowedInsertMessage} {t : Trace}
    {r : Except Report.Error Unit} :
    Returns (routeMessage json sender message) t r ↔ Handled json message sender t r := by
  constructor
  · intro h
    obtain ⟨reporter, t₁, t₂, rfl, h₁, h₂⟩ := returns_bind.mp h
    obtain ⟨status, t₃, t₄, rfl, h₃, h₄⟩ := returns_bind.mp h₂
    obtain rfl := returns_perform.mp h₃
    obtain ⟨rfl, ⟨rfl, rfl⟩ | ⟨base, owned, rfl, hvalid, rfl⟩⟩ := returns_withMessageBody.mp h₁
    · obtain ⟨rfl, hr⟩ := steps_ret.mp h₄
      cases hr
      exact .unreported status
    · obtain ⟨delivery, rfl, rfl⟩ := returns_report_full.mp h₄
      exact .reported status delivery hvalid
  · intro h
    cases h with
    | unreported status => exact .call (.refl _)
    | @reported base owned status delivery valid =>
      refine returns_bind.mpr ⟨.full base owned, [], _, rfl,
        returns_withMessageBody.mpr ⟨rfl, .inr ⟨_, _, rfl, valid, rfl⟩⟩, ?_⟩
      exact .call (returns_report_full.mpr ⟨delivery, rfl, rfl⟩)

theorem all_routeMessage {sender : ReportSender} {message : BorrowedInsertMessage} :
    (routeMessage json sender message).All (· ≠ .ack) := by
  refine Program.All.bind ?_ fun reporter => ⟨by simp, fun status => ?_⟩
  · unfold ReportSender.withMessageBody
    cases sender with
    | disabled => trivial
    | full base =>
      cases message.toOwned json with
      | error e => exact ⟨by simp, fun a => a.elim⟩
      | ok owned => trivial
  · cases reporter with
    | unit => trivial
    | full base owned =>
      refine ⟨by simp, fun delivery => ?_⟩
      cases delivery <;> trivial

/-! ## The inputs -/

/-- The message was stored, or a report that carries its failure was published. -/
def StoredOrReported (json : SerdeJson) (sender : ReportSender) (message : BorrowedInsertMessage)
    (t : Trace) : Prop :=
  ⟨.outputPlugin message, .success⟩ ∈ t ∨
    ∃ base owned status, sender = .full base ∧ message.toOwned json = .ok owned ∧
      status ≠ Resolution.success ∧ ⟨.outputPlugin message, status⟩ ∈ t ∧
      ⟨.publishMessage base.topic reportKey (reportBody base owned status.display), .ok ()⟩ ∈ t

theorem storedOrReported_of_handled {base : FullReportSenderBase} {message : BorrowedInsertMessage}
    {t : Trace} (h : Handled json message (.full base) t (.ok ())) (more : Trace) :
    StoredOrReported json (.full base) message (t ++ more) := by
  generalize hr : (Except.ok () : Except Report.Error Unit) = r at h
  cases h with
  | @reported base owned status delivery valid =>
    cases delivery with
    | error e => cases hr
    | ok _ =>
      by_cases hs : status = .success
      · subst hs
        exact .inl (by simp)
      · exact .inr ⟨base, owned, status, rfl, valid, hs, by simp, by simp⟩

/-- The queue message was acknowledged: the broker was asked to. -/
def Acknowledged (t : Trace) : Prop := ∃ a, ⟨.ack, a⟩ ∈ t

/-- What comes before an acknowledgement. -/
theorem handled_of_ack {sender : ReportSender} {message : CommunicationMessage} {t : Trace}
    {p : Task (Except InputError Unit)}
    (h : Steps (MessageQueueInput.handleMessage json sender message) t p) (ha : Acknowledged t) :
    ∃ insert t₁ t₂, MessageQueueInput.buildMessage json message = .ok insert ∧ t = t₁ ++ t₂ ∧
      Handled json insert sender t₁ (.ok ()) := by
  obtain ⟨a, ha⟩ := ha
  obtain ⟨t₁, t₂, rfl⟩ := List.append_of_mem ha
  obtain ⟨mid, h₁, h₂⟩ := steps_append.mp h
  obtain ⟨next, rfl, _⟩ := h₂.cons_inv
  unfold MessageQueueInput.handleMessage at h₁
  cases hbuild : MessageQueueInput.buildMessage json message with
  | error e =>
    rw [hbuild] at h₁
    obtain ⟨_, h⟩ := steps_ret.mp h₁
    cases h
  | ok insert =>
    rw [hbuild] at h₁
    obtain ⟨r, t₃, t₄, rfl, h₃, h₄⟩ := steps_bind_call all_routeMessage (by simp) h₁
    cases r with
    | error e =>
      obtain ⟨_, h⟩ := steps_ret.mp h₄
      cases h
    | ok _ =>
      exact ⟨insert, t₃, t₄ ++ ⟨.ack, a⟩ :: t₂, rfl, by simp, returns_routeMessage.mp h₃⟩

theorem handled_of_insert {parseUuid : String → Except String Uuid} {sender : ReportSender}
    {request : GRPCInput.InsertMessage} {t : Trace}
    (h : Returns (GRPCInput.insert json parseUuid sender request) t (.ok ())) :
    ∃ insert, GRPCInput.buildMessage json parseUuid request = .ok insert ∧
      Handled json insert sender t (.ok ()) := by
  obtain ⟨r, t₁, t₂, rfl, h₁, h₂⟩ := returns_bind.mp h
  cases r with
  | error e =>
    obtain ⟨_, h⟩ := steps_ret.mp h₂
    cases h
  | ok _ =>
    obtain ⟨rfl, _⟩ := steps_ret.mp h₂
    unfold GRPCInput.handleMessage at h₁
    cases hbuild : GRPCInput.buildMessage json parseUuid request with
    | error e =>
      rw [hbuild] at h₁
      obtain ⟨_, h⟩ := steps_ret.mp h₁
      cases h
    | ok insert =>
      rw [hbuild] at h₁
      obtain ⟨r, t₃, t₄, rfl, h₃, h₄⟩ := returns_bind.mp h₁
      cases r with
      | error e =>
        obtain ⟨_, h⟩ := steps_ret.mp h₄
        cases h
      | ok _ =>
        obtain ⟨rfl, _⟩ := steps_ret.mp h₄
        exact ⟨insert, rfl, by simpa using returns_routeMessage.mp h₃⟩

/-- No insert is acknowledged unless it was stored or its failure reported. -/
def NoSilentDrop (json : SerdeJson) (parseUuid : String → Except String Uuid)
    (sender : ReportSender) : Prop :=
  (∀ message t p, Steps (MessageQueueInput.handleMessage json sender message) t p →
    Acknowledged t → ∃ insert, MessageQueueInput.buildMessage json message = .ok insert ∧
      StoredOrReported json sender insert t) ∧
  ∀ request t, Returns (GRPCInput.insert json parseUuid sender request) t (.ok ()) →
    ∃ insert, GRPCInput.buildMessage json parseUuid request = .ok insert ∧
      StoredOrReported json sender insert t

/-- Every message the plugin has resolved is acknowledged, whatever the resolution was. -/
def AcknowledgesAll (json : SerdeJson) (parseUuid : String → Except String Uuid)
    (sender : ReportSender) : Prop :=
  (∀ message insert status, MessageQueueInput.buildMessage json message = .ok insert →
    Returns (MessageQueueInput.handleMessage json sender message)
      [⟨.outputPlugin insert, status⟩, ⟨.ack, .ok ()⟩] (.ok ())) ∧
  ∀ request insert status, GRPCInput.buildMessage json parseUuid request = .ok insert →
    Returns (GRPCInput.insert json parseUuid sender request) [⟨.outputPlugin insert, status⟩]
      (.ok ())

/-- **With a full report sender no insert is dropped silently; with reporting disabled every
resolved message is acknowledged.** -/
theorem noSilentDrop_full_acknowledgesAll_disabled (json : SerdeJson)
    (parseUuid : String → Except String Uuid) :
    (∀ base, NoSilentDrop json parseUuid (.full base)) ∧
      AcknowledgesAll json parseUuid .disabled := by
  refine ⟨fun base => ⟨?_, ?_⟩, ?_, ?_⟩
  · intro message t p h ha
    obtain ⟨insert, t₁, t₂, hbuild, rfl, hhandled⟩ := handled_of_ack h ha
    exact ⟨insert, hbuild, storedOrReported_of_handled hhandled t₂⟩
  · intro request t h
    obtain ⟨insert, hbuild, hhandled⟩ := handled_of_insert h
    exact ⟨insert, hbuild, by simpa using storedOrReported_of_handled hhandled []⟩
  · intro message insert status hbuild
    unfold MessageQueueInput.handleMessage
    rw [hbuild]
    exact .call (.call (.refl _))
  · intro request insert status hbuild
    unfold GRPCInput.insert GRPCInput.handleMessage
    rw [hbuild]
    exact .call (.refl _)

/-- With reporting disabled a message that the plugin failed to store is acknowledged. -/
theorem not_noSilentDrop_disabled : ¬ NoSilentDrop sampleJson (fun _ => .ok 0) .disabled := by
  intro h
  obtain ⟨insert, hbuild, hstored | ⟨base, _, _, hsender, _⟩⟩ := h.1 ⟨.ok "", .ok sampleText⟩
    [⟨.outputPlugin sampleInsert, .commandServiceFailure⟩, ⟨.ack, .ok ()⟩] (.ret (.ok ()))
    (.call (.call (.refl _))) ⟨.ok (), by simp⟩
  · simp at hstored
  · cases hsender

end CommonDataLayer.CommandService
