import HayaSend.Core.Types
import HayaSend.Foundations.OrderedMap

/-!
# Publishing to webhooks

`WebhookService.publish` makes a delivery for every enabled endpoint that takes the event, page by
page of the endpoints, and enqueues a job for each. It resolves only when it enqueued all of them
(`publish_resolved`): a page whose listing, record or job fails ends it, though the deliveries of
that page are all attempted.
-/

namespace HayaSend

inductive WebhookEventType
  | sent
  | delivered
  | deliveryDelayed
  | opened
  | clicked
  | bounced
  | complained
  | failed
  | scheduled
  | suppressed
  | received
  deriving DecidableEq, Repr

structure WebhookEndpoint where
  id : String
  events : List WebhookEventType
  isEnabled : Bool
  deriving DecidableEq, Repr

structure WebhookEvent where
  type : WebhookEventType
  createdAt : ℕ
  emailId : String
  deriving DecidableEq, Repr

inductive WebhookDeliveryStatus
  | pending
  | delivering
  | succeeded
  | failed
  | cancelled
  deriving DecidableEq, Repr

structure WebhookDeliveryRecord where
  id : String
  webhookId : String
  event : WebhookEvent
  status : WebhookDeliveryStatus
  attempts : ℕ
  lastError : Option String := none
  createdAt : ℕ
  updatedAt : ℕ
  expiresAt : ℕ
  deriving DecidableEq, Repr

/-- The `deliver_webhook` job. -/
structure WebhookJob where
  webhookId : String
  deliveryId : String
  event : WebhookEvent
  deriving DecidableEq, Repr

/-- The deliveries that are stored, and the jobs enqueued for them. -/
structure WebhookOutbox where
  deliveries : OrderedMap String WebhookDeliveryRecord := ∅
  jobs : List WebhookJob := []
  deriving DecidableEq

/-- What the store and the queue answer to one delivery: the id that was drawn for it, the errors
of the write and of the enqueue, and the category `safeErrorCategory` finds for the latter. -/
structure DeliveryAnswer where
  deliveryId : String
  createError : Option Failure := none
  enqueueError : Option Failure := none
  enqueueCategory : String := "application_error"
  deriving DecidableEq, Repr

/-- What one `publish` is answered: the pages of the endpoints as they are listed, and the answers
to the delivery for each endpoint. -/
structure PublishAnswers where
  firstPage : Except Failure (List WebhookEndpoint)
  nextPages : List (Except Failure (List WebhookEndpoint)) := []
  delivery : String → DeliveryAnswer
  /-- `deliveryRetentionDays` -/
  retentionDays : ℕ := 7

namespace WebhookOutbox

/-- `newDelivery` -/
def newDelivery (id webhookId : String) (event : WebhookEvent) (now retentionDays : ℕ) :
    WebhookDeliveryRecord where
  id := id
  webhookId := webhookId
  event := event
  status := .pending
  attempts := 0
  createdAt := now
  updatedAt := now
  expiresAt := now + retentionDays * 86400000

/-- `enqueueDelivery`: what is stored and enqueued, and the error that is thrown. -/
def enqueueDelivery (s : WebhookOutbox) (webhookId : String) (event : WebhookEvent)
    (answer : DeliveryAnswer) (now retentionDays : ℕ) : WebhookOutbox × Option Failure :=
  let delivery := newDelivery answer.deliveryId webhookId event now retentionDays
  match answer.createError with
  | some e => (s, some e)
  | none =>
    if s.deliveries.has delivery.id then
      (s, some (.error "Webhook delivery identifier collision."))
    else
      match answer.enqueueError with
      | some e =>
        let failed := { delivery with
          status := .failed
          lastError := some ("Webhook enqueue failed (" ++ answer.enqueueCategory ++ ").")
          updatedAt := now }
        ({ s with deliveries := s.deliveries.set delivery.id failed }, some e)
      | none => ({
          deliveries := s.deliveries.set delivery.id delivery
          jobs := s.jobs ++ [⟨webhookId, delivery.id, event⟩] }, none)

/-- The endpoints of a page an event goes to. -/
def subscribed (type : WebhookEventType) (page : List WebhookEndpoint) : List WebhookEndpoint :=
  page.filter fun webhook => webhook.isEnabled && webhook.events.contains type

/-- The deliveries of one page; the page fails with the first of their errors. -/
def publishPage (s : WebhookOutbox) (event : WebhookEvent) (answers : PublishAnswers) (now : ℕ) :
    List WebhookEndpoint → WebhookOutbox × Option Failure
  | [] => (s, none)
  | webhook :: page =>
    let (s', error) := s.enqueueDelivery webhook.id event (answers.delivery webhook.id) now
      answers.retentionDays
    let (s'', error') := publishPage s' event answers now page
    (s'', error.or error')

/-- The loop of `publishData` over the pages. -/
def publishPages (s : WebhookOutbox) (event : WebhookEvent) (answers : PublishAnswers) (now : ℕ) :
    List (Except Failure (List WebhookEndpoint)) → WebhookOutbox × Option Failure
  | [] => (s, none)
  | .error e :: _ => (s, some e)
  | .ok page :: pages =>
    match s.publishPage event answers now (subscribed event.type page) with
    | (s', some e) => (s', some e)
    | (s', none) => publishPages s' event answers now pages

/-- `publish` -/
def publish (s : WebhookOutbox) (type : WebhookEventType) (emailId : String)
    (answers : PublishAnswers) (now : ℕ) : WebhookOutbox × Option Failure :=
  s.publishPages ⟨type, now, emailId⟩ answers now (answers.firstPage :: answers.nextPages)

variable {s s' : WebhookOutbox} {event : WebhookEvent} {answers : PublishAnswers} {now : ℕ}

theorem enqueueDelivery_jobs (s : WebhookOutbox) (webhookId : String) (event : WebhookEvent)
    (answer : DeliveryAnswer) (now retentionDays : ℕ) :
    s.jobs ⊆ (s.enqueueDelivery webhookId event answer now retentionDays).1.jobs := by
  unfold enqueueDelivery
  dsimp only
  split
  · exact List.Subset.refl _
  · split_ifs
    · exact List.Subset.refl _
    · split
      · exact List.Subset.refl _
      · exact List.subset_append_left _ _

/-- A delivery that does not throw has enqueued its job. -/
theorem enqueueDelivery_resolved {webhookId : String} {answer : DeliveryAnswer}
    {retentionDays : ℕ}
    (h : s.enqueueDelivery webhookId event answer now retentionDays = (s', none)) :
    ⟨webhookId, answer.deliveryId, event⟩ ∈ s'.jobs := by
  unfold enqueueDelivery at h
  dsimp only at h
  split at h
  · cases h
  · split at h
    · cases h
    · split at h
      · cases h
      · cases h
        exact List.mem_append_right _ (List.mem_singleton_self _)

theorem publishPage_jobs {page : List WebhookEndpoint} :
    s.jobs ⊆ (s.publishPage event answers now page).1.jobs := by
  induction page generalizing s with
  | nil => exact List.Subset.refl _
  | cons webhook page ih =>
    simp only [publishPage]
    exact List.Subset.trans (enqueueDelivery_jobs s webhook.id event _ now _) ih

theorem publishPage_resolved {page : List WebhookEndpoint}
    (h : s.publishPage event answers now page = (s', none)) {webhook : WebhookEndpoint}
    (hw : webhook ∈ page) :
    ⟨webhook.id, (answers.delivery webhook.id).deliveryId, event⟩ ∈ s'.jobs := by
  induction page generalizing s with
  | nil => cases hw
  | cons first page ih =>
    simp only [publishPage, Prod.mk.injEq, Option.or_eq_none_iff] at h
    obtain ⟨rfl, hfirst, hrest⟩ := h
    rcases List.mem_cons.mp hw with rfl | hw
    · exact publishPage_jobs (enqueueDelivery_resolved (Prod.ext rfl hfirst))
    · exact ih (Prod.ext rfl hrest) hw

theorem publishPages_jobs (s : WebhookOutbox) (event : WebhookEvent) (answers : PublishAnswers)
    (now : ℕ) (pages : List (Except Failure (List WebhookEndpoint))) :
    s.jobs ⊆ (s.publishPages event answers now pages).1.jobs := by
  induction pages generalizing s with
  | nil => exact List.Subset.refl _
  | cons answer pages ih =>
    cases answer with
    | error e => exact List.Subset.refl _
    | ok page =>
      have hpage : s.jobs ⊆ (s.publishPage event answers now (subscribed event.type page)).1.jobs :=
        publishPage_jobs
      simp only [publishPages]
      split
      · rename_i s₁ e heq
        rw [heq] at hpage
        exact hpage
      · rename_i s₁ heq
        rw [heq] at hpage
        exact List.Subset.trans hpage (ih s₁)

theorem publishPages_resolved {pages : List (Except Failure (List WebhookEndpoint))}
    (h : s.publishPages event answers now pages = (s', none)) {answer : Except Failure _}
    (ha : answer ∈ pages) : ∃ page, answer = .ok page ∧ ∀ webhook ∈ subscribed event.type page,
      ⟨webhook.id, (answers.delivery webhook.id).deliveryId, event⟩ ∈ s'.jobs := by
  induction pages generalizing s with
  | nil => cases ha
  | cons first pages ih =>
    cases first with
    | error e =>
      simp only [publishPages] at h
      cases h
    | ok page =>
      simp only [publishPages] at h
      split at h
      · cases h
      · rename_i s₁ heq
        rcases List.mem_cons.mp ha with rfl | ha
        · refine ⟨page, rfl, fun webhook hw => ?_⟩
          have hjobs : s₁.jobs ⊆ s'.jobs := by
            have hjobs := publishPages_jobs s₁ event answers now pages
            rwa [h] at hjobs
          exact hjobs (publishPage_resolved heq hw)
        · exact ih h ha

/-- **A publish that resolves** has listed every page and enqueued a job for every enabled endpoint
that takes the event. -/
theorem publish_resolved {type : WebhookEventType} {emailId : String}
    (h : s.publish type emailId answers now = (s', none)) {answer : Except Failure _}
    (ha : answer ∈ answers.firstPage :: answers.nextPages) : ∃ page, answer = .ok page ∧
      ∀ webhook ∈ page, webhook.isEnabled = true → type ∈ webhook.events →
        ⟨webhook.id, (answers.delivery webhook.id).deliveryId, ⟨type, now, emailId⟩⟩ ∈
          s'.jobs := by
  obtain ⟨page, hpage, hjobs⟩ := publishPages_resolved h ha
  refine ⟨page, hpage, fun webhook hw henabled htype => hjobs webhook ?_⟩
  rw [subscribed, List.mem_filter, henabled, Bool.true_and, List.contains_iff_mem]
  exact ⟨hw, htype⟩

end WebhookOutbox

end HayaSend
