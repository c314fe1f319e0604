import FleetManagement.Services.Consent

/-!
# Consent-dependent actions

`marketing_service`: every action asks the gate first, and a queued message asks it again when it is
dispatched.
-/

namespace FleetManagement

def requireConsent (userId : Int) (purpose : ConsentPurpose) (actorId : Int) (correlationId : String) :
    Db Unit := do
  let decision ← checkConsent userId purpose
  if decision.allowed then pure ()
  else
    recordAuditEvent (purpose.value.toLower ++ "_action") (some actorId) (some userId)
      ("DENY:" ++ decision.reason) correlationId
    throw (.consentDenied purpose.value decision.reason)

def newMessage (userId : Int) (campaign : String) (createdAt : DateTime) : MarketingMessage :=
  { id := 0, userId, campaign, status := .queued, createdAt, processedAt := none }

def enqueueMarketingEmail (userId : Int) (campaign : String) (actorId : Int) (correlationId : String) :
    Db MarketingMessage := do
  requireConsent userId .marketingEmail actorId correlationId
  let message := newMessage userId campaign (← now)
  let db ← Tx.commitAll [.insertMarketingMessage message]
  refresh Database.marketingMessages db.marketingMessages.seq

def recordAnalyticsEvent (userId : Int) (eventName : String) (actorId : Int) (correlationId : String) :
    Db AnalyticsEvent := do
  requireConsent userId .optionalAnalytics actorId correlationId
  let occurredAt ← now
  let db ← Tx.commitAll [.insertAnalyticsEvent { id := 0, userId, eventName, occurredAt }]
  refresh Database.analyticsEvents db.analyticsEvents.seq

/-! ## The dispatch job -/

structure DispatchOutcome where
  message : MarketingMessage
  allowed : Bool
  processedAt : DateTime
  deriving DecidableEq, Repr

def DispatchOutcome.status (o : DispatchOutcome) : MarketingStatus := if o.allowed then .sent else .skipped

def DispatchOutcome.changes (o : DispatchOutcome) : MarketingMessageSet where
  status := dirty o.message.status o.status
  processedAt := dirty o.message.processedAt (some o.processedAt)

/-- The verdicts for the queued messages, each from the consent of its user. -/
def verdicts (processedAt : DateTime) : List MarketingMessage → Db (List DispatchOutcome)
  | [] => pure []
  | message :: messages => do
      let decision ← checkConsent message.userId .marketingEmail
      return ⟨message, decision.allowed, processedAt⟩ :: (← verdicts processedAt messages)

def decideQueue (processedAt : DateTime) : Db (List DispatchOutcome) := do
  let db ← Tx.select
  verdicts processedAt (db.marketingMessages.rows.filter fun m => m.status = .queued)

structure DispatchSummary where
  sent : Nat
  skipped : Nat
  deriving DecidableEq, Repr

def summary (outcomes : List DispatchOutcome) : DispatchSummary where
  sent := outcomes.countP fun o => o.status = .sent
  skipped := outcomes.countP fun o => o.status = .skipped

def dispatchPendingMarketing : Db DispatchSummary := do
  let outcomes ← decideQueue (← now)
  let _ ← Tx.commitAll (outcomes.map fun o => .updateMarketingMessage o.message.id o.changes)
  pure (summary outcomes)

end FleetManagement
