import Ghajar.Lib.Text

/-!
# The rules of a paid order

The stages of an order and the outcome of a payment (`GhajarOperation.kt`). An
order that is delivered or refunded is moved by nothing (`ended_stays`).
-/

namespace Ghajar

inductive GhajarPaymentOutcome
  | WALLET_CREDITED | SERVICE_READY | PAID_WAITING | NOT_APPROVED | PENDING
  deriving DecidableEq, Repr

inductive GhajarOrderStage
  | PAYMENT_CONFIRMED | PROVISIONING | DELIVERED | PROVISION_FAILED | WALLET_REFUNDED
  deriving DecidableEq, Repr

def GhajarOrderStage.name : GhajarOrderStage → String
  | .PAYMENT_CONFIRMED => "PAYMENT_CONFIRMED"
  | .PROVISIONING => "PROVISIONING"
  | .DELIVERED => "DELIVERED"
  | .PROVISION_FAILED => "PROVISION_FAILED"
  | .WALLET_REFUNDED => "WALLET_REFUNDED"

namespace GhajarCommerceRules

def paid (value : String) : Bool := Text.equalsIgnoreCase value.trimmed "paid"

def terminal (value : String) : Bool :=
  ["reject", "rejected", "expire", "expired", "canceled", "cancelled"].contains
    value.trimmed.lowercase

def paymentOutcome (status : String) (walletTopUp walletOnly serviceReady hasService : Bool) :
    GhajarPaymentOutcome :=
  if paid status && (walletTopUp || walletOnly) then .WALLET_CREDITED
  else if paid status && serviceReady && hasService then .SERVICE_READY
  else if paid status then .PAID_WAITING
  else if terminal status then .NOT_APPROVED
  else .PENDING

end GhajarCommerceRules

namespace GhajarOrderFlow

open GhajarOrderStage

def fromStorage (value : Option String) : Option GhajarOrderStage :=
  value.bind fun stored =>
    [PAYMENT_CONFIRMED, PROVISIONING, DELIVERED, PROVISION_FAILED, WALLET_REFUNDED].find?
      fun stage => stage.name == stored

def initialStage (paid walletTopUp : Bool) : Option GhajarOrderStage :=
  if paid && !walletTopUp then some PAYMENT_CONFIRMED else none

def onDeliveryAttempt : GhajarOrderStage → GhajarOrderStage
  | PAYMENT_CONFIRMED | PROVISION_FAILED => PROVISIONING
  | stage => stage

def onDelivered (stage : GhajarOrderStage) (imported : Nat) : GhajarOrderStage :=
  if imported > 0 && [PROVISIONING, PROVISION_FAILED, PAYMENT_CONFIRMED].contains stage then
    DELIVERED
  else stage

def onDeliveryFailed : GhajarOrderStage → GhajarOrderStage
  | PAYMENT_CONFIRMED | PROVISIONING | PROVISION_FAILED => PROVISION_FAILED
  | stage => stage

def walletFallbackAllowed (stage : GhajarOrderStage) : Bool :=
  [PAYMENT_CONFIRMED, PROVISIONING, PROVISION_FAILED].contains stage

def onWalletRefunded (stage : GhajarOrderStage) : Option GhajarOrderStage :=
  if walletFallbackAllowed stage then some WALLET_REFUNDED else none

def refundEligible (status : String) (walletTopUp serviceReady hasService : Bool) : Bool :=
  if walletTopUp then false
  else GhajarCommerceRules.paymentOutcome status walletTopUp false serviceReady hasService ==
    .PAID_WAITING

@[simp] theorem fromStorage_name (stage : GhajarOrderStage) :
    fromStorage (some stage.name) = some stage := by
  cases stage <;> decide

/-- A stage is still owed a delivery, or it is one of the two that nothing moves. -/
theorem allowed_or (stage : GhajarOrderStage) :
    walletFallbackAllowed stage = true ∨ stage = DELIVERED ∨ stage = WALLET_REFUNDED := by
  cases stage
  · exact .inl rfl
  · exact .inl rfl
  · exact .inr (.inl rfl)
  · exact .inl rfl
  · exact .inr (.inr rfl)

/-- **Nothing moves an order that is delivered or refunded.** -/
theorem ended_stays {stage : GhajarOrderStage} (h : walletFallbackAllowed stage = false) (n : Nat) :
    onDeliveryAttempt stage = stage ∧ onDelivered stage n = stage ∧
      onDeliveryFailed stage = stage ∧ onWalletRefunded stage = none := by
  have hrefund : onWalletRefunded stage = none := by rw [onWalletRefunded, h]; rfl
  rcases allowed_or stage with ha | rfl | rfl
  · rw [ha] at h
    cases h
  · refine ⟨rfl, ?_, rfl, hrefund⟩
    simp [onDelivered]
  · refine ⟨rfl, ?_, rfl, hrefund⟩
    simp [onDelivered]

theorem attempt_of_allowed {stage : GhajarOrderStage} (h : walletFallbackAllowed stage = true) :
    onDeliveryAttempt stage = PROVISIONING := by
  cases stage <;> first | rfl | cases h

theorem failed_allowed {stage : GhajarOrderStage} (h : walletFallbackAllowed stage = true) :
    onDeliveryFailed stage = PROVISION_FAILED := by
  cases stage <;> first | rfl | cases h

theorem onDelivered_attempt (n : Nat) :
    onDelivered PROVISIONING n = if n > 0 then DELIVERED else PROVISIONING := by
  by_cases h : n > 0 <;> simp [onDelivered, h]

end GhajarOrderFlow

end Ghajar
