import Ghajar.Checkout.Steps

/-!
# The wallet fallback

`fallbackAttemptedOrderId` and `paidWaitingChecks` are one for all orders, as the stage
is. A new invoice starts them again; one that is opened again has what the order before
it left. `Backed` says that what they hold is the order's own.
-/

namespace Ghajar.Checkout

open Run GhajarOrderStage GhajarOrderFlow GhajarCommerceRules

/-! ## The history of a process -/

/-- The operation that an action gets to run. -/
def State.executes (s : State) : Action → Option Operation
  | .operation account op => if account.blank || s.changed account then none else some op
  | _ => none

/-- The order that the fallback is asked for. It is remembered just before the request, and no
other is. -/
def State.asks (s : State) (a : Action) : Option String :=
  if (s.next a).fallbackAttemptedOrderId = s.fallbackAttemptedOrderId then none
  else (s.next a).fallbackAttemptedOrderId

def State.outcome (s : State) (status : PaymentStatus) : GhajarPaymentOutcome :=
  paymentOutcome status.payment_status s.walletTopUp status.wallet_credited_only
    status.is_service_ready status.service.isSome

/-- The order that a check sees as paid and waiting. -/
def State.sees (s : State) : Operation → Option String
  | .checkPayment (some status) _ _ =>
    if s.outcome status = .PAID_WAITING then s.payment.map (·.orderId) else none
  | _ => none

/-- The order whose own delivery fails. -/
def State.fails (s : State) : Operation → Option String
  | .checkPayment (some status) d _ =>
    if s.outcome status = .SERVICE_READY ∧ d.imported = none then s.payment.map (·.orderId)
    else none
  | .importOwned (some (some (.invoice id))) d => if d.imported = none then some id else none
  | _ => none

structure History where
  asked : List String
  failed : List String
  seen : List String
  deriving DecidableEq

def History.after (h : History) (s : State) (a : Action) : History where
  asked := (s.asks a).toList ++ h.asked
  failed := ((s.executes a).bind s.fails).toList ++ h.failed
  seen := ((s.executes a).bind s.sees).toList ++ h.seen

abbrev Watched := State × History

/-- The start of a process; the deliveries of the orders `failed` failed before it. -/
def process (s : State) (account : String) (failed : List String) : Watched :=
  (s.restore account, ⟨[], failed, []⟩)

/-- A process ends where the next one begins. -/
def watch (w : Watched) : Action → Option Watched
  | .restart _ => none
  | a => some (w.1.next a, w.2.after w.1 a)

/-- A check in which the server reports the order as paid and not ready. -/
def State.reported (s : State) (id : String) : Action → Bool
  | .operation _ (.checkPayment (some status) _ _) =>
    s.payment.any (·.orderId == id) && paid status.payment_status &&
      !(status.is_service_ready && status.service.isSome)
  | _ => false

/-- A request is the first for its order, and not too early. -/
def InTime (w : Watched) (a : Action) : Prop :=
  ∀ id ∈ w.1.asks a, id ∉ w.2.asked ∧ w.1.reported id a = true ∧
    (2 ≤ (w.2.after w.1 a).seen.count id ∨ id ∈ w.2.failed)

instance (w : Watched) (a : Action) : Decidable (InTime w a) :=
  inferInstanceAs (Decidable (∀ id ∈ w.1.asks a, _))

/-! ## The condition -/

/-- What the phone remembers fits the order `id`. -/
structure Backed (h : History) (id : String) (s : State) : Prop where
  checks : s.paidWaitingChecks ≤ h.seen.count id
  failed : s.stage = some PROVISION_FAILED → id ∈ h.failed ∨ id ∈ h.asked
  marker : id ∈ h.asked → s.fallbackAttemptedOrderId = some id

theorem backed_iff {h : History} {id : String} {s : State} : Backed h id s ↔
    s.paidWaitingChecks ≤ h.seen.count id ∧
      (s.stage = some PROVISION_FAILED → id ∈ h.failed ∨ id ∈ h.asked) ∧
      (id ∈ h.asked → s.fallbackAttemptedOrderId = some id) :=
  ⟨fun h => ⟨h.1, h.2, h.3⟩, fun h => ⟨h.1, h.2.1, h.2.2⟩⟩

instance (h : History) (id : String) (s : State) : Decidable (Backed h id s) :=
  decidable_of_iff' _ backed_iff

/-- An import by hand that fails is of the open order's service, or the open order has failed
before. -/
def importFits (w : Watched) (o : Option Order) (d : Delivery) : Prop :=
  d.imported = none → w.1.stage.any walletFallbackAllowed = true → ∀ v ∈ w.1.payment,
    o = some (.invoice v.orderId) ∨ v.orderId ∈ w.2.failed ∨ v.orderId ∈ w.2.asked

instance (w : Watched) (o : Option Order) (d : Delivery) : Decidable (importFits w o d) :=
  inferInstanceAs (Decidable (_ → _ → ∀ v ∈ w.1.payment, _))

/-- An invoice is opened only where what is remembered is its own. -/
def Operation.fits (w : Watched) : Operation → Prop
  | .beginPayment method (some r) saves =>
    (Operation.beginPayment method (some r) saves).opens w.1 = true →
      r.orderId ∉ w.2.asked ∧ (w.1.stage = some PROVISION_FAILED → r.orderId ∈ w.2.failed)
  | .resumePayment item (some _) _ => Backed w.2 item.orderId w.1
  | .trial true d => importFits w none d
  | .importOwned (some o) d => importFits w o d
  | _ => True

instance (w : Watched) (op : Operation) : Decidable (op.fits w) := by
  unfold Operation.fits
  split <;> infer_instance

def Fits (w : Watched) (a : Action) : Prop := ∀ op ∈ w.1.executes a, op.fits w

instance (w : Watched) (a : Action) : Decidable (Fits w a) :=
  inferInstanceAs (Decidable (∀ op ∈ w.1.executes a, _))

/-! ## What an operation leaves -/

section Steps

variable {s t u : State} {o : Option Order} {st : GhajarOrderStage}

/-- The order and what is remembered stay. -/
structure Quiet (s t : State) : Prop where
  payment : t.payment.map (·.orderId) = s.payment.map (·.orderId)
  checks : t.paidWaitingChecks = s.paidWaitingChecks
  marker : t.fallbackAttemptedOrderId = s.fallbackAttemptedOrderId

/-- No failure is put in the stage. -/
def Calm (s t : State) : Prop := t.stage = some PROVISION_FAILED → s.stage = some PROVISION_FAILED

/-- An operation that opens nothing and asks for nothing: the open order is closed, or it stays. -/
def Passes (s t : State) : Prop :=
  (t.fallbackAttemptedOrderId = s.fallbackAttemptedOrderId ∨
      t.fallbackAttemptedOrderId = none) ∧
    (t.payment = none ∨ Quiet s t ∧ Calm s t)

theorem Quiet.refl (s : State) : Quiet s s := ⟨rfl, rfl, rfl⟩

theorem Quiet.trans (h : Quiet s t) (h' : Quiet t u) : Quiet s u :=
  ⟨h'.payment.trans h.payment, h'.checks.trans h.checks, h'.marker.trans h.marker⟩

theorem quiet_record (s : State) (o : Option Order) (st : GhajarOrderStage) :
    Quiet s (s.record o st) := by
  rcases record_eq s o st with ⟨he, -⟩ | he <;> rw [he]
  · exact .refl s
  · exact ⟨rfl, rfl, rfl⟩

theorem quiet_isImported (s : State) (o : Option Order) : Quiet s (s.isImported o) :=
  ⟨rfl, rfl, rfl⟩

theorem quiet_isPaid (s : State) (o : Order) : Quiet s (s.isPaid o) := ⟨rfl, rfl, rfl⟩

theorem quiet_isRefunded (s : State) (o : Order) : Quiet s (s.isRefunded o) := ⟨rfl, rfl, rfl⟩

theorem quiet_persist (s : State) (saves : Bool) : Quiet s (s.persist saves id) :=
  persist_ind (.refl s) (.refl s) fun _ => ⟨rfl, rfl, rfl⟩

theorem persist_stage (s : State) (saves : Bool) : (s.persist saves id).stage = s.stage :=
  persist_ind (P := fun t => t.stage = s.stage) rfl rfl fun _ => rfl

theorem quiet_seed (s : State) (o : Order) : Quiet s (s.seed o) := by
  rcases seed_eq s o with ⟨he, -⟩ | he <;> rw [he]
  · exact .refl s
  · exact quiet_record ..

theorem calm_seed (s : State) (o : Order) : Calm s (s.seed o) := by
  intro h
  rcases seed_eq s o with ⟨he, -⟩ | he <;> rw [he] at h
  · exact h
  · rw [record_stage] at h
    cases h

theorem Quiet.payment_none (h : Quiet s t) (hn : s.payment = none) : t.payment = none := by
  have hp := h.payment
  rw [hn, Option.map_none, Option.map_eq_none_iff] at hp
  exact hp

theorem Quiet.passes (h : Quiet s t) (hc : Calm s t) : Passes s t := ⟨.inl h.marker, .inr ⟨h, hc⟩⟩

theorem Passes.after (hp : Passes t u) (hq : Quiet s t) (hc : Calm s t) : Passes s u :=
  ⟨by rw [← hq.marker]; exact hp.1, hp.2.imp_right fun h => ⟨hq.trans h.1, fun hf => hc (h.2 hf)⟩⟩

theorem passes_refl (s : State) : Passes s s := (Quiet.refl s).passes id

theorem passes_closed (hm : t.fallbackAttemptedOrderId = s.fallbackAttemptedOrderId)
    (hn : t.payment = none) : Passes s t := ⟨.inl hm, .inl hn⟩

/-- A delivery: the order is closed or stays, and only one that throws puts a failure in the
stage. -/
theorem deliver_cases (s : State) (o : Option Order) (d : Delivery) (f : Bool) :
    Passes s (s.deliver o d f) ∨
      Quiet s (s.deliver o d f) ∧ d.imported = none ∧ s.stage.any walletFallbackAllowed = true := by
  cases hw : s.stage.any walletFallbackAllowed with
  | false =>
    rw [deliver_unmoved hw]
    refine .inl ?_
    cases d.imported with
    | none =>
      simp only
      split
      · exact (quiet_persist ..).passes fun h => (persist_stage ..).symm.trans h
      · exact passes_refl s
    | some count =>
      simp only
      split
      · refine passes_closed ?_ rfl
        split <;> rfl
      · split
        · exact Quiet.passes ⟨rfl, rfl, rfl⟩ id
        · exact passes_refl s
  | true =>
    obtain ⟨st, hst, ha⟩ := Option.any_eq_true _ _ |>.1 hw
    rw [deliver_moved hst ha]
    have hp := quiet_record s o PROVISIONING
    cases hd : d.imported with
    | none =>
      exact .inr ⟨(hp.trans (quiet_record ..)).trans (quiet_persist ..), rfl, rfl⟩
    | some count =>
      have hi : Quiet s (((s.record o PROVISIONING).isImported o).record o DELIVERED) :=
        (hp.trans (quiet_isImported ..)).trans (quiet_record ..)
      refine .inl ?_
      simp only
      split
      · split
        · exact passes_closed hi.marker rfl
        · refine hi.passes fun h => ?_
          rw [record_stage] at h
          cases h
      · refine hp.passes fun h => ?_
        rw [record_stage] at h
        cases h

theorem deliver_marker (s : State) (o : Option Order) (d : Delivery) (f : Bool) :
    (s.deliver o d f).fallbackAttemptedOrderId = s.fallbackAttemptedOrderId ∨
      (s.deliver o d f).fallbackAttemptedOrderId = none := by
  rcases deliver_cases s o d f with h | ⟨h, -⟩
  · exact h.1
  · exact .inl h.marker

/-- With no invoice open a delivery opens none. -/
theorem deliver_closed (hn : s.payment = none) (o : Option Order) (d : Delivery) (f : Bool) :
    (s.deliver o d f).payment = none := by
  rcases deliver_cases s o d f with ⟨-, h | ⟨h, -⟩⟩ | ⟨h, -⟩
  · exact h
  · exact h.payment_none hn
  · exact h.payment_none hn

theorem paidFromWallet_closed (hn : s.payment = none) (o : Order)
    (service : Option GhajarServiceDetails) (d : Delivery) :
    ((s.paidFromWallet o service d).fallbackAttemptedOrderId = s.fallbackAttemptedOrderId ∨
      (s.paidFromWallet o service d).fallbackAttemptedOrderId = none) ∧
    (s.paidFromWallet o service d).payment = none := by
  have hr := (quiet_isPaid s o).trans (quiet_record (s.isPaid o) (some o) PAYMENT_CONFIRMED)
  cases service with
  | none => exact ⟨.inl hr.marker, hr.payment_none hn⟩
  | some _ =>
    have hm := deliver_marker ((s.isPaid o).record (some o) PAYMENT_CONFIRMED) (some o) d true
    rw [hr.marker] at hm
    exact ⟨hm, deliver_closed (hr.payment_none hn) ..⟩

theorem buy_passes (s : State) (result : Option GhajarPurchaseResult)
    (service : Option GhajarServiceDetails) (d : Delivery) (saves : Bool) :
    Passes s (s.buy result service d saves) := by
  unfold State.buy
  split
  · exact passes_refl s
  case isFalse hp =>
    have hn : s.payment = none := by simpa using hp
    cases result with
    | none => exact passes_closed rfl hn
    | some r =>
      simp only
      split
      · exact persist_ind (P := Passes s) (passes_closed rfl rfl) (passes_closed rfl rfl)
          fun _ => passes_closed rfl rfl
      · split
        · exact passes_closed rfl hn
        · have h := paidFromWallet_closed (s := { s with walletTopUp := false }.isMade) hn
            (.quote (s.book.made + 1)) (r.service.or (r.username.bind fun _ => service)) d
          exact ⟨h.1, .inl h.2⟩

theorem topUp_passes (s : State) (amount : Int64) (balance : Option Int64) (saves : Bool) :
    Passes s (s.topUp amount balance saves) := by
  unfold State.topUp
  split
  · exact passes_refl s
  case isFalse hp =>
    have hn : s.payment = none := by
      simp only [Bool.or_eq_true, not_or, Option.not_isSome_iff_eq_none] at hp
      exact hp.2
    cases balance with
    | none => exact passes_refl s
    | some b =>
      exact persist_ind (P := Passes s) (passes_closed rfl hn) (passes_closed rfl hn)
        fun _ => passes_closed rfl hn

theorem uploadReceipt_passes (s : State) (uploaded saves : Bool) :
    Passes s (s.uploadReceipt uploaded saves) := by
  unfold State.uploadReceipt
  split
  · exact passes_refl s
  · have hq := quiet_persist { s with receiptSent := true } saves
    exact Quiet.passes ⟨hq.payment, hq.checks, hq.marker⟩ fun h =>
      (persist_stage { s with receiptSent := true } saves).symm.trans h

theorem cancelPayment_passes (s : State) (orderId : String) (cancelled : Bool)
    (status : Option String) : Passes s (s.cancelPayment orderId cancelled status) := by
  unfold State.cancelPayment
  split
  · split
    · simp only
      split
      · exact ⟨.inr rfl, .inl rfl⟩
      · exact Quiet.passes ⟨rfl, rfl, rfl⟩ id
    · exact passes_refl s
  · exact passes_refl s

/-- An order whose money is back is closed, or it stays as one that no failure is put in. -/
theorem walletCredited_passes (s : State) (o : Order) (c : CheckAnswers) :
    Passes s (s.walletCredited o c) := by
  have hpass (st : GhajarOrderStage) (hst : st ≠ PROVISION_FAILED) :
      Passes s ((((s.isPaid o).isRefunded o).record (some o) st).persist c.saves
        fun s => if c.options then s.finish else s) := by
    have hr : Quiet s (((s.isPaid o).isRefunded o).record (some o) st) :=
      ((quiet_isPaid s o).trans (quiet_isRefunded _ o)).trans (quiet_record ..)
    have hc : Calm s (((s.isPaid o).isRefunded o).record (some o) st) := by
      intro h
      rw [record_stage] at h
      exact absurd (Option.some.inj h) hst
    apply persist_ind
    · exact hr.passes hc
    · split
      · exact passes_closed hr.marker rfl
      · exact hr.passes hc
    · intro p
      split
      · exact passes_closed hr.marker rfl
      · exact Quiet.passes ⟨hr.payment, hr.checks, hr.marker⟩ hc
  apply hpass
  generalize ((((s.isPaid o).isRefunded o).stage.or
    (initialStage true ((s.isPaid o).isRefunded o).walletTopUp)).getD PAYMENT_CONFIRMED) = st
  cases st <;> decide

/-- How a check of the order `id`, paid and waiting, may end: it is counted, and asks for the
fallback or does not. -/
structure Waited (id : String) (s t : State) : Prop where
  opened : t.payment = none ∨ t.payment.map (·.orderId) = s.payment.map (·.orderId) ∧
    t.paidWaitingChecks = s.paidWaitingChecks + 1
  asks : t.fallbackAttemptedOrderId = s.fallbackAttemptedOrderId ∧ Calm s t ∨
    t.fallbackAttemptedOrderId = some id ∧ s.fallbackAttemptedOrderId ≠ some id ∧
      (2 ≤ s.paidWaitingChecks + 1 ∨ s.stage = some PROVISION_FAILED)

/-- The check is counted, and the stage is `st`. -/
structure Counted (s t : State) (st : GhajarOrderStage) : Prop where
  payment : t.payment.map (·.orderId) = s.payment.map (·.orderId)
  checks : t.paidWaitingChecks = s.paidWaitingChecks + 1
  marker : t.fallbackAttemptedOrderId = s.fallbackAttemptedOrderId
  stage : t.stage = some st
  calm : st = PROVISION_FAILED → s.stage = some PROVISION_FAILED

theorem Counted.waited {id : String} (h : Counted s t st) : Waited id s t :=
  ⟨.inr ⟨h.payment, h.checks⟩, .inl ⟨h.marker, fun hf =>
    h.calm (Option.some.inj (h.stage.symm.trans hf))⟩⟩

/-- The fallback is asked for, and the order closed or left with another stage. -/
theorem Counted.asked {id : String} (h : Counted s t st) (hm : t.fallbackAttemptedOrderId ≠ some id)
    (hc : t.paidWaitingChecks ≥ 2 ∨ st = PROVISION_FAILED)
    (hu : u.payment = none ∨ u.payment.map (·.orderId) = t.payment.map (·.orderId) ∧
      u.paidWaitingChecks = t.paidWaitingChecks)
    (hi : u.fallbackAttemptedOrderId = some id) : Waited id s u where
  opened := hu.imp_right fun hu => ⟨hu.1.trans h.payment, hu.2.trans h.checks⟩
  asks := by
    rw [h.marker] at hm
    rw [h.checks] at hc
    exact .inr ⟨hi, hm, hc.imp_right h.calm⟩

/-- The rest of a check once it is saved. -/
theorem Counted.rest (h : Counted s t st) (orderId : String) (eligible : Bool) (c : CheckAnswers) :
    Waited orderId s
      (if !(eligible && walletFallbackAllowed st && t.fallbackAttemptedOrderId != some orderId &&
          (decide (t.paidWaitingChecks ≥ 2) || st == PROVISION_FAILED)) then t
      else
        let u := { t with fallbackAttemptedOrderId := some orderId }
        let o := Order.invoice orderId
        if c.credited then
          let u := (u.isRefunded o).record (some o) ((onWalletRefunded st).getD WALLET_REFUNDED)
          if c.options then u.finish else u
        else (u.record (some o) (onDeliveryFailed st)).persist c.saves' id) := by
  split
  · exact h.waited
  case isFalse hmay =>
    simp only [Bool.not_eq_true', Bool.not_eq_false, Bool.and_eq_true, Bool.or_eq_true, bne_iff_ne,
      decide_eq_true_eq, beq_iff_eq] at hmay
    obtain ⟨⟨-, hm⟩, hc⟩ := hmay
    simp only
    generalize hu : { t with fallbackAttemptedOrderId := some orderId } = u
    have hi : u.fallbackAttemptedOrderId = some orderId := by rw [← hu]
    have hq (r : State) (hr : Quiet u r) : Waited orderId s r := by
      refine h.asked hm hc (.inr ⟨?_, ?_⟩) (hr.marker.trans hi)
      · rw [hr.payment, ← hu]
      · rw [hr.checks, ← hu]
    have hrefund := (quiet_isRefunded u (.invoice orderId)).trans
      (quiet_record _ (some (.invoice orderId)) ((onWalletRefunded st).getD WALLET_REFUNDED))
    split
    · split
      · exact h.asked hm hc (.inl rfl) (hrefund.marker.trans hi)
      · exact hq _ hrefund
    · exact hq _ ((quiet_record ..).trans (quiet_persist ..))

theorem paidWaiting_waited (s : State) (v : GhajarPaymentInit) (status : PaymentStatus)
    (c : CheckAnswers) : Waited v.orderId s (s.paidWaiting v status c) := by
  unfold State.paidWaiting
  simp only
  generalize ho : Order.invoice v.orderId = o
  have hq := (quiet_isPaid s o).trans (quiet_seed (s.isPaid o) o)
  have hcalm : Calm s ((s.isPaid o).seed o) := calm_seed (s.isPaid o) o
  generalize (s.isPaid o).seed o = t at hq hcalm
  have hst : t.stage.getD PAYMENT_CONFIRMED = PROVISION_FAILED →
      s.stage = some PROVISION_FAILED := by
    intro h
    apply hcalm
    cases hs : t.stage with
    | none =>
      rw [hs] at h
      cases h
    | some st =>
      rw [hs] at h
      exact congrArg some h
  generalize t.stage.getD PAYMENT_CONFIRMED = st at hst
  have hr := hq.trans (quiet_record t (some o) st)
  have hcount : Counted s
      { t.record (some o) st with paidWaitingChecks := t.paidWaitingChecks + 1 } st :=
    ⟨hr.payment, congrArg (· + 1) hq.checks, hr.marker, record_stage .., hst⟩
  subst ho
  apply persist_ind
  · exact hcount.waited
  · exact hcount.rest ..
  · intro p
    have hsaved : Counted s (State.save
        { t.record (some (.invoice v.orderId)) st with
          paidWaitingChecks := t.paidWaitingChecks + 1 } p) st :=
      ⟨hcount.payment, hcount.checks, hcount.marker, hcount.stage, hcount.calm⟩
    exact hsaved.rest ..

/-! ## What a step does -/

/-- The same for the fallback: only the account or other data of the invoice are new. -/
structure Alike (s t : State) : Prop extends Quiet s t where
  stage : t.stage = s.stage

theorem alike_owner (s : State) (owner : String) : Alike s { s with owner := owner } :=
  ⟨⟨rfl, rfl, rfl⟩, rfl⟩

theorem Alike.passes (h : Alike s t) (hp : Passes t u) : Passes s u :=
  hp.after h.toQuiet fun hf => h.stage.symm.trans hf

theorem Alike.waited (h : Alike s t) {id : String} (hw : Waited id t u) : Waited id s u := by
  obtain ⟨ho, ha⟩ := hw
  rw [Calm, h.marker, h.checks, h.stage] at ha
  rw [h.payment, h.checks] at ho
  exact ⟨ho, ha⟩

/-- The delivery of an operation throws: that of the open order, or an import by hand. -/
def Throws (s : State) (op : Operation) : Prop :=
  (∃ v ∈ s.payment, s.fails op = some v.orderId) ∨
    ∃ o d, op.imports = some (o, d) ∧ d.imported = none ∧
      s.stage.any walletFallbackAllowed = true

inductive Does (s : State) (a : Action) (t : State) : Prop
  | passes (h : Passes s t)
  | throws {op : Operation} (hop : s.executes a = some op) (h : Throws s op) (hq : Quiet s t)
  | begins {method : GhajarPaymentMethod} {r : GhajarPaymentInit} {saves : Bool}
      (hop : s.executes a = some (.beginPayment method (some r) saves))
      (h : (Operation.beginPayment method (some r) saves).opens s = true)
      (hp : t.payment.map (·.orderId) = some r.orderId) (hc : t.paidWaitingChecks = 0)
      (hm : t.fallbackAttemptedOrderId = none) (hs : t.stage = s.stage)
  | resumes {item : GhajarPendingPayment} {status : ResumeStatus} {saves : Bool}
      (hop : s.executes a = some (.resumePayment item (some status) saves))
      (hp : t.payment.map (·.orderId) = some item.orderId)
      (hc : t.paidWaitingChecks = s.paidWaitingChecks)
      (hm : t.fallbackAttemptedOrderId = s.fallbackAttemptedOrderId) (hs : t.stage = s.stage)
  | waits {status : PaymentStatus} {d : Delivery} {c : CheckAnswers} {id : String}
      (hop : s.executes a = some (.checkPayment (some status) d c))
      (hs : s.sees (.checkPayment (some status) d c) = some id) (hw : Waited id s t)

/-- An import by hand. -/
theorem import_does {a : Action} {op : Operation} {d : Delivery} (hop : s.executes a = some op)
    (hi : op.imports = some (o, d)) (h : Alike s t) : Does s a (t.deliver o d false) := by
  rcases deliver_cases t o d false with hp | ⟨hq, hd, hw⟩
  · exact .passes (h.passes hp)
  · rw [h.stage] at hw
    exact .throws hop (.inr ⟨o, d, hi, hd, hw⟩) (h.toQuiet.trans hq)

theorem check_does {a : Action} {status : Option PaymentStatus} {d : Delivery} {c : CheckAnswers}
    (hop : s.executes a = some (.checkPayment status d c)) (h : Alike s t)
    (hw : t.walletTopUp = s.walletTopUp) : Does s a (t.checkPayment status d c) := by
  unfold State.checkPayment
  split
  case h_2 => exact .passes (h.passes (passes_refl t))
  case h_1 v status hv =>
    simp only
    have ht : Alike s { t with
        payment := some { v with expiresAt := status.expires_at.getD v.expiresAt } } := by
      refine ⟨⟨?_, h.checks, h.marker⟩, h.stage⟩
      rw [← h.payment, hv]
      rfl
    have hid : s.payment.map (·.orderId) = some v.orderId := by
      rw [← h.payment, hv]
      rfl
    generalize { t with
      payment := some { v with expiresAt := status.expires_at.getD v.expiresAt } } = r at ht
    split
    case h_1 => exact .passes (ht.passes (walletCredited_passes ..))
    case h_2 ho =>
      have hq := (quiet_isPaid r (.invoice v.orderId)).trans
        (quiet_seed (r.isPaid (.invoice v.orderId)) (.invoice v.orderId))
      have hc : Calm r ((r.isPaid (.invoice v.orderId)).seed (.invoice v.orderId)) :=
        calm_seed (r.isPaid (.invoice v.orderId)) _
      unfold State.serviceReady
      rcases deliver_cases _ _ d true with hp | ⟨hd, hn, -⟩
      · exact .passes (ht.passes (hp.after hq hc))
      · refine .throws hop (.inl ?_) (ht.toQuiet.trans (hq.trans hd))
        obtain ⟨v', hv', he⟩ := Option.map_eq_some_iff.1 hid
        refine ⟨v', hv', ?_⟩
        rw [hw] at ho
        rw [State.fails, if_pos ⟨ho, hn⟩, hid, he]
    case h_3 ho =>
      refine .waits hop ?_ (ht.waited (paidWaiting_waited r v status c))
      rw [hw] at ho
      rw [State.sees, if_pos (show s.outcome status = .PAID_WAITING from ho), hid]
    case h_4 => exact .passes (ht.passes (passes_refl r))
    case h_5 => exact .passes (ht.passes (passes_refl r))

theorem begin_does {a : Action} {method : GhajarPaymentMethod} {result : Option GhajarPaymentInit}
    {saves : Bool} (hop : s.executes a = some (.beginPayment method result saves))
    (h : Alike s t) (hpay : t.payment = s.payment) (hpur : t.purchase = s.purchase) :
    Does s a (t.beginPayment method result saves) := by
  have hstay : Does s a t := .passes (h.passes (passes_refl t))
  unfold State.beginPayment
  split
  · exact hstay
  case h_2 target htarget =>
    split
    · exact hstay
    case isFalse hopen =>
      split
      · exact hstay
      case isFalse hlimits =>
        cases result with
        | none => exact hstay
        | some r =>
          simp only
          split
          · exact hstay
          case isFalse hblank =>
            have ho : (Operation.beginPayment method (some r) saves).opens s = true := by
              rw [Bool.not_eq_true', Bool.not_eq_false] at hlimits
              simp only [Operation.opens, ← hpay, ← hpur, htarget, Option.any_some]
              rw [hlimits, Bool.and_true]
              simpa using And.intro hopen hblank
            have hq := quiet_persist { t with
              payment := some { r with methodLabel := method.label }
              receipt := none
              receiptSent := false
              paidWaitingChecks := 0
              fallbackAttemptedOrderId := none } saves
            exact .begins hop ho hq.payment hq.checks hq.marker
              ((persist_stage ..).trans h.stage)

/-- The invoice that is opened again is of its order, whether it was open already or not. -/
theorem resumed_order (previous : Option GhajarPaymentInit) (item : GhajarPendingPayment)
    (f : GhajarPaymentInit → GhajarPaymentInit) (hf : ∀ p, (f p).orderId = p.orderId)
    {fresh : GhajarPaymentInit} (hfresh : fresh.orderId = item.orderId) :
    (match previous.filter (fun p => p.orderId == item.orderId) with
      | some p => f p
      | none => fresh : GhajarPaymentInit).orderId = item.orderId := by
  split
  case h_1 p hp =>
    rw [Option.filter_eq_some_iff, beq_iff_eq] at hp
    rw [hf, hp.2]
  case h_2 => exact hfresh

theorem resume_does {a : Action} {item : GhajarPendingPayment} {status : Option ResumeStatus}
    {saves : Bool} (hop : s.executes a = some (.resumePayment item status saves))
    (h : Alike s t) : Does s a (t.resumePayment item status saves) := by
  cases status with
  | none => exact .passes (h.passes (passes_refl t))
  | some status =>
    unfold State.resumePayment
    simp only
    have hq (u : State) := quiet_persist u saves
    refine .resumes hop ((hq _).payment.trans ?_) ((hq _).checks.trans h.checks)
      ((hq _).marker.trans h.marker) ((persist_stage ..).trans h.stage)
    exact congrArg some (resumed_order t.payment item (fun p => { p with
      expiresAt := status.expires_at.getD item.expiresAt }) (fun _ => rfl) rfl)

/-- **What a step does**, for the order that is open and what is remembered of it. -/
theorem next_does (s : State) (a : Action) (hr : ∀ account, a ≠ .restart account) :
    Does s a (s.next a) := by
  cases a with
  | choose receipt => exact .passes (Quiet.passes ⟨rfl, rfl, rfl⟩ id)
  | leaveInvoice =>
    refine .passes ?_
    simp only [State.next, State.leaveInvoice]
    split
    · exact ⟨.inr rfl, .inl rfl⟩
    · exact passes_refl s
  | reset => exact .passes ⟨.inr rfl, .inl rfl⟩
  | restart account => exact absurd rfl (hr account)
  | operation account op =>
    simp only [State.next, State.runOperation]
    split
    · exact .passes (passes_refl s)
    case isFalse hb =>
      split
      · exact .passes (passes_closed rfl rfl)
      case isFalse hc =>
        have hop : s.executes (.operation account op) = some op :=
          if_neg (by simpa using And.intro hb hc)
        have ho := alike_owner s account
        cases op with
        | buy result service d saves => exact .passes (ho.passes (buy_passes ..))
        | topUp amount balance saves => exact .passes (ho.passes (topUp_passes ..))
        | beginPayment method result saves => exact begin_does hop ho rfl rfl
        | uploadReceipt uploaded saves => exact .passes (ho.passes (uploadReceipt_passes ..))
        | trial created d =>
          cases created with
          | false => exact .passes (ho.passes (passes_refl _))
          | true => exact import_does hop rfl ho
        | importOwned service d =>
          cases service with
          | none => exact .passes (ho.passes (passes_refl _))
          | some o => exact import_does hop rfl ho
        | checkPayment status d c =>
          rw [Operation.block]
          exact check_does hop ho rfl
        | resumePayment item status saves => exact resume_does hop ho
        | cancelPayment orderId cancelled status =>
          exact .passes (ho.passes (cancelPayment_passes ..))

end Steps

/-! ## Runs -/

section Runs

variable {w w' : Watched} {s : State} {a : Action}

theorem asks_none (h : (s.next a).fallbackAttemptedOrderId = s.fallbackAttemptedOrderId ∨
    (s.next a).fallbackAttemptedOrderId = none) : s.asks a = none := by
  unfold State.asks
  split
  · rfl
  case isFalse hne => exact h.resolve_left hne

theorem asks_some {id : String} (h : (s.next a).fallbackAttemptedOrderId = some id)
    (hne : s.fallbackAttemptedOrderId ≠ some id) : s.asks a = some id := by
  unfold State.asks
  rw [if_neg (by rw [h]; exact hne.symm), h]

/-- Whatever is open, what is remembered fits it. -/
def Own (w : Watched) : Prop := ∀ v ∈ w.1.payment, Backed w.2 v.orderId w.1

theorem count_after (h : History) (s : State) (a : Action) (id : String) :
    h.seen.count id ≤ (h.after s a).seen.count id := by
  rw [History.after, List.count_append]
  exact Nat.le_add_left _ _

theorem failed_after {h : History} {id : String} (hid : id ∈ h.failed) :
    id ∈ (h.after s a).failed := List.mem_append_right _ hid

theorem failed_now {h : History} {op : Operation} {id : String} (hop : s.executes a = some op)
    (hf : s.fails op = some id) : id ∈ (h.after s a).failed := by
  rw [History.after, hop, Option.bind_some, hf]
  exact List.mem_cons_self

theorem seen_now {h : History} {op : Operation} {id : String} (hop : s.executes a = some op)
    (hs : s.sees op = some id) : (h.after s a).seen.count id = h.seen.count id + 1 := by
  simp only [History.after, hop, Option.bind_some, hs]
  exact List.count_cons_self

theorem asked_after {h : History} (hn : s.asks a = none) : (h.after s a).asked = h.asked := by
  rw [History.after, hn]
  rfl

theorem asked_now {h : History} {id : String} (ha : s.asks a = some id) :
    id ∈ (h.after s a).asked := by
  rw [History.after, ha]
  exact List.mem_cons_self

/-- A step that opens the order `id`, or leaves it open. -/
theorem own_opened {id : String} (hp : (w.1.next a).payment.map (·.orderId) = some id)
    (hb : Backed (w.2.after w.1 a) id (w.1.next a)) : Own (w.1.next a, w.2.after w.1 a) := by
  intro v hv
  rw [show (w.1.next a).payment = some v from hv] at hp
  rw [show v.orderId = id from Option.some.inj hp]
  exact hb

theorem own_closed (hn : (w.1.next a).payment = none) : Own (w.1.next a, w.2.after w.1 a) := by
  intro v hv
  rw [show (w.1.next a).payment = none from hn] at hv
  cases hv

/-- The order that a check sees is the open one. -/
theorem sees_open {op : Operation} {id : String} (hs : s.sees op = some id) :
    s.payment.map (·.orderId) = some id := by
  unfold State.sees at hs
  split at hs
  · split at hs
    · exact hs
    · cases hs
  · cases hs

/-- The open order stays, and a failure in the stage is its own. -/
theorem own_quiet (hi : Own w) (hq : Quiet w.1 (w.1.next a))
    (hst : ∀ v ∈ w.1.payment, (w.1.next a).stage = some PROVISION_FAILED →
      w.1.stage = some PROVISION_FAILED ∨ v.orderId ∈ (w.2.after w.1 a).failed ∨
        v.orderId ∈ (w.2.after w.1 a).asked) :
    Own (w.1.next a, w.2.after w.1 a) := by
  intro v' hv'
  have hp := hq.payment
  rw [show (w.1.next a).payment = some v' from hv', Option.map_some] at hp
  obtain ⟨v, hv, he⟩ := Option.map_eq_some_iff.1 hp.symm
  obtain ⟨hc, hf, hm⟩ := hi v hv
  have hasked : (w.2.after w.1 a).asked = w.2.asked := asked_after (asks_none (.inl hq.marker))
  rw [← he]
  refine ⟨?_, fun h => ?_, fun h => ?_⟩
  · rw [hq.checks]
    exact Nat.le_trans hc (count_after ..)
  · rcases hst v hv h with h | h
    · rw [hasked]
      exact (hf h).imp_left failed_after
    · exact h
  · rw [hasked] at h
    rw [hq.marker]
    exact hm h

theorem fits_import {op : Operation} {o : Option Order} {d : Delivery} (hf : op.fits w)
    (hi : op.imports = some (o, d)) : importFits w o d := by
  cases op with
  | trial created d' =>
    cases created with
    | false => cases hi
    | true =>
      cases hi
      exact hf
  | importOwned service d' =>
    cases service with
    | none => cases hi
    | some o' =>
      cases hi
      exact hf
  | _ => cases hi

theorem fails_import {op : Operation} {id : String} {d : Delivery}
    (hi : op.imports = some (some (.invoice id), d)) (hd : d.imported = none) :
    s.fails op = some id := by
  cases op with
  | trial created d' =>
    cases created with
    | false => cases hi
    | true => cases hi
  | importOwned service d' =>
    cases service with
    | none => cases hi
    | some o =>
      cases hi
      exact if_pos hd
  | _ => cases hi

/-- **A step that fits keeps what is remembered the open order's own.** -/
theorem own_next (hi : Own w) (hf : Fits w a) (hr : ∀ account, a ≠ .restart account) :
    Own (w.1.next a, w.2.after w.1 a) := by
  cases next_does w.1 a hr with
  | passes h =>
    rcases h.2 with hn | ⟨hq, hc⟩
    · exact own_closed hn
    · exact own_quiet hi hq fun v _ h => .inl (hc h)
  | @throws op hop h hq =>
    refine own_quiet hi hq fun v hv _ => .inr ?_
    rcases h with ⟨v', hv', hfail⟩ | ⟨o, d, himp, hd, hw⟩
    · cases hv.symm.trans hv'
      exact .inl (failed_now hop hfail)
    · rcases fits_import (hf op hop) himp hd hw v hv with rfl | h | h
      · exact .inl (failed_now hop (fails_import himp hd))
      · exact .inl (failed_after h)
      · rw [asked_after (asks_none (.inl hq.marker))]
        exact .inr h
  | begins hop ho hp hc hm hs =>
    obtain ⟨hna, hfail⟩ := hf _ hop ho
    refine own_opened hp ⟨?_, fun h => ?_, fun h => ?_⟩
    · rw [hc]
      exact Nat.zero_le _
    · exact .inl (failed_after (hfail (hs.symm.trans h)))
    · rw [asked_after (asks_none (.inr hm))] at h
      exact absurd h hna
  | resumes hop hp hc hm hs =>
    obtain ⟨hchecks, hfail, hmark⟩ := hf _ hop
    have hasked := asked_after (h := w.2) (asks_none (s := w.1) (a := a) (.inl hm))
    refine own_opened hp ⟨?_, fun h => ?_, fun h => ?_⟩
    · rw [hc]
      exact Nat.le_trans hchecks (count_after ..)
    · rw [hasked]
      exact (hfail (hs.symm.trans h)).imp_left failed_after
    · rw [hasked] at h
      exact hm.trans (hmark h)
  | waits hop hsee hw =>
    rcases hw.opened with hn | ⟨hp, hc⟩
    · exact own_closed hn
    · have hid := sees_open hsee
      obtain ⟨v, hv, rfl⟩ := Option.map_eq_some_iff.1 hid
      obtain ⟨hchecks, hfail, hmark⟩ := hi v hv
      have hcount : (w.1.next a).paidWaitingChecks ≤
          (w.2.after w.1 a).seen.count v.orderId := by
        rw [hc, seen_now hop hsee]
        exact Nat.succ_le_succ hchecks
      rcases hw.asks with ⟨hm, hcalm⟩ | ⟨hm, hne, -⟩
      · have hasked := asked_after (h := w.2) (asks_none (s := w.1) (a := a) (.inl hm))
        refine own_opened (hp.trans hid) ⟨hcount, fun h => ?_, fun h => ?_⟩
        · rw [hasked]
          exact (hfail (hcalm h)).imp_left failed_after
        · rw [hasked] at h
          exact hm.trans (hmark h)
      · -- from here on the order is remembered as the one that was asked for
        have hnow := asked_now (h := w.2) (asks_some hm hne)
        exact own_opened (hp.trans hid) ⟨hcount, fun _ => .inr hnow, fun _ => hm⟩

theorem waiting_paid {status : String} {walletTopUp walletOnly serviceReady hasService : Bool}
    (h : paymentOutcome status walletTopUp walletOnly serviceReady hasService = .PAID_WAITING) :
    paid status = true ∧ (serviceReady && hasService) = false := by
  unfold paymentOutcome at h
  cases hp : paid status with
  | true =>
    refine ⟨rfl, ?_⟩
    rw [hp, Bool.true_and, Bool.true_and] at h
    cases hr : serviceReady && hasService with
    | false => rfl
    | true =>
      rw [hr] at h
      split at h <;> cases h
  | false =>
    rw [hp] at h
    simp only [Bool.false_and, Bool.false_eq_true, if_false] at h
    split at h <;> cases h

/-- An order that is seen as paid and waiting was reported so. -/
theorem sees_reported {status : PaymentStatus} {d : Delivery} {c : CheckAnswers} {id : String}
    (hop : s.executes a = some (.checkPayment (some status) d c))
    (hs : s.sees (.checkPayment (some status) d c) = some id) : s.reported id a = true := by
  cases a with
  | operation account op =>
    have he : op = .checkPayment (some status) d c := by
      simp only [State.executes] at hop
      split at hop
      · cases hop
      · exact Option.some.inj hop
    subst he
    obtain ⟨v, hv, rfl⟩ := Option.map_eq_some_iff.1 (sees_open hs)
    have ho : s.outcome status = .PAID_WAITING := by
      simp only [State.sees] at hs
      split at hs
      case isTrue ho => exact ho
      case isFalse => cases hs
    obtain ⟨hp, hr⟩ := waiting_paid ho
    simp only [State.reported, hv, hp, hr, Option.any_some, beq_self_eq_true, Bool.and_true,
      Bool.not_false]
  | _ => cases hop

/-- What is remembered being the open order's own, a request is in time. -/
theorem own_inTime (hi : Own w) (hr : ∀ account, a ≠ .restart account) : InTime w a := by
  intro id hid
  have hid : w.1.asks a = some id := hid
  have hnone {P : Prop} (h : w.1.asks a = none) : P := by
    rw [h] at hid
    cases hid
  cases next_does w.1 a hr with
  | passes h => exact hnone (asks_none h.1)
  | throws _ _ hq => exact hnone (asks_none (.inl hq.marker))
  | begins _ _ _ _ hm _ => exact hnone (asks_none (.inr hm))
  | resumes _ _ _ hm _ => exact hnone (asks_none (.inl hm))
  | waits hop hsee hw =>
    rcases hw.asks with ⟨hm, -⟩ | ⟨hm, hne, hearly⟩
    · exact hnone (asks_none (.inl hm))
    · cases hid.symm.trans (asks_some hm hne)
      obtain ⟨v, hv, rfl⟩ := Option.map_eq_some_iff.1 (sees_open hsee)
      obtain ⟨hchecks, hfail, hmark⟩ := hi v hv
      have hna : v.orderId ∉ w.2.asked := fun h => hne (hmark h)
      refine ⟨hna, ?_, ?_⟩
      · exact sees_reported hop hsee
      · rw [seen_now hop hsee]
        rcases hearly with h2 | hst
        · exact .inl (Nat.le_trans h2 (Nat.succ_le_succ hchecks))
        · exact .inr ((hfail hst).resolve_right hna)

theorem asks_restart (s : State) (account : String) : s.asks (.restart account) = none := by
  refine asks_none (.inr ?_)
  simp only [State.next, State.restore]
  split
  · rfl
  · split <;> rfl

theorem own_process {s : State} {account : String} {failed : List String}
    (h : ∀ v ∈ (s.restore account).payment,
      (s.restore account).stage = some PROVISION_FAILED → v.orderId ∈ failed) :
    Own (process s account failed) := by
  intro v hv
  refine ⟨?_, fun hf => .inl (h v hv hf), fun hm => by cases hm⟩
  have hc : (s.restore account).paidWaitingChecks = 0 := by
    unfold State.restore
    split
    · rfl
    · dsimp only
      split <;> rfl
  exact Nat.le_of_eq hc

/-- **The fallback is asked for once for an order, and in time**, in every run that opens orders
only where what is remembered is their own. -/
theorem fallback_in_time (s : State) (account : String) (failed : List String)
    (actions : List Action)
    (hstart : ∀ v ∈ (s.restore account).payment,
      (s.restore account).stage = some PROVISION_FAILED → v.orderId ∈ failed)
    (hfits : Meets watch Fits (process s account failed) actions) :
    Meets watch InTime (process s account failed) actions := by
  refine meets_of_inv (I := Own) ?_ ?_ (own_process hstart) hfits
  · intro w a w' hi hf hs
    have hr : ∀ account, a ≠ .restart account := by
      rintro account rfl
      cases hs
    have he : w' = (w.1.next a, w.2.after w.1 a) := by
      cases a with
      | restart account => exact absurd rfl (hr account)
      | _ => exact (Option.some.inj hs).symm
    rw [he]
    exact own_next hi hf hr
  · intro w a hi _
    cases a with
    | restart account =>
      intro id hid
      rw [asks_restart] at hid
      cases hid
    | _ => exact own_inTime hi fun _ h => by cases h

end Runs

/-! ## Two orders that wait -/

/-- An order that the server reports as paid and not ready. -/
def waitingStatus : PaymentStatus := ⟨"paid", none, none, false, false⟩

def resumed (id : String) : Action :=
  .operation "a" (.resumePayment ⟨id, "card", "", 100, 0⟩ (some ⟨"buy", none, none, []⟩) true)

/-- The fallback, if it is asked for, is refused. -/
def checked : Action :=
  .operation "a" (.checkPayment (some waitingStatus) ⟨none, true⟩ ⟨true, true, true, false⟩)

theorem fallback_in_time_one : Meets watch InTime (process initial "a" [])
    [resumed "x", checked, checked, checked, resumed "x", checked] :=
  fallback_in_time initial "a" [] _ (by decide) (by decide)

/-- The first order is asked for a second time, and the other at the first sight. -/
theorem fallback_twice : ¬ Meets watch InTime (process initial "a" [])
      [resumed "x", checked, checked, resumed "y", checked] ∧
    ¬ Meets watch (fun w a => ∀ id ∈ w.1.asks a, id ∉ w.2.asked) (process initial "a" [])
      [resumed "x", checked, checked, resumed "y", checked, resumed "x", checked] := by
  decide

end Ghajar.Checkout
