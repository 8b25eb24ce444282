import Ghajar.Checkout.Rules
import Ghajar.Lib.Run

/-!
# The checkout

The state of `GhajarCheckoutViewModel.kt` and its operations. Operations exclude
each other; each takes the answers of the shop it asks for and ends early where
one of them throws, with what it has set by then. The copy of the invoice on the
phone is the record it decrypts to. `Book` is the history of the orders, which no
operation reads.
-/

namespace Ghajar.Checkout

open GhajarOrderStage GhajarOrderFlow GhajarCommerceRules

/-- An order: an invoice of the shop, or a purchase made here that has none. -/
inductive Order
  | invoice (orderId : String)
  | quote (n : Nat)
  deriving DecidableEq, Repr

structure GhajarServiceDetails where
  username : String
  deriving DecidableEq, Repr

structure GhajarPurchaseResult where
  completed : Bool
  requiresPayment : Bool
  username : Option String
  amountDue : Int64
  balance : Int64
  price : Int64
  service : Option GhajarServiceDetails
  deriving DecidableEq

structure GhajarPaymentInit where
  kind : String
  orderId : String
  url : Option String
  cardNumber : Option String
  cardHolder : Option String
  amount : Int64
  amountRial : Int64
  message : String
  method : String
  methodLabel : String
  expiresAt : Int64
  deriving DecidableEq

structure GhajarPaymentMethod where
  id : String
  label : String
  minimum : Int64
  maximum : Int64
  deriving DecidableEq

structure GhajarPendingPayment where
  orderId : String
  method : String
  label : String
  amount : Int64
  expiresAt : Int64
  deriving DecidableEq

/-- The saved invoice; a field that is null is not in it. -/
structure Root where
  owner : String
  username : Option String
  due : Int64
  balance : Int64
  price : Int64
  receipt_sent : Bool
  wallet_top_up : Bool
  stage : Option String
  payment : Option GhajarPaymentInit
  deriving DecidableEq

structure Book where
  /-- The purchases made, and the number of the one that is open. -/
  made : Nat
  quoted : Nat
  /-- The order that the stage was last changed for. -/
  stageOf : Option Order
  paid : List Order
  imported : List Order
  refunded : List Order
  /-- `quoted` and `stageOf` when the invoice was saved. -/
  savedQuoted : Nat
  savedOf : Option Order
  deriving DecidableEq

structure State where
  owner : String
  purchase : Option GhajarPurchaseResult
  payment : Option GhajarPaymentInit
  receipt : Option String
  receiptSent : Bool
  walletTopUp : Bool
  stage : Option GhajarOrderStage
  paidWaitingChecks : Nat
  fallbackAttemptedOrderId : Option String
  prefs : Option Root
  book : Book
  deriving DecidableEq

/-- The first start of the app. -/
def initial : State where
  owner := ""
  purchase := none
  payment := none
  receipt := none
  receiptSent := false
  walletTopUp := false
  stage := none
  paidWaitingChecks := 0
  fallbackAttemptedOrderId := none
  prefs := none
  book := ⟨0, 0, none, [], [], [], 0, none⟩

/-! ## The history -/

/-- The order that is open: the payment's, or the purchase that has none yet. -/
def State.opened (s : State) : Option Order :=
  match s.payment, s.purchase with
  | some v, _ => some (.invoice v.orderId)
  | none, some _ => some (.quote s.book.quoted)
  | none, none => none

/-- The stage is set; a change is one for the order `o`. -/
def State.record (s : State) (o : Option Order) (stage : GhajarOrderStage) : State :=
  if s.stage = some stage then s
  else { s with stage := some stage, book := { s.book with stageOf := o } }

def State.isPaid (s : State) (o : Order) : State :=
  { s with book := { s.book with paid := o :: s.book.paid } }

def State.isRefunded (s : State) (o : Order) : State :=
  { s with book := { s.book with refunded := o :: s.book.refunded } }

def State.isImported (s : State) (o : Option Order) : State :=
  { s with book := { s.book with imported := o.toList ++ s.book.imported } }

/-- The shop does not count the order as paid. -/
def State.isCancelled (s : State) (o : Order) : State :=
  { s with book := { s.book with paid := s.book.paid.filter (· != o) } }

/-- A purchase is numbered. -/
def State.isMade (s : State) : State :=
  { s with book := { s.book with made := s.book.made + 1 } }

/-! ## The saved invoice -/

def toSave (s : State) (p : GhajarPurchaseResult) : Root where
  owner := s.owner
  username := p.username
  due := p.amountDue
  balance := p.balance
  price := p.price
  receipt_sent := s.receiptSent
  wallet_top_up := s.walletTopUp
  stage := s.stage.map GhajarOrderStage.name
  payment := s.payment

def State.save (s : State) (p : GhajarPurchaseResult) : State :=
  { s with
    prefs := some (toSave s p)
    book := { s.book with savedQuoted := s.book.quoted, savedOf := s.book.stageOf } }

/-- Without a purchase nothing is saved. A save that fails throws, and `next` is not run. -/
def State.persist (s : State) (saves : Bool) (next : State → State) : State :=
  match s.purchase with
  | none => next s
  | some p => if saves then next (s.save p) else s

/-- A text of the saved invoice; a blank one and the word for null are none. -/
def «optional» (text : Option String) : Option String :=
  text.filter fun t => !(t.blank || t == "null")

/-- The stage that a saved invoice stands for. -/
def Root.toStage (root : Root) : Option GhajarOrderStage :=
  fromStorage (root.stage.filter fun t => !t.blank)

/-- A new process, for the account of the phone. -/
def State.restore (s : State) (account : String) : State :=
  let fresh : State := { initial with owner := account, prefs := s.prefs, book := s.book }
  match s.prefs with
  | none => fresh
  | some root =>
    if account.blank || root.owner != account then fresh
    else { fresh with
      purchase := some ⟨false, true, «optional» root.username, root.due, root.balance, root.price, none⟩
      receiptSent := root.receipt_sent
      walletTopUp := root.wallet_top_up
      stage := root.toStage
      payment := root.payment.map fun p => { p with
        url := «optional» p.url
        cardNumber := «optional» p.cardNumber
        cardHolder := «optional» p.cardHolder }
      book := { s.book with quoted := s.book.savedQuoted, stageOf := s.book.savedOf } }

/-- The end of an order: it is closed and the saved copy goes. -/
def State.finish (s : State) : State :=
  { s with
    purchase := none
    payment := none
    receipt := none
    receiptSent := false
    walletTopUp := false
    stage := none
    prefs := none }

def State.clearInvoice (s : State) : State :=
  { s.finish with paidWaitingChecks := 0, fallbackAttemptedOrderId := none }

/-- Nothing of the account stays, its orders are those of another. -/
def State.reset (s : State) : State :=
  { s.clearInvoice with owner := "", book := { s.book with paid := [] } }

/-! ## Operations -/

/-- How an import ends: how many configurations it adds, where it does not throw, and whether the
invoice can be saved after it. -/
structure Delivery where
  imported : Option Nat
  saves : Bool
  deriving DecidableEq, Repr

/-- The service of the order `o` is delivered. -/
def State.deliver (s : State) (o : Option Order) (d : Delivery) (finishCheckout : Bool) :
    State :=
  let set (stage : Option GhajarOrderStage) (s : State) : State :=
    match stage with
    | none => s
    | some stage => s.record o stage
  let paidStage := s.stage.map onDeliveryAttempt
  let s := set paidStage s
  match d.imported with
  | none =>
    match paidStage with
    | none => s
    | some stage => (s.record o (onDeliveryFailed stage)).persist d.saves id
  | some count =>
    let s := if count > 0 then s.isImported o else s
    let s := set (paidStage.map (onDelivered · count)) s
    if count > 0 && finishCheckout then s.finish else s

/-- What the shop says of an invoice. -/
structure PaymentStatus where
  payment_status : String
  expires_at : Option Int64
  service : Option GhajarServiceDetails
  is_service_ready : Bool
  wallet_credited_only : Bool
  deriving DecidableEq

structure ResumeStatus where
  flow : String
  expires_at : Option Int64
  gateway_url : Option String
  /-- The username of the service, and the two other fields it may be in. -/
  usernames : List (Option String)
  deriving DecidableEq

/-- The answers a check asks for after the status: whether the saves succeed, whether the methods
arrive, and whether the shop credits the wallet. -/
structure CheckAnswers where
  saves : Bool
  saves' : Bool
  options : Bool
  credited : Bool
  deriving DecidableEq, Repr

/-- The rest of a purchase that the balance pays for. -/
def State.paidFromWallet (s : State) (o : Order) (service : Option GhajarServiceDetails)
    (d : Delivery) : State :=
  let s := match initialStage true false with
    | some stage => (s.isPaid o).record (some o) stage
    | none => s
  match service with
  | none => s
  | some _ => s.deliver (some o) d true

/-- `service` is of the username, where the purchase has no service in it. -/
def State.buy (s : State) (result : Option GhajarPurchaseResult)
    (service : Option GhajarServiceDetails) (d : Delivery) (saves : Bool) : State :=
  if s.payment.isSome then s
  else
    let s := { s with walletTopUp := false }
    match result with
    | none => s
    | some result =>
      let s := s.isMade
      if result.requiresPayment then
        let s := { s with
          purchase := some result
          payment := none
          receiptSent := false
          book := { s.book with quoted := s.book.made } }
        s.persist saves id
      else if !result.completed then s
      else s.paidFromWallet (.quote s.book.made)
        (result.service.or (result.username.bind fun _ => service)) d

/-- `balance` is of the methods, where they arrive. -/
def State.topUp (s : State) (amount : Int64) (balance : Option Int64) (saves : Bool) :
    State :=
  if amount ≤ 0 || s.payment.isSome then s
  else match balance with
    | none => s
    | some balance =>
      let s := s.isMade
      let s := { s with
        walletTopUp := true
        purchase := some ⟨false, true, none, amount, balance, amount, none⟩
        book := { s.book with quoted := s.book.made } }
      s.persist saves id

def State.beginPayment (s : State) (method : GhajarPaymentMethod)
    (result : Option GhajarPaymentInit) (saves : Bool) : State :=
  match s.purchase with
  | none => s
  | some target =>
    if s.payment.isSome then s
    else if !(target.amountDue ≥ method.minimum &&
        (method.maximum ≤ 0 || target.amountDue ≤ method.maximum)) then s
    else match result with
      | none => s
      | some result =>
        if result.orderId.blank then s
        else
          let s := { s with
            payment := some { result with methodLabel := method.label }
            receipt := none
            receiptSent := false
            paidWaitingChecks := 0
            fallbackAttemptedOrderId := none }
          s.persist saves id

def State.uploadReceipt (s : State) (uploaded saves : Bool) : State :=
  if s.receiptSent || s.payment.isNone || s.receipt.isNone || !uploaded then s
  else { s with receiptSent := true }.persist saves id

def State.trial (s : State) (created : Bool) (d : Delivery) : State :=
  if created then s.deliver none d false else s

/-- `service` is the order that the service was bought with, where it arrives and has one. -/
def State.importOwned (s : State) (service : Option (Option Order)) (d : Delivery) :
    State :=
  match service with
  | none => s
  | some o => s.deliver o d false

/-- A stage that is still null is set for a payment that is confirmed. -/
def State.seed (s : State) (o : Order) : State :=
  match s.stage, initialStage true s.walletTopUp with
  | none, some stage => s.record (some o) stage
  | _, _ => s

def State.walletCredited (s : State) (o : Order) (c : CheckAnswers) : State :=
  let s := (s.isPaid o).isRefunded o
  let stage := (s.stage.or (initialStage true s.walletTopUp)).getD PAYMENT_CONFIRMED
  let s := s.record (some o) ((onWalletRefunded stage).getD WALLET_REFUNDED)
  s.persist c.saves fun s => if c.options then s.finish else s

def State.serviceReady (s : State) (o : Order) (d : Delivery) : State :=
  ((s.isPaid o).seed o).deliver (some o) d true

def State.paidWaiting (s : State) (invoice : GhajarPaymentInit) (status : PaymentStatus)
    (c : CheckAnswers) : State :=
  let o := Order.invoice invoice.orderId
  let s := (s.isPaid o).seed o
  let stage := s.stage.getD PAYMENT_CONFIRMED
  let s := { s.record (some o) stage with paidWaitingChecks := s.paidWaitingChecks + 1 }
  s.persist c.saves fun s =>
    let mayFallback :=
      refundEligible status.payment_status s.walletTopUp status.is_service_ready
        status.service.isSome &&
      walletFallbackAllowed stage &&
      s.fallbackAttemptedOrderId != some invoice.orderId &&
      (s.paidWaitingChecks ≥ 2 || stage == PROVISION_FAILED)
    if !mayFallback then s
    else
      let s := { s with fallbackAttemptedOrderId := some invoice.orderId }
      if c.credited then
        let s := (s.isRefunded o).record (some o) ((onWalletRefunded stage).getD WALLET_REFUNDED)
        if c.options then s.finish else s
      else (s.record (some o) (onDeliveryFailed stage)).persist c.saves' id

def State.checkPayment (s : State) (status : Option PaymentStatus) (d : Delivery)
    (c : CheckAnswers) : State :=
  match s.payment, status with
  | some invoice, some status =>
    let s := { s with
      payment := some { invoice with expiresAt := status.expires_at.getD invoice.expiresAt } }
    match paymentOutcome status.payment_status s.walletTopUp status.wallet_credited_only
        status.is_service_ready status.service.isSome with
    | .WALLET_CREDITED => s.walletCredited (.invoice invoice.orderId) c
    | .SERVICE_READY => s.serviceReady (.invoice invoice.orderId) d
    | .PAID_WAITING => s.paidWaiting invoice status c
    | .NOT_APPROVED => s
    | .PENDING => s
  | _, _ => s

def State.resumePayment (s : State) (item : GhajarPendingPayment)
    (status : Option ResumeStatus) (saves : Bool) : State :=
  match status with
  | none => s
  | some status =>
    let previous := s.payment.filter (·.orderId == item.orderId)
    let username := (status.usernames.find? fun u => («optional» u).isSome).join
    let purchase : GhajarPurchaseResult :=
      match if previous.isSome then s.purchase else none with
      | none => ⟨false, true, username, item.amount, 0, item.amount, none⟩
      | some p =>
        if (p.username.getD "").blank && username.isSome then { p with username := username } else p
    let payment : GhajarPaymentInit :=
      match previous with
      | some p => { p with expiresAt := status.expires_at.getD item.expiresAt }
      | none => ⟨"url", item.orderId, status.gateway_url.filter (·.startsWith "https://"), none,
          none, item.amount, item.amount * 10, "", item.method, item.label, item.expiresAt⟩
    let s := { s with
      walletTopUp := status.flow == "recharge"
      purchase := some purchase
      payment := some payment }
    s.persist saves id

def State.cancelPayment (s : State) (orderId : String) (cancelled : Bool)
    (status : Option String) : State :=
  match cancelled, status with
  | true, some status =>
    if ["cancelled", "canceled", "reject"].contains status.lowercase then
      let s := s.isCancelled (.invoice orderId)
      if s.payment.map (·.orderId) = some orderId then s.clearInvoice else s
    else s
  | _, _ => s

def State.leaveInvoice (s : State) : State :=
  if s.payment.isNone then s.clearInvoice else s

/-! ## Runs -/

inductive Operation
  | buy (result : Option GhajarPurchaseResult) (service : Option GhajarServiceDetails)
      (d : Delivery) (saves : Bool)
  | topUp (amount : Int64) (balance : Option Int64) (saves : Bool)
  | beginPayment (method : GhajarPaymentMethod) (result : Option GhajarPaymentInit) (saves : Bool)
  | uploadReceipt (uploaded saves : Bool)
  | trial (created : Bool) (d : Delivery)
  | importOwned (service : Option (Option Order)) (d : Delivery)
  | checkPayment (status : Option PaymentStatus) (d : Delivery) (c : CheckAnswers)
  | resumePayment (item : GhajarPendingPayment) (status : Option ResumeStatus) (saves : Bool)
  | cancelPayment (orderId : String) (cancelled : Bool) (status : Option String)
  deriving DecidableEq

def Operation.block : Operation → State → State
  | .buy result service d saves, s => s.buy result service d saves
  | .topUp amount balance saves, s => s.topUp amount balance saves
  | .beginPayment method result saves, s => s.beginPayment method result saves
  | .uploadReceipt uploaded saves, s => s.uploadReceipt uploaded saves
  | .trial created d, s => s.trial created d
  | .importOwned service d, s => s.importOwned service d
  | .checkPayment status d c, s => s.checkPayment status d c
  | .resumePayment item status saves, s => s.resumePayment item status saves
  | .cancelPayment orderId cancelled status, s => s.cancelPayment orderId cancelled status

/-- The account has changed since the operation before. -/
def State.changed (s : State) (account : String) : Bool :=
  !s.owner.blank && s.owner != account

/-- An operation, with the account that the phone has then. -/
def State.runOperation (s : State) (account : String) (op : Operation) : State :=
  if account.blank then s
  else if s.changed account then
    { s.finish with owner := account, book := { s.book with paid := [] } }
  else op.block { s with owner := account }

inductive Action
  | operation (account : String) (op : Operation)
  | choose (receipt : Option String)
  | leaveInvoice
  | reset
  | restart (account : String)
  deriving DecidableEq

def State.next (s : State) : Action → State
  | .operation account op => s.runOperation account op
  | .choose receipt => { s with receipt := receipt }
  | .leaveInvoice => s.leaveInvoice
  | .reset => s.reset
  | .restart account => s.restore account

def step (s : State) (a : Action) : Option State := some (s.next a)

end Ghajar.Checkout
