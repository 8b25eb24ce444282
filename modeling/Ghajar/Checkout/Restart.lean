import Ghajar.Checkout.Steps

/-!
# A paid order and a new process

What a new process finds of an order that is still owed: `Survives`. The stage is
set in many places and saved in few, so `Saving` says which steps save what they
set; in every run of such steps nothing of a paid order is lost.
-/

namespace Ghajar.Checkout

open Run GhajarOrderStage GhajarOrderFlow GhajarCommerceRules

/-- What has to be the same after a restart. -/
structure View where
  stage : Option GhajarOrderStage
  order : Option String
  username : Option (Option String)
  amounts : Option (Int64 × Int64 × Int64)
  invoiced : Option (Int64 × Int64)
  receiptSent : Bool
  walletTopUp : Bool
  deriving DecidableEq

def view (s : State) : View where
  stage := s.stage
  order := s.payment.map (·.orderId)
  username := s.purchase.map fun p => «optional» p.username
  amounts := s.purchase.map fun p => (p.amountDue, p.balance, p.price)
  invoiced := s.payment.map fun v => (v.amount, v.amountRial)
  receiptSent := s.receiptSent
  walletTopUp := s.walletTopUp

/-- The stage is one of an order that is paid, and neither delivered nor refunded. -/
def State.pending (s : State) : Bool := s.stage.any walletFallbackAllowed

/-- A paid order is found again by a new process of the same account. -/
def Survives (s : State) : Prop :=
  s.pending = true → view (s.restore s.owner) = view s

/-! ## The condition -/

/-- A delivery that ends in a pending stage saves it: it adds configurations, or fails and can
save, or it adds none and the stage has been saved before. -/
def Delivery.saving (d : Delivery) (stage : Option GhajarOrderStage) : Bool :=
  match d.imported with
  | none => d.saves
  | some 0 => stage == some PROVISIONING
  | some _ => true

def buySaving (s : State) (result : Option GhajarPurchaseResult)
    (service : Option GhajarServiceDetails) (d : Delivery) (saves : Bool) : Bool :=
  s.payment.isSome ||
    match result with
    | none => !s.pending || !s.walletTopUp
    | some r =>
      if r.requiresPayment then !s.pending || saves
      else if !r.completed then !s.pending || !s.walletTopUp
      else if (r.service.or (r.username.bind fun _ => service)).isSome then
        match d.imported with
        | none => s.purchase.isSome && d.saves
        | some 0 => s.stage == some PROVISIONING && !s.walletTopUp
        | some _ => true
      else s.stage == some PAYMENT_CONFIRMED && !s.walletTopUp

def checkSaving (s : State) (status : PaymentStatus) (d : Delivery) (c : CheckAnswers) : Bool :=
  let stage := s.stage.getD PAYMENT_CONFIRMED
  match paymentOutcome status.payment_status s.walletTopUp status.wallet_credited_only
      status.is_service_ready status.service.isSome with
  | .SERVICE_READY => !walletFallbackAllowed stage || d.saving s.stage
  | .PAID_WAITING => !walletFallbackAllowed stage ||
      (c.saves && (c.credited || c.saves' || stage == PROVISION_FAILED))
  | _ => true

def Operation.saving (s : State) : Operation → Bool
  | .buy result service d saves => buySaving s result service d saves
  | .topUp _ _ saves => !s.pending || saves
  | .beginPayment _ _ saves => !s.pending || saves
  | .uploadReceipt _ saves => !s.pending || saves
  | .trial created d => !created || !s.pending || d.saving s.stage
  | .importOwned service d => service.isNone || !s.pending || d.saving s.stage
  | .checkPayment status d c => s.payment.isNone || status.all fun status => checkSaving s status d c
  | .resumePayment _ _ saves => !s.pending || saves
  | .cancelPayment _ _ _ => true

/-- A step saves what it sets of a paid order. -/
def saving (s : State) : Action → Bool
  | .operation account op => account.blank || s.changed account || op.saving s
  | _ => true

def Saving (s : State) (a : Action) : Prop := saving s a = true

instance (s : State) (a : Action) : Decidable (Saving s a) :=
  inferInstanceAs (Decidable (_ = _))

/-! ## Saving and restoring -/

variable {s t : State}

theorem optional_optional (text : Option String) :
    «optional» («optional» text) = «optional» text := by
  cases text with
  | none => rfl
  | some t =>
    unfold «optional»
    rw [Option.filter_some]
    split
    · rename_i h
      rw [Option.filter_some, if_pos h]
    · rfl

/-- What a new process finds is in the saved invoice alone. -/
theorem view_restore_congr (h : t.prefs = s.prefs) (account : String) :
    view (t.restore account) = view (s.restore account) := by
  unfold State.restore
  rw [h]
  cases s.prefs with
  | none => rfl
  | some root =>
    simp only
    split <;> rfl

theorem view_save (hb : s.owner.blank = false) {p : GhajarPurchaseResult}
    (hp : s.purchase = some p) : view ((s.save p).restore s.owner) = view s := by
  have hst : (toSave s p).toStage = s.stage := toStage_toSave s p
  have hown : (s.owner.blank || (toSave s p).owner != s.owner) = false := by
    rw [hb]
    simp [toSave]
  unfold State.restore State.save
  simp only [hown, Bool.false_eq_true, if_false]
  unfold view
  rw [hst, hp]
  simp only [toSave, Option.map_some, optional_optional]
  cases s.payment <;> rfl

/-- A pending order that survives has an owner and a purchase. -/
theorem Survives.open (h : Survives s) (hp : s.pending = true) :
    s.owner.blank = false ∧ s.purchase.isSome = true := by
  have hv := h hp
  unfold State.restore at hv
  cases hr : s.prefs with
  | none =>
    rw [hr] at hv
    have hst : none = s.stage := congrArg View.stage hv
    rw [State.pending, ← hst] at hp
    cases hp
  | some root =>
    rw [hr] at hv
    simp only at hv
    split at hv
    · have hst : none = s.stage := congrArg View.stage hv
      rw [State.pending, ← hst] at hp
      cases hp
    · rename_i hown
      have ha := congrArg View.amounts hv
      constructor
      · cases hb : s.owner.blank with
        | true => simp [hb] at hown
        | false => rfl
      · cases hq : s.purchase with
        | none => simp [view, hq] at ha
        | some p => rfl

theorem survives_of_fixed (h : s.pending = false) : Survives s := by
  intro hp
  rw [h] at hp
  cases hp

theorem Survives.congr (h : Survives s) (hv : view t = view s) (hr : t.prefs = s.prefs)
    (ho : t.owner = s.owner) : Survives t := by
  intro hp
  have hst : t.stage = s.stage := congrArg View.stage hv
  have hp' : s.pending = true := by rwa [State.pending, ← hst]
  rw [hv, ho, view_restore_congr hr]
  exact h hp'

theorem survives_save (hb : s.owner.blank = false) {p : GhajarPurchaseResult}
    (hp : s.purchase = some p) : Survives (s.save p) := fun _ => view_save hb hp

/-- What holds after a save that is made where the order is pending. -/
theorem survives_persist {saves : Bool} (hb : s.owner.blank = false)
    (hq : s.purchase.isSome = true) (hs : s.pending = true → saves = true) :
    Survives (s.persist saves id) := by
  obtain ⟨p, hp⟩ := Option.isSome_iff_exists.1 hq
  unfold State.persist
  rw [hp]
  simp only
  split
  · exact survives_save hb hp
  · rename_i hno
    apply survives_of_fixed
    cases hpend : s.pending with
    | false => rfl
    | true => exact absurd (hs hpend) hno

/-- The invoice that is open belongs to a purchase. -/
def Bought (s : State) : Prop := s.payment.isSome = true → s.purchase.isSome = true

/-- What every saving step keeps. -/
def Stands (s : State) : Prop := Survives s ∧ Bought s

theorem stands_persist {saves : Bool} (hb : s.owner.blank = false)
    (hq : s.purchase.isSome = true) (hs : s.pending = true → saves = true) :
    Stands (s.persist saves id) := by
  refine ⟨survives_persist hb hq hs, fun _ => ?_⟩
  exact persist_ind (P := fun t => t.purchase.isSome = true) hq hq fun _ => hq

theorem stands_finish (s : State) : Stands s.finish :=
  ⟨survives_of_fixed rfl, fun h => by cases h⟩

theorem Stands.fixed (h : Bought s) (hp : s.pending = false) : Stands s :=
  ⟨survives_of_fixed hp, h⟩

theorem Stands.congr (h : Stands s) (hv : view t = view s) (hr : t.prefs = s.prefs)
    (ho : t.owner = s.owner) : Stands t := by
  refine ⟨h.1.congr hv hr ho, fun hp => ?_⟩
  have hpay : t.payment.map (·.orderId) = s.payment.map (·.orderId) := congrArg View.order hv
  have hpur := congrArg View.amounts hv
  have hs : s.payment.isSome = true := by
    rw [← Option.isSome_map (f := (·.orderId)), ← hpay, Option.isSome_map]
    exact hp
  have hsp := h.2 hs
  have he : t.purchase.isSome = s.purchase.isSome := by
    have := congrArg Option.isSome hpur
    simpa [view] using this
  rw [he]
  exact hsp

theorem pending_record (o : Option Order) (st : GhajarOrderStage) :
    (s.record o st).pending = walletFallbackAllowed st := by
  rw [State.pending, record_stage]
  rfl

theorem record_owner (o : Option Order) (st : GhajarOrderStage) :
    (s.record o st).owner = s.owner := by
  rcases record_eq s o st with ⟨he, -⟩ | he <;> rw [he]

theorem record_prefs (o : Option Order) (st : GhajarOrderStage) :
    (s.record o st).prefs = s.prefs := by
  rcases record_eq s o st with ⟨he, -⟩ | he <;> rw [he]

/-! ## Deliveries -/

theorem pending_stage (h : s.pending = true) :
    ∃ st, s.stage = some st ∧ walletFallbackAllowed st = true := by
  cases hs : s.stage with
  | none =>
    rw [State.pending, hs] at h
    cases h
  | some st =>
    rw [State.pending, hs] at h
    exact ⟨st, rfl, h⟩

theorem bought_record (h : Bought s) (o : Option Order) (st : GhajarOrderStage) :
    Bought (s.record o st) := by
  intro hp
  rw [record_payment] at hp
  rw [record_purchase]
  exact h hp

/-- A delivery with no stage to move. -/
theorem deliver_unmoved_stands (hp : s.pending = false) (h : Bought s) (o : Option Order)
    (d : Delivery) (f : Bool) : Stands (s.deliver o d f) := by
  rw [deliver_unmoved hp]
  cases d.imported with
  | none =>
    simp only
    split
    · exact persist_ind (.fixed h hp) (.fixed h hp) fun _ => .fixed h hp
    · exact .fixed h hp
  | some count =>
    simp only
    split
    · exact stands_finish _
    · split
      · exact .fixed h hp
      · exact .fixed h hp

/-- A delivery with a stage to move stands where what it sets last is saved. -/
theorem deliver_moved_stands {st : GhajarOrderStage} (hst : s.stage = some st)
    (hw : walletFallbackAllowed st = true) (hb : s.owner.blank = false)
    (hbt : Bought s) {o : Option Order} {d : Delivery}
    (hs : d.imported = none → d.saves = true ∧ s.purchase.isSome = true)
    (h0 : d.imported = some 0 → Stands (s.record o PROVISIONING)) (f : Bool) :
    Stands (s.deliver o d f) := by
  rw [deliver_moved hst hw]
  cases hd : d.imported with
  | none =>
    apply stands_persist
    · rw [record_owner, record_owner]
      exact hb
    · rw [record_purchase, record_purchase]
      exact (hs hd).2
    · intro _
      exact (hs hd).1
  | some count =>
    simp only
    split
    · have hbought : Bought (((s.record o PROVISIONING).isImported o).record o DELIVERED) := by
        apply bought_record
        exact bought_record hbt o PROVISIONING
      split
      · exact stands_finish _
      · exact .fixed hbought (pending_record ..)
    · rename_i hc
      have hz : count = 0 := Nat.eq_zero_of_not_pos hc
      rw [hz] at hd
      exact h0 hd

/-- An import by hand. -/
theorem deliver_stands (h : Stands s) {d : Delivery}
    (hc : s.pending = false ∨ d.saving s.stage = true) (o : Option Order) (f : Bool) :
    Stands (s.deliver o d f) := by
  cases hp : s.pending with
  | false => exact deliver_unmoved_stands hp h.2 o d f
  | true =>
    obtain ⟨hb, hq⟩ := h.1.open hp
    obtain ⟨st, hst, hw⟩ := pending_stage hp
    have hd : d.saving s.stage = true := by
      rcases hc with hc | hc
      · rw [hp] at hc
        cases hc
      · exact hc
    apply deliver_moved_stands hst hw hb h.2
    · intro hi
      exact ⟨by simpa [Delivery.saving, hi] using hd, hq⟩
    · intro hi
      have hpr : s.stage = some PROVISIONING := by simpa [Delivery.saving, hi] using hd
      rw [record_same hpr]
      exact h

/-! ## Operations -/

/-- Another state with what is to be saved. -/
theorem pending_saves {saves : Bool} (h : (!s.pending || saves) = true) :
    s.pending = true → saves = true := by
  intro hp
  simpa [hp] using h

theorem view_record (o : Option Order) (st : GhajarOrderStage) :
    view (s.record o st) = { view s with stage := some st } := by
  rcases record_eq s o st with ⟨he, hs⟩ | he <;> rw [he]
  · rw [view, hs]
  · rfl

/-- A stage that is saved already, set again. -/
theorem Stands.record (h : Stands s) {st : GhajarOrderStage} (hs : s.stage = some st)
    (hv : view t = { view s with stage := t.stage }) (hr : t.prefs = s.prefs)
    (ho : t.owner = s.owner) (o : Option Order) : Stands (t.record o st) := by
  refine h.congr ?_ ((record_prefs o st).trans hr) ((record_owner o st).trans ho)
  rw [view_record, hv, view, hs]

theorem wallet_stands (hbt : Bought s) (hb : s.owner.blank = false)
    {service : Option GhajarServiceDetails} {d : Delivery} (o : Order)
    (hnone : service = none → s.stage = some PAYMENT_CONFIRMED ∧ Stands s)
    (hsave : service.isSome = true → d.imported = none →
      d.saves = true ∧ s.purchase.isSome = true)
    (hzero : service.isSome = true → d.imported = some 0 →
      s.stage = some PROVISIONING ∧ Stands s) :
    Stands (s.paidFromWallet o service d) := by
  have hpaid : Bought (s.isPaid o) := hbt
  cases service with
  | none =>
    obtain ⟨hst, h⟩ := hnone rfl
    change Stands ((s.isPaid o).record (some o) PAYMENT_CONFIRMED)
    apply h.record hst <;> rfl
  | some _ =>
    change Stands (((s.isPaid o).record (some o) PAYMENT_CONFIRMED).deliver (some o) d true)
    apply deliver_moved_stands (record_stage ..) rfl
    · rw [record_owner]
      exact hb
    · exact bought_record hpaid _ _
    · intro hd
      rw [record_purchase]
      exact hsave rfl hd
    · intro hd
      obtain ⟨hst, h⟩ := hzero rfl hd
      apply h.record hst
      · rw [view_record, record_stage]
        rfl
      · exact record_prefs ..
      · exact record_owner ..

/-- A purchase asked for is no top-up; where that was not saved the order is not pending. -/
theorem walletOff_stands (h : Stands s) (hc : (!s.pending || !s.walletTopUp) = true) :
    Stands { s with walletTopUp := false } := by
  cases hp : s.pending with
  | false => exact .fixed h.2 hp
  | true =>
    have hw : s.walletTopUp = false := by simpa [hp] using hc
    refine h.congr ?_ rfl rfl
    simp only [view, hw]

theorem buy_stands (h : Stands s) (hb : s.owner.blank = false)
    {result : Option GhajarPurchaseResult} {service : Option GhajarServiceDetails} {d : Delivery}
    {saves : Bool} (hc : buySaving s result service d saves = true) :
    Stands (s.buy result service d saves) := by
  unfold State.buy
  split
  · exact h
  rename_i hp
  have hp : s.payment = none := by simpa using hp
  cases result with
  | none =>
    have hoff : (!s.pending || !s.walletTopUp) = true := by simpa [buySaving, hp] using hc
    exact walletOff_stands h hoff
  | some r =>
    simp only [buySaving, hp, Option.isSome_none, Bool.false_or] at hc
    simp only
    split
    case isTrue hr =>
      rw [if_pos hr] at hc
      apply stands_persist
      · exact hb
      · rfl
      · exact pending_saves hc
    case isFalse hr =>
      rw [if_neg hr] at hc
      split
      case isTrue hcomp =>
        rw [if_pos hcomp] at hc
        exact (walletOff_stands h hc).congr rfl rfl rfl
      case isFalse hcomp =>
        rw [if_neg hcomp] at hc
        have hmade (hw : s.walletTopUp = false) :
            Stands { s with walletTopUp := false }.isMade :=
          (walletOff_stands h (by simp [hw])).congr rfl rfl rfl
        apply wallet_stands
        · exact h.2
        · exact hb
        · intro hserv
          rw [hserv] at hc
          simp only [Option.isSome_none, Bool.false_eq_true, if_false, Bool.and_eq_true, beq_iff_eq,
            Bool.not_eq_true'] at hc
          exact ⟨hc.1, hmade hc.2⟩
        · intro hserv hd
          have hboth : d.saves = true ∧ s.purchase.isSome = true := by
            simpa [hserv, hd, and_comm] using hc
          exact hboth
        · intro hserv hd
          simp only [hserv, hd, if_true, Bool.and_eq_true, beq_iff_eq, Bool.not_eq_true'] at hc
          exact ⟨hc.1, hmade hc.2⟩

theorem topUp_stands (h : Stands s) (hb : s.owner.blank = false) (amount : Int64)
    (balance : Option Int64) {saves : Bool} (hc : (!s.pending || saves) = true) :
    Stands (s.topUp amount balance saves) := by
  unfold State.topUp
  split
  · exact h
  · cases balance with
    | none => exact h
    | some balance =>
      apply stands_persist
      · exact hb
      · rfl
      · exact pending_saves hc

theorem beginPayment_stands (h : Stands s) (hb : s.owner.blank = false)
    (method : GhajarPaymentMethod) (result : Option GhajarPaymentInit) {saves : Bool}
    (hc : (!s.pending || saves) = true) : Stands (s.beginPayment method result saves) := by
  unfold State.beginPayment
  split
  · exact h
  rename_i target htarget
  split
  · exact h
  split
  · exact h
  cases result with
  | none => exact h
  | some r =>
    simp only
    split
    · exact h
    · apply stands_persist
      · exact hb
      · exact Option.isSome_iff_exists.2 ⟨target, htarget⟩
      · exact pending_saves hc

theorem resumePayment_stands (h : Stands s) (hb : s.owner.blank = false)
    (item : GhajarPendingPayment) (status : Option ResumeStatus) {saves : Bool}
    (hc : (!s.pending || saves) = true) : Stands (s.resumePayment item status saves) := by
  unfold State.resumePayment
  cases status with
  | none => exact h
  | some status =>
    apply stands_persist
    · exact hb
    · rfl
    · exact pending_saves hc

theorem uploadReceipt_stands (h : Stands s) (hb : s.owner.blank = false) (uploaded : Bool)
    {saves : Bool} (hc : (!s.pending || saves) = true) :
    Stands (s.uploadReceipt uploaded saves) := by
  unfold State.uploadReceipt
  split
  · exact h
  · rename_i hp
    have hv : s.payment.isSome = true := by
      cases hs : s.payment with
      | none => simp [hs] at hp
      | some v => rfl
    apply stands_persist
    · exact hb
    · exact h.2 hv
    · exact pending_saves hc

theorem cancelPayment_stands (h : Stands s) (orderId : String) (cancelled : Bool)
    (status : Option String) : Stands (s.cancelPayment orderId cancelled status) := by
  unfold State.cancelPayment
  split
  · split
    · simp only
      split
      · exact (stands_finish (s.isCancelled (.invoice orderId))).congr rfl rfl rfl
      · exact h.congr rfl rfl rfl
    · exact h
  · exact h

section Check

variable {o : Order}

theorem seed_getD (hw : s.walletTopUp = false) (o : Order) :
    (s.seed o).stage = some (s.stage.getD PAYMENT_CONFIRMED) := by
  unfold State.seed
  cases hs : s.stage with
  | none =>
    rw [hw]
    exact record_stage ..
  | some st => exact hs

theorem view_seed (s : State) (o : Order) :
    view (s.seed o) = { view s with stage := (s.seed o).stage } := by
  rcases seed_eq s o with ⟨he, -⟩ | he <;> rw [he]
  · rfl
  · rw [view_record, record_stage]

theorem seed_owner (s : State) (o : Order) : (s.seed o).owner = s.owner := by
  rcases seed_eq s o with ⟨he, -⟩ | he <;> rw [he]
  exact record_owner ..

theorem seed_prefs (s : State) (o : Order) : (s.seed o).prefs = s.prefs := by
  rcases seed_eq s o with ⟨he, -⟩ | he <;> rw [he]
  exact record_prefs ..

theorem seed_purchase (s : State) (o : Order) : (s.seed o).purchase = s.purchase := by
  rcases seed_eq s o with ⟨he, -⟩ | he <;> rw [he]
  exact record_purchase ..

theorem bought_seed (h : Bought s) (o : Order) : Bought (s.seed o) := by
  intro hp
  rw [seed_payment] at hp
  rw [seed_purchase]
  exact h hp

theorem serviceReady_stands (h : Stands s) (hb : s.owner.blank = false)
    (hq : s.purchase.isSome = true) (hw : s.walletTopUp = false) {d : Delivery}
    (hc : (!walletFallbackAllowed (s.stage.getD PAYMENT_CONFIRMED) || d.saving s.stage) = true)
    (o : Order) : Stands (s.serviceReady o d) := by
  have hst : ((s.isPaid o).seed o).stage = some (s.stage.getD PAYMENT_CONFIRMED) :=
    seed_getD (s := s.isPaid o) hw o
  have hbt : Bought ((s.isPaid o).seed o) := bought_seed (s := s.isPaid o) h.2 o
  unfold State.serviceReady
  cases ha : walletFallbackAllowed (s.stage.getD PAYMENT_CONFIRMED) with
  | false =>
    apply deliver_unmoved_stands _ hbt
    rw [State.pending, hst]
    exact ha
  | true =>
    have hd : d.saving s.stage = true := by simpa [ha] using hc
    apply deliver_moved_stands hst ha _ hbt
    · intro hi
      refine ⟨by simpa [Delivery.saving, hi] using hd, ?_⟩
      rw [seed_purchase]
      exact hq
    · intro hi
      have hpr : s.stage = some PROVISIONING := by simpa [Delivery.saving, hi] using hd
      apply h.record hpr
      · exact view_seed ..
      · exact seed_prefs ..
      · exact seed_owner ..
    · rw [seed_owner]
      exact hb

theorem refunded_eq (st : GhajarOrderStage) :
    (onWalletRefunded st).getD WALLET_REFUNDED = WALLET_REFUNDED := by
  unfold onWalletRefunded
  split <;> rfl

theorem walletCredited_stands (h : Bought s) (o : Order) (c : CheckAnswers) :
    Stands (s.walletCredited o c) := by
  have hb (st : GhajarOrderStage) :
      Bought (((s.isPaid o).isRefunded o).record (some o) st) :=
    bought_record (s := (s.isPaid o).isRefunded o) h _ _
  unfold State.walletCredited
  simp only [refunded_eq]
  apply persist_ind (P := Stands)
  · exact .fixed (hb _) (pending_record ..)
  · split
    · exact stands_finish _
    · exact .fixed (hb _) (pending_record ..)
  · intro p
    split
    · exact stands_finish _
    · exact .fixed (hb _) (pending_record ..)

theorem seed_stage_getD (s : State) (o : Order) :
    (s.seed o).stage.getD PAYMENT_CONFIRMED = s.stage.getD PAYMENT_CONFIRMED := by
  unfold State.seed
  cases hs : s.stage with
  | some st => exact congrArg (·.getD PAYMENT_CONFIRMED) hs
  | none =>
    cases hw : s.walletTopUp with
    | true => exact congrArg (·.getD PAYMENT_CONFIRMED) hs
    | false => exact congrArg (·.getD PAYMENT_CONFIRMED) (record_stage ..)

/-- A refused fallback, after the save: it is saved again, or nothing has changed. -/
theorem refused_stands {st : GhajarOrderStage} (hst : s.stage = some st)
    (hw : walletFallbackAllowed st = true) (hs : Stands s) {saves : Bool}
    (hc : (saves || st == PROVISION_FAILED) = true) (o : Option Order) :
    Stands ((s.record o (onDeliveryFailed st)).persist saves id) := by
  obtain ⟨hb, hq⟩ := hs.1.open (by rw [State.pending, hst]; exact hw)
  rw [failed_allowed hw]
  cases hsv : saves with
  | true =>
    apply stands_persist
    · rw [record_owner]
      exact hb
    · rw [record_purchase]
      exact hq
    · exact fun _ => rfl
  | false =>
    have hpf : st = PROVISION_FAILED := by simpa [hsv] using hc
    subst hpf
    rw [record_same hst]
    obtain ⟨p, hp⟩ := Option.isSome_iff_exists.1 hq
    rw [State.persist, hp]
    exact hs

theorem paidWaiting_stands (hb : s.owner.blank = false)
    (hq : s.purchase.isSome = true) {status : PaymentStatus} {c : CheckAnswers}
    (hc : (!walletFallbackAllowed (s.stage.getD PAYMENT_CONFIRMED) ||
      (c.saves && (c.credited || c.saves' ||
        s.stage.getD PAYMENT_CONFIRMED == PROVISION_FAILED))) = true)
    (v : GhajarPaymentInit) : Stands (s.paidWaiting v status c) := by
  unfold State.paidWaiting
  simp only
  generalize Order.invoice v.orderId = o
  have hg : ((s.isPaid o).seed o).stage.getD PAYMENT_CONFIRMED = s.stage.getD PAYMENT_CONFIRMED :=
    seed_stage_getD (s.isPaid o) o
  rw [hg]
  generalize s.stage.getD PAYMENT_CONFIRMED = st at hc
  -- the state that is to be saved
  generalize ht : { ((s.isPaid o).seed o).record (some o) st with
    paidWaitingChecks := ((s.isPaid o).seed o).paidWaitingChecks + 1 } = t
  have hst : t.stage = some st := by rw [← ht]; exact record_stage ..
  have htb : t.owner.blank = false := by
    rw [← ht]
    change (((s.isPaid o).seed o).record (some o) st).owner.blank = false
    rw [record_owner, seed_owner]
    exact hb
  have htq : t.purchase.isSome = true := by
    rw [← ht]
    change (((s.isPaid o).seed o).record (some o) st).purchase.isSome = true
    rw [record_purchase, seed_purchase]
    exact hq
  obtain ⟨p, hp⟩ := Option.isSome_iff_exists.1 htq
  rw [State.persist, hp]
  simp only
  split
  case isFalse hno =>
    apply Stands.fixed fun _ => htq
    rw [State.pending, hst, Option.any_some]
    cases hw : walletFallbackAllowed st with
    | false => rfl
    | true => simp [hw, hno] at hc
  case isTrue =>
    have hsaved : Stands (t.save p) := ⟨survives_save htb hp, fun _ => htq⟩
    split
    · exact hsaved
    · rename_i hmay
      have hw : walletFallbackAllowed st = true := by
        simp only [Bool.not_eq_true', Bool.not_eq_false, Bool.and_eq_true] at hmay
        exact hmay.1.1.2
      split
      · rw [refunded_eq]
        have hfixed : Stands (({ t.save p with
            fallbackAttemptedOrderId := some v.orderId }.isRefunded o).record (some o)
              WALLET_REFUNDED) := by
          refine .fixed ?_ (pending_record ..)
          apply bought_record
          exact fun _ => htq
        split
        · exact stands_finish _
        · exact hfixed
      · rename_i hcred
        apply refused_stands
        · exact hst
        · exact hw
        · exact hsaved.congr rfl rfl rfl
        · have hcr : c.credited = false := by simpa using hcred
          simp only [hw, hcr, Bool.not_true, Bool.false_or, Bool.and_eq_true] at hc
          exact hc.2

theorem checkPayment_stands (h : Stands s) (hb : s.owner.blank = false)
    (status : Option PaymentStatus) (d : Delivery) (c : CheckAnswers)
    (hc : (s.payment.isNone || status.all fun status => checkSaving s status d c) = true) :
    Stands (s.checkPayment status d c) := by
  unfold State.checkPayment
  split
  case h_2 => exact h
  case h_1 invoice status hv =>
    have hcs : checkSaving s status d c = true := by simpa [hv] using hc
    have hq : s.purchase.isSome = true := h.2 (by rw [hv]; rfl)
    simp only
    generalize hv' : { invoice with
      expiresAt := status.expires_at.getD invoice.expiresAt } = v'
    have hs : Stands { s with payment := some v' } := by
      refine h.congr ?_ rfl rfl
      simp only [view, hv, ← hv', Option.map_some]
    unfold checkSaving at hcs
    split
    case h_1 =>
      apply walletCredited_stands
      exact fun _ => hq
    case h_2 ho =>
      rw [ho] at hcs
      exact serviceReady_stands hs hb hq (waiting_outcome (.inl ho)) hcs _
    case h_3 ho =>
      rw [ho] at hcs
      exact paidWaiting_stands (s := { s with payment := some v' }) hb hq hcs invoice
    case h_4 => exact hs
    case h_5 => exact hs

end Check

theorem block_stands (h : Stands s) (hb : s.owner.blank = false) {op : Operation}
    (hc : op.saving s = true) : Stands (op.block s) := by
  cases op with
  | buy result service d saves => exact buy_stands h hb hc
  | topUp amount balance saves => exact topUp_stands h hb amount balance hc
  | beginPayment method result saves => exact beginPayment_stands h hb method result hc
  | uploadReceipt uploaded saves => exact uploadReceipt_stands h hb uploaded hc
  | trial created d =>
    cases created with
    | false => exact h
    | true => exact deliver_stands h (by simpa [Operation.saving] using hc) _ _
  | importOwned service d =>
    cases service with
    | none => exact h
    | some o => exact deliver_stands h (by simpa [Operation.saving] using hc) _ _
  | checkPayment status d c => exact checkPayment_stands h hb status d c hc
  | resumePayment item status saves => exact resumePayment_stands h hb item status hc
  | cancelPayment orderId cancelled status =>
    exact cancelPayment_stands h orderId cancelled status

/-- The owner is the account of the operation, once it has begun. -/
theorem Stands.begin (h : Stands s) {account : String} (hch : s.changed account = false) :
    Stands { s with owner := account } := by
  refine ⟨fun hp => ?_, h.2⟩
  obtain ⟨hb, -⟩ := h.1.open hp
  have he : s.owner = account := by simpa [State.changed, hb] using hch
  subst he
  exact h.1 hp

theorem saving_owner (s : State) (owner : String) (op : Operation) :
    op.saving { s with owner := owner } = op.saving s := by
  cases op with
  | checkPayment status d c => simp only [Operation.saving, checkSaving]
  | _ => rfl

/-- What a new process finds it finds again. -/
theorem restore_stands (s : State) (account : String) : Stands (s.restore account) := by
  have hr : (s.restore account).prefs = s.prefs := by
    unfold State.restore
    split
    · rfl
    · split <;> rfl
  have ho : (s.restore account).owner = account := by
    unfold State.restore
    split
    · rfl
    · split <;> rfl
  refine ⟨fun _ => ?_, ?_⟩
  · rw [ho]
    exact view_restore_congr hr account
  · unfold State.restore
    split
    · intro hp
      cases hp
    · split
      · intro hp
        cases hp
      · intro _
        rfl

theorem step_stands (h : Stands s) {a : Action} (hc : Saving s a) : Stands (s.next a) := by
  cases a with
  | operation account op =>
    change Stands (s.runOperation account op)
    unfold State.runOperation
    split
    · exact h
    rename_i hblank
    split
    · exact .fixed (fun hp => by cases hp) rfl
    · rename_i hch
      have hop : op.saving s = true := by
        simpa only [Saving, saving, hblank, hch, Bool.false_or] using hc
      rw [← saving_owner s account] at hop
      exact block_stands (h.begin (by simpa using hch)) (by simpa using hblank) hop
  | choose receipt => exact h.congr rfl rfl rfl
  | leaveInvoice =>
    change Stands s.leaveInvoice
    unfold State.leaveInvoice
    split
    · exact (stands_finish s).congr rfl rfl rfl
    · exact h
  | reset => exact .fixed (fun hp => by cases hp) rfl
  | restart account => exact restore_stands s account

/-- **A paid order survives**, in every run whose steps save what they set of it. -/
theorem paid_survives {as : List Action} (hc : Meets step Saving initial as) :
    Visits step Survives initial as := by
  have hstep : ∀ s a s', Stands s → Saving s a → step s a = some s' → Stands s' := by
    intro s a s' hi hca hs
    cases hs
    exact step_stands hi hca
  exact visits_of_inv hstep (fun s h => h.1) ⟨survives_of_fixed rfl, fun h => by cases h⟩ hc

/-! ## Runs -/

/-- A purchase from the balance whose service cannot be imported. -/
def unserved : List Action :=
  [.operation "me" (.buy (some ⟨true, false, some "u", 0, 10, 0, some ⟨"u"⟩⟩) none ⟨none, true⟩ true)]

/-- The failed order is in memory alone: no purchase is open to be saved with it. -/
theorem wallet_order_lost :
    ¬ Visits step Survives initial unserved ∧
      ∃ s, run step initial unserved = some s ∧ s.stage = some PROVISION_FAILED ∧
        (s.restore s.owner).stage = none := by
  have hrun : ∃ s, run step initial unserved = some s ∧ s.stage = some PROVISION_FAILED ∧
      (s.restore s.owner).stage = none :=
    ⟨_, rfl, by decide +kernel, by decide +kernel⟩
  refine ⟨fun hv => ?_, hrun⟩
  obtain ⟨s, hs, hst, hr⟩ := hrun
  have hview := hv.at_end hs (by rw [State.pending, hst]; rfl)
  have he : (s.restore s.owner).stage = s.stage := congrArg View.stage hview
  rw [hr, hst] at he
  cases he

/-- An order paid through a gateway whose delivery fails, is saved and is found again. -/
theorem gateway_order_found :
    Visits step Survives initial
      [.operation "me" (.buy (some ⟨false, true, some "u", 50, 0, 50, none⟩) none ⟨none, true⟩ true),
        .operation "me" (.beginPayment ⟨"card", "card", 0, 0⟩
          (some ⟨"card", "A", none, none, none, 50, 500, "", "card", "", 0⟩) true),
        .operation "me" (.checkPayment (some ⟨"paid", none, some ⟨"u"⟩, true, false⟩) ⟨none, true⟩
          ⟨true, true, true, false⟩),
        .restart "me"] :=
  paid_survives (by decide +kernel)

end Ghajar.Checkout
