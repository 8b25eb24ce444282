import Ghajar.Checkout.Stage

/-!
# What an operation does to the stage

`Kept s t` is what every clean operation establishes: the invariant, and that an
order without an invoice is not exchanged under a stage. A delivery is one of two
cases (`deliver_moved`, `deliver_unmoved`), by whether there is a stage to move.
-/

namespace Ghajar.Checkout

open Run GhajarOrderStage GhajarOrderFlow GhajarCommerceRules

def Kept (s t : State) : Prop :=
  Inv t ∧ (t.payment = none → t.stage.isSome = true → t.opened = s.opened)

variable {s t : State} {o : Order} {st : GhajarOrderStage}

theorem kept_none (h : Inv t) (hn : t.stage = none) : Kept s t := by
  refine ⟨h, fun _ hs => ?_⟩
  rw [hn] at hs
  cases hs

theorem kept_payment (h : Inv t) (hp : t.payment.isSome = true) : Kept s t := by
  refine ⟨h, fun hn => ?_⟩
  rw [hn] at hp
  cases hp

theorem kept_same (h : Inv t) (hp : t.payment = s.payment) (hq : t.purchase = s.purchase)
    (hn : t.book.quoted = s.book.quoted) : Kept s t := by
  refine ⟨h, fun _ _ => ?_⟩
  rw [State.opened, State.opened, hp, hq, hn]

theorem kept_refl (h : Inv s) : Kept s s := kept_same h rfl rfl rfl

/-! ## Deliveries -/

/-- A delivery with a stage to move. -/
theorem deliver_moved (hs : s.stage = some st) (hw : walletFallbackAllowed st = true)
    (o : Option Order) (d : Delivery) (f : Bool) :
    s.deliver o d f =
      match d.imported with
      | none =>
        ((s.record o PROVISIONING).record o PROVISION_FAILED).persist d.saves id
      | some count =>
        if count > 0 then
          let t := ((s.record o PROVISIONING).isImported o).record o DELIVERED
          if f then t.finish else t
        else s.record o PROVISIONING := by
  rw [State.deliver, hs, Option.map_some, attempt_of_allowed hw]
  cases hd : d.imported with
  | none => rfl
  | some count =>
    have hd := onDelivered_attempt count
    by_cases hc : count > 0
    · cases f <;> simp [hc, hd]
    · simp [hc, hd, record_same]

/-- A delivery that finds no stage, or one that nothing moves. -/
theorem deliver_unmoved (hw : s.stage.any walletFallbackAllowed = false) (o : Option Order)
    (d : Delivery) (f : Bool) :
    s.deliver o d f =
      match d.imported with
      | none => if s.stage.isSome then s.persist d.saves id else s
      | some count =>
        let t := if count > 0 then s.isImported o else s
        if count > 0 && f then t.finish else t := by
  cases hs : s.stage with
  | none =>
    rw [State.deliver, hs]
    cases hd : d.imported <;> rfl
  | some st =>
    rw [hs] at hw
    obtain ⟨h1, -, h3, -⟩ := ended_stays hw 0
    rw [State.deliver, hs, Option.map_some, h1]
    cases hd : d.imported with
    | none => simp [record_same hs, h3]
    | some count =>
      obtain ⟨-, h2, -, -⟩ := ended_stays hw count
      have hi : (s.isImported o).stage = some st := hs
      by_cases hc : count > 0
      · simp [record_same hs, h2, hc, record_same hi]
      · simp [record_same hs, h2, hc]

/-- Where the panel has no configurations yet, a delivery that has begun stays so. -/
theorem deliver_idle (hs : s.stage = some PROVISIONING) {o : Option Order} {d : Delivery}
    (hd : d.imported = some 0) (f : Bool) : s.deliver o d f = s := by
  rw [deliver_moved hs rfl, hd]
  simp only [gt_iff_lt, Nat.lt_irrefl, if_false, record_same hs]

theorem settled_isImported (s : State) (o : Order) : Settled (s.isImported (some o)).book o :=
  .inl List.mem_cons_self

section Own

variable {v : GhajarPaymentInit} {r : State}

theorem kept_own (hs : s.stage.isSome = true) (hv : s.payment = some v)
    (h : About (.invoice v.orderId) s) : Kept r s :=
  kept_payment (h.inv hs hv) (by rw [hv]; rfl)

theorem kept_finish (ho : s.owed = []) : Kept r s.finish := kept_none (inv_finish ho) rfl

theorem kept_persist (hs : s.stage.isSome = true) (hv : s.payment = some v)
    (h : About (.invoice v.orderId) s) (saves : Bool) : Kept r (s.persist saves id) :=
  persist_ind (kept_own hs hv h) (kept_own hs hv h) fun p => kept_own hs hv (h.save hv p)

/-- The service of the open invoice is delivered. -/
theorem deliver_own (hs : s.stage.isSome = true) (hv : s.payment = some v)
    (h : About (.invoice v.orderId) s) (d : Delivery) (f : Bool) :
    Kept r (s.deliver (some (.invoice v.orderId)) d f) := by
  obtain ⟨st, hst⟩ := Option.isSome_iff_exists.1 hs
  cases hw : walletFallbackAllowed st with
  | true =>
    have hp : About (.invoice v.orderId) (s.record (some (.invoice v.orderId)) PROVISIONING) :=
      h.record fun hc => by cases hc
    rw [deliver_moved hst hw]
    cases d.imported with
    | none =>
      exact kept_persist (by simp) (by simpa using hv) (hp.record fun hc => by cases hc) d.saves
    | some count =>
      simp only
      split
      · have hd : About (.invoice v.orderId)
            (((s.record (some (.invoice v.orderId)) PROVISIONING).isImported
              (some (.invoice v.orderId))).record (some (.invoice v.orderId)) DELIVERED) :=
          (hp.isImported _).record fun _ => settled_isImported _ _
        split
        · exact kept_finish (hd.owed_nil (hd.settled _ (record_stage ..) rfl))
        · exact kept_own (by simp) (by simpa [State.isImported] using hv) hd
      · exact kept_own (by simp) (by simpa using hv) hp
  | false =>
    rw [deliver_unmoved (by rw [hst]; exact hw)]
    have hset := h.settled st hst hw
    cases d.imported with
    | none =>
      simp only [hs, if_true]
      exact kept_persist hs hv h d.saves
    | some count =>
      have hi : About (.invoice v.orderId)
          (if count > 0 then s.isImported (some (.invoice v.orderId)) else s) := by
        split
        · exact h.isImported _
        · exact h
      have hsi : (if count > 0 then s.isImported (some (.invoice v.orderId)) else s).stage =
          some st := by
        split <;> exact hst
      have hvi : (if count > 0 then s.isImported (some (.invoice v.orderId)) else s).payment =
          some v := by
        split <;> exact hv
      simp only
      split
      · exact kept_finish (hi.owed_nil (hi.settled st hsi hw))
      · exact kept_own (by rw [hsi]; rfl) hvi hi

end Own

/-- The service of a purchase that has just been paid from the wallet is delivered. -/
theorem deliver_wallet (hs : s.stage = some PAYMENT_CONFIRMED) (hv : s.payment = none)
    (h : About o s) {d : Delivery} (hd : d.imported.isSome = true) :
    Kept s (s.deliver (some o) d true) := by
  obtain ⟨count, hc⟩ := Option.isSome_iff_exists.1 hd
  have hp : About o (s.record (some o) PROVISIONING) := h.record fun hc => by cases hc
  rw [deliver_moved hs rfl, hc]
  simp only
  split
  · have hi : About o (((s.record (some o) PROVISIONING).isImported (some o)).record (some o)
        DELIVERED) := (hp.isImported _).record fun _ => settled_isImported _ _
    exact kept_finish (hi.owed_nil (hi.settled _ (record_stage ..) rfl))
  · refine kept_same (.inr ⟨o, by simp, hp, .inr ⟨by simpa using hv, .inr (by simp)⟩⟩) ?_ ?_ ?_ <;>
      simp

/-! ## Imports by hand -/

/-- The ways in which an import by hand can be clean. -/
theorem importClean_cases {o : Option Order} {d : Delivery} (hc : importClean s o d = true) :
    s.stage.any walletFallbackAllowed = false ∨
      (s.stage = some PROVISIONING ∧ d.imported = some 0) ∨
      (∃ v, s.payment = some v ∧ o = some (.invoice v.orderId)) ∨
      (o.isSome = true ∧ o = s.book.stageOf ∧ d.imported = some 0) := by
  simp only [importClean, Bool.or_eq_true, Bool.and_eq_true, Bool.not_eq_true', beq_iff_eq,
    Option.any_eq_true] at hc
  rcases hc with ((h | h) | h) | ⟨⟨h1, h2⟩, h3⟩
  · exact .inl h
  · exact .inr (.inl h)
  · exact .inr (.inr (.inl h))
  · exact .inr (.inr (.inr ⟨h1, h2, h3⟩))

/-- A stage to move is of an order that the invariant knows. -/
theorem Inv.moved (h : Inv s) (hw : s.stage.any walletFallbackAllowed = true) :
    ∃ st o, s.stage = some st ∧ walletFallbackAllowed st = true ∧ About o s ∧ Held o s := by
  rcases h with ⟨hn, -, -⟩ | ⟨o, hs, ha, hh⟩
  · rw [hn] at hw
    cases hw
  · obtain ⟨st, hst⟩ := Option.isSome_iff_exists.1 hs
    rw [hst] at hw
    exact ⟨st, o, hst, hw, ha, hh⟩

/-- A stage that nothing moves is the payment's. -/
theorem Inv.fixed (h : Inv s) (hw : s.stage.any walletFallbackAllowed = false)
    (hs : s.stage.isSome = true) : s.payment.isSome = true := by
  rcases h with ⟨hn, -, -⟩ | ⟨o, -, -, hh⟩
  · rw [hn] at hs
    cases hs
  · rcases hh with ⟨v, hv, -⟩ | ⟨-, hp | hp⟩
    · rw [hv]
      rfl
    · rw [hp] at hw
      cases hw
    · rw [hp] at hw
      cases hw

theorem Inv.isImported (h : Inv s) (o : Option Order) : Inv (s.isImported o) :=
  h.congr rfl rfl rfl rfl rfl (fun _ => settled_imported _ _) fun _ => id

theorem deliver_clean (h : Inv s) {o : Option Order} {d : Delivery}
    (hc : importClean s o d = true) : Kept s (s.deliver o d false) := by
  cases hw : s.stage.any walletFallbackAllowed with
  | false =>
    rw [deliver_unmoved hw]
    cases d.imported with
    | none =>
      simp only
      split
      · exact persist_ind (kept_refl h) (kept_refl h) fun p =>
          kept_same (h.save (h.fixed hw) p) rfl rfl rfl
      · exact kept_refl h
    | some count =>
      simp only [Bool.and_false, Bool.false_eq_true, if_false]
      split
      · exact kept_same (h.isImported o) rfl rfl rfl
      · exact kept_refl h
  | true =>
    obtain ⟨st, o', hst, hwst, ha, hh⟩ := h.moved hw
    rcases importClean_cases hc with hn | ⟨hp, h0⟩ | ⟨v, hv, rfl⟩ | ⟨-, ho, h0⟩
    · rw [hw] at hn
      cases hn
    · rw [deliver_idle hp h0 false]
      exact kept_refl h
    · rcases hh with ⟨v', hv', rfl⟩ | ⟨hn, -⟩
      · rw [hv] at hv'
        cases hv'
        exact deliver_own (by rw [hst]; rfl) hv ha d false
      · rw [hv] at hn
        cases hn
    · rw [ha.stageOf st hst] at ho
      subst ho
      rw [deliver_moved hst hwst, h0]
      simp only [gt_iff_lt, Nat.lt_irrefl, if_false]
      have hr : About o' (s.record (some o') PROVISIONING) := ha.record fun hc => by cases hc
      refine kept_same (.inr ⟨o', by simp, hr, ?_⟩) ?_ ?_ ?_
      · rcases hh with ⟨v, hv, he⟩ | ⟨hn, -⟩
        · exact .inl ⟨v, by simpa using hv, he⟩
        · exact .inr ⟨by simpa using hn, .inr (by simp)⟩
      all_goals simp

/-- **An import by hand of another order's service leaves the stage alone.** -/
theorem deliver_apart (h : Inv s) {o : Option Order} {d : Delivery}
    (hc : importClean s o d = true) (ho : o = none ∨ o ≠ s.book.stageOf) :
    (s.deliver o d false).stage = s.stage ∧
      (s.deliver o d false).book.stageOf = s.book.stageOf := by
  cases hw : s.stage.any walletFallbackAllowed with
  | false =>
    rw [deliver_unmoved hw]
    cases d.imported with
    | none =>
      simp only
      split
      · exact persist_ind
          (P := fun t => t.stage = s.stage ∧ t.book.stageOf = s.book.stageOf)
          ⟨rfl, rfl⟩ ⟨rfl, rfl⟩ fun _ => ⟨rfl, rfl⟩
      · exact ⟨rfl, rfl⟩
    | some count =>
      simp only [Bool.and_false, Bool.false_eq_true, if_false]
      split <;> exact ⟨rfl, rfl⟩
  | true =>
    obtain ⟨st, o', hst, hwst, ha, hh⟩ := h.moved hw
    rcases importClean_cases hc with hn | ⟨hp, h0⟩ | ⟨v, hv, rfl⟩ | ⟨hsome, he, -⟩
    · rw [hw] at hn
      cases hn
    · rw [deliver_idle hp h0 false]
      exact ⟨rfl, rfl⟩
    · rcases hh with ⟨v', hv', rfl⟩ | ⟨hn, -⟩
      · rw [hv] at hv'
        cases hv'
        rcases ho with ho | ho
        · cases ho
        · exact absurd (ha.stageOf st hst).symm ho
      · rw [hv] at hn
        cases hn
    · rcases ho with ho | ho
      · rw [ho] at hsome
        cases hsome
      · exact absurd he ho

/-! ## Another order in the place of the open one -/

/-- Without a stage any order may be opened. -/
theorem kept_opened (h : Inv s) (hn : s.stage = none) (ht : t.stage = none)
    (hp : t.book.paid = s.book.paid) (hi : t.book.imported = s.book.imported)
    (hr : t.book.refunded = s.book.refunded) (hpr : t.prefs = s.prefs)
    (hso : t.book.savedOf = s.book.savedOf) (saves : Bool) : Kept s (t.persist saves id) := by
  have ho : t.owed = [] := by
    rw [State.owed, hp, hi, hr]
    exact h.owed_nil hn
  have hinv : Inv t := inv_none ht ho
    (h.saved.mono hpr hso fun o hs => by rwa [Settled, hi, hr])
  refine persist_ind (kept_none hinv ht) (kept_none hinv ht) fun p => kept_none ?_ ht
  exact hinv.save (fun hs => by rw [ht] at hs; cases hs) p

theorem Inv.owner (h : Inv s) (owner : String) : Inv { s with owner := owner } :=
  h.congr rfl rfl rfl rfl rfl (fun _ => id) fun _ => id

/-- The parts of the condition on an operation. -/
theorem clean_parts {op : Operation} (hc : op.clean s = true) :
    (op.opens s = true ∨ op.pays s = true → s.stage = none) ∧
      (op.pays s = true → op.payFails = false) ∧
      ∀ o d, op.imports = some (o, d) → importClean s o d = true := by
  simp only [Operation.clean, Bool.and_eq_true, Bool.or_eq_true, Bool.not_eq_true',
    Bool.or_eq_false_iff, Bool.and_eq_false_iff, Option.isNone_iff_eq_none] at hc
  obtain ⟨⟨h1, h2⟩, h3⟩ := hc
  refine ⟨fun h => ?_, fun h => ?_, fun o d h => ?_⟩
  · rcases h1 with ⟨ho, hp⟩ | hn
    · rcases h with h | h
      · rw [ho] at h
        cases h
      · rw [hp] at h
        cases h
    · exact hn
  · rcases h2 with hp | hf
    · rw [hp] at h
      cases h
    · exact hf
  · rw [h] at h3
    exact h3

/-- A purchase is paid from the wallet. -/
theorem wallet_kept (h : Inv s) (hn : s.stage = none) (hp : s.payment = none) (o : Order)
    {service : Option GhajarServiceDetails} {d : Delivery}
    (hd : (service.isSome && d.imported.isNone) = false) :
    Kept s (s.paidFromWallet o service d) := by
  have ha : About o ((s.isPaid o).record (some o) PAYMENT_CONFIRMED) :=
    (about_none hn (h.owed_nil hn) h.saved o).isPaid.record fun hc => by cases hc
  have hpay : ((s.isPaid o).record (some o) PAYMENT_CONFIRMED).payment = none := by
    rw [record_payment]
    exact hp
  have hst : ((s.isPaid o).record (some o) PAYMENT_CONFIRMED).stage = some PAYMENT_CONFIRMED :=
    record_stage ..
  have hsame : ((s.isPaid o).record (some o) PAYMENT_CONFIRMED).opened = s.opened := by
    simp only [State.opened, record_payment, record_purchase, record_quoted]
    rfl
  cases service with
  | none =>
    change Kept s ((s.isPaid o).record (some o) PAYMENT_CONFIRMED)
    exact ⟨.inr ⟨o, by rw [hst]; rfl, ha, .inr ⟨hpay, .inl hst⟩⟩, fun _ _ => hsame⟩
  | some _ =>
    have hdel := deliver_wallet hst hpay ha (d := d) (by simpa using hd)
    exact ⟨hdel.1, fun h1 h2 => (hdel.2 h1 h2).trans hsame⟩

/-- A save with an invoice open. -/
theorem kept_paid (h : Inv t) (hp : t.payment.isSome = true) (saves : Bool) :
    Kept s (t.persist saves id) :=
  persist_ind (kept_payment h hp) (kept_payment h hp) fun p =>
    kept_payment (h.save (fun _ => hp) p) hp

theorem buy_kept (h : Inv s) {result : Option GhajarPurchaseResult}
    {service : Option GhajarServiceDetails} {d : Delivery} {saves : Bool}
    (hc : (Operation.buy result service d saves).clean s = true) :
    Kept s (s.buy result service d saves) := by
  obtain ⟨hopen, hfail, -⟩ := clean_parts hc
  unfold State.buy
  split
  · exact kept_refl h
  rename_i hp
  have hp : s.payment = none := by simpa using hp
  have hw : Inv { s with walletTopUp := false } :=
    h.congr rfl rfl rfl rfl rfl (fun _ => id) fun _ => id
  cases result with
  | none => exact kept_same hw rfl rfl rfl
  | some r =>
    simp only
    split
    case isTrue hr =>
      have hn := hopen (.inl (by simp [Operation.opens, hp, hr]))
      apply kept_opened h hn
      · exact hn
      all_goals rfl
    case isFalse hr =>
      split
      · exact kept_same (hw.congr rfl rfl rfl rfl rfl (fun _ => id) fun _ => id) rfl rfl rfl
      · rename_i hcomp
        have hpay : (Operation.buy (some r) service d saves).pays s = true := by
          simp only [Operation.pays, hp, Option.isNone_none, Bool.true_and]
          simpa [hr] using hcomp
        have hn := hopen (.inr hpay)
        have hmade : Inv { s with walletTopUp := false }.isMade :=
          hw.congr rfl rfl rfl rfl rfl (fun _ => id) fun _ => id
        exact wallet_kept hmade hn hp _ (hfail hpay)

theorem topUp_kept (h : Inv s) {amount : Int64} {balance : Option Int64} {saves : Bool}
    (hc : (Operation.topUp amount balance saves).clean s = true) :
    Kept s (s.topUp amount balance saves) := by
  obtain ⟨hopen, -, -⟩ := clean_parts hc
  unfold State.topUp
  split
  · exact kept_refl h
  · rename_i hp
    cases balance with
    | none => exact kept_refl h
    | some balance =>
      have hn : s.stage = none := by
        apply hopen
        simpa [Operation.opens, Operation.pays, not_or] using hp
      apply kept_opened h hn
      · exact hn
      all_goals rfl

theorem beginPayment_kept (h : Inv s) {method : GhajarPaymentMethod}
    {result : Option GhajarPaymentInit} {saves : Bool}
    (hc : (Operation.beginPayment method result saves).clean s = true) :
    Kept s (s.beginPayment method result saves) := by
  obtain ⟨hopen, -, -⟩ := clean_parts hc
  unfold State.beginPayment
  split
  · exact kept_refl h
  rename_i target htarget
  split
  · exact kept_refl h
  rename_i hp
  split
  · exact kept_refl h
  rename_i hlimit
  cases result with
  | none => exact kept_refl h
  | some r =>
    simp only
    split
    · exact kept_refl h
    · rename_i hid
      have hn : s.stage = none := by
        apply hopen
        left
        simp only [Operation.opens, htarget, Option.any_some]
        simp only [Bool.not_eq_true, Option.isSome_eq_false_iff] at hp
        simp only [Bool.not_eq_true, Bool.not_eq_false'] at hlimit hid
        rw [hp, hid, hlimit]
        rfl
      apply kept_opened h hn
      · exact hn
      all_goals rfl

theorem resumePayment_kept (h : Inv s) {item : GhajarPendingPayment}
    {status : Option ResumeStatus} {saves : Bool}
    (hc : (Operation.resumePayment item status saves).clean s = true) :
    Kept s (s.resumePayment item status saves) := by
  obtain ⟨hopen, -, -⟩ := clean_parts hc
  unfold State.resumePayment
  cases status with
  | none => exact kept_refl h
  | some status =>
    cases hsame : s.payment.any (·.orderId == item.orderId) with
    | false =>
      have hn : s.stage = none := by
        apply hopen
        left
        simp [Operation.opens, hsame]
      apply kept_opened h hn
      · exact hn
      all_goals rfl
    | true =>
      rw [Option.any_eq_true] at hsame
      obtain ⟨v, hv, he⟩ := hsame
      have hprev : s.payment.filter (·.orderId == item.orderId) = some v := by
        rw [hv, Option.filter_some, if_pos he]
      simp only [hprev]
      apply kept_paid
      · exact h.congr rfl (by rw [hv]; rfl) rfl rfl rfl (fun _ => id) fun _ => id
      · rfl

theorem uploadReceipt_kept (h : Inv s) (uploaded saves : Bool) :
    Kept s (s.uploadReceipt uploaded saves) := by
  unfold State.uploadReceipt
  split
  · exact kept_refl h
  · rename_i hp
    have hv : s.payment.isSome = true := by
      cases hs : s.payment with
      | none => simp [hs] at hp
      | some v => rfl
    apply kept_paid
    · exact h.congr rfl rfl rfl rfl rfl (fun _ => id) fun _ => id
    · exact hv

theorem cancelPayment_kept (h : Inv s) (orderId : String) (cancelled : Bool)
    (status : Option String) : Kept s (s.cancelPayment orderId cancelled status) := by
  have hsub : ∀ o ∈ (s.isCancelled (.invoice orderId)).book.paid, o ∈ s.book.paid := fun o ho =>
    (List.mem_filter.1 ho).1
  unfold State.cancelPayment
  split
  · split
    · simp only
      split
      case isTrue hid =>
        -- the order that is cancelled is the one with the stage, and not paid any more
        have ho : (s.isCancelled (.invoice orderId)).owed = [] := by
          rw [List.eq_nil_iff_forall_not_mem]
          intro o hm
          obtain ⟨hpaid, hset⟩ := mem_owed.1 hm
          obtain ⟨hm', hne⟩ := List.mem_filter.1 hpaid
          obtain ⟨v, hv, rfl⟩ := Option.map_eq_some_iff.1 hid
          have he := (h.about hv).owed o (mem_owed.2 ⟨hm', hset⟩)
          rw [he] at hne
          simp at hne
        exact kept_none (inv_finish ho |>.congr rfl rfl rfl rfl rfl (fun _ => id) fun _ => id) rfl
      case isFalse =>
        exact kept_same (h.congr rfl rfl rfl rfl rfl (fun _ => id) hsub) rfl rfl rfl
    · exact kept_refl h
  · exact kept_refl h

/-! ## Checks -/

theorem waiting_outcome {status : String} {walletTopUp walletOnly serviceReady hasService : Bool}
    (h : paymentOutcome status walletTopUp walletOnly serviceReady hasService = .SERVICE_READY ∨
      paymentOutcome status walletTopUp walletOnly serviceReady hasService = .PAID_WAITING) :
    walletTopUp = false := by
  cases walletTopUp with
  | false => rfl
  | true =>
    unfold paymentOutcome at h
    cases hp : paid status <;> simp [hp] at h
    split at h <;> simp at h

section Check

variable {v : GhajarPaymentInit} {r : State}

theorem seed_eq (s : State) (o : Order) :
    s.seed o = s ∧ (s.stage.isSome = true ∨ s.walletTopUp = true) ∨
      s.seed o = s.record (some o) PAYMENT_CONFIRMED := by
  unfold State.seed
  cases hs : s.stage with
  | some st => exact .inl ⟨rfl, .inl rfl⟩
  | none =>
    cases hw : s.walletTopUp with
    | true => exact .inl ⟨rfl, .inr rfl⟩
    | false => exact .inr rfl

theorem About.seed (h : About o s) : About o (s.seed o) := by
  rcases seed_eq s o with ⟨he, -⟩ | he <;> rw [he]
  · exact h
  · exact h.record fun hc => by cases hc

theorem seed_payment (s : State) (o : Order) : (s.seed o).payment = s.payment := by
  rcases seed_eq s o with ⟨he, -⟩ | he <;> rw [he]
  exact record_payment ..

theorem seed_stage (o : Order) (hw : s.walletTopUp = false) : (s.seed o).stage.isSome = true := by
  rcases seed_eq s o with ⟨he, h | h⟩ | he
  · rw [he]
    exact h
  · rw [hw] at h
    cases h
  · rw [he, record_stage]
    rfl

theorem serviceReady_kept (hv : s.payment = some v) (hw : s.walletTopUp = false)
    (h : About (.invoice v.orderId) s) (d : Delivery) :
    Kept r (s.serviceReady (.invoice v.orderId) d) := by
  apply deliver_own
  · exact seed_stage _ hw
  · exact (seed_payment _ _).trans hv
  · exact h.isPaid.seed

theorem settled_isRefunded (s : State) (o : Order) : Settled (s.isRefunded o).book o :=
  .inr List.mem_cons_self

/-- Once the money is back the order may end, or be left as it is. -/
theorem refunded_kept (hv : s.payment = some v) (h : About (.invoice v.orderId) s)
    (hset : Settled s.book (.invoice v.orderId)) (hs : s.stage.isSome = true) (b : Bool) :
    Kept r (if b then s.finish else s) := by
  split
  · exact kept_finish (h.owed_nil hset)
  · exact kept_own hs hv h

theorem settled_record (o : Option Order) (st : GhajarOrderStage) (o' : Order) :
    Settled (s.record o st).book o' ↔ Settled s.book o' := by
  rcases record_eq s o st with ⟨he, -⟩ | he <;> rw [he]
  rfl

theorem walletCredited_kept (hv : s.payment = some v) (h : About (.invoice v.orderId) s)
    (c : CheckAnswers) : Kept r (s.walletCredited (.invoice v.orderId) c) := by
  have hset := settled_isRefunded (s.isPaid (.invoice v.orderId)) (.invoice v.orderId)
  have ha (st : GhajarOrderStage) : About (.invoice v.orderId)
      (((s.isPaid (.invoice v.orderId)).isRefunded (.invoice v.orderId)).record
        (some (.invoice v.orderId)) st) :=
    (h.isPaid.isRefunded _).record fun _ => hset
  have hp (st : GhajarOrderStage) := (record_payment
    ((s.isPaid (.invoice v.orderId)).isRefunded (.invoice v.orderId))
    (some (.invoice v.orderId)) st).trans hv
  have hss (st : GhajarOrderStage) : (((s.isPaid (.invoice v.orderId)).isRefunded
      (.invoice v.orderId)).record (some (.invoice v.orderId)) st).stage.isSome = true := by
    rw [record_stage]
    rfl
  apply persist_ind (P := Kept r)
  · exact kept_own (hss _) (hp _) (ha _)
  · exact refunded_kept (hp _) (ha _) ((settled_record ..).2 hset) (hss _) _
  · intro p
    apply refunded_kept
    · exact hp _
    · exact (ha _).save (hp _) p
    · exact (settled_record ..).2 hset
    · exact hss _

/-- What may come after the save of an order that waits: nothing, the refund, or one more failure. -/
theorem fallback_kept {st : GhajarOrderStage} (hs : s.stage = some st) (hv : s.payment = some v)
    (h : About (.invoice v.orderId) s) (b : Bool) (c : CheckAnswers) :
    Kept r (if b then
      if c.options then ((s.isRefunded (.invoice v.orderId)).record (some (.invoice v.orderId))
        ((onWalletRefunded st).getD WALLET_REFUNDED)).finish
      else (s.isRefunded (.invoice v.orderId)).record (some (.invoice v.orderId))
        ((onWalletRefunded st).getD WALLET_REFUNDED)
    else (s.record (some (.invoice v.orderId)) (onDeliveryFailed st)).persist c.saves' id) := by
  cases b with
  | true =>
    have hset := settled_isRefunded s (.invoice v.orderId)
    apply refunded_kept
    · exact (record_payment ..).trans hv
    · exact (h.isRefunded _).record fun _ => hset
    · exact (settled_record ..).2 hset
    · rw [record_stage]
      rfl
  | false =>
    apply kept_persist
    · rw [record_stage]
      rfl
    · exact (record_payment ..).trans hv
    · apply h.record
      intro hw
      cases ha : walletFallbackAllowed st with
      | true =>
        rw [failed_allowed ha] at hw
        cases hw
      | false => exact h.settled st hs ha

theorem paidWaiting_kept {w : GhajarPaymentInit} (hv : s.payment = some v)
    (hid : w.orderId = v.orderId) (h : About (.invoice v.orderId) s) (status : PaymentStatus)
    (c : CheckAnswers) : Kept r (s.paidWaiting w status c) := by
  unfold State.paidWaiting
  rw [hid]
  simp only
  have ha := h.isPaid.seed
  have hp := (seed_payment (s.isPaid (.invoice v.orderId)) (.invoice v.orderId)).trans hv
  generalize (s.isPaid (.invoice v.orderId)).seed (.invoice v.orderId) = t at ha hp
  have hset : walletFallbackAllowed (t.stage.getD PAYMENT_CONFIRMED) = false →
      Settled t.book (.invoice v.orderId) := by
    cases hs : t.stage with
    | none => intro hw; cases hw
    | some st => exact ha.settled st hs
  generalize t.stage.getD PAYMENT_CONFIRMED = st at hset
  have hr := ha.record hset
  have hrp := (record_payment t (some (.invoice v.orderId)) st).trans hp
  have hrs := record_stage t (some (.invoice v.orderId)) st
  have hchecks (n : Nat) : About (.invoice v.orderId)
      { t.record (some (.invoice v.orderId)) st with paidWaitingChecks := n } :=
    hr.mono rfl rfl rfl rfl (fun _ => id) fun _ => .inr
  have hsome : (t.record (some (.invoice v.orderId)) st).stage.isSome = true := by
    rw [hrs]
    rfl
  apply persist_ind (P := Kept r)
  · exact kept_own hsome hrp (hchecks _)
  · split
    · exact kept_own hsome hrp (hchecks _)
    · apply fallback_kept
      · exact hrs
      · exact hrp
      exact hr.mono rfl rfl rfl rfl (fun _ => id) fun _ => .inr
  · intro p
    have hsaved (n : Nat) : About (.invoice v.orderId)
        ({ t.record (some (.invoice v.orderId)) st with paidWaitingChecks := n }.save p) := by
      apply About.save
      · exact hrp
      · exact hchecks n
    split
    · apply kept_own
      · exact hsome
      · exact hrp
      · exact hsaved _
    · apply fallback_kept
      · exact hrs
      · exact hrp
      exact (hsaved 0).mono rfl rfl rfl rfl (fun _ => id) fun _ => .inr

theorem checkPayment_kept (h : Inv s) (status : Option PaymentStatus) (d : Delivery)
    (c : CheckAnswers) : Kept s (s.checkPayment status d c) := by
  unfold State.checkPayment
  split
  case h_2 => exact kept_refl h
  case h_1 invoice status hv =>
    simp only
    generalize hv' : { invoice with
      expiresAt := status.expires_at.getD invoice.expiresAt } = v'
    have hid : invoice.orderId = v'.orderId := by rw [← hv']
    have hinv : Inv { s with payment := some v' } :=
      h.congr rfl (by rw [hv, Option.map_some, Option.map_some, hid]) rfl rfl rfl
        (fun _ => id) fun _ => id
    have hp : ({ s with payment := some v' } : State).payment = some v' := rfl
    have ha := hinv.about hp
    split
    case h_1 =>
      rw [hid]
      exact walletCredited_kept hp ha c
    case h_2 ho =>
      rw [hid]
      exact serviceReady_kept hp (waiting_outcome (.inl ho)) ha d
    case h_3 => exact paidWaiting_kept hp hid ha status c
    case h_4 => exact kept_payment hinv rfl
    case h_5 => exact kept_payment hinv rfl

end Check

end Ghajar.Checkout
