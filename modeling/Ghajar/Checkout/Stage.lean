import Ghajar.Checkout.ViewModel

/-!
# Whose stage it is

The stage in memory is one for all orders. `Belongs` says that it is the open
order's, and that an order which is paid and not served has a stage that allows
the fallback; `Apart`, that importing another service or switching to another
order leaves it alone. `Clean` is the condition on the steps of a run under which
both hold.
-/

namespace Ghajar.Checkout

open Run GhajarOrderStage GhajarOrderFlow GhajarCommerceRules

/-- The orders that are paid, with their service not imported and the money not given back. -/
def State.owed (s : State) : List Order :=
  s.book.paid.filter fun o => !s.book.imported.contains o && !s.book.refunded.contains o

/-- What the stage says in a state. -/
structure Belongs (s : State) : Prop where
  recorded : ∀ st, s.stage = some st → st = DELIVERED ∨ st = PROVISION_FAILED ∨
    st = WALLET_REFUNDED → s.opened.isSome = true ∧ s.book.stageOf = s.opened
  owed : ∀ o ∈ s.owed, s.book.stageOf = some o ∧ s.stage.any walletFallbackAllowed = true

/-- The order whose service is imported by hand; a trial is of no order. -/
def Operation.imports : Operation → Option (Option Order × Delivery)
  | .trial true d => some (none, d)
  | .importOwned (some o) d => some (o, d)
  | _ => none

/-- What a step leaves alone. -/
structure Apart (s : State) (a : Action) : Prop where
  imports : ∀ account op o d, a = .operation account op → op.imports = some (o, d) →
    s.changed account = false → (o = none ∨ o ≠ s.book.stageOf) →
    (s.next a).stage = s.stage ∧ (s.next a).book.stageOf = s.book.stageOf
  switches : (s.next a).opened ≠ s.opened → (s.next a).stage.isSome = true →
    (s.next a).opened.isSome = true ∧ (s.next a).book.stageOf = (s.next a).opened

/-! ## The condition -/

/-- The operation puts another order in the place of the open one. -/
def Operation.opens (s : State) : Operation → Bool
  | .buy (some r) _ _ _ => s.payment.isNone && r.requiresPayment
  | .topUp amount (some _) _ => !(amount ≤ 0 : Bool) && s.payment.isNone
  | .beginPayment method (some r) _ => s.payment.isNone && !r.orderId.blank &&
      s.purchase.any fun target => target.amountDue ≥ method.minimum &&
        (method.maximum ≤ 0 || target.amountDue ≤ method.maximum)
  | .resumePayment item (some _) _ => !s.payment.any (·.orderId == item.orderId)
  | _ => false

/-- The operation pays a purchase from the wallet. -/
def Operation.pays (s : State) : Operation → Bool
  | .buy (some r) _ _ _ => s.payment.isNone && !r.requiresPayment && r.completed
  | _ => false

/-- The delivery of a purchase that is paid from the wallet throws. -/
def Operation.payFails : Operation → Bool
  | .buy (some r) service d _ =>
    (r.service.or (r.username.bind fun _ => service)).isSome && d.imported.isNone
  | _ => false

/-- An import by hand finds no stage it moves, or the stage is the one of the service's order. -/
def importClean (s : State) (o : Option Order) (d : Delivery) : Bool :=
  !s.stage.any walletFallbackAllowed ||
    (s.stage == some PROVISIONING && d.imported == some 0) ||
    (s.payment.any fun v => o == some (.invoice v.orderId)) ||
    (o.isSome && o == s.book.stageOf && d.imported == some 0)

def Operation.clean (s : State) (op : Operation) : Bool :=
  (!(op.opens s || op.pays s) || s.stage.isNone) && !(op.pays s && op.payFails) &&
    op.imports.all fun (o, d) => importClean s o d

/-- The saved invoice has the stage of the order `o`, which is still owed its service. -/
def savedFor (s : State) (account : String) (o : Order) : Bool :=
  !account.blank && s.book.savedOf == some o &&
    s.prefs.any fun root => root.owner == account && root.toStage.any walletFallbackAllowed

def clean (s : State) : Action → Bool
  | .operation account op => account.blank || s.changed account || op.clean s
  | .choose _ => true
  | .leaveInvoice => s.payment.isSome || s.owed.isEmpty
  | .reset => true
  | .restart account => s.owed.all fun o => savedFor s account o

def Clean (s : State) (a : Action) : Prop := clean s a = true

instance (s : State) (a : Action) : Decidable (Clean s a) := inferInstanceAs (Decidable (_ = _))

/-! ## The invariant -/

/-- The order has its service or its money. -/
def Settled (b : Book) (o : Order) : Prop := o ∈ b.imported ∨ o ∈ b.refunded

/-- The stage of a saved invoice is the one of its payment's order. -/
def SavedOk (s : State) : Prop :=
  ∀ root ∈ s.prefs, ∀ st, root.toStage = some st → ∃ v, root.payment = some v ∧
    s.book.savedOf = some (.invoice v.orderId) ∧
    (walletFallbackAllowed st = false → Settled s.book (.invoice v.orderId))

/-- The stage, if there is one, is of the order `o`, and no other is owed. -/
structure About (o : Order) (s : State) : Prop where
  stageOf : ∀ st, s.stage = some st → s.book.stageOf = some o
  owed : ∀ o' ∈ s.owed, o' = o
  settled : ∀ st, s.stage = some st → walletFallbackAllowed st = false → Settled s.book o
  saved : SavedOk s

/-- Where the stage is of an order, it is the invoice's that is open, or one just paid from the
wallet that waits for its service. -/
def Held (o : Order) (s : State) : Prop :=
  (∃ v, s.payment = some v ∧ o = .invoice v.orderId) ∨
    (s.payment = none ∧ (s.stage = some PAYMENT_CONFIRMED ∨ s.stage = some PROVISIONING))

/-- Nothing is owed, or the one order that is has the stage. -/
def Inv (s : State) : Prop :=
  (s.stage = none ∧ s.owed = [] ∧ SavedOk s) ∨
    ∃ o, s.stage.isSome = true ∧ About o s ∧ Held o s

theorem mem_owed {s : State} {o : Order} :
    o ∈ s.owed ↔ o ∈ s.book.paid ∧ ¬ Settled s.book o := by
  simp [State.owed, Settled, not_or]

theorem About.owed_nil {o : Order} {s : State} (h : About o s) (hs : Settled s.book o) :
    s.owed = [] := by
  rw [List.eq_nil_iff_forall_not_mem]
  intro o' ho'
  have he := h.owed o' ho'
  subst he
  exact (mem_owed.1 ho').2 hs

/-- **The invariant gives what the stage says.** -/
theorem Inv.belongs {s : State} (h : Inv s) : Belongs s := by
  rcases h with ⟨hn, ho, -⟩ | ⟨o, hsome, ha, hh⟩
  · constructor
    · intro st hst
      rw [hn] at hst
      cases hst
    · intro o hm
      rw [ho] at hm
      cases hm
  · obtain ⟨st, hst⟩ := Option.isSome_iff_exists.1 hsome
    constructor
    · intro st' hst' hd
      rcases hh with ⟨v, hv, rfl⟩ | ⟨-, hp | hp⟩
      · have he : s.opened = some (.invoice v.orderId) := by simp only [State.opened, hv]
        rw [he]
        exact ⟨rfl, ha.stageOf st hst⟩
      · rw [hp] at hst'
        cases hst'
        rcases hd with h | h | h <;> cases h
      · rw [hp] at hst'
        cases hst'
        rcases hd with h | h | h <;> cases h
    · intro o' ho'
      have he := ha.owed o' ho'
      subst he
      refine ⟨ha.stageOf st hst, ?_⟩
      cases hw : walletFallbackAllowed st with
      | true => simp [hst, hw]
      | false => exact absurd (ha.settled st hst hw) (mem_owed.1 ho').2

theorem Inv.saved {s : State} (h : Inv s) : SavedOk s := by
  rcases h with ⟨-, -, h⟩ | ⟨o, -, ha, -⟩
  · exact h
  · exact ha.saved

theorem Inv.owed_nil {s : State} (h : Inv s) (hn : s.stage = none) : s.owed = [] := by
  rcases h with ⟨-, h, -⟩ | ⟨o, hs, -, -⟩
  · exact h
  · rw [hn] at hs
    cases hs

theorem inv_initial : Inv initial := .inl ⟨rfl, rfl, fun _ h => by cases h⟩

/-! ## The parts of an operation -/

section Parts

variable {s t : State} {o o' : Order} {st : GhajarOrderStage}

theorem record_eq (s : State) (o : Option Order) (st : GhajarOrderStage) :
    s.record o st = s ∧ s.stage = some st ∨
      s.record o st = { s with stage := some st, book := { s.book with stageOf := o } } := by
  unfold State.record
  split
  case isTrue h => exact .inl ⟨rfl, h⟩
  case isFalse => exact .inr rfl

@[simp] theorem record_stage (s : State) (o : Option Order) (st : GhajarOrderStage) :
    (s.record o st).stage = some st := by
  rcases record_eq s o st with ⟨he, hs⟩ | he <;> rw [he]
  exact hs

@[simp] theorem record_payment (s : State) (o : Option Order) (st : GhajarOrderStage) :
    (s.record o st).payment = s.payment := by
  rcases record_eq s o st with ⟨he, -⟩ | he <;> rw [he]

@[simp] theorem record_purchase (s : State) (o : Option Order) (st : GhajarOrderStage) :
    (s.record o st).purchase = s.purchase := by
  rcases record_eq s o st with ⟨he, -⟩ | he <;> rw [he]

@[simp] theorem record_quoted (s : State) (o : Option Order) (st : GhajarOrderStage) :
    (s.record o st).book.quoted = s.book.quoted := by
  rcases record_eq s o st with ⟨he, -⟩ | he <;> rw [he]

/-- A record that changes nothing. -/
theorem record_same (h : s.stage = some st) (o : Option Order) : s.record o st = s := if_pos h

theorem SavedOk.mono (h : SavedOk s) (hr : t.prefs = s.prefs)
    (ho : t.book.savedOf = s.book.savedOf)
    (hs : ∀ o, Settled s.book o → Settled t.book o) : SavedOk t := by
  intro root hroot st hst
  rw [hr] at hroot
  obtain ⟨v, hv, hof, hend⟩ := h root hroot st hst
  exact ⟨v, hv, ho.trans hof, fun hw => hs _ (hend hw)⟩

/-- The history may settle more and count less as paid. -/
theorem About.mono (h : About o s) (hst : t.stage = s.stage) (hr : t.prefs = s.prefs)
    (ho : t.book.savedOf = s.book.savedOf) (hof : t.book.stageOf = s.book.stageOf)
    (hs : ∀ o, Settled s.book o → Settled t.book o)
    (hp : ∀ o' ∈ t.book.paid, o' = o ∨ o' ∈ s.book.paid) : About o t where
  stageOf st h1 := by
    rw [hst] at h1
    rw [hof]
    exact h.stageOf st h1
  owed o' h1 := by
    obtain ⟨hpaid, hn⟩ := mem_owed.1 h1
    rcases hp o' hpaid with he | hpaid
    · exact he
    · exact h.owed o' (mem_owed.2 ⟨hpaid, fun hset => hn (hs _ hset)⟩)
  settled st h1 hw := by
    rw [hst] at h1
    exact hs _ (h.settled st h1 hw)
  saved := h.saved.mono hr ho hs

theorem settled_imported (b : Book) (i : List Order) (h : Settled b o) :
    Settled { b with imported := i ++ b.imported } o :=
  h.imp (List.mem_append_right _) id

theorem settled_refunded (b : Book) (o' : Order) (h : Settled b o) :
    Settled { b with refunded := o' :: b.refunded } o :=
  h.imp id (List.mem_cons_of_mem _)

theorem About.isPaid (h : About o s) : About o (s.isPaid o) :=
  h.mono rfl rfl rfl rfl (fun _ => id) fun _ => List.mem_cons.1

theorem About.isRefunded (h : About o s) (o' : Order) : About o (s.isRefunded o') :=
  h.mono rfl rfl rfl rfl (fun _ => settled_refunded _ _) fun _ => .inr

theorem About.isImported (h : About o s) (o' : Option Order) : About o (s.isImported o') :=
  h.mono rfl rfl rfl rfl (fun _ => settled_imported _ _) fun _ => .inr

/-- With nothing owed and no stage, any order may come next. -/
theorem about_none (hn : s.stage = none) (ho : s.owed = []) (hk : SavedOk s) (o : Order) :
    About o s where
  stageOf st h := by
    rw [hn] at h
    cases h
  owed o' h := by
    rw [ho] at h
    cases h
  settled st h := by
    rw [hn] at h
    cases h
  saved := hk

theorem About.record (h : About o s) (hw : walletFallbackAllowed st = false → Settled s.book o) :
    About o (s.record (some o) st) := by
  rcases record_eq s (some o) st with ⟨he, -⟩ | he
  · rw [he]
    exact h
  · rw [he]
    refine ⟨fun _ _ => rfl, h.owed, ?_, h.saved.mono rfl rfl fun _ => id⟩
    intro st' hst'
    cases hst'
    exact hw

theorem toStage_toSave (s : State) (p : GhajarPurchaseResult) :
    (toSave s p).toStage = s.stage := by
  have hb (st : GhajarOrderStage) : (!st.name.blank) = true := by cases st <;> decide
  simp only [Root.toStage, toSave]
  cases s.stage with
  | none => rfl
  | some st =>
    rw [Option.map_some, Option.filter_some, if_pos (hb st), fromStorage_name]

theorem savedOk_save {v : GhajarPaymentInit} (hv : s.payment = some v)
    (h : About (.invoice v.orderId) s) (p : GhajarPurchaseResult) : SavedOk (s.save p) := by
  intro root hroot st hst
  cases hroot
  rw [toStage_toSave] at hst
  exact ⟨v, hv, h.stageOf st hst, h.settled st hst⟩

theorem About.save {v : GhajarPaymentInit} (hv : s.payment = some v)
    (h : About (.invoice v.orderId) s) (p : GhajarPurchaseResult) :
    About (.invoice v.orderId) (s.save p) :=
  ⟨h.stageOf, h.owed, h.settled, savedOk_save hv h p⟩

theorem inv_none (hn : s.stage = none) (ho : s.owed = []) (hk : SavedOk s) : Inv s :=
  .inl ⟨hn, ho, hk⟩

theorem inv_finish (ho : s.owed = []) : Inv s.finish :=
  inv_none rfl ho fun _ h => by cases h

theorem About.inv {v : GhajarPaymentInit} (hs : s.stage.isSome = true) (hv : s.payment = some v)
    (h : About (.invoice v.orderId) s) : Inv s :=
  .inr ⟨_, hs, h, .inl ⟨v, hv, rfl⟩⟩

/-- With an invoice open, the stage is about its order. -/
theorem Inv.about {v : GhajarPaymentInit} (h : Inv s) (hv : s.payment = some v) :
    About (.invoice v.orderId) s := by
  rcases h with ⟨hn, ho, hk⟩ | ⟨o, -, ha, hh⟩
  · exact about_none hn ho hk _
  · rcases hh with ⟨v', hv', rfl⟩ | ⟨hn, -⟩
    · rw [hv] at hv'
      cases hv'
      exact ha
    · rw [hv] at hn
      cases hn

/-- A state with the same stage, the same invoice and a history that settles more. -/
theorem Inv.congr (h : Inv s) (hs : t.stage = s.stage)
    (hp : t.payment.map (·.orderId) = s.payment.map (·.orderId))
    (hr : t.prefs = s.prefs) (hb : t.book.stageOf = s.book.stageOf)
    (hso : t.book.savedOf = s.book.savedOf) (hset : ∀ o, Settled s.book o → Settled t.book o)
    (hpaid : ∀ o ∈ t.book.paid, o ∈ s.book.paid) : Inv t := by
  rcases h with ⟨hn, ho, hk⟩ | ⟨o, hsome, ha, hh⟩
  · refine inv_none (hs.trans hn) ?_ (hk.mono hr hso hset)
    rw [List.eq_nil_iff_forall_not_mem]
    intro o hm
    obtain ⟨h1, h2⟩ := mem_owed.1 hm
    have hm' : o ∈ s.owed := mem_owed.2 ⟨hpaid o h1, fun h => h2 (hset o h)⟩
    rw [ho] at hm'
    cases hm'
  · refine .inr ⟨o, by rw [hs]; exact hsome, ha.mono hs hr hso hb hset fun o h => .inr (hpaid o h), ?_⟩
    rcases hh with ⟨v, hv, rfl⟩ | ⟨hn, hp'⟩
    · rw [hv, Option.map_some, Option.map_eq_some_iff] at hp
      obtain ⟨v', hv', he⟩ := hp
      exact .inl ⟨v', hv', by rw [he]⟩
    · rw [hn, Option.map_none, Option.map_eq_none_iff] at hp
      exact .inr ⟨hp, by rw [hs]; exact hp'⟩

/-- A save in a state whose stage, if there is one, is the payment's. -/
theorem Inv.save (h : Inv s) (hp : s.stage.isSome = true → s.payment.isSome = true)
    (p : GhajarPurchaseResult) : Inv (s.save p) := by
  rcases h with ⟨hn, ho, hk⟩ | ⟨o, hsome, ha, hh⟩
  · refine inv_none hn ho fun root hroot st hst => ?_
    cases hroot
    rw [toStage_toSave, hn] at hst
    cases hst
  · rcases hh with ⟨v, hv, rfl⟩ | ⟨hn, -⟩
    · exact (ha.save hv p).inv hsome hv
    · have hc := hp hsome
      rw [hn] at hc
      cases hc

/-- What holds of every end of a save. -/
theorem persist_ind {P : State → Prop} {saves : Bool} {next : State → State} (h : P s)
    (hn : P (next s)) (hs : ∀ p, P (next (s.save p))) : P (s.persist saves next) := by
  unfold State.persist
  split
  · exact hn
  · split
    · exact hs _
    · exact h

end Parts

end Ghajar.Checkout
