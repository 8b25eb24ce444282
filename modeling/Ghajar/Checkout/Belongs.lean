import Ghajar.Checkout.Steps

/-!
# The stage belongs to the open order

Every clean step keeps the invariant, so in every run of clean steps the stage is
the open order's and no order is forgotten. Without the condition a paid order
loses its stage to a service that has nothing to do with it.
-/

namespace Ghajar.Checkout

open Run GhajarOrderStage GhajarOrderFlow GhajarCommerceRules

variable {s : State}

theorem block_kept (h : Inv s) {op : Operation} (hc : op.clean s = true) :
    Kept s (op.block s) := by
  cases op with
  | buy result service d saves => exact buy_kept h hc
  | topUp amount balance saves => exact topUp_kept h hc
  | beginPayment method result saves => exact beginPayment_kept h hc
  | uploadReceipt uploaded saves => exact uploadReceipt_kept h uploaded saves
  | trial created d =>
    cases created with
    | false => exact kept_refl h
    | true => exact deliver_clean h ((clean_parts hc).2.2 _ _ rfl)
  | importOwned service d =>
    cases service with
    | none => exact kept_refl h
    | some o => exact deliver_clean h ((clean_parts hc).2.2 _ _ rfl)
  | checkPayment status d c => exact checkPayment_kept h status d c
  | resumePayment item status saves => exact resumePayment_kept h hc
  | cancelPayment orderId cancelled status => exact cancelPayment_kept h orderId cancelled status

/-- The condition does not depend on the owner. -/
theorem clean_owner (s : State) (owner : String) (op : Operation) :
    op.clean { s with owner := owner } = op.clean s := by
  cases op <;> rfl

theorem runOperation_kept (h : Inv s) {account : String} {op : Operation}
    (hc : clean s (.operation account op) = true) : Kept s (s.runOperation account op) := by
  unfold State.runOperation
  split
  · exact kept_refl h
  rename_i hblank
  split
  · refine kept_none (inv_none rfl rfl ?_) rfl
    intro root hroot
    cases hroot
  · rename_i hch
    have hop : op.clean s = true := by
      simpa only [clean, hblank, hch, Bool.false_or] using hc
    rw [← clean_owner s account] at hop
    exact block_kept (h.owner account) hop

/-- What a new process needs of the saved invoice, for an order that is still owed. -/
theorem savedFor_parts {account : String} {o : Order} (h : savedFor s account o = true) :
    account.blank = false ∧ s.book.savedOf = some o ∧ ∃ root, s.prefs = some root ∧
      root.owner = account ∧ root.toStage.any walletFallbackAllowed = true := by
  simp only [savedFor, Bool.and_eq_true, Bool.not_eq_true', beq_iff_eq, Option.any_eq_true] at h
  obtain ⟨⟨hb, hof⟩, root, hroot, ho, hst⟩ := h
  exact ⟨hb, hof, root, hroot, ho, (Option.any_eq_true _ _).2 hst⟩

theorem owed_nil_of {P : Order → Prop} (h : ∀ o ∈ s.owed, P o) (hn : ∀ o, ¬ P o) :
    s.owed = [] := by
  rw [List.eq_nil_iff_forall_not_mem]
  exact fun o ho => hn o (h o ho)

/-- A new process finds the stage of an order that is still owed. -/
theorem restore_kept (h : Inv s) {account : String} (hc : clean s (.restart account) = true) :
    Kept s (s.restore account) := by
  have hall : ∀ o ∈ s.owed, savedFor s account o = true := List.all_eq_true.1 hc
  unfold State.restore
  cases hroot : s.prefs with
  | none =>
    have ho : s.owed = [] := owed_nil_of hall fun o ho => by
      obtain ⟨-, -, root, hr, -⟩ := savedFor_parts ho
      rw [hroot] at hr
      cases hr
    exact kept_none (inv_none rfl ho fun _ hr => by cases hr) rfl
  | some root =>
    simp only
    split
    case isTrue hacc =>
      have ho : s.owed = [] := owed_nil_of hall fun o ho => by
        obtain ⟨hb, -, root', hr, hown, -⟩ := savedFor_parts ho
        rw [hroot] at hr
        cases hr
        simp [hb, hown] at hacc
      refine kept_none (inv_none rfl ho ?_) rfl
      exact h.saved.mono hroot.symm rfl fun _ => id
    case isFalse hacc =>
      cases hst : root.toStage with
      | none =>
        have ho : s.owed = [] := owed_nil_of hall fun o ho => by
          obtain ⟨-, -, root', hr, -, hany⟩ := savedFor_parts ho
          rw [hroot] at hr
          cases hr
          rw [hst] at hany
          cases hany
        refine kept_none (inv_none rfl ho ?_) rfl
        exact h.saved.mono hroot.symm rfl fun _ => id
      | some st =>
        -- the saved stage is the one of the payment that is saved with it
        obtain ⟨v, hv, hof, hset⟩ := h.saved root hroot st hst
        rw [hv]
        apply kept_own
        · rfl
        · rfl
        refine ⟨fun _ _ => hof, ?_, ?_, h.saved.mono hroot.symm rfl fun _ => id⟩
        · intro o ho
          obtain ⟨-, hof', -⟩ := savedFor_parts (hall o ho)
          rw [hof] at hof'
          exact (Option.some.inj hof').symm
        · intro st' hst'
          cases hst'
          exact hset

theorem leaveInvoice_kept (h : Inv s) (hc : clean s .leaveInvoice = true) :
    Kept s s.leaveInvoice := by
  unfold State.leaveInvoice
  split
  case isTrue hp =>
    have ho : s.owed = [] := by
      simp only [clean, Bool.or_eq_true, List.isEmpty_iff] at hc
      rcases hc with hc | hc
      · rw [Option.isNone_iff_eq_none] at hp
        rw [hp] at hc
        cases hc
      · exact hc
    exact kept_none (inv_none rfl ho fun _ hr => by cases hr) rfl
  case isFalse => exact kept_refl h

theorem step_kept (h : Inv s) {a : Action} (hc : Clean s a) : Kept s (s.next a) := by
  cases a with
  | operation account op => exact runOperation_kept h hc
  | choose receipt =>
    exact kept_same (h.congr rfl rfl rfl rfl rfl (fun _ => id) fun _ => id) rfl rfl rfl
  | leaveInvoice => exact leaveInvoice_kept h hc
  | reset => exact kept_none (inv_none rfl rfl fun _ hr => by cases hr) rfl
  | restart account => exact restore_kept h hc

/-- A stage is the open order's after every switch. -/
theorem Kept.switches {t : State} (h : Kept s t) (hne : t.opened ≠ s.opened)
    (hs : t.stage.isSome = true) : t.opened.isSome = true ∧ t.book.stageOf = t.opened := by
  obtain ⟨hinv, hopen⟩ := h
  cases hp : t.payment with
  | none => exact absurd (hopen hp hs) hne
  | some v =>
    obtain ⟨st, hst⟩ := Option.isSome_iff_exists.1 hs
    have he : t.opened = some (.invoice v.orderId) := by rw [State.opened, hp]
    rw [he]
    exact ⟨rfl, (hinv.about hp).stageOf st hst⟩

theorem step_apart (h : Inv s) {a : Action} (hc : Clean s a) : Apart s a := by
  refine ⟨?_, (step_kept h hc).switches⟩
  rintro account op o d rfl himp hch ho
  change (s.runOperation account op).stage = s.stage ∧
    (s.runOperation account op).book.stageOf = s.book.stageOf
  unfold State.runOperation
  split
  · exact ⟨rfl, rfl⟩
  rename_i hblank
  rw [if_neg (by rw [hch]; exact Bool.false_ne_true)]
  have hop : op.clean { s with owner := account } = true := by
    rw [clean_owner]
    simpa only [Clean, clean, hblank, hch, Bool.false_or] using hc
  have himpc := (clean_parts hop).2.2 o d himp
  cases op with
  | trial created d' =>
    cases created with
    | false => cases himp
    | true =>
      cases himp
      exact deliver_apart (h.owner account) himpc ho
  | importOwned service d' =>
    cases service with
    | none => cases himp
    | some o' =>
      cases himp
      exact deliver_apart (h.owner account) himpc ho
  | _ => cases himp

/-- **A stage belongs to its order**, in every run of clean steps. -/
theorem stage_belongs {as : List Action} (hc : Meets step Clean initial as) :
    Visits step Belongs initial as ∧ Meets step Apart initial as := by
  have hstep : ∀ s a s', Inv s → Clean s a → step s a = some s' → Inv s' := by
    intro s a s' hi hca hs
    cases hs
    exact (step_kept hi hca).1
  exact ⟨visits_of_inv hstep (fun s => Inv.belongs) inv_initial hc,
    meets_of_inv hstep (fun s a hi hca => step_apart hi hca) inv_initial hc⟩

/-! ## Runs -/

def product : GhajarPurchaseResult := ⟨false, true, some "u", 50, 0, 50, none⟩

def card : GhajarPaymentMethod := ⟨"card", "card", 0, 0⟩

def invoice : GhajarPaymentInit :=
  ⟨"card", "A", none, none, none, 50, 500, "", "card", "", 0⟩

def arrived : PaymentStatus := ⟨"paid", none, none, false, false⟩

def ready : PaymentStatus := ⟨"paid", none, some ⟨"u"⟩, true, false⟩

def answers : CheckAnswers := ⟨true, true, true, false⟩

/-- An order is bought and paid, and the shop has not made its service yet. -/
def waiting : List Action :=
  [.operation "me" (.buy (some product) none ⟨none, true⟩ true),
    .operation "me" (.beginPayment card (some invoice) true),
    .operation "me" (.checkPayment (some arrived) ⟨none, true⟩ answers)]

/-- A trial is imported while the order waits: the order is marked as delivered. -/
theorem trial_delivers_order :
    ¬ (Visits step Belongs initial (waiting ++ [.operation "me" (.trial true ⟨some 1, true⟩)])) ∧
      ∃ s, run step initial (waiting ++ [.operation "me" (.trial true ⟨some 1, true⟩)]) = some s ∧
        s.stage = some DELIVERED ∧ s.opened = some (.invoice "A") ∧
        s.owed = [.invoice "A"] := by
  have hrun : ∃ s, run step initial
      (waiting ++ [.operation "me" (.trial true ⟨some 1, true⟩)]) = some s ∧
        s.stage = some DELIVERED ∧ s.opened = some (.invoice "A") ∧
        s.owed = [.invoice "A"] :=
    ⟨_, rfl, by decide +kernel, by decide +kernel, by decide +kernel⟩
  refine ⟨fun hv => ?_, hrun⟩
  obtain ⟨s, hs, hst, -, ho⟩ := hrun
  have hb := (hv.at_end hs).owed (.invoice "A") (by rw [ho]; exact List.mem_cons_self)
  rw [hst] at hb
  exact absurd hb.2 (by decide)

/-- The service arrives, its import fails once, the app starts anew and the import succeeds. -/
theorem order_served :
    Visits step Belongs initial (waiting ++
      [.operation "me" (.checkPayment (some ready) ⟨none, true⟩ answers), .restart "me",
        .operation "me" (.checkPayment (some ready) ⟨some 2, true⟩ answers)]) ∧
    Meets step Apart initial (waiting ++
      [.operation "me" (.checkPayment (some ready) ⟨none, true⟩ answers), .restart "me",
        .operation "me" (.checkPayment (some ready) ⟨some 2, true⟩ answers)]) :=
  stage_belongs (by decide +kernel)

end Ghajar.Checkout
