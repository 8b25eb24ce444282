import Mathlib
import Ghajar.Account.Once
import Ghajar.Lib.Long
import Ghajar.Lib.Rounding

/-!
# Renewing at the price that was shown

`GhajarRenewal.kt` and the two calls of the store under it. The price of the selection is read anew,
and the confirmation carries it only while it lies near the displayed one; a confirmation that the
server turns down before it charges is tried once more, under the same test.
-/

namespace Ghajar.Renew

/-- A price that was read: whole, not negative, and a long. -/
structure Toman where
  amount : Int
  nonneg : 0 ≤ amount
  isLong : amount < 2 ^ 63
  deriving DecidableEq

structure GhajarRenewProduct where
  code : String
  price : Toman
  showPrice : Bool

structure GhajarRenewCustomOptions where
  enabled : Bool
  forced : Bool
  pricePerGb : Toman
  pricePerDay : Toman
  minVolumeGb : Int
  maxVolumeGb : Int
  minTimeDays : Int
  maxTimeDays : Int
  fxRoundStep : Int := 0

structure GhajarRenewOptions where
  products : List GhajarRenewProduct
  showPrice : Bool
  discountPercent : Int
  custom : GhajarRenewCustomOptions
  productFxQuote : Option String := none
  customFxQuote : Option String := none

structure GhajarRenewResult where
  completed : Bool
  requiresPayment : Bool
  username : String
  amountDue : Toman
  balance : Int
  price : Toman
  orderId : Option String

structure GhajarRenewSelection where
  productCode : Option String := none
  volumeGb : Option Int := none
  timeDays : Option Int := none

structure GhajarRenewQuote where
  selection : GhajarRenewSelection
  price : Toman
  fxQuote : Option String
  showPrice : Bool

/-- `rejected` is the `GhajarRenewQuoteRejected` of the source: nothing has been charged. -/
inductive Thrown
  | illegalArgument (message : String)
  | illegalState (message : String)
  | arithmetic
  | rejected (price : Toman) (fxQuote : Option String)
  | other

/-- `longValueExact`. -/
def longValueExact (n : Int) : Except Thrown Int :=
  if -2 ^ 63 ≤ n ∧ n < 2 ^ 63 then .ok n else .error .arithmetic

def renewalToman (value : ℚ) : Except Thrown Toman :=
  if value.den ≠ 1 then .error .arithmetic
  else if h : -2 ^ 63 ≤ value.num ∧ value.num < 2 ^ 63 then
    if h0 : 0 ≤ value.num then .ok ⟨value.num, h0, h.2⟩
    else .error (.illegalArgument "مبلغ تمدید معتبر نیست")
  else .error .arithmetic

/-! ## The price -/

def rounded (value step : Int) : Int := if step > 0 then Rounding.upTo step value else value

def renewalRound (value step : Int) : Except Thrown Int := longValueExact (rounded value step)

theorem le_rounded (value step : Int) : value ≤ rounded value step := by
  unfold rounded
  split
  · exact Rounding.le_upTo ‹_›
  · exact le_refl _

theorem rounded_mono {value value' : Int} (step : Int) (h : value ≤ value') :
    rounded value step ≤ rounded value' step := by
  unfold rounded
  split
  · exact Rounding.upTo_mono ‹_› h
  · exact h

theorem dvd_rounded {value step : Int} (h : 0 < step) : step ∣ rounded value step := by
  rw [rounded, if_pos h]
  exact Rounding.dvd_upTo

/-- The price less the discount, a half rounded up. -/
def discounted (price discount : Int) : Int :=
  max (Rounding.halfUp (price * (100 - discount)) 100) 0

theorem rounded_discounted_nonneg (price discount step : Int) :
    0 ≤ rounded (discounted price discount) step :=
  le_trans (le_max_right _ _) (le_rounded _ _)

def renewalDiscountedPrice (price discount step : Int) : Except Thrown Toman :=
  if h : rounded (discounted price discount) step < 2 ^ 63 then
    .ok ⟨_, rounded_discounted_nonneg price discount step, h⟩
  else .error .arithmetic

namespace GhajarRenewCustomOptions

variable (custom : GhajarRenewCustomOptions)

/-- What was asked for, before it is rounded and discounted. -/
def subtotal (volume days : Int) : Int :=
  custom.pricePerGb.amount * volume + custom.pricePerDay.amount * days

def accepts (volume days : Int) : Except Thrown Unit :=
  if ¬(custom.minVolumeGb ≤ volume ∧ volume ≤ custom.maxVolumeGb) then
    .error (.illegalArgument "حجم انتخاب‌شده خارج از محدوده مجاز است")
  else if ¬(custom.minTimeDays ≤ days ∧ days ≤ custom.maxTimeDays) then
    .error (.illegalArgument "زمان انتخاب‌شده خارج از محدوده مجاز است")
  else .ok ()

end GhajarRenewCustomOptions

namespace GhajarRenewOptions

variable (options : GhajarRenewOptions)

def quoteProduct (selection : GhajarRenewSelection) (code : String) :
    Except Thrown GhajarRenewQuote :=
  if options.custom.forced then
    .error (.illegalArgument "برای این سرویس حجم/زمان دلخواه انتخاب کنید")
  else
    match options.products.find? fun p => p.code = code with
    | none => .error (.illegalState "پلن انتخاب‌شده دیگر موجود نیست؛ پلن دیگری انتخاب کنید")
    | some product => .ok ⟨selection, product.price, options.productFxQuote,
        options.showPrice && product.showPrice⟩

def quoteCustom (selection : GhajarRenewSelection) (volume days : Int) :
    Except Thrown GhajarRenewQuote := do
  options.custom.accepts volume days
  let whole ← renewalRound (options.custom.subtotal volume days) options.custom.fxRoundStep
  let price ← renewalDiscountedPrice whole options.discountPercent options.custom.fxRoundStep
  return ⟨selection, price, options.customFxQuote, options.showPrice⟩

def quote (selection : GhajarRenewSelection) : Except Thrown GhajarRenewQuote :=
  match selection.productCode with
  | some code => options.quoteProduct selection code
  | none =>
    if ¬options.custom.enabled then
      .error (.illegalArgument "تمدید دلخواه برای این سرویس فعال نیست")
    else
      match selection.volumeGb, selection.timeDays with
      | some volume, some days => options.quoteCustom selection volume days
      | _, _ => .error (.illegalArgument "Required value was null.")

theorem quoteCustom_eq {selection : GhajarRenewSelection} {volume days : Int}
    {q : GhajarRenewQuote} (h : options.quoteCustom selection volume days = .ok q) :
    q.selection = selection ∧
      q.price.amount = rounded (discounted (rounded (options.custom.subtotal volume days)
        options.custom.fxRoundStep) options.discountPercent) options.custom.fxRoundStep := by
  unfold quoteCustom renewalRound longValueExact renewalDiscountedPrice at h
  cases hacc : options.custom.accepts volume days with
  | error e =>
    rw [hacc] at h
    cases h
  | ok u =>
    rw [hacc] at h
    split at h
    · dsimp only [bind, Except.bind] at h
      split at h
      · cases h
      · rename_i price hp
        split at hp
        · cases hp
          cases h
          exact ⟨rfl, rfl⟩
        · cases hp
    · cases h

theorem quote_selection {selection : GhajarRenewSelection} {q : GhajarRenewQuote}
    (h : options.quote selection = .ok q) : q.selection = selection := by
  unfold quote at h
  split at h
  · unfold quoteProduct at h
    split at h
    · cases h
    · split at h
      · cases h
      · cases h
        rfl
  · split at h
    · cases h
    · split at h
      · exact (options.quoteCustom_eq h).1
      · cases h

end GhajarRenewOptions

/-- A selection without a plan. -/
def GhajarRenewSelection.custom (volume days : Int) : GhajarRenewSelection :=
  { volumeGb := some volume, timeDays := some days }

section Custom

variable {options : GhajarRenewOptions} {volume days volume' days' : Int}
  {q q' : GhajarRenewQuote}

theorem quote_custom (h : options.quote (.custom volume days) = .ok q) :
    q.price.amount = rounded (discounted (rounded (options.custom.subtotal volume days)
      options.custom.fxRoundStep) options.discountPercent) options.custom.fxRoundStep := by
  unfold GhajarRenewOptions.quote at h
  dsimp only [GhajarRenewSelection.custom] at h
  split at h
  · cases h
  · exact (options.quoteCustom_eq h).2

theorem subtotal_mono (hv : volume ≤ volume') (hd : days ≤ days') :
    options.custom.subtotal volume days ≤ options.custom.subtotal volume' days' :=
  add_le_add (mul_le_mul_of_nonneg_left hv options.custom.pricePerGb.nonneg)
    (mul_le_mul_of_nonneg_left hd options.custom.pricePerDay.nonneg)

theorem discounted_mono {price price' discount : Int} (hd : discount ≤ 100)
    (h : price ≤ price') : discounted price discount ≤ discounted price' discount :=
  max_le_max_right 0 (Rounding.halfUp_mono (by norm_num)
    (mul_le_mul_of_nonneg_right h (by omega)))

theorem quoted_mono (h : options.quote (.custom volume days) = .ok q)
    (h' : options.quote (.custom volume' days') = .ok q') (hd : options.discountPercent ≤ 100)
    (hv : volume ≤ volume') (hdays : days ≤ days') : q.price.amount ≤ q'.price.amount := by
  rw [quote_custom h, quote_custom h']
  exact rounded_mono _ (discounted_mono hd (rounded_mono _ (subtotal_mono hv hdays)))

/-- The price less the discount, as a fraction. -/
def exactDiscounted (options : GhajarRenewOptions) (volume days : Int) : ℚ :=
  options.custom.subtotal volume days * (100 - options.discountPercent) / 100

/-- Rounding up before a discount of at most the whole price takes nothing off; a larger one leaves
nothing of a price that is not negative. -/
theorem exactDiscounted_le (h : options.quote (.custom volume days) = .ok q)
    (hsub : options.custom.subtotal volume days < 0 → 100 < options.discountPercent →
      options.custom.fxRoundStep ≤ 0) :
    exactDiscounted options volume days - 1 / 2 ≤ q.price.amount := by
  unfold exactDiscounted
  generalize hs : options.custom.subtotal volume days = s at hsub
  have hprice := quote_custom h
  rw [hs] at hprice
  have hround : discounted (rounded s options.custom.fxRoundStep) options.discountPercent ≤
      q.price.amount := hprice ▸ le_rounded _ _
  have hnonneg : 0 ≤ q.price.amount := q.price.nonneg
  by_cases hbelow : s * (100 - options.discountPercent) ≤ rounded s options.custom.fxRoundStep *
      (100 - options.discountPercent)
  · have hhalf := Rounding.sub_half_le_halfUp
      (a := s * (100 - options.discountPercent)) (b := 100) (by norm_num)
    have hmono : Rounding.halfUp (s * (100 - options.discountPercent)) 100 ≤ q.price.amount :=
      le_trans (le_trans (Rounding.halfUp_mono (by norm_num) hbelow) (le_max_left _ 0)) hround
    have hcast : ((Rounding.halfUp (s * (100 - options.discountPercent)) 100 : Int) : ℚ) ≤
        (q.price.amount : ℚ) := by exact_mod_cast hmono
    push_cast at hhalf ⊢
    linarith
  · -- a discount beyond the whole price, and the rounding did something
    have hup := le_rounded s options.custom.fxRoundStep
    have hd : 100 < options.discountPercent := by
      by_contra hle
      exact hbelow (mul_le_mul_of_nonneg_right hup (by omega))
    have hs0 : 0 ≤ s := by
      by_contra hneg
      apply hbelow
      rw [rounded, if_neg (not_lt.2 (hsub (not_le.1 hneg) hd))]
    have hexact : (s : ℚ) * (100 - options.discountPercent) ≤ 0 :=
      mul_nonpos_of_nonneg_of_nonpos (by exact_mod_cast hs0)
        (sub_nonpos.2 (by exact_mod_cast hd.le))
    have hcast : (0 : ℚ) ≤ q.price.amount := by exact_mod_cast hnonneg
    linarith

end Custom

/-! ## The confirmation -/

/-- What the server says to a confirmation. -/
inductive Answer
  | done (result : GhajarRenewResult)
  /-- `409` with the code `price_changed`, before it charges. -/
  | priceChanged (price : ℚ) (fxQuote : String)
  | failed

/-- `confirmRenew`, as its caller sees it. -/
def confirmRenew : Answer → Except Thrown GhajarRenewResult
  | .done result => .ok result
  | .priceChanged price fxQuote =>
    match renewalToman price with
    | .error e => .error e
    | .ok toman =>
      .error (.rejected toman ((some fxQuote).filter fun q => !(q.blank || q == "null")))
  | .failed => .error .other

/-- What the dialog of a service sends for a quote. -/
def request (username : String) (quote : GhajarRenewQuote) : Renewal :=
  { username
    productCode := quote.selection.productCode
    customVolumeGb := quote.selection.volumeGb
    customTimeDays := quote.selection.timeDays
    fxQuote := quote.fxQuote }

structure GhajarRenewAttempt where
  options : GhajarRenewOptions
  quote : GhajarRenewQuote
  result : Option GhajarRenewResult := none

/-- The quotes that were sent for confirmation, in order, and what the caller gets. -/
structure Ran where
  confirmed : List GhajarRenewQuote
  outcome : Except Thrown GhajarRenewAttempt

def changed (displayed q : GhajarRenewQuote) : Prop :=
  Long.wrap |Long.sub q.price.amount displayed.price.amount| >
    max 1 (displayed.price.amount / 100)

instance (displayed q : GhajarRenewQuote) : Decidable (changed displayed q) := by
  unfold changed
  infer_instance

/-- The price that the server named, as it is for this user. -/
def repriced (options : GhajarRenewOptions) (quote : GhajarRenewQuote) (price : Toman) :
    Except Thrown Toman :=
  if quote.selection.productCode = none then
    renewalDiscountedPrice price.amount options.discountPercent options.custom.fxRoundStep
  else .ok price

section Confirming

variable (displayed : GhajarRenewQuote) (options : GhajarRenewOptions) (answers : Nat → Answer)

/-- The turns of `repeat`, the next of them with its number. -/
def confirming : Nat → Nat → GhajarRenewQuote → Ran
  | 0, _, _ => ⟨[], .error (.illegalState "تأیید تمدید انجام نشد")⟩
  | left + 1, attempt, quote =>
    match confirmRenew (answers attempt) with
    | .ok result => ⟨[quote], .ok ⟨options, quote, some result⟩⟩
    | .error (.rejected price fxQuote) =>
      match repriced options quote price with
      | .error e => ⟨[quote], .error e⟩
      | .ok price =>
        let next := { quote with price, fxQuote }
        if changed displayed next then ⟨[quote], .ok ⟨options, next, none⟩⟩
        else if attempt = 1 ∨ fxQuote = none then
          ⟨[quote],
            .error (.illegalState "دریافت تأیید معتبر قیمت ممکن نشد؛ دوباره تلاش کنید")⟩
        else
          let rest := confirming left (attempt + 1) next
          ⟨quote :: rest.confirmed, rest.outcome⟩
    | .error e => ⟨[quote], .error e⟩

def checkedRenewal (latest : Except Thrown GhajarRenewOptions) : Ran :=
  match latest with
  | .error e => ⟨[], .error e⟩
  | .ok options =>
    match options.quote displayed.selection with
    | .error e => ⟨[], .error e⟩
    | .ok quote =>
      if changed displayed quote then ⟨[], .ok ⟨options, quote, none⟩⟩
      else confirming displayed options answers 2 0 quote

end Confirming


/-! ## What is confirmed -/

section Shown

variable {displayed quote q : GhajarRenewQuote} {options : GhajarRenewOptions}
  {answers : Nat → Answer}

/-- Two prices are never a whole long apart. -/
theorem near_of_unchanged (h : ¬changed displayed q) :
    |q.price.amount - displayed.price.amount| ≤ max 1 (displayed.price.amount / 100) := by
  have hq := q.price.nonneg
  have hq' := q.price.isLong
  have hd := displayed.price.nonneg
  have hd' := displayed.price.isLong
  have hsub := Long.sub_eq (a := q.price.amount) (b := displayed.price.amount) (by omega) (by omega)
  have habs : |q.price.amount - displayed.price.amount| < 2 ^ 63 := abs_lt.2 ⟨by omega, by omega⟩
  have hnonneg := abs_nonneg (q.price.amount - displayed.price.amount)
  unfold changed at h
  rw [hsub, Long.wrap_eq (by omega) habs] at h
  exact not_lt.1 h

/-- It is for the selection of the user, at a price that the user need not be asked about. -/
structure AsShown (displayed q : GhajarRenewQuote) : Prop where
  selection : q.selection = displayed.selection
  unchanged : ¬changed displayed q

/-- The result is one that the server gave to a confirmation of the run. -/
def Granted (answers : Nat → Answer) (attempt : Nat) (run : Ran) : Prop :=
  ∀ a r, run.outcome = .ok a → a.result = some r →
    ∃ i < run.confirmed.length, confirmRenew (answers (attempt + i)) = .ok r

/-- One confirmation: it is the last, or the next one is for the same selection and was compared
with the displayed price. -/
theorem confirming_turn (left attempt : Nat) (quote : GhajarRenewQuote) :
    let run := confirming displayed options answers (left + 1) attempt quote
    (run.confirmed = [quote] ∧ Granted answers attempt run) ∨
    ∃ next, next.selection = quote.selection ∧ ¬changed displayed next ∧
      run = ⟨quote :: (confirming displayed options answers left (attempt + 1) next).confirmed,
        (confirming displayed options answers left (attempt + 1) next).outcome⟩ := by
  have refused : ∀ e : Thrown, Granted answers attempt ⟨[quote], .error e⟩ := by
    intro e a r ho
    cases ho
  intro run
  unfold run
  rw [confirming]
  split
  · rename_i result hresult
    refine .inl ⟨rfl, fun a r ho hr => ⟨0, Nat.one_pos, ?_⟩⟩
    cases ho
    cases hr
    exact hresult
  · split
    · exact .inl ⟨rfl, refused _⟩
    · dsimp only
      split
      · refine .inl ⟨rfl, fun a r ho hr => ?_⟩
        cases ho
        cases hr
      · split
        · exact .inl ⟨rfl, refused _⟩
        · rename_i hnear _
          refine .inr ⟨_, ?_, hnear, rfl⟩
          rfl
  · exact .inl ⟨rfl, refused _⟩

theorem confirming_length (left attempt : Nat) (quote : GhajarRenewQuote) :
    (confirming displayed options answers left attempt quote).confirmed.length ≤ left := by
  induction left generalizing attempt quote with
  | zero => exact Nat.le_refl 0
  | succ left ih =>
    obtain ⟨hlast, -⟩ | ⟨next, -, -, hrun⟩ :=
      @confirming_turn displayed options answers left attempt quote
    · rw [hlast]
      exact Nat.succ_le_succ (Nat.zero_le left)
    · rw [hrun]
      exact Nat.succ_le_succ (ih (attempt + 1) next)

theorem confirming_asShown (left attempt : Nat) (h : AsShown displayed quote) :
    ∀ c ∈ (confirming displayed options answers left attempt quote).confirmed,
      AsShown displayed c := by
  induction left generalizing attempt quote with
  | zero => exact fun c hc => absurd hc List.not_mem_nil
  | succ left ih =>
    intro c hc
    obtain ⟨hlast, -⟩ | ⟨next, hsel, hnear, hrun⟩ :=
      @confirming_turn displayed options answers left attempt quote
    · rw [hlast] at hc
      rw [List.mem_singleton.1 hc]
      exact h
    · rw [hrun] at hc
      rcases List.mem_cons.1 hc with rfl | hc
      · exact h
      · exact ih (attempt + 1) ⟨hsel.trans h.selection, hnear⟩ c hc

theorem confirming_granted (left attempt : Nat) (quote : GhajarRenewQuote) :
    Granted answers attempt (confirming displayed options answers left attempt quote) := by
  induction left generalizing attempt quote with
  | zero =>
    intro a r ho
    cases ho
  | succ left ih =>
    obtain ⟨-, hgranted⟩ | ⟨next, -, -, hrun⟩ :=
      @confirming_turn displayed options answers left attempt quote
    · exact hgranted
    · rw [hrun]
      intro a r ho hr
      obtain ⟨i, hi, hanswer⟩ := ih (attempt + 1) next a r ho hr
      refine ⟨i + 1, Nat.succ_lt_succ hi, ?_⟩
      rw [show attempt + (i + 1) = attempt + 1 + i by omega]
      exact hanswer

variable {latest : Except Thrown GhajarRenewOptions}

/-- Nothing is confirmed before the fresh price has been compared with the displayed one. -/
theorem checkedRenewal_cases (displayed : GhajarRenewQuote) (answers : Nat → Answer)
    (latest : Except Thrown GhajarRenewOptions) :
    let run := checkedRenewal displayed answers latest
    (run.confirmed = [] ∧ ∀ a, run.outcome = .ok a → a.result = none) ∨
    ∃ options quote, AsShown displayed quote ∧
      run = confirming displayed options answers 2 0 quote := by
  intro run
  unfold run checkedRenewal
  cases latest with
  | error e => exact .inl ⟨rfl, fun a ho => by cases ho⟩
  | ok options =>
    dsimp only
    cases hq : options.quote displayed.selection with
    | error e => exact .inl ⟨rfl, fun a ho => by cases ho⟩
    | ok quote =>
      dsimp only
      split
      · refine .inl ⟨rfl, fun a ho => ?_⟩
        cases ho
        rfl
      · exact .inr ⟨options, quote, ⟨options.quote_selection hq, ‹_›⟩, rfl⟩

end Shown

/-- Whatever the server answers, what is confirmed is what was shown; and the price of a selection
without a plan is rounded in favour of the shop, except that a negative amount, rounded up before a
discount of more than the whole price, can lose by it. -/
theorem renewal_bounded :
    (∀ (username : String) (displayed : GhajarRenewQuote) (answers : Nat → Answer)
      (latest : Except Thrown GhajarRenewOptions),
      let run := checkedRenewal displayed answers latest
      run.confirmed.length ≤ 2 ∧
      (∀ c ∈ run.confirmed,
        request username c =
          { request username displayed with fxQuote := c.fxQuote } ∧
        |c.price.amount - displayed.price.amount| ≤ max 1 (displayed.price.amount / 100)) ∧
      ∀ a r, run.outcome = .ok a → a.result = some r →
        ∃ i < run.confirmed.length, confirmRenew (answers i) = .ok r) ∧
    ∀ (options : GhajarRenewOptions) (volume days : Int) (q : GhajarRenewQuote),
      options.quote (.custom volume days) = .ok q →
      0 ≤ q.price.amount ∧
      (0 < options.custom.fxRoundStep → options.custom.fxRoundStep ∣ q.price.amount) ∧
      (options.discountPercent ≤ 100 → ∀ volume' days' q', volume ≤ volume' → days ≤ days' →
        options.quote (.custom volume' days') = .ok q' → q.price.amount ≤ q'.price.amount) ∧
      ((options.custom.subtotal volume days < 0 → 100 < options.discountPercent →
          options.custom.fxRoundStep ≤ 0) →
        exactDiscounted options volume days - 1 / 2 ≤ q.price.amount) := by
  refine ⟨fun username displayed answers latest => ?_, fun options volume days q h => ?_⟩
  · obtain ⟨hnone, hresult⟩ | ⟨options, quote, hshown, hrun⟩ :=
      checkedRenewal_cases displayed answers latest
    · intro run
      refine ⟨?_, fun c hc => ?_, fun a r ho hr => ?_⟩
      · rw [hnone]
        exact Nat.zero_le 2
      · rw [hnone] at hc
        exact absurd hc List.not_mem_nil
      · rw [hresult a ho] at hr
        cases hr
    · intro run
      rw [show run = _ from hrun]
      refine ⟨confirming_length 2 0 quote, fun c hc => ?_, fun a r ho hr => ?_⟩
      · have hc := confirming_asShown 2 0 hshown c hc
        refine ⟨?_, near_of_unchanged hc.unchanged⟩
        rw [request, hc.selection]
        rfl
      · obtain ⟨i, hi, hanswer⟩ := confirming_granted 2 0 quote a r ho hr
        exact ⟨i, hi, by rwa [Nat.zero_add] at hanswer⟩
  · refine ⟨q.price.nonneg, fun hstep => ?_, fun hd volume' days' q' hv hdays h' => ?_,
      exactDiscounted_le h⟩
    · rw [quote_custom h]
      exact dvd_rounded hstep
    · exact quoted_mono h h' hd hv hdays

/-- Thirty days at 101 and a discount of a tenth, rounded up to hundreds. -/
def monthly : GhajarRenewOptions where
  products := []
  showPrice := true
  discountPercent := 10
  custom :=
    { enabled := true
      forced := false
      pricePerGb := ⟨8001, by decide, by decide⟩
      pricePerDay := ⟨101, by decide, by decide⟩
      minVolumeGb := 1
      maxVolumeGb := 500
      minTimeDays := 30
      maxTimeDays := 30
      fxRoundStep := 1000 }

theorem renewal_bounded_monthly :
    ∃ q, monthly.quote (.custom 20 30) = .ok q ∧ q.price.amount = 148000 ∧
      monthly.custom.fxRoundStep ∣ q.price.amount ∧
      exactDiscounted monthly 20 30 - 1 / 2 ≤ q.price.amount := by
  have h : monthly.quote (.custom 20 30) =
      .ok ⟨.custom 20 30, ⟨148000, by decide, by decide⟩, none, true⟩ := rfl
  have hbounded := renewal_bounded.2 monthly 20 30 _ h
  exact ⟨_, h, rfl, hbounded.2.1 (by decide), hbounded.2.2.2 (fun hneg => absurd hneg (by decide))⟩

/-- A server that has a selection count one day backwards and takes off three times the price. -/
def backwards : GhajarRenewOptions where
  products := []
  showPrice := true
  discountPercent := 300
  custom :=
    { enabled := true
      forced := false
      pricePerGb := ⟨0, by decide, by decide⟩
      pricePerDay := ⟨50, by decide, by decide⟩
      minVolumeGb := 0
      maxVolumeGb := 10
      minTimeDays := -1
      maxTimeDays := -1
      fxRoundStep := 100 }

/-- The day is rounded up to nothing, and nothing is what is left of it. -/
theorem backwards_free :
    ∃ q, backwards.quote (.custom 0 (-1)) = .ok q ∧
      ¬exactDiscounted backwards 0 (-1) - 1 / 2 ≤ q.price.amount := by
  refine ⟨⟨.custom 0 (-1), ⟨0, by decide, by decide⟩, none, true⟩, rfl, ?_⟩
  norm_num [exactDiscounted, backwards, GhajarRenewCustomOptions.subtotal]

end Ghajar.Renew
