import Ghajar.Account.Http

/-!
# What the server executes for one call

The calls of the store that change something (`GhajarStoreApi.kt`) and the
transport under them: a request goes out directly or through the local tunnel,
and one that fails on the network is sent again over the other route, unless it
confirms a renewal. An attempt can fail before the server saw it or after the
server executed it; the client gets the same exception. `sent_once_iff` says for
which failures the server executes a call once.
-/

namespace Ghajar

open JSONObject

inductive Route
  | direct
  | proxy
  deriving DecidableEq, Repr

/-- What happens to one attempt on the network and at the server. -/
inductive Outcome
  /-- It failed before the server saw the request. -/
  | unseen
  /-- The server executed it and the answer did not arrive. -/
  | lost
  /-- It was answered, the action executed or not. -/
  | answered (a : HttpAnswer) (executed : Bool)
  deriving Repr, BEq

namespace Outcome

def executed : Outcome → Bool
  | unseen => false
  | lost => true
  | answered _ x => x

/-- An `IOException`, whatever the server did. -/
def failed : Outcome → Bool
  | unseen | lost => true
  | answered _ _ => false

def isLost : Outcome → Bool
  | lost => true
  | _ => false

def answer : Outcome → Option HttpAnswer
  | answered a _ => some a
  | _ => none

end Outcome

/-- The fresh quote of a refused purchase: `409` with the code `price_changed`. -/
def GhajarApiException.freshQuote (e : GhajarApiException) : Option String :=
  (e.details.filter fun d => e.httpCode == 409 && d.optString "code" == "price_changed").bind
    fun d => (some (d.optString "fx_quote")).filter fun q => !(q.blank || q == "null")

/-- The fresh quote an answer to a purchase brings. -/
def HttpAnswer.freshQuote (a : HttpAnswer) : Option String :=
  match (readResponse a true false true).result with
  | .error e => e.freshQuote
  | .ok _ => none

/-- What one request of the transport meets: its clock and memo, and the outcome of each attempt.
A server that says the price has changed has not executed the purchase. -/
structure Net where
  directBlockedUntil : Int
  now : Int
  later : Int
  attempt : Nat → Outcome
  refused : ∀ i a x, attempt i = .answered a x → a.freshQuote.isSome → x = false

inductive Failure
  | io
  | api (e : GhajarApiException)

/-- The attempts of a request in order, its result and the memo it leaves. -/
structure Sent where
  trace : List (Route × Outcome)
  result : Except Failure JSONObject
  directBlockedUntil : Int

def DIRECT_BLOCK_MEMO_MS : Int := 60000

def performRequest (o : Outcome) (authenticated allowPaymentRequired allowLinkGate : Bool) :
    Except Failure JSONObject :=
  match o with
  | .unseen | .lost => .error .io
  | .answered a _ =>
    match (readResponse a allowPaymentRequired allowLinkGate authenticated).result with
    | .ok envelope => .ok envelope
    | .error e => .error (.api e)

def renewalWrite (body : Option JSONObject) : Bool :=
  body.any fun b => b.optString "actions" == "service_renew_confirm"

def requestJson (bearer : Option String) (body : Option JSONObject) (net : Net)
    (allowPaymentRequired : Bool := false) (allowLinkGate : Bool := false) : Sent :=
  let perform (i : Nat) :=
    performRequest (net.attempt i) bearer.isSome allowPaymentRequired allowLinkGate
  -- the direct attempt is the `i`-th, the one through the tunnel after it the next
  let directly (i : Nat) (before : List (Route × Outcome)) (memo : Int) : Sent :=
    match perform i with
    | .ok v => ⟨before ++ [(.direct, net.attempt i)], .ok v, 0⟩
    | .error (.api e) => ⟨before ++ [(.direct, net.attempt i)], .error (.api e), memo⟩
    | .error .io =>
      if renewalWrite body then ⟨before ++ [(.direct, net.attempt i)], .error .io, memo⟩
      else ⟨before ++ [(.direct, net.attempt i), (.proxy, net.attempt (i + 1))], perform (i + 1),
        net.later + DIRECT_BLOCK_MEMO_MS⟩
  if net.now < net.directBlockedUntil then
    match perform 0 with
    | .error .io =>
      if renewalWrite body then ⟨[(.proxy, net.attempt 0)], .error .io, net.directBlockedUntil⟩
      else directly 1 [(.proxy, net.attempt 0)] 0
    | r => ⟨[(.proxy, net.attempt 0)], r, net.directBlockedUntil⟩
  else directly 0 [] net.directBlockedUntil

/-- One request of a call: the account's token when it is made, and what it meets. -/
structure Round where
  token : String
  net : Net

/-- A call of the shop, also of the marketplace: the bearer, the name in the body, the transport. -/
def action (name : String) (body : JSONObject) (r : Round) (allowPaymentRequired : Bool := false) :
    Sent :=
  if r.token.blank then ⟨[], .error (.api { httpCode := 401 }), r.net.directBlockedUntil⟩
  else requestJson (some r.token) (some (body.put "actions" name)) r.net allowPaymentRequired

/-! ## The calls -/

structure GhajarPurchaseRequest where
  countryId : String
  serviceId : Option String := none
  customTrafficGb : Option Int := none
  customTimeDays : Option Int := none
  customUsername : Option String := none
  note : Option String := none
  discountCode : Option String := none
  fxQuote : Option String := none

/-- A field that is put only when it is there and not blank. -/
def putNonBlank (o : JSONObject) (k : String) (v : Option String) : JSONObject :=
  match v.filter fun s => !s.blank with
  | some s => o.put k s
  | none => o

/-- The body of a purchase, with the quote of the panel where the request has none. -/
def GhajarPurchaseRequest.body (r : GhajarPurchaseRequest) (fxQuoteCache : String → Option String) :
    JSONObject :=
  let base : JSONObject := put [] "country_id" r.countryId
  let chosen := match r.serviceId with
    | some id => base.put "service_id" id
    | none => base.put "custom_service"
        (put (put [] "traffic_gb" (r.customTrafficGb.getD 0)) "time_days" (r.customTimeDays.getD 0))
  putNonBlank (putNonBlank (putNonBlank (putNonBlank chosen "custom_username" r.customUsername)
    "custom_note" r.note) "discount_code" r.discountCode)
    "fx_quote" (r.fxQuote.or (fxQuoteCache r.countryId))

/-- A purchase is sent once more when the price has changed, with the fresh quote. -/
def purchase (r : GhajarPurchaseRequest) (fxQuoteCache : String → Option String)
    (first second : Round) : Sent :=
  let body := r.body fxQuoteCache
  let sent := action "purchase" body first true
  match sent.result with
  | .error (.api e) =>
    match e.freshQuote with
    | some fresh =>
      let again := action "purchase" (body.put "fx_quote" fresh) second true
      { again with trace := sent.trace ++ again.trace }
    | none => sent
  | _ => sent

def beginPayment (method : String) (amount : Int) (purchaseUsername : Option String) (r : Round) :
    Sent :=
  action "payment_init"
    (putNonBlank (put (put [] "method" method) "amount" amount) "purchase_username"
      purchaseUsername) r

def requestWalletFallback (orderId : String) (r : Round) : Sent :=
  action "payment_fallback_wallet" (put [] "order_id" orderId) r

def createTrial (panelCode : String) (username : Option String) (r : Round) : Sent :=
  action "test_account_create"
    (putNonBlank (put [] "country_id" panelCode) "custom_username" username) r

structure MarketOrder where
  shopId : Int
  productCode : String
  panelCode : String
  method : String
  kind : String := "purchase"
  plan : String := ""
  volumeGb : Int := 0
  timeDays : Int := 0
  invoiceId : String := ""
  username : String := ""
  amount : Int := 0
  discountCode : String := ""

def MarketOrder.body (o : MarketOrder) : JSONObject :=
  [("shop_id", o.shopId), ("kind", o.kind), ("product_code", o.productCode),
    ("panel_code", o.panelCode), ("method", o.method), ("plan", o.plan), ("volume_gb", o.volumeGb),
    ("time_days", o.timeDays), ("invoice_id", o.invoiceId), ("username", o.username),
    ("amount", o.amount), ("discount_code", o.discountCode)]

def marketOrderStart (o : MarketOrder) (r : Round) : Sent := action "order_start" o.body r

structure Renewal where
  username : String
  productCode : Option String := none
  customVolumeGb : Option Int := none
  customTimeDays : Option Int := none
  discountCode : Option String := none
  fxQuote : Option String := none

def Renewal.body (r : Renewal) : JSONObject :=
  let base : JSONObject := put [] "username" r.username
  let chosen := match r.productCode with
    | some code => base.put "product_code" code
    | none => base.put "custom"
        (put (put [] "volume_gb" (r.customVolumeGb.getD 0)) "time_days" (r.customTimeDays.getD 0))
  putNonBlank (putNonBlank chosen "discount_code" r.discountCode) "fx_quote" r.fxQuote

/-- A changed price is an error of its own here, not a second attempt. -/
def confirmRenew (c : Renewal) (r : Round) : Sent := action "service_renew_confirm" c.body r true

/-- A call that changes something at the server. -/
inductive Call
  | purchase (r : GhajarPurchaseRequest) (fxQuoteCache : String → Option String)
  | beginPayment (method : String) (amount : Int) (purchaseUsername : Option String)
  | requestWalletFallback (orderId : String)
  | createTrial (panelCode : String) (username : Option String)
  | marketOrderStart (o : MarketOrder)
  | confirmRenew (c : Renewal)

/-- A call, with what its request meets and, for a purchase, what a second one would meet. -/
def Call.send (c : Call) (first second : Round) : Sent :=
  match c with
  | purchase r cache => Ghajar.purchase r cache first second
  | beginPayment m a u => Ghajar.beginPayment m a u first
  | requestWalletFallback id => Ghajar.requestWalletFallback id first
  | createTrial p u => Ghajar.createTrial p u first
  | marketOrderStart o => Ghajar.marketOrderStart o first
  | confirmRenew c => Ghajar.confirmRenew c first

/-! ## Once -/

def Sent.outcomes (s : Sent) : List Outcome := s.trace.map Prod.snd

/-- The server executes at most one of the attempts, and an attempt that another one follows has
not been executed. -/
def SentOnce (t : List Outcome) : Prop :=
  (t.filter Outcome.executed).length ≤ 1 ∧
    ∀ before o next after, t = before ++ o :: next :: after → o.executed = false

theorem sentOnce_iff {t : List Outcome} : SentOnce t ↔ ∀ o ∈ t.dropLast, o.executed = false := by
  constructor
  · rintro ⟨-, h⟩ o ho
    obtain ⟨before, after, he⟩ := List.append_of_mem ho
    have hne : t ≠ [] := by
      rintro rfl
      cases ho
    have ht : t = before ++ o :: (after ++ [t.getLast hne]) := by
      conv_lhs => rw [← List.dropLast_append_getLast hne, he]
      simp
    cases hl : after ++ [t.getLast hne] with
    | nil => simp at hl
    | cons next rest => exact h before o next rest (hl ▸ ht)
  · intro h
    constructor
    · rcases List.eq_nil_or_concat t with rfl | ⟨l, o, rfl⟩
      · exact Nat.zero_le 1
      · rw [List.concat_eq_append, List.dropLast_concat] at h
        have hl : l.filter Outcome.executed = [] :=
          List.filter_eq_nil_iff.2 fun o ho => by rw [h o ho]; exact Bool.false_ne_true
        rw [List.concat_eq_append, List.filter_append, hl, List.nil_append]
        exact List.length_filter_le _ [o]
    · rintro before o next after rfl
      apply h
      rw [List.dropLast_append_of_ne_nil (by simp)]
      simp

theorem sentOnce_of_short {t : List Outcome} (h : t.length ≤ 1) : SentOnce t := by
  rw [sentOnce_iff]
  have : t.dropLast = [] := List.eq_nil_of_length_eq_zero (by rw [List.length_dropLast]; omega)
  simp [this]

theorem sentOnce_cons {o p : Outcome} {t : List Outcome} :
    SentOnce (o :: p :: t) ↔ o.executed = false ∧ SentOnce (p :: t) := by
  rw [sentOnce_iff, sentOnce_iff, List.dropLast_cons_cons, List.forall_mem_cons]

/-- Attempts of two requests in a row, where the last of the first was not executed. -/
theorem sentOnce_append {s t : List Outcome} (h : ∀ o ∈ s.getLast?, o.executed = false) :
    SentOnce (s ++ t) ↔ SentOnce s ∧ SentOnce t := by
  induction s with
  | nil => simp [sentOnce_of_short (t := []) (Nat.zero_le 1)]
  | cons o s ih =>
    cases s with
    | nil =>
      have ho : o.executed = false := h o rfl
      have hs : SentOnce [o] := sentOnce_of_short (Nat.le_refl 1)
      cases t with
      | nil => simp [sentOnce_of_short (t := []) (Nat.zero_le 1)]
      | cons p t =>
        rw [List.singleton_append, sentOnce_cons]
        exact ⟨fun h => ⟨hs, h.2⟩, fun h => ⟨ho, h.2⟩⟩
    | cons p s =>
      have ih := ih (by simpa using h)
      rw [List.cons_append] at ih
      rw [List.cons_append, List.cons_append, sentOnce_cons, sentOnce_cons, ih, and_assoc]

/-! ## The attempts of a request -/

/-- The attempts there are routes for: three while the direct route is remembered as blocked. -/
def Net.attempts (net : Net) : List Outcome :=
  if net.now < net.directBlockedUntil then [net.attempt 0, net.attempt 1, net.attempt 2]
  else [net.attempt 0, net.attempt 1]

/-- The attempts made: up to the first that is answered. -/
def upTo : List Outcome → List Outcome
  | [] => []
  | o :: l => if o.failed then o :: upTo l else [o]

/-- Where an answer was lost, there was no route left to try. -/
def LostLast : List Outcome → Prop
  | [] => True
  | [_] => True
  | o :: l => o.isLost = false ∧ (o.failed = true → LostLast l)

theorem upTo_failed {o : Outcome} {l : List Outcome} (h : o.failed = true) :
    upTo (o :: l) = o :: upTo l := if_pos h

theorem upTo_answered {o : Outcome} {l : List Outcome} (h : o.failed = false) :
    upTo (o :: l) = [o] := if_neg (by rw [h]; exact Bool.false_ne_true)

theorem upTo_ne_nil {o : Outcome} {l : List Outcome} : upTo (o :: l) ≠ [] := by
  unfold upTo
  split <;> simp

theorem sentOnce_upTo (l : List Outcome) : SentOnce (upTo l) ↔ LostLast l := by
  induction l with
  | nil => simp [upTo, LostLast, sentOnce_of_short]
  | cons o l ih =>
    cases l with
    | nil =>
      have : SentOnce (upTo [o]) := sentOnce_of_short (by unfold upTo; split <;> simp [upTo])
      simp [this, LostLast]
    | cons p l =>
      have hl : LostLast (o :: p :: l) ↔
          o.isLost = false ∧ (o.failed = true → LostLast (p :: l)) := Iff.rfl
      rw [hl, ← ih]
      cases hu : upTo (p :: l) with
      | nil => exact absurd hu upTo_ne_nil
      | cons q t =>
        rw [← hu]
        cases o with
        | unseen =>
          rw [upTo_failed rfl, hu, sentOnce_cons]
          exact ⟨fun h => ⟨rfl, fun _ => h.2⟩, fun h => ⟨rfl, h.2 rfl⟩⟩
        | lost =>
          rw [upTo_failed rfl, hu, sentOnce_cons]
          exact ⟨fun h => absurd h.1 (by decide), fun h => absurd h.1 (by decide)⟩
        | answered a x =>
          rw [upTo_answered rfl]
          exact ⟨fun _ => ⟨rfl, fun h => (nomatch h)⟩, fun _ => sentOnce_of_short (Nat.le_refl 1)⟩

theorem performRequest_failed {o : Outcome} {auth p l : Bool} (h : o.failed = true) :
    performRequest o auth p l = .error .io := by
  cases o with
  | answered a x => cases h
  | _ => rfl

theorem performRequest_answered {o : Outcome} (auth p l : Bool) (h : o.failed = false) :
    (∃ v, performRequest o auth p l = .ok v) ∨ ∃ e, performRequest o auth p l = .error (.api e) := by
  cases o with
  | answered a x =>
    unfold performRequest
    cases hr : (readResponse a p l auth).result with
    | ok v => exact .inl ⟨v, by simp only [hr]⟩
    | error e => exact .inr ⟨e, by simp only [hr]⟩
  | _ => cases h

section Request

variable {bearer : Option String} {body : Option JSONObject} {net : Net} {p l : Bool}

/-- A request that is no renewal is attempted over every route until it is answered, and its
result is that of the last attempt. -/
theorem requestJson_outcomes (h : renewalWrite body = false) :
    (requestJson bearer body net p l).outcomes = upTo net.attempts ∧
      ∀ o ∈ (upTo net.attempts).getLast?,
        (requestJson bearer body net p l).result = performRequest o bearer.isSome p l := by
  unfold requestJson Net.attempts
  by_cases hb : net.now < net.directBlockedUntil
  · simp only [hb, if_true]
    cases h0 : (net.attempt 0).failed
    · rcases performRequest_answered bearer.isSome p l h0
        with ⟨v, hv⟩ | ⟨e, hv⟩
      · simp [hv, upTo, h0, Sent.outcomes]
      · simp [hv, upTo, h0, Sent.outcomes]
    · rw [performRequest_failed h0]
      cases h1 : (net.attempt 1).failed
      · rcases performRequest_answered bearer.isSome p l h1
          with ⟨v, hv⟩ | ⟨e, hv⟩
        · simp [h, hv, upTo, h0, h1, Sent.outcomes]
        · simp [h, hv, upTo, h0, h1, Sent.outcomes]
      · rw [performRequest_failed h1]
        simp [h, upTo, h0, h1, Sent.outcomes]
  · simp only [hb, if_false]
    cases h0 : (net.attempt 0).failed
    · rcases performRequest_answered bearer.isSome p l h0
        with ⟨v, hv⟩ | ⟨e, hv⟩
      · simp [hv, upTo, h0, Sent.outcomes]
      · simp [hv, upTo, h0, Sent.outcomes]
    · rw [performRequest_failed h0]
      simp [h, upTo, h0, Sent.outcomes]

/-- A renewal is attempted once. -/
theorem requestJson_renewal (h : renewalWrite body = true) :
    (requestJson bearer body net p l).outcomes.length ≤ 1 := by
  unfold requestJson
  by_cases hb : net.now < net.directBlockedUntil
  · simp only [hb, if_true, h]
    split <;> simp [Sent.outcomes]
  · simp only [hb, if_false, h, if_true]
    split <;> simp [Sent.outcomes]

end Request

theorem renewalWrite_put (body : JSONObject) (name : String) :
    renewalWrite (some (body.put "actions" name)) = (name == "service_renew_confirm") := by
  simp [renewalWrite, optString, Json.asString]

/-! ## The calls, exactly -/

/-- The answer a request ends with, if it is answered at all. -/
def Net.reply (net : Net) : Option HttpAnswer := net.attempts.findSome? Outcome.answer

namespace Round

/-- No token, so nothing is sent; or no answer is lost while a route is left. -/
def Safe (r : Round) : Prop := r.token.blank = true ∨ LostLast r.net.attempts

/-- The fresh quote a purchase is refused with. -/
def freshQuote (r : Round) : Option String :=
  if r.token.blank then none else r.net.reply.bind HttpAnswer.freshQuote

end Round

def Call.Safe (c : Call) (first second : Round) : Prop :=
  match c with
  | confirmRenew _ => True
  | purchase _ _ => first.Safe ∧ (first.freshQuote.isSome → second.Safe)
  | _ => first.Safe

theorem action_once {name : String} {body : JSONObject} {r : Round} {p : Bool}
    (h : name ≠ "service_renew_confirm") : SentOnce (action name body r p).outcomes ↔ r.Safe := by
  unfold action Round.Safe
  by_cases ht : r.token.blank = true
  · rw [if_pos ht]
    exact ⟨fun _ => .inl ht, fun _ => sentOnce_of_short (Nat.zero_le 1)⟩
  · have hw : renewalWrite (some (body.put "actions" name)) = false := by
      rw [renewalWrite_put]
      exact beq_false_of_ne h
    rw [if_neg ht, (requestJson_outcomes hw).1, sentOnce_upTo]
    exact ⟨.inr, fun h => h.resolve_left ht⟩

/-- The quote a result carries, if it is a refusal with one. -/
def quoteOf : Except Failure JSONObject → Option String
  | .error (.api e) => e.freshQuote
  | _ => none

theorem quoteOf_performRequest (o : Outcome) :
    quoteOf (performRequest o true true false) = o.answer.bind HttpAnswer.freshQuote := by
  cases o with
  | answered a x =>
    show _ = a.freshQuote
    unfold performRequest HttpAnswer.freshQuote
    cases hr : (readResponse a true false true).result with
    | ok v => simp only [hr, quoteOf]
    | error e => simp only [hr, quoteOf]
  | _ => rfl

/-- The last attempt made is the one that is answered, if one is. -/
theorem reply_of_last {l : List Outcome} {o : Outcome} (h : (upTo l).getLast? = some o) :
    l.findSome? Outcome.answer = o.answer := by
  induction l with
  | nil => cases h
  | cons p l ih =>
    cases hp : p.failed
    · rw [upTo_answered hp] at h
      cases h
      cases p with
      | answered a x => rfl
      | _ => cases hp
    · rw [upTo_failed hp] at h
      cases l with
      | nil =>
        cases h
        cases p <;> rfl
      | cons q l =>
        have hne : upTo (q :: l) ≠ [] := upTo_ne_nil
        have hl : (upTo (q :: l)).getLast? = some o := by
          rw [List.getLast?_cons, List.getLast?_eq_some_getLast hne] at h
          rw [List.getLast?_eq_some_getLast hne]
          exact h
        rw [← ih hl]
        cases p with
        | answered a x => cases hp
        | _ => rfl

theorem attempts_ne_nil (net : Net) : upTo net.attempts ≠ [] := by
  unfold Net.attempts
  split <;> exact upTo_ne_nil

/-- What the first request of a purchase is refused with, from its attempts alone. -/
theorem purchase_quote (body : JSONObject) (r : Round) :
    quoteOf (action "purchase" body r true).result = r.freshQuote := by
  unfold action Round.freshQuote
  by_cases ht : r.token.blank = true
  · rw [if_pos ht, if_pos ht]
    rfl
  · have hw : renewalWrite (some (body.put "actions" "purchase")) = false := by
      rw [renewalWrite_put]
      decide
    have hl := List.getLast?_eq_some_getLast (attempts_ne_nil r.net)
    rw [if_neg ht, if_neg ht, (requestJson_outcomes hw).2 _ hl]
    have hr : r.net.reply = _ := reply_of_last hl
    show quoteOf (performRequest _ true true false) = _
    rw [quoteOf_performRequest, hr]

/-- A request of a purchase that was refused with a quote ends unexecuted. -/
theorem refused_last {r : Round} {body : JSONObject} (h : r.freshQuote.isSome) :
    ∀ o ∈ (action "purchase" body r true).outcomes.getLast?, o.executed = false := by
  unfold Round.freshQuote at h
  split at h
  · cases h
  · rename_i ht
    have hw : renewalWrite (some (body.put "actions" "purchase")) = false := by
      rw [renewalWrite_put]
      decide
    unfold action
    rw [if_neg ht, (requestJson_outcomes hw).1]
    intro o ho
    have hr : r.net.reply = _ := reply_of_last ho
    rw [hr] at h
    cases o with
    | answered a x =>
      have hm : Outcome.answered a x ∈ r.net.attempts := by
        have hsub : ∀ {l : List Outcome} {o}, o ∈ upTo l → o ∈ l := by
          intro l o ho
          induction l with
          | nil => exact ho
          | cons p l ih =>
            unfold upTo at ho
            split at ho
            · rcases List.mem_cons.1 ho with rfl | ho
              · exact List.mem_cons_self
              · exact List.mem_cons_of_mem p (ih ho)
            · rw [List.mem_singleton] at ho
              exact ho ▸ List.mem_cons_self
        exact hsub (List.mem_of_getLast? ho)
      have hi : ∃ i, r.net.attempt i = .answered a x := by
        unfold Net.attempts at hm
        split at hm
        · simp only [List.mem_cons, List.not_mem_nil, or_false] at hm
          rcases hm with h | h | h
          · exact ⟨0, h.symm⟩
          · exact ⟨1, h.symm⟩
          · exact ⟨2, h.symm⟩
        · simp only [List.mem_cons, List.not_mem_nil, or_false] at hm
          rcases hm with h | h
          · exact ⟨0, h.symm⟩
          · exact ⟨1, h.symm⟩
      obtain ⟨i, hi⟩ := hi
      exact r.net.refused i a x hi h
    | _ => cases h

/-- A purchase is one request, or two where the first was refused with a fresh quote. -/
theorem purchase_outcomes (q : GhajarPurchaseRequest) (cache : String → Option String)
    (first second : Round) :
    (purchase q cache first second).outcomes =
      (action "purchase" (q.body cache) first true).outcomes ++
        (match first.freshQuote with
          | some fresh =>
            (action "purchase" ((q.body cache).put "fx_quote" fresh) second true).outcomes
          | none => []) := by
  rw [← purchase_quote (q.body cache) first]
  unfold purchase
  simp only
  cases hs : (action "purchase" (q.body cache) first true).result with
  | ok v => simp only [quoteOf, List.append_nil]
  | error f =>
    cases f with
    | io => simp only [quoteOf, List.append_nil]
    | api e =>
      cases hf : e.freshQuote with
      | none => simp only [quoteOf, hf, List.append_nil]
      | some fresh => simp only [quoteOf, hf, Sent.outcomes, List.map_append]

theorem purchase_once (q : GhajarPurchaseRequest) (cache : String → Option String)
    (first second : Round) :
    SentOnce (purchase q cache first second).outcomes ↔
      first.Safe ∧ (first.freshQuote.isSome → second.Safe) := by
  have hne : "purchase" ≠ "service_renew_confirm" := by decide
  rw [purchase_outcomes]
  cases hf : first.freshQuote with
  | none =>
    rw [List.append_nil, action_once hne]
    exact ⟨fun h => ⟨h, fun hs => (nomatch hs)⟩, fun h => h.1⟩
  | some fresh =>
    have hfr : first.freshQuote.isSome := by rw [hf]; rfl
    rw [sentOnce_append (refused_last hfr), action_once hne]
    exact and_congr_right' ((action_once hne).trans ⟨fun h _ => h, fun h => h rfl⟩)

/-- The server executes a call at most once, each further attempt after one it did not execute,
exactly when the call renews a service, or when in each of its requests no executed attempt lost
its answer while the transport had a route left. -/
theorem sent_once_iff (c : Call) (first second : Round) :
    SentOnce (c.send first second).outcomes ↔ c.Safe first second := by
  cases c with
  | purchase q cache => exact purchase_once q cache first second
  | beginPayment m a u => exact action_once (by decide)
  | requestWalletFallback id => exact action_once (by decide)
  | createTrial p u => exact action_once (by decide)
  | marketOrderStart o => exact action_once (by decide)
  | confirmRenew c =>
    refine ⟨fun _ => trivial, fun _ => ?_⟩
    show SentOnce (action "service_renew_confirm" c.body first true).outcomes
    unfold action
    split
    · exact sentOnce_of_short (Nat.zero_le 1)
    · apply sentOnce_of_short
      apply requestJson_renewal
      rw [renewalWrite_put]
      rfl

/-- A paid answer of the server. -/
def bought : HttpAnswer := { code := 200, body := some [("status", true)] }

/-- A direct attempt that times out after the server took it, and an answered one after it. -/
def timedOut : Round where
  token := "t"
  net :=
    { directBlockedUntil := 0
      now := 1
      later := 2
      attempt := fun i => if i = 0 then .lost else .answered bought true
      refused := by
        intro i a x h hq
        split at h
        · cases h
        · cases h
          revert hq
          decide }

/-- The purchase is executed twice: the answer to the first was late, and it was sent again. -/
theorem bought_twice :
    ¬∀ (c : Call) (first second : Round), SentOnce (c.send first second).outcomes := by
  intro h
  have h := h (.purchase { countryId := "1", serviceId := some "7" } fun _ => none) timedOut timedOut
  have hs := (sentOnce_iff.1 h) .lost (by
    rw [show ((Call.purchase { countryId := "1", serviceId := some "7" } fun _ => none).send
      timedOut timedOut).outcomes = [.lost, .answered bought true] from rfl]
    exact List.mem_cons_self)
  exact absurd hs (by decide)

end Ghajar
