import Ghajar.Lib.Json

/-!
# Answers of the shop

How the app reads an answer (`GhajarStoreApi.kt`, `GhajarLinkFlow.kt`): the
envelope, or the exception with the status and the details. An answer of 401 or
403 to a request that carried a bearer empties the account store on the way.
-/

namespace Ghajar

/-- An answer: the status and the body, where it is a JSON object. -/
structure HttpAnswer where
  code : Int
  body : Option JSONObject
  deriving Repr, BEq

/-- An answer that is no success, as the callers see it. -/
structure GhajarApiException where
  httpCode : Int := 0
  details : Option JSONObject := none
  deriving Repr, BEq

namespace GhajarLinkFlow

def invalidatesAccount (authenticated : Bool) (httpCode : Int) : Bool :=
  authenticated && (httpCode == 401 || httpCode == 403)

end GhajarLinkFlow

def HttpAnswer.ok (a : HttpAnswer) : Bool := 200 ≤ a.code && a.code ≤ 299

/-- What reading an answer comes to, and whether `account.clear()` is called for it. -/
structure Reading where
  clears : Bool
  result : Except GhajarApiException JSONObject

/-- A purchase the wallet does not cover is answered with what is to be paid. -/
def paymentRequired (envelope : JSONObject) : Bool :=
  envelope.optBoolean "requires_payment" ||
    (envelope.optJSONObject "obj").any (·.optBoolean "requires_payment")

/-- A login that waits for the user: linked, but not let through. -/
def linkGate (envelope : JSONObject) : Bool :=
  envelope.optString "link_status" == "linked" &&
    ["force_join", "phone_required"].contains (envelope.optString "gate")

def readResponse (a : HttpAnswer) (allowPaymentRequired : Bool := false)
    (allowLinkGate : Bool := false) (authenticated : Bool := false) : Reading :=
  if a.code = 404 ∧ (a.body.bind (·.opt "msg")).isNone then ⟨false, .error { httpCode := a.code }⟩
  else
    match a.body with
    | none => ⟨false, .error { httpCode := a.code }⟩
    | some envelope =>
      if allowPaymentRequired && paymentRequired envelope then ⟨false, .ok envelope⟩
      -- an unauthenticated login request does not erase an existing account
      else if allowLinkGate && a.ok && linkGate envelope then
        ⟨GhajarLinkFlow.invalidatesAccount authenticated a.code, .ok envelope⟩
      else if !a.ok || !envelope.optBoolean "status" true then
        ⟨GhajarLinkFlow.invalidatesAccount authenticated a.code,
          .error { httpCode := a.code, details := envelope.optJSONObject "obj" }⟩
      else ⟨GhajarLinkFlow.invalidatesAccount authenticated a.code, .ok envelope⟩

/-- Only a refusal of a request that carried a bearer empties the store. -/
theorem readResponse_clears {a : HttpAnswer} {p l auth : Bool}
    (h : (readResponse a p l auth).clears = true) : auth = true ∧ (a.code = 401 ∨ a.code = 403) := by
  unfold readResponse at h
  have hi : GhajarLinkFlow.invalidatesAccount auth a.code = true := by
    split at h
    · cases h
    · split at h
      · cases h
      · split at h
        · cases h
        · split at h
          · exact h
          · split at h <;> exact h
  simpa [GhajarLinkFlow.invalidatesAccount] using hi

/-- Such a refusal is an exception with its own status. -/
theorem readResponse_error {a : HttpAnswer} {p l auth : Bool} {e : GhajarApiException}
    (h : (readResponse a p l auth).result = .error e) : e.httpCode = a.code := by
  unfold readResponse at h
  split at h
  · cases h
    rfl
  · split at h
    · cases h
      rfl
    · split at h
      · cases h
      · split at h
        · cases h
        · split at h
          · cases h
            rfl
          · cases h

end Ghajar
