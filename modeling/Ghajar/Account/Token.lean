import Ghajar.Account.Http
import Ghajar.Lib.Run

/-!
# The account token

The account store of the shop (`GhajarAccountStore.kt`), sign-in through the bot
and the requests that carry the token (`GhajarStoreApi.kt`). Every operation of
the store holds its lock; between them the answers of requests and of polls
arrive in any order. `token_kept_iff` says which steps keep the token and the
pending link for as long as they have no reason of their own to go.
-/

namespace Ghajar

/-! ## Sign-in -/

structure GhajarLinkSession where
  code : String
  sessionToken : String
  botUsername : String
  expiresInSeconds : Int
  expiresAtMillis : Int
  deriving DecidableEq, Repr

namespace GhajarUiRules

def MAX_LINK_LIFETIME_MS : Int := 15 * 60 * 1000

def linkExpiresAt (nowMillis ttlSeconds : Int) : Int :=
  nowMillis + min (max ttlSeconds 0) (MAX_LINK_LIFETIME_MS / 1000) * 1000

/-- Between `lo` and `hi` characters of one kind. -/
def made (p : Char → Bool) (lo hi : Nat) (s : String) : Bool :=
  s.toList.all p && lo ≤ s.toList.length && s.toList.length ≤ hi

def isHex (c : Char) : Bool :=
  ('a' ≤ c && c ≤ 'f') || ('A' ≤ c && c ≤ 'F') || ('0' ≤ c && c ≤ '9')

def isLinkCode (c : Char) : Bool :=
  ('A' ≤ c && c ≤ 'Z') || ('a' ≤ c && c ≤ 'z') || ('0' ≤ c && c ≤ '9')

def validPendingLink (code token : String) (expiresAtMillis nowMillis : Int) : Bool :=
  made isLinkCode 4 12 code && made isHex 32 128 token &&
    expiresAtMillis > nowMillis && expiresAtMillis - nowMillis ≤ MAX_LINK_LIFETIME_MS

end GhajarUiRules

def GhajarLinkSession.valid (l : GhajarLinkSession) (now : Int) : Bool :=
  GhajarUiRules.validPendingLink l.code l.sessionToken l.expiresAtMillis now

inductive GhajarLinkState
  | pending | linked | expired | notFound | forceJoin | phoneRequired
  | serverError | networkError | storageError | superseded
  deriving DecidableEq, Repr

namespace GhajarLinkFlow

def isISOControl (c : Char) : Bool := c.toNat ≤ 0x1F || (0x7F ≤ c.toNat && c.toNat ≤ 0x9F)

/-- A token fit to be sent: trimmed, no word for nothing, without blanks or controls. -/
def bearer (value : Option String) : Option String :=
  (value.map String.trimmed).filter fun s =>
    s != "" && !Text.equalsIgnoreCase s "null" && !Text.equalsIgnoreCase s "undefined" &&
      s.toList.all fun c => !(Text.isWhitespace c || isISOControl c)

def lowercase (s : String) : String := String.ofList (s.toList.map Char.toLower)

def responseState (status gate token : Option String) : GhajarLinkState :=
  match status.map lowercase with
  | some "pending" => .pending
  | some "expired" => .expired
  | some "not_found" => .notFound
  | some "linked" =>
    match gate with
    | some "force_join" => .forceJoin
    | some "phone_required" => .phoneRequired
    | none | some "" => if (bearer token).isSome then .linked else .serverError
    | some _ => .serverError
  | _ => .serverError

end GhajarLinkFlow

/-! ## The store -/

/-- The token and the pending link as they decrypt, and the plaintext tokens of early builds in the
order they are looked at. -/
structure AccountStore where
  token : Option String
  legacy : List String
  pending : Option GhajarLinkSession
  deriving DecidableEq, Repr

/-- Whether the phone encrypts, and whether the disk takes a commit. -/
structure Phone where
  encrypts : Bool
  commits : Bool
  deriving DecidableEq, Repr

namespace AccountStore

open GhajarLinkFlow

def clearPendingLink (s : AccountStore) : AccountStore := { s with pending := none }

/-- The pending link; one that is not valid any more is dropped. -/
def pendingLink (s : AccountStore) (now : Int) : AccountStore × Option GhajarLinkSession :=
  match s.pending.filter (·.valid now) with
  | some l => (s, some l)
  | none => (s.clearPendingLink, none)

/-- `none` where the link is not of a shape the app keeps. -/
def savePendingLink (s : AccountStore) (link : GhajarLinkSession) (now : Int) (phone : Phone) :
    AccountStore × Option Bool :=
  if !link.valid now then (s, none)
  else if !phone.encrypts then (s, some false)
  -- the link is in the map in memory even where the commit fails
  else ({ s with pending := some link }, some phone.commits)

/-- The token is stored and everything else goes; where the commit fails all is put back. -/
def saveToken (s : AccountStore) (token : String) (phone : Phone) : AccountStore × Bool :=
  match bearer (some token) with
  | none => (s, false)
  | some clean =>
    if phone.encrypts && phone.commits then ({ token := some clean, legacy := [], pending := none }, true)
    else (s, false)

def legacyToken (s : AccountStore) : String := (s.legacy.find? fun t => !t.blank).getD ""

/-- The stored token; a plaintext one of an early build is stored encrypted first. -/
def readToken (s : AccountStore) (phone : Phone) : AccountStore × String :=
  match bearer s.token with
  | some t => (s, t)
  | none =>
    if s.legacyToken.blank then (s, "")
    else
      let saved := s.saveToken s.legacyToken phone
      if saved.2 then (saved.1, s.legacyToken) else (s, "")

def completePendingLink (s : AccountStore) (sessionToken token : String) (now : Int)
    (phone : Phone) : AccountStore × GhajarLinkState :=
  let p := s.pendingLink now
  if p.2.map (·.sessionToken) ≠ some sessionToken then (p.1, .superseded)
  else
    let saved := p.1.saveToken token phone
    if saved.2 then (saved.1, .linked) else (saved.1, .storageError)

def clear (_ : AccountStore) : AccountStore := { token := none, legacy := [], pending := none }

/-- The account the phone holds: the stored token, or the one of an early build. -/
def account (s : AccountStore) : Option String :=
  (bearer s.token).or (if s.legacyToken.blank then none else bearer (some s.legacyToken))

/-- A look at the token stores one of an early build. -/
def migrates (s : AccountStore) (phone : Phone) : Bool :=
  (bearer s.token).isNone && !s.legacyToken.blank && (bearer (some s.legacyToken)).isSome &&
    phone.encrypts && phone.commits

end AccountStore

/-! ## Requests in flight -/

/-- The store, the bearers of requests in flight and the sessions of polls in flight. -/
structure AccountState where
  store : AccountStore
  requests : List String
  polls : List String
  deriving DecidableEq, Repr

inductive AccountAction
  /-- A look at the token. -/
  | readToken (phone : Phone)
  /-- A request is sent with the token, if there is one. -/
  | request (phone : Phone)
  /-- The answer to a request arrives. -/
  | answer (i : Nat) (a : HttpAnswer) (allowPaymentRequired : Bool)
  /-- A request ends without an answer. -/
  | failed (i : Nat)
  /-- The server has issued a code: the end of `beginLink`. -/
  | linkIssued (link : GhajarLinkSession) (now : Int) (phone : Phone)
  /-- A look at the pending link. -/
  | readPending (now : Int)
  /-- `pollLink` finds its session current and asks the server. -/
  | poll (sessionToken : String) (now : Int)
  /-- The answer to a poll arrives. -/
  | pollAnswer (j : Nat) (a : HttpAnswer) (now : Int) (phone : Phone)
  /-- `signOut` or `unlink`. -/
  | signOut

/-- The token an answer to a poll issues, where it links the account. -/
def issued (a : HttpAnswer) : Option String :=
  match (readResponse a false true false).result with
  | .error _ => none
  | .ok root =>
    let token := GhajarLinkFlow.bearer ((root.opt "token").bind fun v =>
      match v with
      | .str t => some t
      | _ => none)
    let gate := (root.opt "gate").bind fun v =>
      match v with
      | .str t => some t
      | _ => none
    if GhajarLinkFlow.responseState (some (root.optString "link_status")) gate token = .linked then
      token
    else none

def AccountState.step (s : AccountState) : AccountAction → Option AccountState
  | .readToken phone => some { s with store := (s.store.readToken phone).1 }
  | .request phone =>
    let r := s.store.readToken phone
    if r.2.blank then some { s with store := r.1 }
    else some { s with store := r.1, requests := s.requests ++ [r.2] }
  | .answer i a p =>
    if i < s.requests.length then
      some { s with
        store := if (readResponse a p false true).clears then s.store.clear else s.store
        requests := s.requests.eraseIdx i }
    else none
  | .failed i =>
    if i < s.requests.length then some { s with requests := s.requests.eraseIdx i } else none
  | .linkIssued link now phone => some { s with store := (s.store.savePendingLink link now phone).1 }
  | .readPending now => some { s with store := (s.store.pendingLink now).1 }
  | .poll sessionToken now =>
    let p := s.store.pendingLink now
    if p.2.map (·.sessionToken) = some sessionToken then
      some { s with store := p.1, polls := s.polls ++ [sessionToken] }
    else some { s with store := p.1 }
  | .pollAnswer j a now phone =>
    match s.polls[j]? with
    | none => none
    | some sessionToken =>
      match issued a with
      | none => some { s with polls := s.polls.eraseIdx j }
      | some token => some { s with
          store := (s.store.completePendingLink sessionToken token now phone).1
          polls := s.polls.eraseIdx j }
  | .signOut => some { s with store := s.store.clear }

/-! ## What may change the account -/

/-- The token is issued for the pending link that is current when the answer is taken. -/
def IssuedNow (s : AccountState) (a : AccountAction) (t : String) : Prop :=
  match a with
  | .pollAnswer j ans now _ => issued ans = some t ∧
      ∃ l, s.store.pending = some l ∧ l.valid now = true ∧ s.polls[j]? = some l.sessionToken
  | _ => False

/-- A sign-out, or a refusal of a request that carried the token `t`. -/
def Dismissed (s : AccountState) (a : AccountAction) (t : String) : Prop :=
  match a with
  | .signOut => True
  | .answer i ans _ => (ans.code = 401 ∨ ans.code = 403) ∧ s.requests[i]? = some t
  | _ => False

/-- A reason for the pending link `l` to go: a dismissal, a newer link, its end, or that it has
become the token. -/
def LinkGone (s s' : AccountState) (a : AccountAction) (l : GhajarLinkSession) : Prop :=
  match a with
  | .signOut => True
  | .answer i ans _ => (ans.code = 401 ∨ ans.code = 403) ∧
      ∃ t, s.requests[i]? = some t ∧ s.store.account = some t
  | .linkIssued link _ _ => s'.store.pending = some link
  | .readPending now | .poll _ now => l.valid now = false
  | .pollAnswer j ans now _ => l.valid now = false ∨
      (s.polls[j]? = some l.sessionToken ∧ (issued ans).isSome ∧ s'.store.account = issued ans)
  | _ => False

/-- The answer to a request that was not sent with the token the phone holds. -/
def Late (s : AccountState) (a : AccountAction) : Prop :=
  match a with
  | .answer i _ _ => s.requests[i]? ≠ s.store.account
  | _ => False

/-- A step gives the account and the pending link up for their own reasons only, and a late answer
changes nothing. -/
structure KeptBy (s : AccountState) (a : AccountAction) (s' : AccountState) : Prop where
  replaced : ∀ t, s'.store.account = some t → s.store.account = some t ∨ IssuedNow s a t
  removed : ∀ t, s.store.account = some t → s'.store.account = none → Dismissed s a t
  link : ∀ l, s.store.pending = some l → s'.store.pending = some l ∨ LinkGone s s' a l
  late : Late s a → s'.store.account = s.store.account ∧ s'.store.pending = s.store.pending

def Kept (s : AccountState) (a : AccountAction) : Prop := ∀ s', s.step a = some s' → KeptBy s a s'

/-- A refusal that empties the store answers a request sent with the token the phone holds, or
there is nothing to empty; and no token of an early build is stored over a pending link. -/
def Fits (s : AccountState) (a : AccountAction) : Prop :=
  match a with
  | .answer i ans p => i < s.requests.length → (readResponse ans p false true).clears = true →
      s.requests[i]? = s.store.account ∨ (s.store.account = none ∧ s.store.pending = none)
  | .readToken phone | .request phone =>
    s.store.migrates phone = true → s.store.pending = none
  | _ => True

/-! ## One step -/

namespace GhajarLinkFlow

theorem trimmed_of_plain {s : String} (h : ∀ c ∈ s.toList, Text.isWhitespace c = false) :
    s.trimmed = s := by
  have hd : ∀ l : List Char, (∀ c ∈ l, Text.isWhitespace c = false) →
      l.dropWhile Text.isWhitespace = l := by
    intro l hl
    cases l with
    | nil => rfl
    | cons c l => rw [List.dropWhile_cons_of_neg (by simp [hl c List.mem_cons_self])]
  unfold String.trimmed
  rw [hd s.toList h, hd _ (fun c hc => h c (List.mem_reverse.1 hc)), List.reverse_reverse,
    String.ofList_toList]

/-- A clean token is its own clean form. -/
theorem bearer_bearer {v : Option String} {c : String} (h : bearer v = some c) :
    bearer (some c) = some c := by
  unfold bearer at h ⊢
  obtain ⟨hm, hc⟩ := Option.filter_eq_some_iff.1 h
  have hw : ∀ x ∈ c.toList, Text.isWhitespace x = false := by
    intro x hx
    simp only [Bool.and_eq_true, List.all_eq_true] at hc
    have := hc.2 x hx
    simp only [Bool.not_eq_true', Bool.or_eq_false_iff] at this
    exact this.1
  rw [Option.map_some, trimmed_of_plain hw]
  exact Option.filter_eq_some_iff.2 ⟨rfl, hc⟩

end GhajarLinkFlow

namespace AccountStore

open GhajarLinkFlow

variable {s : AccountStore} {phone : Phone} {now : Int}

theorem account_of_bearer {t : String} (h : bearer s.token = some t) : s.account = some t := by
  simp [account, h]

theorem account_clear (s : AccountStore) : s.clear.account = none := by
  simp [account, clear, bearer, legacyToken]
  decide

theorem account_pending (l : Option GhajarLinkSession) : { s with pending := l }.account = s.account :=
  rfl

theorem pendingLink_account : (s.pendingLink now).1.account = s.account := by
  unfold pendingLink
  split <;> rfl

theorem saveToken_ok {t c : String} (hb : bearer (some t) = some c)
    (hs : (s.saveToken t phone).2 = true) :
    (s.saveToken t phone).1 = { token := some c, legacy := [], pending := none } := by
  unfold saveToken at hs ⊢
  rw [hb] at hs ⊢
  simp only at hs ⊢
  split
  · rfl
  · rename_i h
    rw [if_neg h] at hs
    cases hs

theorem saveToken_failed {t : String} (hs : (s.saveToken t phone).2 = false) :
    (s.saveToken t phone).1 = s := by
  unfold saveToken at hs ⊢
  split
  · rfl
  · rename_i hb
    rw [hb] at hs
    simp only at hs
    split
    · rename_i h
      rw [if_pos h] at hs
      cases hs
    · rfl

/-- A look at the token leaves the store alone, or stores a token of an early build. -/
theorem readToken_store (s : AccountStore) (phone : Phone) :
    (s.migrates phone = false ∧ (s.readToken phone).1 = s) ∨
      (s.migrates phone = true ∧ (s.readToken phone).1.account = s.account ∧
        (s.readToken phone).1.pending = none) := by
  unfold readToken migrates
  cases ht : bearer s.token with
  | some t => exact .inl ⟨rfl, rfl⟩
  | none =>
    cases hl : s.legacyToken.blank with
    | true => exact .inl ⟨rfl, rfl⟩
    | false =>
      simp only [Option.isNone_none, Bool.not_false, Bool.true_and, Bool.false_eq_true, if_false]
      cases hb : bearer (some s.legacyToken) with
      | none =>
        have hs : (s.saveToken s.legacyToken phone).2 = false := by simp [saveToken, hb]
        rw [hs]
        exact .inl ⟨rfl, rfl⟩
      | some c =>
        cases hp : phone.encrypts && phone.commits with
        | false =>
          have hs : (s.saveToken s.legacyToken phone).2 = false := by simp [saveToken, hb, hp]
          rw [hs]
          refine .inl ⟨?_, rfl⟩
          rw [Option.isSome_some, Bool.true_and, hp]
        | true =>
          have hs : (s.saveToken s.legacyToken phone).2 = true := by simp [saveToken, hb, hp]
          have hsave := saveToken_ok hb hs
          simp only [hs, if_true, hsave]
          refine .inr ⟨?_, ?_, trivial⟩
          · rw [Option.isSome_some, Bool.true_and, hp]
          · have hnew : ({ token := some c, legacy := [], pending := none } : AccountStore).account =
                some c := account_of_bearer (bearer_bearer hb)
            rw [hnew]
            simp [account, ht, hl, hb]

/-- A poll's token is stored for the session that is pending and valid, or nothing but an invalid
link goes. -/
theorem completePendingLink_store (s : AccountStore) (session : String) (now : Int) (phone : Phone)
    {t : String} (hb : bearer (some t) = some t) :
    ((s.completePendingLink session t now phone).1.account = s.account ∧
      ((s.completePendingLink session t now phone).1.pending = s.pending ∨
        ∀ l, s.pending = some l → l.valid now = false)) ∨
    ((s.completePendingLink session t now phone).1.account = some t ∧
      ∃ l, s.pending = some l ∧ l.valid now = true ∧ l.sessionToken = session) := by
  unfold completePendingLink pendingLink
  cases hf : s.pending.filter (·.valid now) with
  | none =>
    refine .inl ⟨rfl, .inr fun l hl => ?_⟩
    rw [hl] at hf
    simpa [Option.filter] using hf
  | some l =>
    obtain ⟨hl, hv⟩ := Option.filter_eq_some_iff.1 hf
    simp only [Option.map_some, ne_eq, Option.some.injEq]
    by_cases he : l.sessionToken = session
    · rw [if_neg (by simpa using he)]
      cases hs : (s.saveToken t phone).2 with
      | false =>
        simp only [Bool.false_eq_true, if_false]
        rw [saveToken_failed hs]
        exact .inl ⟨rfl, .inl rfl⟩
      | true =>
        simp only [if_true]
        rw [saveToken_ok hb hs]
        exact .inr ⟨account_of_bearer hb, l, hl, hv, he⟩
    · rw [if_pos (by simpa using he)]
      exact .inl ⟨rfl, .inl rfl⟩

end AccountStore

theorem issued_bearer {a : HttpAnswer} {t : String} (h : issued a = some t) :
    GhajarLinkFlow.bearer (some t) = some t := by
  unfold issued at h
  split at h
  · cases h
  · simp only at h
    split at h
    · exact GhajarLinkFlow.bearer_bearer h
    · cases h

namespace AccountState

variable {s : AccountState}

theorem kept_of_same {a : AccountAction} {s' : AccountState}
    (h : s'.store.account = s.store.account) (hp : s'.store.pending = s.store.pending) :
    KeptBy s a s' where
  replaced := fun t ht => .inl (h ▸ ht)
  removed := fun t ht hn => by
    rw [h, ht] at hn
    cases hn
  link := fun l hl => .inl (hp ▸ hl)
  late := fun _ => ⟨h, hp⟩

/-- A look at the token, alone or for a request. -/
theorem kept_readToken {phone : Phone} {a : AccountAction} {s' : AccountState}
    (hs : s'.store = (s.store.readToken phone).1) (hl : ∀ l, ¬LinkGone s s' a l) :
    KeptBy s a s' ↔ (s.store.migrates phone = true → s.store.pending = none) := by
  rcases s.store.readToken_store phone with ⟨hm, hr⟩ | ⟨hm, ha, hp⟩
  · rw [hm]
    rw [hr] at hs
    exact ⟨fun _ h => (nomatch h), fun _ => kept_of_same (by rw [hs]) (by rw [hs])⟩
  · rw [← hs] at ha hp
    constructor
    · intro h _
      cases hq : s.store.pending with
      | none => rfl
      | some l =>
        rcases h.link l hq with h | h
        · rw [hp] at h
          cases h
        · exact absurd h (hl l)
    · intro h
      exact kept_of_same ha (by rw [hp, h hm])

theorem kept_answer {i : Nat} {ans : HttpAnswer} {p : Bool} :
    Kept s (.answer i ans p) ↔ Fits s (.answer i ans p) := by
  unfold Kept
  show (∀ s', (if i < s.requests.length then _ else none) = some s' → _) ↔
    (i < s.requests.length → _)
  by_cases hi : i < s.requests.length
  · rw [if_pos hi]
    simp only [Option.some.injEq, forall_eq', hi, true_implies]
    cases hc : (readResponse ans p false true).clears with
    | false =>
      simp only [Bool.false_eq_true, if_false, false_implies, iff_true]
      exact kept_of_same rfl rfl
    | true =>
      simp only [if_true, true_implies]
      have hcode := (readResponse_clears hc).2
      constructor
      · intro h
        by_contra hn
        rw [not_or] at hn
        obtain ⟨ha, hp⟩ := h.late hn.1
        exact hn.2 ⟨ha.symm.trans (AccountStore.account_clear s.store), hp.symm⟩
      · rintro (h | ⟨ha, hp⟩)
        · refine ⟨?_, ?_, ?_, fun hl => absurd h hl⟩
          · intro t ht
            cases (AccountStore.account_clear s.store).symm.trans ht
          · intro t ht _
            exact ⟨hcode, h.trans ht⟩
          · intro l hl
            refine .inr ⟨hcode, s.requests[i], List.getElem?_eq_getElem hi, ?_⟩
            rw [← h, List.getElem?_eq_getElem hi]
        · exact kept_of_same ((AccountStore.account_clear s.store).trans ha.symm) hp.symm
  · rw [if_neg hi]
    simp [hi]

theorem kept_linkIssued {link : GhajarLinkSession} {now : Int} {phone : Phone} :
    Kept s (.linkIssued link now phone) := by
  rintro s' hs
  cases hs
  unfold AccountStore.savePendingLink
  split
  · exact kept_of_same rfl rfl
  · split
    · exact kept_of_same rfl rfl
    · refine ⟨fun t ht => .inl ht, fun t ht hn => ?_, fun l hl => .inr rfl, fun hl => hl.elim⟩
      have hn : s.store.account = none := hn
      rw [ht] at hn
      cases hn

/-- A look at the pending link drops it only when it is not valid any more. -/
theorem kept_pendingLink {now : Int} {a : AccountAction} {s' : AccountState}
    (hs : s'.store = (s.store.pendingLink now).1) (hl : ∀ l, l.valid now = false → LinkGone s s' a l)
    (hlate : ¬Late s a) : KeptBy s a s' := by
  have ha : s'.store.account = s.store.account := by rw [hs, AccountStore.pendingLink_account]
  refine ⟨fun t ht => .inl (ha ▸ ht), fun t ht hn => ?_, fun l hp => ?_, fun h => absurd h hlate⟩
  · rw [ha, ht] at hn
    cases hn
  · rw [hs]
    unfold AccountStore.pendingLink
    rw [hp]
    cases hv : l.valid now with
    | true =>
      have hf : (some l).filter (·.valid now) = some l := by simp [Option.filter, hv]
      rw [hf]
      exact .inl hp
    | false => exact .inr (hl l hv)

theorem kept_pollAnswer {j : Nat} {ans : HttpAnswer} {now : Int} {phone : Phone} :
    Kept s (.pollAnswer j ans now phone) := by
  intro s' hs
  unfold AccountState.step at hs
  simp only at hs
  split at hs
  · cases hs
  · rename_i session hj
    split at hs
    · cases hs
      exact kept_of_same rfl rfl
    · rename_i t ht
      cases hs
      rcases s.store.completePendingLink_store session now phone (issued_bearer ht) with ⟨ha, hp⟩ | ⟨ha, l, hp, hv, hsess⟩
      · refine ⟨fun u hu => .inl (ha ▸ hu), fun u hu hn => ?_, fun l hl => ?_, fun h => h.elim⟩
        · have hn := ha.symm.trans hn
          rw [hu] at hn
          cases hn
        · rcases hp with hp | hp
          · exact .inl (hp.trans hl)
          · exact .inr (.inl (hp l hl))
      · refine ⟨fun u hu => ?_, fun u _ hn => ?_, fun k hk => ?_, fun h => h.elim⟩
        · obtain rfl := Option.some.inj (ha.symm.trans hu)
          exact .inr ⟨ht, l, hp, hv, by rw [hj, hsess]⟩
        · cases ha.symm.trans hn
        · obtain rfl := Option.some.inj (hp.symm.trans hk)
          exact .inr (.inr ⟨by rw [hj, hsess], by rw [ht]; rfl, ha.trans ht.symm⟩)

theorem kept_iff_fits (s : AccountState) (a : AccountAction) : Kept s a ↔ Fits s a := by
  cases a with
  | readToken phone =>
    unfold Kept
    show (∀ s', some _ = some s' → _) ↔ _
    simp only [Option.some.injEq, forall_eq']
    exact kept_readToken rfl fun l h => h
  | request phone =>
    unfold Kept AccountState.step
    simp only
    split
    · simp only [Option.some.injEq, forall_eq']
      exact kept_readToken rfl fun l h => h
    · simp only [Option.some.injEq, forall_eq']
      exact kept_readToken rfl fun l h => h
  | answer i ans p => exact kept_answer
  | failed i =>
    refine ⟨fun _ => trivial, fun _ s' hs => ?_⟩
    unfold AccountState.step at hs
    simp only at hs
    split at hs
    · cases hs
      exact kept_of_same rfl rfl
    · cases hs
  | linkIssued link now phone => exact ⟨fun _ => trivial, fun _ => kept_linkIssued⟩
  | readPending now =>
    refine ⟨fun _ => trivial, fun _ s' hs => ?_⟩
    cases hs
    exact kept_pendingLink rfl (fun l h => h) fun h => h
  | poll session now =>
    refine ⟨fun _ => trivial, fun _ s' hs => ?_⟩
    unfold AccountState.step at hs
    simp only at hs
    split at hs
    · cases hs
      exact kept_pendingLink rfl (fun l h => h) fun h => h
    · cases hs
      exact kept_pendingLink rfl (fun l h => h) fun h => h
  | pollAnswer j ans now phone => exact ⟨fun _ => trivial, fun _ => kept_pollAnswer⟩
  | signOut =>
    refine ⟨fun _ => trivial, fun _ s' hs => ?_⟩
    cases hs
    refine ⟨fun t ht => ?_, fun t _ _ => trivial, fun l _ => .inr trivial, fun h => h.elim⟩
    cases (AccountStore.account_clear s.store).symm.trans ht

end AccountState

/-- In every interleaving of sign-ins, sign-outs and requests, from any state: each step keeps the
token and the pending link but for their own reasons exactly when no refusal of a request sent with
another token empties a store that holds something, and no token of an early build is stored over
a pending link. -/
theorem token_kept_iff (s : AccountState) (as : List AccountAction) :
    Run.Meets AccountState.step Kept s as ↔ Run.Meets AccountState.step Fits s as := by
  induction as generalizing s with
  | nil => exact Iff.rfl
  | cons a as ih =>
    unfold Run.Meets
    rw [AccountState.kept_iff_fits]
    cases s.step a with
    | none => exact Iff.rfl
    | some s' => exact and_congr_right' (ih s')

def secondLink : GhajarLinkSession where
  code := "K7P2QX"
  sessionToken := "0123456789abcdef0123456789abcdef"
  botUsername := "Ghajar_vpnbot"
  expiresInSeconds := 300
  expiresAtMillis := 300000

/-- A request goes out with the first account's token; then the user signs out and in again. -/
def signInAgain : List AccountAction :=
  [.request ⟨true, true⟩, .signOut, .linkIssued secondLink 0 ⟨true, true⟩,
    .poll secondLink.sessionToken 2000,
    .pollAnswer 0 { code := 200, body := some [("link_status", "linked"), ("token", "second")] } 3000
      ⟨true, true⟩]

/-- The late refusal of the first account's request signs the second account out. -/
theorem second_signed_out : ¬∀ (s : AccountState) (as : List AccountAction),
    Run.Meets AccountState.step Kept s as := by
  intro h
  have h := h ⟨{ token := some "first", legacy := [], pending := none }, [], []⟩
    (signInAgain ++ [.answer 0 { code := 401, body := some [] } false])
  have hr : Run.run AccountState.step
      ⟨{ token := some "first", legacy := [], pending := none }, [], []⟩ signInAgain =
      some ⟨{ token := some "second", legacy := [], pending := none }, ["first"], []⟩ := by
    decide
  have hl := (h.at_end hr _ rfl).late (by
    show some "first" ≠ _
    decide)
  exact absurd hl.1 (by decide)

end Ghajar
