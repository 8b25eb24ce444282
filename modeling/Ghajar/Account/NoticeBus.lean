import Mathlib
import Ghajar.Lib.Digest
import Ghajar.Lib.Distinct
import Ghajar.Lib.Run
import Ghajar.Lib.Search
import Ghajar.Lib.Text
import Ghajar.Lib.Utf8

/-!
# Notices that were read

`GhajarNoticeBus`, `acknowledgeAsync` and `refresh`. A notice that was read stays away by two
sets: the stored one, which an acknowledgement cuts to 500 of no particular order, and the one in
memory, which the first publish for another account clears. A refresh reads the stored set some
time before it publishes. `Keeps` says what must not happen in between.
-/

namespace Ghajar.Notices

structure GhajarNoticeMeta where
  remainingBytes : Option Int
  daysRemaining : Option Int
  deriving DecidableEq

structure GhajarNotice where
  id : String
  title : String
  message : String
  important : Bool := false
  serviceAlert : Bool := false
  «meta» : Option GhajarNoticeMeta := none
  shouldFloat : Bool := true
  deriving DecidableEq

structure GhajarNoticeFeed where
  notices : List GhajarNotice
  shopEnabled : Bool
  shopMessage : String

/-- What is outside: SHA-256, and bytes written as gigabytes with two digits after the point. -/
structure Platform where
  sha : Digest.Hash
  gigabytes : Int → String

/-! ## The bus -/

structure Bus where
  account : String := ""
  pending : List GhajarNotice := []
  dismissedInSession : List String := []
  notice : Option GhajarNotice := none
  deriving DecidableEq

def rank (n : GhajarNotice) : Nat := if n.important then 2 else if n.serviceAlert then 1 else 0

/-- The bus as it goes on for an account. -/
def Bus.enter (b : Bus) (accountKey : String) : Bus :=
  if b.account ≠ accountKey then
    { b with pending := [], account := accountKey, dismissedInSession := [] }
  else b

def Bus.publish (b : Bus) (accountKey : String) (values : List GhajarNotice)
    (acknowledged : List String) : Bus :=
  let b := b.enter accountKey
  let pending := ((Distinct.distinctBy GhajarNotice.id values).filter fun n =>
    !(acknowledged.contains n.id || b.dismissedInSession.contains n.id)).insertionSort
      fun m n => rank n ≤ rank m
  { b with pending := pending, notice := pending.head? }

def Bus.dismiss (b : Bus) (id : String) : Bus :=
  let pending := b.pending.filter fun n => n.id ≠ id
  { b with
    dismissedInSession := id :: b.dismissedInSession
    pending := pending
    notice := pending.head? }

def Bus.reset (_ : Bus) : Bus := {}

/-! ## The monitor -/

def accountKey (p : Platform) (token : String) : Option String :=
  if token.blank then none
  else some (String.ofList (Digest.hex (Digest.short p.sha 12 (Utf8.encode token.toList))))

/-- The set with one more, in the order it is listed in. -/
def added (listed : List String) (id : String) : List String :=
  if id ∈ listed then listed else listed ++ [id]

/-- `toList().takeLast(500).toSet()` -/
def takeLast (l : List String) : List String := l.drop (l.length - 500)

def suffix (p : Platform) (m : GhajarNoticeMeta) : String :=
  " • ".intercalate
    ((m.remainingBytes.map fun b => "حجم باقی‌مانده: " ++ p.gigabytes b ++ " گیگابایت").toList ++
      (m.daysRemaining.map fun d => "زمان باقی‌مانده: " ++ toString d ++ " روز").toList)

def withUsageSummary (p : Platform) (n : GhajarNotice) : GhajarNotice :=
  match n.meta with
  | none => n
  | some m =>
    if (suffix p m).blank ∨ (Search.index (suffix p m).toList n.message.toList).isSome then n
    else { n with message := n.message ++ "\n" ++ suffix p m }

def due (p : Platform) (notices : List GhajarNotice) : List GhajarNotice :=
  (notices.filter GhajarNotice.shouldFloat).map (withUsageSummary p)

def repeating (n : GhajarNotice) : Bool := n.id.startsWith "notice:"

def fingerprint (p : Platform) (n : GhajarNotice) : String :=
  n.id ++ ":" ++ String.ofList
    (Digest.hex (Digest.short p.sha 12 (Utf8.encode (n.title ++ "\n" ++ n.message).toList)))

/-- The fingerprints and the posted ones after a notice, of which the system says whether it was
posted. -/
def deliver (p : Platform) (r : List String × List String) (n : GhajarNotice × Bool) :
    List String × List String :=
  if (!repeating n.1 && r.1.contains (fingerprint p n.1)) || !n.2 then r
  else (added r.1 (fingerprint p n.1), if repeating n.1 then r.2 ++ [n.1.id] else r.2)

/-- Where the refresh that holds the lock stands. -/
inductive Refresh where
  | idle
  | fetching (key : String)
  | fetched (key : String) (notices : List GhajarNotice)
  | read (key : String) (due : List GhajarNotice) (notified acknowledged : List String)
  | published (key : String) (due : List GhajarNotice) (notified : List String)

/-- An acknowledgement has stored the notice, if there is an account, and dismisses it next. -/
inductive Ack where
  | idle
  | dismissing (key : Option String) (id : String)

/-- `acked` are the calls that have returned, with their account. -/
structure Sys where
  token : String := ""
  acknowledged : String → List String := fun _ => []
  notified : String → List String := fun _ => []
  bus : Bus := {}
  shop : Bool × String := (true, "")
  refresh : Refresh := .idle
  ack : Ack := .idle
  markedShown : List (List String) := []
  acked : List (String × String) := []

/-- `listed` is the order a stored set happens to be listed in. A sign-out sets the token, clears
the sets of every account and resets the bus. A restart keeps what is stored. -/
inductive Act where
  | setToken (token : String)
  | start
  | fetch (feed : Option GhajarNoticeFeed)
  | read (listed : List String)
  | publish
  | post (outcomes : List Bool)
  | acknowledge (id : String) (listed : List String)
  | dismiss
  | reset
  | clear (key : String)
  | restart

section Steps

variable (p : Platform)

def stepRefresh (s : Sys) : Act → Option Sys
  | .start =>
    match s.refresh with
    | .idle =>
      match accountKey p s.token with
      | none => some { s with bus := s.bus.reset }
      | some key => some { s with refresh := .fetching key }
    | _ => some s
  | .fetch feed =>
    match s.refresh, feed with
    | .fetching _, none => some { s with refresh := .idle }
    | .fetching key, some feed =>
      if accountKey p s.token = some key then
        some { s with
          shop := (feed.shopEnabled, feed.shopMessage)
          refresh := .fetched key feed.notices }
      else some { s with refresh := .idle }
    | _, _ => none
  | .read listed =>
    match s.refresh with
    | .fetched key notices =>
      if listed.Perm (s.notified key) then
        some { s with refresh := .read key (due p notices) listed (s.acknowledged key) }
      else none
    | _ => none
  | .publish =>
    match s.refresh with
    | .read key due notified acknowledged =>
      some { s with
        bus := s.bus.publish key due acknowledged
        refresh := .published key due notified }
    | _ => none
  | .post outcomes =>
    match s.refresh with
    | .published key due notified =>
      if outcomes.length = due.length then
        let r := (due.zip outcomes).foldl (deliver p) (notified, [])
        some { s with
          notified := Function.update s.notified key (takeLast r.1)
          markedShown := if r.2 = [] then s.markedShown else s.markedShown ++ [r.2]
          refresh := .idle }
      else none
    | _ => none
  | _ => none

def step (s : Sys) : Act → Option Sys
  | .setToken token => some { s with token := token }
  | .acknowledge id listed =>
    match s.ack, accountKey p s.token with
    | .idle, none => some { s with ack := .dismissing none id }
    | .idle, some key =>
      if listed.Perm (s.acknowledged key) then
        some { s with
          acknowledged := Function.update s.acknowledged key (takeLast (added listed id))
          ack := .dismissing (some key) id }
      else none
    | _, _ => none
  | .dismiss =>
    match s.ack with
    | .dismissing key id =>
      some { s with
        bus := s.bus.dismiss id
        ack := .idle
        acked := (key.map fun k => (k, id)).toList ++ s.acked }
    | .idle => none
  | .reset => some { s with bus := s.bus.reset }
  | .clear key =>
    some { s with
      acknowledged := Function.update s.acknowledged key []
      notified := Function.update s.notified key [] }
  | .restart =>
    some { s with bus := {}, shop := (true, ""), refresh := .idle, ack := .idle }
  | a => stepRefresh p s a

/-- No notice shows that its account has acknowledged. -/
def StaysAway (s : Sys) : Prop :=
  ∀ id, (s.bus.account, id) ∈ s.acked → ∀ n, s.bus.notice = some n → n.id ≠ id

/-- An acknowledgement cuts nothing off the stored set and nothing clears one that has entries,
and no publish is the first for its account that goes by a set from before an acknowledgement. -/
def Keeps (s : Sys) : Act → Prop
  | .acknowledge id listed => (added listed id).length ≤ 500
  | .clear key => s.acknowledged key = []
  | .publish =>
    match s.refresh with
    | .read key due _ acknowledged =>
      s.bus.account = key ∨ ∀ n ∈ due, n.id ∈ s.acknowledged key → n.id ∈ acknowledged
    | _ => True
  | _ => True

variable {p : Platform}

/-! ## The sets -/

theorem mem_added {l : List String} {id x : String} : x ∈ added l id ↔ x ∈ l ∨ x = id := by
  unfold added
  split
  · exact ⟨.inl, fun h => h.elim (fun hl => hl) fun he => he ▸ ‹_›⟩
  · rw [List.mem_append, List.mem_singleton]

theorem takeLast_of_length {l : List String} (h : l.length ≤ 500) : takeLast l = l := by
  rw [takeLast, Nat.sub_eq_zero_of_le h, List.drop_zero]

/-- What stands in front of the last 500 is lost. -/
theorem takeLast_keeps_iff {l : List String} (hl : l.Nodup) :
    (∀ x ∈ l, x ∈ takeLast l) ↔ l.length ≤ 500 := by
  constructor
  · intro h
    by_contra hn
    cases l with
    | nil => exact hn (Nat.zero_le 500)
    | cons x l =>
      rw [List.length_cons] at hn
      have hx := h x List.mem_cons_self
      have hd : takeLast (x :: l) = l.drop (l.length - 500) := by
        rw [takeLast, List.length_cons, Nat.sub_add_comm (by omega), List.drop_succ_cons]
      rw [hd] at hx
      exact (List.nodup_cons.1 hl).1 (List.mem_of_mem_drop hx)
  · intro h x hx
    rwa [takeLast_of_length h]

theorem accountKey_ne {token key : String} (h : accountKey p token = some key) : key ≠ "" := by
  unfold accountKey at h
  split at h
  · cases h
  · rintro rfl
    have hl := congrArg String.toList (Option.some.inj h)
    rw [String.toList_ofList] at hl
    have hlen := congrArg List.length hl
    rw [Digest.hex_length, Digest.short_length p.sha (by omega)] at hlen
    simp at hlen

/-! ## The bus -/

section Bus

variable {b : Bus} {key : String} {values : List GhajarNotice} {acknowledged : List String}
  {n : GhajarNotice} {id : String}

theorem enter_self (h : b.account = key) : b.enter key = b := by
  rw [Bus.enter, if_neg (not_not_intro h)]

theorem enter_account : (b.enter key).account = key := by
  unfold Bus.enter
  split
  · rfl
  · exact not_not.1 ‹_›

theorem publish_account : (b.publish key values acknowledged).account = key := enter_account

theorem publish_notice : (b.publish key values acknowledged).notice =
    (b.publish key values acknowledged).pending.head? := rfl

theorem mem_publish (h : n ∈ (b.publish key values acknowledged).pending) :
    n ∈ values ∧ n.id ∉ acknowledged ∧ n.id ∉ (b.enter key).dismissedInSession := by
  have hm := List.mem_filter.1 ((List.mem_insertionSort _).1 h)
  refine ⟨(Distinct.mem_distinctBy.1 hm.1).mem, ?_⟩
  simpa using hm.2

theorem mem_dismiss (h : n ∈ (b.dismiss id).pending) : n ∈ b.pending ∧ n.id ≠ id := by
  simpa using List.mem_filter.1 h

end Bus

/-! ## Runs -/

/-- What was acknowledged is stored, hidden, and known to the refresh that publishes next for the
account of the bus. -/
structure Inv (s : Sys) : Prop where
  key : ∀ k id, (k, id) ∈ s.acked → k ≠ ""
  stored : ∀ k id, (k, id) ∈ s.acked → id ∈ s.acknowledged k
  dismissing : ∀ k id, s.ack = .dismissing (some k) id → k ≠ "" ∧ id ∈ s.acknowledged k
  notice : s.bus.notice = s.bus.pending.head?
  hidden : ∀ id, (s.bus.account, id) ∈ s.acked → ∀ n ∈ s.bus.pending, n.id ≠ id
  known : ∀ due notified acknowledged,
    s.refresh = .read s.bus.account due notified acknowledged →
      ∀ id, (s.bus.account, id) ∈ s.acked → id ∈ acknowledged ∨ id ∈ s.bus.dismissedInSession

theorem Inv.staysAway {s : Sys} (h : Inv s) : StaysAway s := by
  intro id hid n hn
  rw [h.notice] at hn
  exact h.hidden id hid n (List.mem_of_mem_head? hn)

theorem Inv.fresh : Inv {} := by
  constructor <;> simp

/-- The steps that leave the sets, the bus and the acknowledgement alone and read no set. -/
theorem Inv.moved {s t : Sys} (h : Inv s) (hacked : t.acked = s.acked)
    (hstored : t.acknowledged = s.acknowledged) (hack : t.ack = s.ack) (hbus : t.bus = s.bus)
    (hread : ∀ key due notified acknowledged, t.refresh = .read key due notified acknowledged →
      acknowledged = s.acknowledged key ∨ t.refresh = s.refresh) : Inv t := by
  refine ⟨?_, ?_, ?_, ?_, ?_, ?_⟩
  · rw [hacked]
    exact h.key
  · rw [hacked, hstored]
    exact h.stored
  · rw [hack, hstored]
    exact h.dismissing
  · rw [hbus]
    exact h.notice
  · rw [hbus, hacked]
    exact h.hidden
  · rw [hbus, hacked]
    intro due notified acknowledged hr id hid
    rcases hread _ _ _ _ hr with rfl | he
    · exact .inl (h.stored _ id hid)
    · exact h.known due notified acknowledged (he ▸ hr) id hid

theorem Inv.reset {s t : Sys} (h : Inv s) (hacked : t.acked = s.acked)
    (hstored : t.acknowledged = s.acknowledged) (hack : t.ack = s.ack ∨ t.ack = .idle)
    (hbus : t.bus = {}) : Inv t := by
  have hkey : ∀ id, (t.bus.account, id) ∉ t.acked := by
    rw [hbus, hacked]
    exact fun id hid => h.key _ _ hid rfl
  refine ⟨?_, ?_, ?_, ?_, fun id hid => absurd hid (hkey id),
    fun _ _ _ _ id hid => absurd hid (hkey id)⟩
  · rw [hacked]
    exact h.key
  · rw [hacked, hstored]
    exact h.stored
  · intro k id hd
    rw [hstored]
    rcases hack with ha | ha
    · exact h.dismissing k id (ha ▸ hd)
    · rw [ha] at hd
      cases hd
  · rw [hbus]
    rfl

theorem Inv.publish {s : Sys} (h : Inv s) {key : String} {due : List GhajarNotice}
    {notified acknowledged : List String}
    (hr : s.refresh = .read key due notified acknowledged) (hk : Keeps s .publish) :
    Inv { s with
      bus := s.bus.publish key due acknowledged
      refresh := .published key due notified } := by
  refine ⟨h.key, h.stored, h.dismissing, publish_notice, ?_, fun _ _ _ hp => (by cases hp)⟩
  intro id hid n hn he
  obtain ⟨hdue, hnot, hsession⟩ := mem_publish hn
  rw [publish_account] at hid
  rw [Keeps, hr] at hk
  rcases hk with hacc | hall
  · -- the session goes on: what the stored set did not have yet was dismissed in it
    subst hacc
    rw [enter_self rfl] at hsession
    rcases h.known due notified acknowledged hr id hid with hi | hi
    · exact hnot (he ▸ hi)
    · exact hsession (he ▸ hi)
  · exact hnot (hall n hdue (he ▸ h.stored key id hid))

theorem Inv.acknowledge {s : Sys} (h : Inv s) {key id : String} {listed : List String}
    (hkey : key ≠ "") (hl : listed.Perm (s.acknowledged key))
    (hk : Keeps s (.acknowledge id listed)) :
    Inv { s with
      acknowledged := Function.update s.acknowledged key (takeLast (added listed id))
      ack := .dismissing (some key) id } := by
  have hsub : ∀ k x, x ∈ s.acknowledged k →
      x ∈ Function.update s.acknowledged key (takeLast (added listed id)) k := by
    intro k x hx
    by_cases he : k = key
    · subst he
      rw [Function.update_self, takeLast_of_length hk]
      exact mem_added.2 (.inl (hl.mem_iff.2 hx))
    · rwa [Function.update_of_ne he]
  refine ⟨h.key, fun k x hx => hsub k x (h.stored k x hx), ?_, h.notice, h.hidden, h.known⟩
  intro k x hd
  cases hd
  refine ⟨hkey, ?_⟩
  dsimp only
  rw [Function.update_self, takeLast_of_length hk]
  exact mem_added.2 (.inr rfl)

theorem Inv.dismiss {s : Sys} (h : Inv s) {key : Option String} {id : String}
    (ha : s.ack = .dismissing key id) :
    Inv { s with
      bus := s.bus.dismiss id
      ack := .idle
      acked := (key.map fun k => (k, id)).toList ++ s.acked } := by
  have hmem : ∀ k x, (k, x) ∈ (key.map fun k => (k, id)).toList ++ s.acked →
      (key = some k ∧ x = id) ∨ (k, x) ∈ s.acked := by
    intro k x hx
    rcases List.mem_append.1 hx with hx | hx
    · cases key with
      | none => simp at hx
      | some k' =>
        simp only [Option.map_some, Option.toList_some, List.mem_singleton, Prod.mk.injEq] at hx
        exact .inl ⟨congrArg some hx.1.symm, hx.2⟩
    · exact .inr hx
  refine ⟨?_, ?_, fun _ _ hd => (by cases hd), rfl, ?_, ?_⟩
  · intro k x hx
    rcases hmem k x hx with ⟨rfl, rfl⟩ | hx
    · exact (h.dismissing k x ha).1
    · exact h.key k x hx
  · intro k x hx
    rcases hmem k x hx with ⟨rfl, rfl⟩ | hx
    · exact (h.dismissing k x ha).2
    · exact h.stored k x hx
  · intro x hx n hn
    obtain ⟨hp, hne⟩ := mem_dismiss hn
    rcases hmem _ x hx with ⟨-, rfl⟩ | hx
    · exact hne
    · exact h.hidden x hx n hp
  · intro due notified acknowledged hr x hx
    rcases hmem _ x hx with ⟨-, rfl⟩ | hx
    · exact .inr List.mem_cons_self
    · exact (h.known due notified acknowledged hr x hx).imp_right (List.mem_cons_of_mem id)

theorem Inv.clear {s : Sys} (h : Inv s) {key : String} (hk : s.acknowledged key = []) :
    Inv { s with
      acknowledged := Function.update s.acknowledged key []
      notified := Function.update s.notified key [] } := by
  have hsame : Function.update s.acknowledged key [] = s.acknowledged := by
    rw [← hk, Function.update_eq_self]
  refine h.moved rfl hsame rfl rfl fun _ _ _ _ hr => .inr rfl

theorem stepRefresh_inv {s s' : Sys} {a : Act} (h : Inv s) (hk : Keeps s a)
    (hs : stepRefresh p s a = some s') : Inv s' := by
  cases a with
  | start =>
    simp only [stepRefresh] at hs
    split at hs
    · split at hs
      · cases hs
        exact h.reset rfl rfl (.inl rfl) rfl
      · cases hs
        exact h.moved rfl rfl rfl rfl fun _ _ _ _ hr => by cases hr
    · cases hs
      exact h
  | fetch feed =>
    simp only [stepRefresh] at hs
    split at hs
    · cases hs
      exact h.moved rfl rfl rfl rfl fun _ _ _ _ hr => by cases hr
    · split at hs
      · cases hs
        exact h.moved rfl rfl rfl rfl fun _ _ _ _ hr => by cases hr
      · cases hs
        exact h.moved rfl rfl rfl rfl fun _ _ _ _ hr => by cases hr
    · cases hs
  | read listed =>
    simp only [stepRefresh] at hs
    split at hs
    · split at hs
      · cases hs
        refine h.moved rfl rfl rfl rfl fun _ _ _ _ hr => .inl ?_
        cases hr
        rfl
      · cases hs
    · cases hs
  | publish =>
    simp only [stepRefresh] at hs
    split at hs
    · cases hs
      exact h.publish ‹_› hk
    · cases hs
  | post outcomes =>
    simp only [stepRefresh] at hs
    split at hs
    · split at hs
      · cases hs
        exact h.moved rfl rfl rfl rfl fun _ _ _ _ hr => by cases hr
      · cases hs
    · cases hs
  | _ => cases hs

theorem step_inv {s s' : Sys} {a : Act} (h : Inv s) (hk : Keeps s a)
    (hs : step p s a = some s') : Inv s' := by
  cases a with
  | setToken token =>
    cases hs
    exact h.moved rfl rfl rfl rfl fun _ _ _ _ _ => .inr rfl
  | acknowledge id listed =>
    simp only [step] at hs
    split at hs
    · cases hs
      exact ⟨h.key, h.stored, fun _ _ hd => (by cases hd), h.notice, h.hidden, h.known⟩
    · split at hs
      · cases hs
        exact h.acknowledge (accountKey_ne ‹_›) ‹_› hk
      · cases hs
    · cases hs
  | dismiss =>
    simp only [step] at hs
    split at hs
    · cases hs
      exact h.dismiss ‹_›
    · cases hs
  | reset =>
    cases hs
    exact h.reset rfl rfl (.inl rfl) rfl
  | clear key =>
    cases hs
    exact h.clear hk
  | restart =>
    cases hs
    exact h.reset rfl rfl (.inr rfl) rfl
  | _ => exact stepRefresh_inv (p := p) h hk hs

theorem stays_away {acts : List Act} {s : Sys} (hr : Run.run (step p) {} acts = some s)
    (hk : Run.Meets (step p) Keeps {} acts) : StaysAway s :=
  (Run.run_inv (fun _ _ _ => step_inv) Inv.fresh hk hr).staysAway

end Steps

instance (s : Sys) : (a : Act) → Decidable (Keeps s a)
  | .acknowledge id listed => inferInstanceAs (Decidable ((added listed id).length ≤ 500))
  | .clear key => inferInstanceAs (Decidable (s.acknowledged key = []))
  | .publish =>
    match h : s.refresh with
    | .read key due _ acknowledged =>
      decidable_of_iff
        (s.bus.account = key ∨ ∀ n ∈ due, n.id ∈ s.acknowledged key → n.id ∈ acknowledged)
        (by rw [Keeps, h])
    | .idle | .fetching _ | .fetched _ _ | .published _ _ _ => .isTrue (by rw [Keeps, h]; trivial)
  | .setToken _ | .start | .fetch _ | .read _ | .post _ | .dismiss | .reset | .restart =>
    .isTrue trivial

/-- The digest of the token `t`. -/
def somePlatform : Platform where
  sha _ :=
    ⟨[227, 185, 138, 77, 163, 26, 18, 125, 75, 222, 110, 67, 3, 63, 102, 186, 39, 76, 171, 14,
      183, 235, 28, 112, 236, 65, 64, 43, 246, 39, 61, 216], rfl⟩
  gigabytes b := toString b

def warning : GhajarNotice := { id := "notice:7", title := "Expiry", message := "Tomorrow." }

def feed : GhajarNoticeFeed := ⟨[warning], true, ""⟩

def readTwice : List Act :=
  [.setToken "t", .start, .fetch (some feed), .read [], .publish, .post [false],
    .acknowledge "notice:7" [], .dismiss, .restart, .start, .fetch (some feed), .read [], .publish]

/-- Read in the shade while the first refresh after a start is on its way. -/
def readEarly : List Act :=
  [.setToken "t", .start, .fetch (some feed), .read [], .acknowledge "notice:7" [], .dismiss,
    .publish]

theorem stays_away_readTwice :
    ∃ s, Run.run (step somePlatform) {} readTwice = some s ∧ StaysAway s := by
  have hr : (Run.run (step somePlatform) {} readTwice).isSome := by decide +kernel
  obtain ⟨s, hs⟩ := Option.isSome_iff_exists.1 hr
  exact ⟨s, hs, stays_away hs (by decide +kernel)⟩

theorem acknowledged_again :
    ∃ s, Run.run (step somePlatform) {} readEarly = some s ∧ ¬StaysAway s := by
  have hr : ((Run.run (step somePlatform) {} readEarly).any fun s =>
      s.acked.contains (s.bus.account, "notice:7") && s.bus.notice == some warning) = true := by
    decide +kernel
  obtain ⟨s, hs, hb⟩ := (Option.any_eq_true _ _).1 hr
  rw [Bool.and_eq_true, List.contains_iff_mem, beq_iff_eq] at hb
  exact ⟨s, hs, fun h => h "notice:7" hb.1 warning hb.2 rfl⟩

end Ghajar.Notices
