import Ghajar.Config.ProxyConfig

/-!
# Received shares

What a received configuration carries of its share (`Meta`), when the share's
limits block it (`check`), and the record of the bytes used and of the latest time
seen that the limits are checked against (`Gsb2Store`). The clock is guarded: it
never runs behind the latest time written down by more than a minute.
-/

namespace Ghajar.Gsb2

open Ghajar

structure Meta where
  shareId : String
  shareName : String
  expiresAt : Int
  quotaBytes : Int
  issuer : String
  deriving Repr, DecidableEq

def optLong (p : Platform) (o : JSONObject) (k : String) : Int :=
  match o.opt k with
  | some (.num t) => (p.readLong t).getD 0
  | some (.str t) => (p.readLong t).getD 0
  | _ => 0

/-- `Meta.of` -/
def Meta.of (p : Platform) (c : ProxyConfig) : Option Meta := do
  let o ← JSONObject.optJSONObject (c.extraJson p) "gsb2"
  let m : Meta :=
    { shareId := o.optString "id" ""
      shareName := o.optString "name" ""
      expiresAt := optLong p o "expiresAt"
      quotaBytes := optLong p o "quota"
      issuer := o.optString "issuer" "" }
  if m.shareId.blank then none else some m

inductive Verdict where
  | allowed
  | blocked (reason : String)
  deriving Repr, DecidableEq

/-- The clock must be guarded already. -/
def check (m : Meta) (usedBytes now : Int) : Verdict :=
  if 1 ≤ m.expiresAt ∧ m.expiresAt ≤ now then
    .blocked ("اعتبار اشتراک «" ++ m.shareName ++ "» تمام شده است.")
  else if m.quotaBytes > 0 ∧ usedBytes ≥ m.quotaBytes then
    .blocked ("حجم اشتراک «" ++ m.shareName ++ "» تمام شده است.")
  else .allowed

def Verdict.reason : Verdict → Option String
  | .allowed => none
  | .blocked reason => some reason

/-- What is written down on this device: the bytes used of each share and the latest time. -/
structure Prefs where
  used : String → Int
  maxSeen : Int

namespace Gsb2Store

def addUsage (f : Prefs) (shareId : String) (bytes : Int) : Prefs :=
  if bytes ≤ 0 then f
  else { f with used := fun id => if id = shareId then f.used shareId + bytes else f.used id }

/-- The time as it is guarded, and what is written down of it. -/
def now (f : Prefs) (clock : Int) : Int × Prefs :=
  let t := max clock f.maxSeen
  (t, if t > f.maxSeen + 60000 then { f with maxSeen := t } else f)

/-- Why a configuration may not connect now. -/
def gate (p : Platform) (f : Prefs) (clock : Int) (c : ProxyConfig) : Option String × Prefs :=
  match Meta.of p c with
  | none => (none, f)
  | some m =>
    let (t, f') := now f clock
    ((check m (f.used m.shareId) t).reason, f')

variable {p : Platform} {f : Prefs} {clock bytes : Int} {id : String} {c : ProxyConfig}

@[simp] theorem now_used : (now f clock).2.used = f.used := by
  unfold now
  dsimp only
  split <;> rfl

theorem le_now : clock ≤ (now f clock).1 ∧ f.maxSeen ≤ (now f clock).1 := by
  unfold now
  dsimp only
  omega

/-- What is written down is never behind, and the guarded time is at most a minute ahead of it. -/
theorem now_maxSeen : f.maxSeen ≤ (now f clock).2.maxSeen ∧
    (now f clock).1 ≤ (now f clock).2.maxSeen + 60000 := by
  unfold now
  dsimp only
  split
  · dsimp only
    omega
  · omega

@[simp] theorem gate_used : (gate p f clock c).2.used = f.used := by
  unfold gate
  split
  · rfl
  · exact now_used

/-- Every byte is added, to its own share alone. -/
theorem addUsage_used (h : 0 ≤ bytes) :
    (addUsage f id bytes).used = fun i => if i = id then f.used i + bytes else f.used i := by
  unfold addUsage
  split
  · have hb : bytes = 0 := by omega
    funext i
    simp [hb]
  · funext i
    dsimp only
    split
    · rename_i hi
      rw [hi]
    · rfl

end Gsb2Store

/-- The share a configuration came with is blocked, at the guarded time and recorded usage. -/
def blocked (p : Platform) (f : Prefs) (clock : Int) (c : ProxyConfig) : Bool :=
  match Meta.of p c with
  | none => false
  | some m => (check m (f.used m.shareId) (Gsb2Store.now f clock).1).reason.isSome

theorem gate_isSome {p : Platform} {f : Prefs} {clock : Int} {c : ProxyConfig} :
    (Gsb2Store.gate p f clock c).1.isSome = blocked p f clock c := by
  unfold Gsb2Store.gate blocked
  split <;> rfl

end Ghajar.Gsb2
