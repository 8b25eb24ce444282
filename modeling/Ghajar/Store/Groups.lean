import Ghajar.Config.Subscription
import Ghajar.Lib.GroupBy
import Ghajar.Share.Gsb2

/-!
# The store's two lists and its selection

`ConfigStore` again, now for what its operations do to the configurations, the groups
these stand in, and the selected one, each operation as a whole. An id that an operation
draws is `draw n`, the `n`th of them. `FreeFeedRules.signature` is a parameter: only
which configurations it makes equal matters here.
-/

namespace Ghajar.Groups

open Ghajar Gsb2

structure State where
  configs : List ProxyConfig
  subscriptions : List Subscription
  selectedId : Option String

/-- An operation. A group's name is the text as it is looked up, trimmed and cut. `wanted` is the
selection that a backup's settings ask for. -/
inductive Op where
  | add (config : ProxyConfig)
  | addToLocalSub (name : String) (configs : List ProxyConfig)
  | addImported (imported : List ProxyConfig)
  | update (config : ProxyConfig)
  | delete (id : String)
  | deleteSubscription (id : String)
  | upsertSubscription (sub : Subscription) (fetched : List ProxyConfig)
  | moveToGroup (ids : List String) (name : String)
  | copyToGroup (ids : List String) (name : String)
  | deleteGvpnShare (shareId : String)
  | restoreBackup (configs : List ProxyConfig) (subs : List Subscription) (wanted : String)
  | mergeBackup (configs : List ProxyConfig) (subs : List Subscription)

def ids (l : List ProxyConfig) : List String := l.map (·.id)

def subIds (l : List Subscription) : List String := l.map (·.id)

def sigOf (c : ProxyConfig) : String :=
  c.protocol ++ "|" ++ c.address ++ "|" ++ toString c.port ++ "|" ++ c.uuid ++ "|" ++ c.password

def SOURCE_URL : String := "https://t.me/s/Ghajarvpn"

section Operations

variable (p : Platform) (signature : ProxyConfig → String) (draw : Nat → String) (clock : Int)

/-- `identity` of `upsertSubscription`. -/
def identity (sub : Subscription) (c : ProxyConfig) : String :=
  if sub.url = SOURCE_URL then signature c else sigOf c

/-- A fetched configuration takes over the id of an old one that is the same, each of them once. -/
def tagged (same : ProxyConfig → String) (subId : String) :
    List ProxyConfig → List ProxyConfig → List ProxyConfig
  | _, [] => []
  | old, f :: fetched =>
    let kept := old.find? fun c => same c = same f
    { f with subId, id := (kept.map (·.id)).getD f.id } ::
      tagged same subId (old.filter fun c => same c ≠ same f) fetched

/-- The hand-made group of this name, and the groups; it is made at their head where there is
none. -/
def groupNamed (subs : List Subscription) (name : String) : Subscription × List Subscription :=
  match subs.find? fun s => s.name = name && s.isLocal with
  | some g => (g, subs)
  | none =>
    let g : Subscription := { name, url := "", lastUpdated := clock, id := draw 0 }
    (g, g :: subs)

/-- The group a received share lives in, as it is made. -/
def shareGroup (shareId : String) (l : List ProxyConfig) (id : String) : Subscription :=
  let m := l.head?.bind (Meta.of p)
  let expiresAt := (m.map (·.expiresAt)).getD 0
  { name := ((m.map (·.shareName)).getD "").ifBlank "اشتراک قاجار"
    url := Gvpn.urlFor shareId
    total := (m.map (·.quotaBytes)).getD 0
    expire := if expiresAt > 0 then expiresAt / 1000 else 0
    lastUpdated := clock
    id }

/-- The configurations of each share under the share's group, which is made at the head of the
groups where there is none. -/
def tagShares : Nat → List (String × List ProxyConfig) → List Subscription →
    List Subscription × List ProxyConfig
  | _, [], subs => (subs, [])
  | n, (shareId, l) :: rest, subs =>
    match subs.find? fun s => s.url = Gvpn.urlFor shareId with
    | some sub =>
      let r := tagShares n rest subs
      (r.1, l.map (fun c => { c with subId := sub.id }) ++ r.2)
    | none =>
      let sub := shareGroup p clock shareId l (draw n)
      let r := tagShares (n + 1) rest (sub :: subs)
      (r.1, l.map (fun c => { c with subId := sub.id }) ++ r.2)

/-- The share a configuration came with. -/
def shareOf (c : ProxyConfig) : Option String := (Meta.of p c).map (·.shareId)

def shared (imported : List ProxyConfig) : List ProxyConfig :=
  imported.filter fun c => (Meta.of p c).isSome

def plain (imported : List ProxyConfig) : List ProxyConfig :=
  imported.filter fun c => (Meta.of p c).isNone

/-- The imported configurations of received shares, share by share. -/
def shares (imported : List ProxyConfig) : List (String × List ProxyConfig) :=
  GroupBy.groupBy (fun c => (shareOf p c).getD "") (shared p imported)

/-- A backup's settings choose one of its configurations, or else its first one is taken. -/
def chosen (configs : List ProxyConfig) (wanted : String) : Option String :=
  if configs.any fun c => c.id = wanted then some wanted else (configs.head?).map (·.id)

namespace State

def addToLocalSub (s : State) (name : String) (configs : List ProxyConfig) : State :=
  if configs.isEmpty then s
  else
    let (sub, subs) := groupNamed draw clock s.subscriptions name
    { s with
      subscriptions := subs
      configs := s.configs ++ configs.map fun c => { c with subId := sub.id } }

def addImported (s : State) (imported : List ProxyConfig) : State :=
  if imported.isEmpty then s
  else
    let (subs, tagged) := tagShares p draw clock 0 (shares p imported) s.subscriptions
    let replaced := tagged.map (·.subId)
    { s with
      subscriptions := subs
      configs := (s.configs.filter fun c => c.subId ∉ replaced) ++ plain p imported ++ tagged }

def update (s : State) (config : ProxyConfig) : State :=
  { s with
    configs := s.configs.map fun existing =>
      if existing.id ≠ config.id then existing
      else if existing.locked then { existing with name := config.name }
      else config }

def delete (s : State) (id : String) : State :=
  { s with
    configs := s.configs.filter fun c => c.id ≠ id
    selectedId := if s.selectedId = some id then none else s.selectedId }

def deleteSubscription (s : State) (id : String) : State :=
  { s with
    configs := s.configs.filter fun c => c.subId ≠ id
    subscriptions := s.subscriptions.filter fun sub => sub.id ≠ id }

/-- `associateBy` keeps the last of those that are the same, so the old ones are searched from the
end. -/
def upsertSubscription (s : State) (sub : Subscription) (fetched : List ProxyConfig) : State :=
  let old := (s.configs.filter fun c => c.subId = sub.id).reverse
  let index := s.subscriptions.findIdx fun s => s.id = sub.id
  let withoutSub := s.subscriptions.filter fun s => s.id ≠ sub.id
  { s with
    configs := (s.configs.filter fun c => c.subId ≠ sub.id) ++
      tagged (identity signature sub) sub.id old fetched
    subscriptions :=
      if index < s.subscriptions.length then
        withoutSub.insertIdx (min index withoutSub.length) sub
      else sub :: withoutSub }

/-- A hand-made group that is left with nothing in it is removed with the move. -/
def moveToGroup (s : State) (ids : List String) (name : String) : State :=
  if ids.isEmpty ∨ name = "" then s
  else
    let (group, subs) := groupNamed draw clock s.subscriptions name
    let configs := s.configs.map fun c =>
      if c.id ∈ ids ∧ c.subId ≠ group.id then { c with subId := group.id } else c
    let emptied := subs.filter fun sub =>
      sub.isLocal ∧ sub.id ≠ group.id ∧ ∀ c ∈ configs, c.subId ≠ sub.id
    { s with configs, subscriptions := subs.filter fun sub => sub.id ∉ subIds emptied }

def copyToGroup (s : State) (ids : List String) (name : String) : State :=
  let source := s.configs.filter fun c => c.id ∈ ids
  if source.isEmpty ∨ name = "" then s
  else
    let (group, subs) := groupNamed draw clock s.subscriptions name
    { s with
      subscriptions := subs
      configs := s.configs ++
        source.mapIdx fun n c => { c with id := draw (n + 1), subId := group.id } }

def deleteGvpnShare (s : State) (shareId : String) : State :=
  let subs := subIds (s.subscriptions.filter fun sub => sub.url = Gvpn.urlFor shareId)
  let gone := ids (s.configs.filter fun c => c.subId ∈ subs ∨ shareOf p c = some shareId)
  if gone.isEmpty ∧ subs.isEmpty then s
  else
    { configs := s.configs.filter fun c => c.id ∉ gone
      subscriptions := s.subscriptions.filter fun sub => sub.id ∉ subs
      selectedId := if s.selectedId.any fun id => id ∈ gone then none else s.selectedId }

/-- Received shares are never in a backup and always stay. -/
def restoreBackup (s : State) (configs : List ProxyConfig) (subs : List Subscription)
    (wanted : String) : State :=
  let s := if configs.isEmpty ∧ subs.isEmpty then s else
    { s with
      configs := configs ++ shared p s.configs
      subscriptions := subs ++ s.subscriptions.filter fun sub => Gvpn.isGvpnUrl sub.url }
  if configs.isEmpty then s else { s with selectedId := chosen configs wanted }

def mergeBackup (s : State) (configs : List ProxyConfig) (subs : List Subscription) : State :=
  let newConfigs := configs.filter fun c => sigOf c ∉ s.configs.map sigOf
  let newSubs := subs.filter fun sub => sub.url ∉ s.subscriptions.map (·.url)
  { s with
    configs := s.configs ++ newConfigs.mapIdx fun n c => { c with id := draw n }
    subscriptions := s.subscriptions ++
      newSubs.mapIdx fun n sub => { sub with id := draw (newConfigs.length + n) } }

def run (s : State) : Op → State
  | .add config => { s with configs := s.configs ++ [config] }
  | .addToLocalSub name configs => s.addToLocalSub draw clock name configs
  | .addImported imported => s.addImported p draw clock imported
  | .update config => s.update config
  | .delete id => s.delete id
  | .deleteSubscription id => s.deleteSubscription id
  | .upsertSubscription sub fetched => s.upsertSubscription signature sub fetched
  | .moveToGroup ids name => s.moveToGroup draw clock ids name
  | .copyToGroup ids name => s.copyToGroup draw clock ids name
  | .deleteGvpnShare shareId => s.deleteGvpnShare p shareId
  | .restoreBackup configs subs wanted => s.restoreBackup p configs subs wanted
  | .mergeBackup configs subs => s.mergeBackup draw configs subs

end State

end Operations

end Ghajar.Groups
