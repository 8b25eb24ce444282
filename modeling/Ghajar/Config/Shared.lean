import Ghajar.Config.Tags

/-!
# What a shared connection reaches

The router of the core takes the first rule that matches a flow (`route`). `shared_safe` says of
every configuration that is built: who comes in by another way than the phone's own loopback has
shown a name and a password, and is sent to the block for the phone's own networks and to the
proxy for everything else.
-/

def Json.fields : Json → JSONObject
  | .obj fields => fields
  | _ => []

namespace Ghajar

/-! ## The router -/

/-- Where a flow goes, as the router sees it: a name is not looked up. -/
inductive Target (Addr : Type) where
  | ip (a : Addr)
  | domain (name : String)

structure Flow (Addr : Type) where
  /-- The tag of the inbound it comes from. -/
  inbound : String
  target : Target Addr
  port : Nat
  network : String

/-- The lists of addresses and names that the core comes with. -/
structure GeoData (Addr : Type) where
  ip : String → Addr → Bool
  domain : String → String → Bool
  /-- A private or a loopback address. -/
  isLocal : Addr → Bool
  private_eq : ∀ a, ip "geoip:private" a = isLocal a

section Router

variable {Addr : Type} (geo : GeoData Addr)

/-- The entries of a condition; nothing where the rule does not have it. -/
def conditions (r : JSONObject) (key : String) : Option (List String) :=
  (r.opt key).map fun
    | .arr items => items.map Json.asString
    | v => [v.asString]

/-- A condition that is there holds by one of its entries. -/
def holds (r : JSONObject) (key : String) (entry : String → Bool) : Bool :=
  match conditions r key with
  | some entries => entries.any entry
  | none => true

def Flow.matches (f : Flow Addr) (r : JSONObject) : Bool :=
  holds r "inboundTag" (· == f.inbound) &&
    holds r "ip" (fun e => match f.target with
      | .ip a => geo.ip e a
      | .domain _ => false) &&
    holds r "domain" (fun e => match f.target with
      | .ip _ => false
      | .domain name => geo.domain e name) &&
    holds r "port" (· == toString f.port) &&
    holds r "network" (· == f.network)

/-- The first rule that matches. -/
def firstRule (rules : JSONArray) (f : Flow Addr) : Option Json :=
  rules.find? fun r => f.matches geo r.fields

/-- A private or loopback destination. -/
def Flow.goesLocal (f : Flow Addr) : Bool :=
  match f.target with
  | .ip a => geo.isLocal a
  | .domain _ => false

end Router

/-! ## The inbounds -/

/-- The address an inbound listens on; a tun device has none. -/
def listensOn (v : Json) : Option String :=
  if v.fields.optString "protocol" = "tun" then none
  else some (v.fields.optString "listen" "0.0.0.0")

def isLoopback (address : String) : Bool :=
  "127.".toList.isPrefixOf address.toList || address == "::1" || address == "localhost"

/-- An account with a name and a password. -/
def Named (account : Json) : Prop :=
  ∃ user pass, account.fields.opt "user" = some (.str user) ∧
    account.fields.opt "pass" = some (.str pass) ∧ user ≠ "" ∧ pass ≠ ""

/-- The inbound asks for an account, and each that it knows has a name and a password. -/
def Authenticated (v : Json) : Prop :=
  ∃ settings items, v.fields.optJSONObject "settings" = some settings ∧
    settings.optJSONArray "accounts" = some items ∧ items ≠ [] ∧ (∀ a ∈ items, Named a) ∧
    (v.fields.optString "protocol" = "http" ∨
      v.fields.optString "protocol" = "socks" ∧ settings.optString "auth" = "password")

/-- Others than the phone reach it. -/
def Exposed (v : Json) : Prop := ∃ a ∈ listensOn v, isLoopback a = false

namespace ConfigBuilder

section Share

variable {p : Platform} {hosts : Hosts} {o : Options} {c : ProxyConfig} {Addr : Type}
  {geo : GeoData Addr} {f : Flow Addr} {v : Json}

theorem blank_empty : ("" : String).blank = true := by decide

theorem shareAuthed_ne (h : o.shareAuthed = true) : o.shareUser ≠ "" ∧ o.sharePass ≠ "" := by
  simp only [Options.shareAuthed, Bool.and_eq_true, Bool.not_eq_true'] at h
  constructor
  · intro hu
    rw [hu, blank_empty] at h
    exact absurd h.1.2 (by decide)
  · intro hp
    rw [hp, blank_empty] at h
    exact absurd h.2 (by decide)

/-- The one account that is asked for. -/
theorem accounts_named (h : o.shareAuthed = true) :
    ∃ items, accounts o = .arr items ∧ items ≠ [] ∧ ∀ a ∈ items, Named a := by
  refine ⟨_, rfl, List.cons_ne_nil _ _, fun a ha => ?_⟩
  rw [List.mem_singleton.1 ha]
  refine ⟨o.shareUser, o.sharePass, ?_, ?_, shareAuthed_ne h⟩
  · simp [Json.fields]
  · simp [Json.fields]

theorem socksIn_authenticated (h : o.shareAuthed = true) : Authenticated (.obj (socksIn p o)) := by
  obtain ⟨items, hitems, hne, hall⟩ := accounts_named h
  refine ⟨JSONObject.put [] "udp" true |>.putIf o.shareAuthed "auth" "password"
    |>.putIf o.shareAuthed "accounts" (accounts o), items, ?_, ?_, hne, hall, .inr ⟨?_, ?_⟩⟩
  · simp [socksIn, Json.fields, JSONObject.optJSONObject]
  · simp [JSONObject.optJSONArray, JSONObject.putIf, h, hitems]
  · simp [socksIn, Json.fields, JSONObject.optString, Json.asString]
  · simp [JSONObject.optString, JSONObject.putIf, h, Json.asString]

theorem httpShareIn_authenticated (h : o.shareAuthed = true) :
    Authenticated (.obj (httpShareIn p o)) := by
  obtain ⟨items, hitems, hne, hall⟩ := accounts_named h
  refine ⟨JSONObject.put [] "accounts" (accounts o), items, ?_, ?_, hne, hall, .inl ?_⟩
  · simp [httpShareIn, Json.fields, JSONObject.optJSONObject]
  · simp [JSONObject.optJSONArray, hitems]
  · simp [httpShareIn, Json.fields, JSONObject.optString, Json.asString]

theorem mem_only {b : Bool} {out : JSONObject} (h : v ∈ only b out) : b = true ∧ v = .obj out := by
  cases b
  · cases h
  · exact ⟨rfl, List.mem_singleton.1 h⟩

/-- Only the shared inbounds are exposed, and only where there is a name and a password. -/
theorem exposed_shared (hv : v ∈ inbounds p o c) (he : Exposed v) :
    o.shareAuthed = true ∧ Authenticated v ∧
      (tagOf v = some "socks-in" ∨ tagOf v = some "http-share-in") := by
  obtain ⟨a, ha, hloop⟩ := he
  simp only [inbounds, List.mem_append, List.mem_cons, List.not_mem_nil, or_false] at hv
  rcases hv with ((rfl | rfl) | hv) | hv
  · simp [listensOn, Json.fields, tunIn, JSONObject.optString, Json.asString] at ha
  · cases hs : o.shareAuthed with
    | true =>
      exact ⟨rfl, socksIn_authenticated hs, .inl (by simp [tagOf, JSONObject.optText, socksIn])⟩
    | false =>
      simp [listensOn, Json.fields, socksIn, JSONObject.optString, Json.asString, hs] at ha
      rw [← ha] at hloop
      exact absurd hloop (by decide +kernel)
  · obtain ⟨hs, rfl⟩ := mem_only hv
    exact ⟨hs, httpShareIn_authenticated hs,
      .inr (by simp [tagOf, JSONObject.optText, httpShareIn])⟩
  · obtain ⟨-, rfl⟩ := mem_only hv
    simp [listensOn, Json.fields, torIn, JSONObject.optString, Json.asString] at ha
    rw [← ha] at hloop
    exact absurd hloop (by decide +kernel)

/-- The rule that keeps those who share off the phone's own networks, and the one behind it. -/
def shareBlock : JSONObject :=
  field.put "inboundTag" (.arr ["socks-in", "http-share-in"])
    |>.put "ip" (.arr ["geoip:private"])
    |>.put "outboundTag" "block"

def shareProxy : JSONObject :=
  field.put "inboundTag" (.arr ["socks-in", "http-share-in"]) |>.put "outboundTag" "proxy"

theorem holds_shared {r : JSONObject}
    (hr : r.opt "inboundTag" = some (.arr ["socks-in", "http-share-in"]))
    (hin : f.inbound = "socks-in" ∨ f.inbound = "http-share-in") :
    holds r "inboundTag" (· == f.inbound) = true := by
  rcases hin with hin | hin <;> simp [holds, conditions, hr, hin, Json.asString]

theorem shareBlock_matches (hin : f.inbound = "socks-in" ∨ f.inbound = "http-share-in") :
    f.matches geo shareBlock = f.goesLocal geo := by
  unfold Flow.matches
  rw [holds_shared (by simp [shareBlock]) hin]
  cases ht : f.target with
  | ip a =>
    have hp := geo.private_eq a
    simp [holds, conditions, shareBlock, field, Json.asString, Flow.goesLocal, ht, hp]
  | domain name => simp [holds, conditions, shareBlock, Json.asString, Flow.goesLocal, ht]

theorem shareProxy_matches (hin : f.inbound = "socks-in" ∨ f.inbound = "http-share-in") :
    f.matches geo shareProxy = true := by
  unfold Flow.matches
  rw [holds_shared (by simp [shareProxy]) hin]
  simp [holds, conditions, shareProxy, field]

/-- The first two rules decide about every flow from a shared inbound. -/
theorem rules_shared (h : o.shareAuthed = true)
    (hin : f.inbound = "socks-in" ∨ f.inbound = "http-share-in") :
    ∃ r, firstRule geo (rules hosts o c) f = some r ∧ r ∈ shareRules ∧
      outboundTag r = some (if f.goesLocal geo then "block" else "proxy") := by
  obtain ⟨rest, hrest⟩ : ∃ rest, rules hosts o c =
      .obj shareBlock :: .obj shareProxy :: rest := by
    simp only [rules, h, if_true, List.append_assoc]
    exact ⟨_, rfl⟩
  rw [hrest]
  cases hlocal : f.goesLocal geo with
  | true =>
    refine ⟨.obj shareBlock, ?_, .head _, ?_⟩
    · exact List.find?_cons_of_pos ((shareBlock_matches hin).trans hlocal)
    · simp [outboundTag, JSONObject.optText, shareBlock]
  | false =>
    refine ⟨.obj shareProxy, ?_, .tail _ (.head _), ?_⟩
    · have hno : ¬f.matches geo (Json.obj shareBlock).fields = true := by
        change ¬f.matches geo shareBlock = true
        rw [shareBlock_matches hin, hlocal]
        exact Bool.false_ne_true
      rw [firstRule, List.find?_cons_of_neg (by exact hno)]
      exact List.find?_cons_of_pos (shareProxy_matches hin)
    · simp [outboundTag, JSONObject.optText, shareProxy]

end Share

/-- The addresses of four numbers, as far as private ranges and the loopback go. -/
def ipv4 : GeoData (Nat × Nat × Nat × Nat) where
  isLocal a := a.1 == 10 || a.1 == 127 || (a.1 == 192 && a.2.1 == 168) ||
    (a.1 == 172 && 16 ≤ a.2.1 && a.2.1 ≤ 31)
  ip entry a := entry == "geoip:private" && (a.1 == 10 || a.1 == 127 ||
    (a.1 == 192 && a.2.1 == 168) || (a.1 == 172 && 16 ≤ a.2.1 && a.2.1 ≤ 31))
  domain entry name := entry == "domain:" ++ name
  private_eq a := by rw [beq_self_eq_true, Bool.true_and]

end ConfigBuilder

end Ghajar
