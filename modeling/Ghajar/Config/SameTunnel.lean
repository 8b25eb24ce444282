import Ghajar.Config.Paths

/-!
# When the three ways build the same tunnel

Two core configurations are compared apart from what sharing on the LAN adds.
`Options.plain` is what a configuration takes from its options otherwise: options
with one plain form build one tunnel (`sameButSharing_of_plain`), and what two
configurations that agree must have had in common is read off their log level and
their outbounds.
-/

namespace Ghajar

open ConfigBuilder

/-! ## Apart from sharing -/

def sharedTags : List String := ["socks-in", "http-share-in"]

/-- An inbound as it is without sharing, or nothing where it is there for sharing alone. -/
def unshareInbound (v : Json) : Option Json :=
  match v with
  | .obj fields => unshared fields
  | _ => some v
where
  unshared (f : JSONObject) : Option Json :=
    if f.optString "tag" = "http-share-in" then none
    else if f.optString "tag" = "socks-in" then
      some (.obj (f.put "listen" "127.0.0.1"
        |>.put "settings" (.obj (JSONObject.put [] "udp" true))))
    else some (.obj f)

/-- A rule as it is without sharing, or nothing where it is about the shared inbounds alone. -/
def unshareRule (v : Json) : Option Json :=
  match v with
  | .obj fields => unshared fields
  | _ => some v
where
  unshared (f : JSONObject) : Option Json :=
    match f.optJSONArray "inboundTag" with
    | none => some (.obj f)
    | some tags =>
      if tags.map Json.asString = sharedTags then none
      else some (.obj (f.put "inboundTag"
        (.arr (tags.filter fun t => t.asString ≠ "http-share-in"))))

def routingField (o : JSONObject) (k : String) : Option Json :=
  (o.optJSONObject "routing").bind (·.opt k)

def rulesOf (o : JSONObject) : Option JSONArray :=
  (o.optJSONObject "routing").bind (·.optJSONArray "rules")

/-- Two core configurations are one but for sharing. -/
structure SameButSharing (a b : JSONObject) : Prop where
  other : ∀ k, k ≠ "inbounds" → k ≠ "routing" → a.opt k = b.opt k
  inbounds : (a.optJSONArray "inbounds").map (·.filterMap unshareInbound) =
    (b.optJSONArray "inbounds").map (·.filterMap unshareInbound)
  routing : ∀ k, k ≠ "rules" → routingField a k = routingField b k
  rules : (rulesOf a).map (·.filterMap unshareRule) = (rulesOf b).map (·.filterMap unshareRule)

/-- Two tunnels are one but for sharing: the core's configuration and all the engines. -/
structure Tunnel.Same (t u : Tunnel) : Prop where
  config : SameButSharing t.configJson u.configJson
  aether : t.aetherSpec = u.aetherSpec
  psiphon : t.psiphonSpec = u.psiphonSpec
  singbox : t.singboxSpec = u.singboxSpec
  tor : t.torSpec = u.torSpec
  name : t.configName = u.configName
  address : t.configAddress = u.configAddress
  port : t.configPort = u.configPort

/-- The outcomes of two ways: the same tunnel, or none from either. -/
def SameOutcome : Option Tunnel → Option Tunnel → Prop
  | some t, some u => t.Same u
  | none, none => True
  | _, _ => False

/-! ## What a configuration takes from its options -/

namespace ConfigBuilder

variable {p : Platform} {hosts : Hosts} {c : ProxyConfig} {o o' : Options} {draw : Labels}

/-- What is left of the options once sharing and what makes no difference are put aside. -/
def Options.plain (c : ProxyConfig) (o : Options) : Options :=
  { o with
    mux := o.mux
    muxConcurrency := if o.mux then o.muxConcurrency else 8
    torBase := if c.protocol = "tor" then o.torBase else none
    chainBase := if o.chained c then o.chainBase else none
    coreLogLevel := o.coreLogLevel.ifBlank "warning"
    shareOnLan := false
    shareUser := ""
    sharePass := ""
    shareListenAddress := "127.0.0.1" }

theorem ifBlank_ifBlank {s fallback : String} (h : fallback.blank = false) :
    (s.ifBlank fallback).ifBlank fallback = s.ifBlank fallback := by
  unfold String.ifBlank
  by_cases hs : s.blank
  · simp [hs, h]
  · simp [hs]

@[simp] theorem plain_shareAuthed : (o.plain c).shareAuthed = false := rfl

@[simp] theorem plain_onion : (o.plain c).onion c = o.onion c := rfl

@[simp] theorem plain_fake : (o.plain c).fake c = o.fake c := rfl

@[simp] theorem plain_dnsOn : (o.plain c).dnsOn c = o.dnsOn c := rfl

@[simp] theorem plain_chained : (o.plain c).chained c = o.chained c := by
  by_cases h : o.chained c
  · simp only [Options.chained, Options.plain] at h ⊢
    simp [h]
  · have hn : (o.plain c).chainBase = none := if_neg h
    rw [Bool.not_eq_true] at h
    rw [h, Options.chained, hn]
    rfl

@[simp] theorem plain_torBased : (o.plain c).torBased c = o.torBased c := by
  by_cases h : c.protocol = "tor"
  · simp [Options.torBased, Options.plain, h]
  · have hb : (c.protocol == "tor") = false := by simpa using h
    simp [Options.torBased, hb]

theorem proxyOut_plain (built : JSONObject) : proxyOut (o.plain c) c built = proxyOut o c built := by
  unfold proxyOut
  rw [plain_chained]
  cases hm : o.mux <;> simp [Options.plain, hm, JSONObject.putIf]

theorem outbounds_plain : outbounds p (o.plain c) c draw = outbounds p o c draw := by
  unfold outbounds
  simp only [proxyOut_plain, plain_chained, plain_onion, plain_dnsOn]
  have ht : (if c.protocol = "tor" then (o.plain c).torBase else none) =
      if c.protocol = "tor" then o.torBase else none := by
    by_cases h : c.protocol = "tor" <;> simp [Options.plain, h]
  have hc : (if o.chained c = true then (o.plain c).chainBase else none) =
      if o.chained c = true then o.chainBase else none := by
    by_cases h : o.chained c = true <;> simp [Options.plain, h]
  rw [ht, hc]
  rfl

theorem unshare_tunIn : unshareInbound (.obj (tunIn o c)) = some (.obj (tunIn o c)) := by
  have ht : (tunIn o c).optString "tag" = "tun-in" := by
    simp [tunIn, JSONObject.optString, Json.asString]
  simp [unshareInbound, unshareInbound.unshared, ht]

theorem unshare_torIn : unshareInbound (.obj torIn) = some (.obj torIn) := by
  have ht : torIn.optString "tag" = "tor-in" := by
    simp [torIn, JSONObject.optString, Json.asString]
  simp [unshareInbound, unshareInbound.unshared, ht]

theorem unshare_httpShareIn : unshareInbound (.obj (httpShareIn p o)) = none := by
  have ht : (httpShareIn p o).optString "tag" = "http-share-in" := by
    simp [httpShareIn, JSONObject.optString, Json.asString]
  simp [unshareInbound, unshareInbound.unshared, ht]

theorem unshare_socksIn : unshareInbound (.obj (socksIn p o)) =
    some (.obj (socksIn p (o.plain c))) := by
  have ht : (socksIn p o).optString "tag" = "socks-in" := by
    simp [socksIn, JSONObject.optString, Json.asString]
  simp only [unshareInbound, unshareInbound.unshared, ht]
  cases h : o.splitRouting || o.sniffing || o.adBlock <;>
    simp [socksIn, h, Options.plain, Options.shareAuthed, JSONObject.putIf, JSONObject.put,
      Keyed.put]

theorem only_false {v : JSONObject} : only false v = [] := rfl

theorem filterMap_only {f : Json → Option Json} {b : Bool} {v : JSONObject}
    (h : f (.obj v) = some (.obj v)) : (only b v).filterMap f = only b v := by
  cases b <;> simp [only, h]

theorem inbounds_plain : (inbounds p o c).filterMap unshareInbound =
    (inbounds p (o.plain c) c).filterMap unshareInbound := by
  have hs : (only o.shareAuthed (httpShareIn p o)).filterMap unshareInbound = [] := by
    cases o.shareAuthed <;> simp [only, unshare_httpShareIn]
  unfold inbounds
  simp only [List.filterMap_append, List.filterMap_cons, List.filterMap_nil, unshare_tunIn,
    unshare_socksIn (c := c), filterMap_only unshare_torIn, hs, plain_shareAuthed, plain_onion,
    only_false]
  rfl

theorem unshare_field {f : JSONObject} (h : f.optJSONArray "inboundTag" = none) :
    unshareRule (.obj f) = some (.obj f) := by
  simp [unshareRule, unshareRule.unshared, h]

/-- A rule about a shared inbound among others is about the others, without sharing. -/
theorem unshare_tagged {tags : JSONArray} {out : String}
    (h : tags.map Json.asString ≠ sharedTags) :
    unshareRule (.obj (field.put "inboundTag" (.arr tags) |>.put "outboundTag" out)) =
      some (.obj (field.put "inboundTag" (.arr (tags.filter fun t => t.asString ≠ "http-share-in"))
        |>.put "outboundTag" out)) := by
  have ht : JSONObject.optJSONArray (JSONObject.put (JSONObject.put field "inboundTag" (.arr tags))
      "outboundTag" out) "inboundTag" = some tags := by
    simp [JSONObject.optJSONArray]
  simp only [unshareRule, unshareRule.unshared, ht, if_neg h]
  simp [field, JSONObject.put, Keyed.put]

theorem rules_plain : (rules hosts o c).filterMap unshareRule =
    (rules hosts (o.plain c) c).filterMap unshareRule := by
  unfold rules
  simp only [List.filterMap_append, plain_shareAuthed, plain_onion, plain_torBased, plain_dnsOn,
    Bool.false_eq_true, if_false, List.append_nil, List.nil_append]
  have hs : (if o.shareAuthed = true then shareRules else []).filterMap unshareRule = [] := by
    cases o.shareAuthed
    · rfl
    · simp [shareRules, unshareRule, unshareRule.unshared, field, JSONObject.optJSONArray,
        JSONObject.opt, JSONObject.put, Keyed.put, Keyed.get, sharedTags, Json.asString]
  have hl : ([.obj (field.put "inboundTag" (.arr (["tun-in", "socks-in"] ++
        if o.shareAuthed = true then ["http-share-in"] else [])) |>.put "outboundTag" "proxy")] :
      JSONArray).filterMap unshareRule =
      ([.obj (field.put "inboundTag" (.arr ["tun-in", "socks-in"])
        |>.put "outboundTag" "proxy")] : JSONArray).filterMap unshareRule := by
    simp only [List.filterMap_cons, List.filterMap_nil]
    rw [unshare_tagged (by cases o.shareAuthed <;> decide), unshare_tagged (by decide)]
    cases o.shareAuthed <;> rfl
  rw [hs, hl]
  rfl

@[simp] theorem root_log {out : JSONArray} : (root p hosts o c out).opt "log" =
    some (.obj (JSONObject.put [] "loglevel" (o.coreLogLevel.ifBlank "warning"))) := by
  simp [root]

@[simp] theorem root_inbounds {out : JSONArray} :
    (root p hosts o c out).optJSONArray "inbounds" = some (inbounds p o c) := by
  simp [root, JSONObject.optJSONArray]

@[simp] theorem root_outbounds {out : JSONArray} :
    (root p hosts o c out).opt "outbounds" = some (.arr out) := by
  simp [root]

@[simp] theorem root_routing {out : JSONArray} :
    (root p hosts o c out).optJSONObject "routing" =
      some (JSONObject.put [] "domainStrategy" "AsIs"
        |>.put "rules" (.arr (rules hosts o c))) := by
  simp [root, JSONObject.optJSONObject]

theorem root_plain {out : JSONArray} :
    SameButSharing (root p hosts o c out) (root p hosts (o.plain c) c out) := by
  refine ⟨fun k hi hr => ?_, ?_, fun k hk => ?_, ?_⟩
  · have hl : (o.plain c).coreLogLevel.ifBlank "warning" = o.coreLogLevel.ifBlank "warning" :=
      ifBlank_ifBlank (by decide)
    have hd : dns (o.plain c) c = dns o c := rfl
    simp only [root, JSONObject.opt_put, JSONObject.opt_putIf, Ne.symm hi, Ne.symm hr, if_false,
      hl, hd, plain_fake, plain_dnsOn]
  · simp only [root_inbounds, Option.map_some, ← inbounds_plain]
  · simp only [routingField, root_routing, Option.bind_some, JSONObject.opt_put, Ne.symm hk,
      if_false]
  · simp only [rulesOf, root_routing, Option.bind_some, JSONObject.optJSONArray,
      JSONObject.opt_put_self, Option.map_some, ← rules_plain]

end ConfigBuilder

theorem SameButSharing.trans_plain {a b d : JSONObject} (h : SameButSharing a d)
    (h' : SameButSharing b d) : SameButSharing a b := by
  refine ⟨fun k hi hr => ?_, ?_, fun k hk => ?_, ?_⟩
  · rw [h.other k hi hr, h'.other k hi hr]
  · rw [h.inbounds, h'.inbounds]
  · rw [h.routing k hk, h'.routing k hk]
  · rw [h.rules, h'.rules]

/-! ## Options with one plain form build one tunnel -/

namespace ConfigBuilder

variable {p : Platform} {hosts : Hosts} {c : ProxyConfig} {o o' : Options} {draw : Labels}

theorem outbounds_of_plain (h : o.plain c = o'.plain c) :
    outbounds p o c draw = outbounds p o' c draw := by
  rw [← outbounds_plain, h, outbounds_plain]

theorem sameButSharing_of_plain (h : o.plain c = o'.plain c) {out : JSONArray} :
    SameButSharing (root p hosts o c out) (root p hosts o' c out) := by
  have hr : SameButSharing (root p hosts o' c out) (root p hosts (o'.plain c) c out) := root_plain
  rw [← h] at hr
  exact root_plain.trans_plain hr

end ConfigBuilder

/-! ## What can be read -/

/-- The settings text of an engine that needs one is no object. -/
def Unreadable (p : Platform) (c : ProxyConfig) : Prop :=
  (c.protocol = "psiphon" ∨ c.protocol = "aether") ∧ OblivionOptions.read p c.oblivionJson = none

section Readable

variable {p : Platform} {c : ProxyConfig} {label : String}

theorem buildOutbound_eq_none : buildOutbound p c label = none ↔ Unreadable p c := by
  unfold buildOutbound Unreadable
  by_cases hw : c.protocol = "wireguard"
  · simp [hw]
  by_cases ha : c.protocol = "aether"
  · cases hj : c.oblivionJson.blank
    · cases ho : OblivionOptions.read p c.oblivionJson <;>
        simp [ha, dialsAether, buildAether, hj, ho]
    · simp [ha, dialsAether, buildAether, hj, OblivionOptions.read]
  by_cases hp : c.protocol = "psiphon"
  · cases ho : OblivionOptions.read p c.oblivionJson with
    | none => simp [hp, dialsAether, ho]
    | some o =>
      cases hq : o.psiphon <;>
        cases hj : c.oblivionJson.blank <;> simp [hp, dialsAether, buildAether, ho, hq, hj]
  · simp [hw, ha, hp, dialsAether]
    split
    · simp
    · split <;> simp

theorem aether_isSome (h : ¬Unreadable p c) : ∃ a, AetherSpec.from p c = some a := by
  unfold AetherSpec.from
  by_cases ha : c.protocol = "aether"
  · simp [ha]
  by_cases hp : c.protocol = "psiphon"
  · cases ho : OblivionOptions.read p c.oblivionJson with
    | none => exact absurd ⟨.inl hp, ho⟩ h
    | some o => cases hq : o.aether <;> simp [hp, hq]
  · simp [ha, hp]

theorem psiphon_isSome (h : ¬Unreadable p c) : ∃ a, PsiphonSpec.from p c = some a := by
  unfold PsiphonSpec.from
  by_cases hp : c.protocol = "psiphon"
  · cases ho : OblivionOptions.read p c.oblivionJson with
    | none => exact absurd ⟨.inl hp, ho⟩ h
    | some o => cases hq : o.psiphon <;> simp [hp, hq]
  · simp [hp]

/-- Only an engine of Aether's alone leaves Psiphon out. -/
theorem psiphon_none (hr : ¬Unreadable p c) : PsiphonSpec.from p c = some none ↔
    (c.protocol = "psiphon" → ∀ o, OblivionOptions.read p c.oblivionJson = some o →
      o.core = "aether") := by
  unfold PsiphonSpec.from
  by_cases hp : c.protocol = "psiphon"
  · cases ho : OblivionOptions.read p c.oblivionJson with
    | none => exact absurd ⟨.inl hp, ho⟩ hr
    | some o =>
      by_cases hc : o.core = "aether" <;> simp [hp, hc, OblivionOptions.psiphon]
  · simp [hp]

theorem buildAether_eq {out : JSONObject} (h : buildAether p c = some out) :
    ∃ port, out = localSocks port := by
  unfold buildAether at h
  dsimp only at h
  split at h <;>
    · obtain ⟨port, -, he⟩ := Option.bind_eq_some_iff.1 h
      exact ⟨port, (Option.some.inj he).symm⟩

/-- The five shapes an outbound is built in. -/
theorem buildOutbound_cases {out : JSONObject} (h : buildOutbound p c label = some out) :
    out = buildWireguard c ∨ (∃ port, out = localSocks port) ∨ out = buildHysteria2 p c ∨
      out = (JSONObject.put [] "tag" "proxy"
        |>.put "protocol" c.protocol
        |>.put "settings" (.obj (outboundSettings c))
        |>.put "streamSettings" (.obj (buildStream p c label))) := by
  unfold buildOutbound at h
  by_cases hw : c.protocol = "wireguard"
  · rw [if_pos hw] at h
    exact .inl (Option.some.inj h).symm
  rw [if_neg hw] at h
  cases hd : dialsAether p c with
  | none => simp [hd] at h
  | some d =>
    cases d with
    | true =>
      simp only [hd, bind, Option.bind_some, if_true] at h
      exact .inr (.inl (buildAether_eq h))
    | false =>
      simp only [hd, bind, Option.bind_some, Bool.false_eq_true, if_false] at h
      split at h
      · exact .inr (.inl ⟨_, (Option.some.inj h).symm⟩)
      · split at h
        · exact .inr (.inr (.inl (Option.some.inj h).symm))
        · split at h
          · exact .inr (.inl ⟨_, (Option.some.inj h).symm⟩)
          · exact .inr (.inr (.inr (Option.some.inj h).symm))

theorem buildOutbound_mux {out : JSONObject} (h : buildOutbound p c label = some out) :
    out.opt "mux" = none := by
  rcases buildOutbound_cases h with rfl | ⟨port, rfl⟩ | rfl | rfl
  · simp [buildWireguard]
  · simp [localSocks]
  · simp [buildHysteria2]
  · simp

end Readable

/-! ## The law and its condition -/

variable (w : World) (s : Settings) (configs : List ProxyConfig) (c : ProxyConfig) (draw : Labels)

/-- The tunnels of the three ways, at the same random labels, are one but for sharing. -/
def EveryPathSame : Prop :=
  SameOutcome ((QuickConnect.start w s configs c draw).map onStartCommand)
      ((VpnLauncher.relaunch w s c draw).map onStartCommand) ∧
    SameOutcome ((VpnLauncher.relaunch w s c draw).map onStartCommand)
      (GozarVpnService.switchTunnel w s c draw)

/-- Nothing that only one of the three passes on is set. -/
structure NothingOmitted (p : Platform) (s : Settings) (configs : List ProxyConfig)
    (c : ProxyConfig) : Prop where
  logLevel : s.coreLogLevel.ifBlank "warning" = "warning"
  mux : s.mux = false
  chain : ∀ b, byId configs c.chainId = some b → b.id = c.id
  torBase : c.protocol = "tor" → byId configs c.torBaseId = none
  onion : s.onionRouting = true → c.protocol = "tor"
  psiphon : c.protocol = "psiphon" → ∀ o, OblivionOptions.read p c.oblivionJson = some o →
    o.core = "aether"

section Paths

variable {w s configs c draw} {p : Platform} {hosts : Hosts} {o : Options}

theorem readSpec_aetherText (a : Option AetherSpec) :
    readSpec AetherSpec.parse (some (QuickConnect.aetherText a)) = a := by
  cases a with
  | none => rfl
  | some a => exact congrArg some (AetherSpec.parse_toJson a)

theorem readSpec_aether (a : Option AetherSpec) :
    readSpec AetherSpec.parse (a.map fun a => .object a.toJson) = a := by
  cases a with
  | none => rfl
  | some a => exact congrArg some (AetherSpec.parse_toJson a)

theorem readSpec_psiphon (a : Option PsiphonSpec) :
    readSpec PsiphonSpec.parse (a.map fun a => .object a.toJson) = a := by
  cases a with
  | none => rfl
  | some a => exact congrArg some (PsiphonSpec.parse_toJson a)

/-- Without a base, only the server's own outbound can keep a core from being built. -/
theorem outbounds_isSome (ht : c.protocol = "tor" → o.torBase = none)
    (hc : o.chained c = false) (h : ¬Unreadable p c) : ∃ out, outbounds p o c draw = some out := by
  cases hb : buildOutbound p c draw.proxy with
  | none => exact absurd (buildOutbound_eq_none.1 hb) h
  | some built =>
    have ht : (if c.protocol = "tor" then o.torBase else none) = none := by
      split
      · exact ht ‹_›
      · rfl
    simp [outbounds, hb, ht, hc, baseOut]

theorem outbounds_unreadable (h : Unreadable p c) : outbounds p o c draw = none := by
  simp [outbounds, buildOutbound_eq_none.2 h]

theorem options_plain : s.options.plain c = s.options := by
  have hc : s.options.chained c = false := rfl
  have hl : s.options.coreLogLevel.ifBlank "warning" = "warning" := by
    show ("warning" : String).ifBlank "warning" = "warning"
    decide
  simp only [Options.plain, hc, hl]
  simp [Settings.options]

theorem quick_plain (h : NothingOmitted p s configs c) :
    (QuickConnect.options s configs c).plain c = s.options.plain c := by
  have hc : (QuickConnect.options s configs c).chained c = false := by
    cases hb : byId configs c.chainId with
    | none => simp [Options.chained, QuickConnect.options, hb]
    | some b => simp [Options.chained, QuickConnect.options, hb, h.chain b hb]
  have ht : (if c.protocol = "tor" then byId configs c.torBaseId else none) = none := by
    split
    · exact h.torBase ‹_›
    · rfl
  rw [options_plain]
  simp only [Options.plain, hc]
  simp [QuickConnect.options, h.mux, h.logLevel, ht]
  rfl

theorem switch_plain : (GozarVpnService.options s).plain c = s.options.plain c := rfl

theorem same_of_nothingOmitted (hr : ¬Unreadable w.platform c)
    (h : NothingOmitted w.platform s configs c) : EveryPathSame w s configs c draw := by
  obtain ⟨a, ha⟩ := aether_isSome hr
  obtain ⟨q, hq⟩ := psiphon_isSome hr
  obtain ⟨out, ho⟩ : ∃ out, outbounds w.platform s.options c draw = some out :=
    outbounds_isSome (fun _ => rfl) rfl hr
  have hqo : outbounds w.platform (QuickConnect.options s configs c) c draw = some out :=
    (outbounds_of_plain (quick_plain h)).trans ho
  have hso : outbounds w.platform (GozarVpnService.options s) c draw = some out :=
    (outbounds_of_plain switch_plain).trans ho
  have hn : q = none := Option.some.inj (hq.symm.trans ((psiphon_none hr).2 h.psiphon))
  have ht : QuickConnect.torText w s c =
      if c.protocol = "tor" then some (w.engines.torSpec c) else none := by
    unfold QuickConnect.torText
    split
    · rfl
    · rw [if_neg fun hs => ‹¬_› (h.onion hs)]
  refine ⟨?_, ?_⟩
  · simp only [QuickConnect.start, VpnLauncher.relaunch, build, ha, hq, hqo, ho, Option.map_some,
      bind, Option.bind_some, pure, SameOutcome]
    exact ⟨sameButSharing_of_plain (quick_plain h), by
      rw [onStartCommand, onStartCommand, readSpec_aetherText, readSpec_aether], by
      rw [onStartCommand, onStartCommand, readSpec_psiphon, hn]; rfl, rfl, ht, rfl, rfl, rfl⟩
  · simp only [GozarVpnService.switchTunnel, VpnLauncher.relaunch, build, ha, hq, hso, ho,
      Option.map_some, bind, Option.bind_some, pure, SameOutcome]
    exact ⟨sameButSharing_of_plain switch_plain.symm, readSpec_aether a, hn.symm, rfl, rfl, rfl,
      rfl, rfl⟩

theorem same_of_unreadable (h : Unreadable w.platform c) : EveryPathSame w s configs c draw := by
  simp [EveryPathSame, QuickConnect.start, VpnLauncher.relaunch, GozarVpnService.switchTunnel,
    build, outbounds_unreadable h, SameOutcome]

/-- What two ways that agree have in common: the log level, and every outbound. -/
theorem quick_of_same (hr : ¬Unreadable w.platform c) (h : EveryPathSame w s configs c draw) :
    ∃ out, outbounds w.platform (QuickConnect.options s configs c) c draw = some out ∧
      outbounds w.platform s.options c draw = some out ∧
      s.coreLogLevel.ifBlank "warning" = "warning" ∧
      PsiphonSpec.from w.platform c = some none ∧
      QuickConnect.torText w s c =
        if c.protocol = "tor" then some (w.engines.torSpec c) else none := by
  obtain ⟨a, ha⟩ := aether_isSome hr
  obtain ⟨q, hq⟩ := psiphon_isSome hr
  obtain ⟨out, ho⟩ : ∃ out, outbounds w.platform s.options c draw = some out :=
    outbounds_isSome (fun _ => rfl) rfl hr
  have h := h.1
  cases hqo : outbounds w.platform (QuickConnect.options s configs c) c draw with
  | none =>
    simp [QuickConnect.start, VpnLauncher.relaunch, build, ha, hqo, ho, SameOutcome] at h
  | some out' =>
    simp only [QuickConnect.start, VpnLauncher.relaunch, build, ha, hq, hqo, ho, Option.map_some,
      bind, Option.bind_some, pure, SameOutcome] at h
    have hout := h.config.other "outbounds" (by decide) (by decide)
    have hlog := h.config.other "log" (by decide) (by decide)
    have hp := h.psiphon
    have ht := h.tor
    simp only [onStartCommand, root_outbounds, Option.some.injEq, Json.arr.injEq] at hout
    simp only [onStartCommand, root_log, Option.some.injEq, Json.obj.injEq] at hlog
    simp only [onStartCommand, readSpec_psiphon] at hp
    have hl := congrArg (JSONObject.opt · "loglevel") hlog
    simp only [JSONObject.opt_put_self, Option.some.injEq, Json.str.injEq] at hl
    have hw : s.options.coreLogLevel.ifBlank "warning" = "warning" := by
      show ("warning" : String).ifBlank "warning" = "warning"
      decide
    refine ⟨out', rfl, hout ▸ ho, hl.trans hw, ?_, ht⟩
    rw [hq, hp]
    rfl

theorem outbounds_cons {out : JSONArray} (h : outbounds p o c draw = some out)
    (hd : o.directOnly = false) : ∃ built torbase chain,
      buildOutbound p c draw.proxy = some built ∧
      baseOut p (if c.protocol = "tor" then o.torBase else none) draw.torbase "torbase" =
        some torbase ∧
      baseOut p (if o.chained c then o.chainBase else none) draw.chain "chain" = some chain ∧
      out = .obj (proxyOut o c built) :: (only o.fragment (fragmentOut o) ++
        [.obj (directOut p o),
          .obj (JSONObject.put [] "tag" "block" |>.put "protocol" "blackhole")] ++
        only (o.onion c) torOut ++ torbase ++ chain ++
        only (o.dnsOn c) (JSONObject.put [] "tag" "dns-out" |>.put "protocol" "dns")) := by
  unfold outbounds at h
  obtain ⟨built, hb, h⟩ := Option.bind_eq_some_iff.1 h
  obtain ⟨torbase, ht, h⟩ := Option.bind_eq_some_iff.1 h
  obtain ⟨chain, hc, h⟩ := Option.bind_eq_some_iff.1 h
  refine ⟨built, torbase, chain, hb, ht, hc, ?_⟩
  obtain rfl := Option.some.inj h
  simp [hd]

theorem baseOut_length {base : Option ProxyConfig} {label tag : String} {out : JSONArray}
    (h : baseOut p base label tag = some out) : out.length = 0 ↔ base = none := by
  cases base with
  | none =>
    obtain rfl := Option.some.inj h
    simp
  | some b =>
    obtain ⟨built, -, rfl⟩ := Option.map_eq_some_iff.1 h
    simp

theorem proxyOut_mux {built : JSONObject} (h : built.opt "mux" = none) :
    ((proxyOut o c built).opt "mux").isSome = o.mux := by
  have hd (tag : String) : (dialThrough built tag).opt "mux" = none := by
    simp [dialThrough, h]
  unfold proxyOut
  rw [JSONObject.opt_putIf_self]
  · cases o.mux <;> rfl
  · split
    · exact hd "chain"
    · split
      · exact hd "fragment"
      · exact h

/-- Options with mux or a base build other outbounds than options without them. -/
theorem bases_of_outbounds {o' : Options} {out : JSONArray} (h : outbounds p o c draw = some out)
    (h' : outbounds p o' c draw = some out) (hd : o.directOnly = false)
    (hd' : o'.directOnly = false) (hf : o.fragment = o'.fragment) (ho : o.onion c = o'.onion c)
    (hn : o.dnsOn c = o'.dnsOn c) (ht : o'.torBase = none) (hc : o'.chainBase = none) :
    o.mux = o'.mux ∧ (c.protocol = "tor" → o.torBase = none) ∧
      (o.chained c = true → o.chainBase = none) := by
  obtain ⟨built, torbase, chain, hb, htb, hch, rfl⟩ := outbounds_cons h hd
  obtain ⟨built', torbase', chain', hb', htb', hch', he⟩ := outbounds_cons h' hd'
  obtain rfl := Option.some.inj (hb.symm.trans hb')
  have hm := buildOutbound_mux hb
  rw [ht, ite_self] at htb'
  rw [hc, ite_self] at hch'
  obtain rfl := Option.some.inj htb'
  obtain rfl := Option.some.inj hch'
  rw [List.cons.injEq, Json.obj.injEq] at he
  have hmux : o.mux = o'.mux := by
    rw [← proxyOut_mux hm, he.1, proxyOut_mux hm]
  have hlen := congrArg List.length he.2
  rw [hf, ho, hn] at hlen
  have hone (b : Bool) (v v' : JSONObject) : (only b v).length = (only b v').length := by
    cases b <;> rfl
  simp only [List.length_append, List.length_cons, List.length_nil,
    hone _ (fragmentOut o) (fragmentOut o')] at hlen
  refine ⟨hmux, fun hp => ?_, fun hcc => ?_⟩
  · rw [if_pos hp] at htb
    exact (baseOut_length htb).1 (by omega)
  · rw [if_pos hcc] at hch
    exact (baseOut_length hch).1 (by omega)

theorem nothingOmitted_of_same (hr : ¬Unreadable w.platform c)
    (h : EveryPathSame w s configs c draw) : NothingOmitted w.platform s configs c := by
  obtain ⟨out, hq, ho, hl, hp, ht⟩ := quick_of_same hr h
  obtain ⟨hm, htb, hch⟩ := bases_of_outbounds hq ho rfl rfl rfl rfl rfl rfl rfl
  refine ⟨hl, hm, fun b hb => ?_, htb, fun hon => ?_, (psiphon_none hr).1 hp⟩
  · have hb' : (QuickConnect.options s configs c).chainBase = some b := hb
    rw [Options.chained, hb'] at hch
    by_contra hne
    cases hch (by simpa using hne)
  · by_contra hne
    simp [QuickConnect.torText, hne, hon] at ht

end Paths

/-- The three ways build one tunnel exactly when nothing is set that one of them leaves out, or
the settings of the server's engine are unreadable and no way builds any. -/
theorem every_path_same_iff (w : World) (s : Settings) (configs : List ProxyConfig)
    (c : ProxyConfig) (draw : Labels) : EveryPathSame w s configs c draw ↔
      Unreadable w.platform c ∨ NothingOmitted w.platform s configs c := by
  by_cases hr : Unreadable w.platform c
  · exact ⟨fun _ => .inl hr, fun _ => same_of_unreadable hr⟩
  · refine ⟨fun h => .inr (nothingOmitted_of_same hr h), fun h => ?_⟩
    exact same_of_nothingOmitted hr (h.resolve_left hr)

/-! ## A server behind another -/

def plainWorld : World :=
  { platform :=
      { readObject := fun _ => none
        readLong := Text.toIntOrNull
        lowercase := String.map Char.toLower
        mixedPort := 10626
        httpSharePort := 18686
        psiphonSocksPort := 0 }
    hosts := { doh := ["dns.google"], ads := ["doubleclick.net"] }
    engines := { singBoxSpec := fun _ => none, torSpec := fun _ => "|0||" } }

def frontServer : ProxyConfig :=
  { name := "front", protocol := "trojan", address := "front.example.com", port := 443
    password := "secret", security := "tls", id := "a" }

/-- The user put the front server before this one. -/
def backServer : ProxyConfig :=
  { name := "back", protocol := "vless", address := "back.example.com", port := 443
    uuid := "11111111-2222-3333-4444-555555555555", security := "tls", chainId := "a", id := "b" }

def noLabels : Labels := ⟨"", "", ""⟩

/-- Connecting dials through the front server, and relaunching the same server does not. -/
theorem backServer_unchained :
    ¬EveryPathSame plainWorld {} [frontServer, backServer] backServer noLabels := by
  intro h
  have hr : ¬Unreadable plainWorld.platform backServer := fun hu => absurd hu.1 (by decide)
  have hf : byId [frontServer, backServer] backServer.chainId = some frontServer := by
    decide
  exact absurd ((nothingOmitted_of_same hr h).chain frontServer hf) (by decide)

end Ghajar
