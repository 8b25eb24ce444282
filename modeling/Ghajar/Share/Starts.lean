import Ghajar.Config.SameTunnel
import Ghajar.Share.Gsb2

/-!
# Every way a tunnel is started

The entries that start a tunnel, with the check each makes of a received share before
it, and the polling that adds the tunnel's bytes to the share the service drew its
session on. Intents are delivered one after the other; a launched coroutine (a
relaunch past its wait, a switch of servers, the coordinator's command) runs at any
time after it was launched. The service's teardown is one step, and the rounds of
polling that an ended tunnel still has under way are left out.
-/

namespace Ghajar.Gsb2

open Ghajar ConfigBuilder

/-! ## The tunnels asked for -/

/-- A tunnel as it is asked for: the server it is for, and all that its outbounds dial. -/
structure Start where
  main : ProxyConfig
  dials : List ProxyConfig

/-- The bases a core's configuration has outbounds for. -/
def bases (o : Options) (c : ProxyConfig) : List ProxyConfig :=
  (if c.protocol = "tor" then o.torBase.toList else []) ++
    if o.chained c then o.chainBase.toList else []

def asked (o : Options) (c : ProxyConfig) : Start := ⟨c, c :: bases o c⟩

/-- The outbounds that carry no configuration. -/
def fixedTags : List String := ["fragment", "direct", "block", "tor-out", "dns-out"]

/-- The outbound was built from this configuration, under whichever tag it stands. -/
def BuiltFrom (p : Platform) (c : ProxyConfig) (v : JSONObject) : Prop :=
  ∃ label built, buildOutbound p c label = some built ∧ v.opt "settings" = built.opt "settings"

theorem proxyOut_settings {o : Options} {c : ProxyConfig} {built : JSONObject} :
    (proxyOut o c built).opt "settings" = built.opt "settings" := by
  have hd (tag : String) : (dialThrough built tag).opt "settings" = built.opt "settings" := by
    simp [dialThrough]
  unfold proxyOut
  rw [JSONObject.opt_putIf_ne (by decide)]
  split
  · exact hd "chain"
  · split
    · exact hd "fragment"
    · rfl

theorem baseOut_builtFrom {p : Platform} {base : Option ProxyConfig} {label tag : String}
    {out : JSONArray} (h : baseOut p base label tag = some out) {v : JSONObject}
    (hv : .obj v ∈ out) : ∃ b ∈ base, BuiltFrom p b v := by
  cases base with
  | none =>
    obtain rfl := Option.some.inj h
    cases hv
  | some b =>
    obtain ⟨built, hb, rfl⟩ := Option.map_eq_some_iff.1 h
    obtain rfl := Json.obj.inj (List.mem_singleton.1 hv)
    exact ⟨b, rfl, label, built, hb, by simp⟩

/-- **What a core dials**: an outbound is fixed or was built from what the start dials. -/
theorem outbound_dialled {p : Platform} {o : Options} {c : ProxyConfig} {draw : Labels}
    {out : JSONArray} (h : outbounds p o c draw = some out) (hd : o.directOnly = false)
    {v : JSONObject} (hv : .obj v ∈ out) :
    (∃ tag ∈ fixedTags, v.opt "tag" = some (.str tag)) ∨
      ∃ g ∈ (asked o c).dials, BuiltFrom p g v := by
  obtain ⟨built, torbase, chain, hb, ht, hc, rfl⟩ := outbounds_cons h hd
  have honly {b : Bool} {w : JSONObject} (hm : .obj v ∈ only b w) : v = w := by
    cases b
    · cases hm
    · exact Json.obj.inj (List.mem_singleton.1 hm)
  have hbase {l : List ProxyConfig} {base : Option ProxyConfig} (hl : base.toList ⊆ l)
      (hm : ∃ b ∈ base, BuiltFrom p b v) : ∃ g ∈ c :: l, BuiltFrom p g v := by
    obtain ⟨b, hb, hv⟩ := hm
    exact ⟨b, .tail _ (hl (Option.mem_toList.2 hb)), hv⟩
  simp only [List.mem_cons, List.mem_append, List.not_mem_nil, or_false] at hv
  rcases hv with hv | (((((hv | hv | hv) | hv) | hv) | hv) | hv)
  · obtain rfl := Json.obj.inj hv
    exact .inr ⟨c, List.mem_cons_self, draw.proxy, built, hb, proxyOut_settings⟩
  · obtain rfl := honly hv
    exact .inl ⟨"fragment", by decide, by simp [fragmentOut]⟩
  · obtain rfl := Json.obj.inj hv
    refine .inl ⟨"direct", by decide, ?_⟩
    unfold directOut
    split <;> simp
  · obtain rfl := Json.obj.inj hv
    exact .inl ⟨"block", by decide, by simp⟩
  · obtain rfl := honly hv
    exact .inl ⟨"tor-out", by decide, by simp [torOut]⟩
  · refine .inr (hbase ?_ (baseOut_builtFrom ht hv))
    unfold bases
    split <;> simp
  · refine .inr (hbase ?_ (baseOut_builtFrom hc hv))
    unfold bases
    split <;> simp
  · obtain rfl := honly hv
    exact .inl ⟨"dns-out", by decide, by simp⟩

def removedProtocols : List String :=
  ["dnstt", "vaydns", "noizdns", "slipstream", "masterdns", "stormdns", "cottendns", "juicity"]

def isRemoved (c : ProxyConfig) : Bool := removedProtocols.contains c.protocol

/-! ## The parts that run -/

inductive Intent where
  | start (t : Start)
  | stop

structure Sys where
  clock : Int
  prefs : Prefs
  settings : Settings
  configs : List ProxyConfig
  /-- The subscriptions, each with its url. -/
  subscriptions : List (String × String)
  selectedId : Option String
  activeId : Option String := none
  /-- Intents on their way to the service. -/
  intents : List Intent := []
  /-- Tunnels that are sent for once a wait or a question is over; a relaunch announces its own. -/
  waiting : List (Start × Bool) := []
  /-- Servers the service was told to switch to. -/
  switches : List ProxyConfig := []
  /-- Servers whose connect was handed to the coordinator. -/
  commands : List String := []
  tunnel : Option Start := none
  connected : Bool := false
  /-- `gsb2Active` -/
  gsb2Active : Option Meta := none

inductive Act where
  /-- The wall clock reads anything. -/
  | clock (t : Int)
  /-- The store is edited in any way. -/
  | edit (settings : Settings) (configs : List ProxyConfig)
      (subscriptions : List (String × String)) (selectedId : Option String)
  /-- Another engine's session takes the active id. -/
  | setActive (id : Option String)
  /-- `QuickConnect.start` -/
  | quickConnect (prepared : Bool)
  /-- The coordinator's command runs. -/
  | command (i : Nat)
  /-- The home screen's connect. -/
  | connect (c : ProxyConfig) (prepared : Bool)
  /-- `VpnLauncher.relaunch` -/
  | relaunch (c : ProxyConfig) (prepared : Bool)
  /-- What was waited for is over. -/
  | send (i : Nat)
  /-- A waiting tunnel is given up. -/
  | drop (i : Nat)
  /-- The service takes the next intent; it may be busy with a start or a teardown. -/
  | deliver (busy : Bool)
  /-- `ACTION_RECONNECT` -/
  | reconnect
  /-- `ACTION_NEXT` -/
  | next
  /-- The sharing on the LAN ran out while polling. -/
  | shareExpired
  /-- A switch runs. -/
  | switchTunnel (i : Nat) (tearingDown : Bool)
  /-- The engines are up and polling begins. -/
  | ready
  /-- One round of polling. -/
  | poll (upSpeed downSpeed : Nat)
  /-- The tunnel ends. -/
  | die

/-! ## What each entry asks for -/

variable (p : Platform)

def blockedNow (s : Sys) (c : ProxyConfig) : Bool := blocked p s.prefs s.clock c

def gate (s : Sys) (c : ProxyConfig) : Option String × Prefs :=
  Gsb2Store.gate p s.prefs s.clock c

/-- The configuration `QuickConnect.start` connects to. -/
def selected (s : Sys) : Option ProxyConfig :=
  (s.configs.find? fun c => some c.id = s.selectedId) <|> s.configs.head?

/-- What `QuickConnect.start` asks for. -/
def quickStart (s : Sys) (prepared : Bool) : Option Start :=
  match selected s with
  | none => none
  | some c =>
    if isRemoved c then none
    else if (gate p s c).1.isSome then none
    else if !prepared then none
    else if c.protocol = "ikev2" then none
    else some (asked (QuickConnect.options s.settings s.configs c) c)

/-- The options of the home screen's connect, as far as they name a base. -/
def homeOptions (s : Sys) (c : ProxyConfig) : Options :=
  { s.settings.options with
    torBase :=
      if c.protocol = "tor" ∧ c.torBaseId ≠ "" then byId s.configs c.torBaseId else none
    chainBase := if c.chainId ≠ "" then byId s.configs c.chainId else none }

/-- What the home screen's connect asks for. -/
def homeStart (s : Sys) (c : ProxyConfig) : Option Start :=
  if s.connected then none
  else if isRemoved c then none
  else if (gate p s c).1.isSome then none
  else if c.protocol = "ikev2" then none
  else some (asked (homeOptions s c) c)

/-- What `VpnLauncher.relaunch` asks for. -/
def relaunchStart (s : Sys) (c : ProxyConfig) (prepared : Bool) : Option Start :=
  if !prepared then none
  else if (gate p s c).1.isSome then none
  else if isRemoved c then none
  else some (asked s.settings.options c)

/-- The servers a switch goes to. -/
def switchable (s : Sys) : List ProxyConfig :=
  s.configs.filter fun c => !(isRemoved c || c.protocol == "ikev2" || c.protocol == "openvpn")

def current (s : Sys) : Option ProxyConfig :=
  (switchable s).find? fun c => some c.id = s.activeId

/-- The next configuration in the same group, wrapping round. -/
def nextAfter (list : List ProxyConfig) (current : Option ProxyConfig) : Option ProxyConfig :=
  match current with
  | none => list.head?
  | some c =>
    let group := list.filter fun d => d.subId = c.subId
    if group.length < 2 then none
    else group[(group.findIdx (fun d => d.id = c.id) + 1) % group.length]?

/-- The server an action of the service's notification, or its polling, switches to. -/
def target (s : Sys) : Act → Option ProxyConfig
  | .reconnect => if s.connected then current s else none
  | .next => if s.connected then nextAfter (switchable s) (current s) else none
  | .shareExpired =>
    if s.connected then s.configs.find? fun c => some c.id = s.activeId else none
  | _ => none

/-- A switch passes no base. -/
def switchStart (s : Sys) (c : ProxyConfig) : Start :=
  asked (GozarVpnService.options s.settings) c

/-- The tunnels a step asks for. -/
def issued (s : Sys) : Act → List Start
  | .quickConnect prepared => (quickStart p s prepared).toList
  | .connect c _ => (homeStart p s c).toList
  | .relaunch c prepared => (relaunchStart p s c prepared).toList
  | a => ((target s a).map (switchStart s)).toList

/-! ## The steps -/

/-- `Gvpn.finish`: the group of the share is taken out of the store. -/
def deleteGvpnShare (s : Sys) (shareId : String) : Sys :=
  let subIds := (s.subscriptions.filter fun (_, url) => url = "gvpn:" ++ shareId).map (·.1)
  let goes (c : ProxyConfig) : Bool :=
    subIds.contains c.subId || ((Meta.of p c).map (·.shareId)) == some shareId
  let gone := (s.configs.filter goes).map (·.id)
  { s with
    configs := s.configs.filter fun c => !gone.contains c.id
    subscriptions := s.subscriptions.filter fun (id, _) => !subIds.contains id
    selectedId := if s.selectedId.any gone.contains then none else s.selectedId }

def die (s : Sys) : Sys := { s with tunnel := none, connected := false }

/-- `describe`: the share the session is drawn on. -/
def describe (s : Sys) (c : Option ProxyConfig) : Sys :=
  { s with gsb2Active := c.bind (Meta.of p) }

/-- The configuration under the active id. -/
def active (s : Sys) : Option ProxyConfig := s.configs.find? fun c => some c.id = s.activeId

def quickConnect (s : Sys) (prepared : Bool) : Sys :=
  match selected s with
  | none => s
  | some c =>
    let started := quickStart p s prepared
    let s := { s with selectedId := some c.id }
    if isRemoved c then s
    else
      let s := { s with prefs := (gate p s c).2 }
      match started with
      | none => s
      | some t =>
        { s with
          commands := s.commands ++ [c.id]
          intents := s.intents ++ [.start t] }

def homeConnect (s : Sys) (c : ProxyConfig) (prepared : Bool) : Sys :=
  if s.connected ∨ isRemoved c then s
  else
    let started := homeStart p s c
    let s := { s with prefs := (gate p s c).2 }
    match started with
    | none => s
    | some t =>
      let s := { s with activeId := some c.id }
      if prepared then { s with intents := s.intents ++ [.start t] }
      else { s with waiting := s.waiting ++ [(t, false)] }

def relaunch (s : Sys) (c : ProxyConfig) (prepared : Bool) : Sys :=
  if !prepared then s
  else
    let started := relaunchStart p s c prepared
    let s := { s with prefs := (gate p s c).2 }
    match started with
    | none => s
    | some t =>
      { s with
        intents := s.intents ++ [.stop]
        waiting := s.waiting ++ [(t, true)] }

/-- The service ignores a start while one is on, and reads the share off the active id. -/
def takeStart (s : Sys) (t : Start) (busy : Bool) : Sys :=
  if busy ∨ s.tunnel.isSome then s
  else { describe p s (active s) with tunnel := some t, connected := false }

def deliver (s : Sys) (busy : Bool) : Option Sys :=
  match s.intents with
  | [] => none
  | .stop :: rest => some (die { s with intents := rest })
  | .start t :: rest => some (takeStart p { s with intents := rest } t busy)

def switchTunnel (s : Sys) (c : ProxyConfig) (tearingDown : Bool) : Sys :=
  if tearingDown then s
  else
    { describe p { s with activeId := some c.id } (some c) with
      tunnel := some (switchStart s c)
      connected := false }

/-- One round: the bytes are added to the share of the session, and the tunnel ends once the share
is blocked. -/
def pollRound (s : Sys) (bytes : Int) : Sys :=
  match s.gsb2Active with
  | none => s
  | some m =>
    let prefs := Gsb2Store.addUsage s.prefs m.shareId bytes
    let (t, prefs') := Gsb2Store.now prefs s.clock
    let s := { s with prefs := prefs' }
    match check m (prefs.used m.shareId) t with
    | .blocked _ => deleteGvpnShare p (die s) m.shareId
    | .allowed => s

def step (s : Sys) : Act → Option Sys
  | .clock t => some { s with clock := t }
  | .edit settings configs subscriptions selectedId =>
    some { s with settings, configs, subscriptions, selectedId }
  | .setActive id => some { s with activeId := id }
  | .quickConnect prepared => some (quickConnect p s prepared)
  | .command i =>
    match s.commands[i]? with
    | none => none
    | some id => some { s with activeId := some id, commands := s.commands.eraseIdx i }
  | .connect c prepared => some (homeConnect p s c prepared)
  | .relaunch c prepared => some (relaunch p s c prepared)
  | .send i =>
    match s.waiting[i]? with
    | none => none
    | some (t, announces) =>
      some { s with
        activeId := if announces then some t.main.id else s.activeId
        waiting := s.waiting.eraseIdx i
        intents := s.intents ++ [.start t] }
  | .drop i => some { s with waiting := s.waiting.eraseIdx i }
  | .deliver busy => deliver p s busy
  | .reconnect =>
    some { s with switches := s.switches ++ (target s .reconnect).toList }
  | .next =>
    let server := target s .next
    some { s with
      selectedId := match server with
        | none => s.selectedId
        | some c => if some c.id = (current s).map (·.id) then s.selectedId else some c.id
      switches := s.switches ++ server.toList }
  | .shareExpired => some { s with switches := s.switches ++ (target s .shareExpired).toList }
  | .switchTunnel i tearingDown =>
    match s.switches[i]? with
    | none => none
    | some c => some (switchTunnel p { s with switches := s.switches.eraseIdx i } c tearingDown)
  | .ready => if s.tunnel.isSome then some { s with connected := true } else none
  | .poll up down =>
    if s.connected then some (pollRound p s (up + down)) else none
  | .die => some (die s)

end Ghajar.Gsb2
