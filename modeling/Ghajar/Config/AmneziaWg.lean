import Mathlib
import Ghajar.Config.Codec
import Ghajar.Lib.Utf8

/-!
# Two readers of one WireGuard text

`parseWireguardConf`, the app's reader, and `parseAWGConfig`, the one of the helper that
connects with the same text. Both take a text line by line; `Line` is what a line is to a
reader, and `tokens` are the lines that keys, addresses and peers come from. `agrees_iff` says
from these alone when the readers agree.
-/

namespace Ghajar.Awg

open Ghajar

/-- What a section's header says; the readers know two names. -/
inductive Section where
  | interface
  | peer
  | other
  deriving Repr, DecidableEq

/-- What a line is to a reader; a key is in lower case. -/
inductive Line where
  | blank
  | header (s : Section)
  | entry (key value : List Char)
  deriving Repr, DecidableEq

/-- `trim` with these characters. -/
def trim (space : Char → Bool) (cs : List Char) : List Char :=
  ((cs.dropWhile space).reverse.dropWhile space).reverse

def before (sep : Char) (cs : List Char) : List Char := cs.takeWhile (· ≠ sep)

def after (sep : Char) (cs : List Char) : List Char := (cs.dropWhile (· ≠ sep)).tail

/-! ## The app's reader -/

namespace ConfigParser

/-- `lowercase()`, down to the ASCII letters. -/
def lowercase (cs : List Char) : List Char :=
  cs.flatMap fun c =>
    if c = '\u0130' then ['i', '\u0307'] else if c = '\u212A' then ['k'] else [c.toLower]

def lines : List Char → List (List Char)
  | [] => [[]]
  | '\r' :: '\n' :: cs => [] :: lines cs
  | c :: cs =>
    if c = '\n' ∨ c = '\r' then [] :: lines cs
    else match lines cs with
      | [] => [[c]]
      | l :: ls => (c :: l) :: ls

def readLine (raw : List Char) : Line :=
  let line := trim Text.isWhitespace (before '#' raw)
  if line = [] then .blank
  else if line.head? = some '[' ∧ line.getLast? = some ']' then
    if lowercase line = "[interface]".toList then .header .interface
    else if lowercase line = "[peer]".toList then .header .peer
    else .header .other
  else if '=' ∉ line ∨ line.head? = some '=' then .blank
  else .entry (lowercase (trim Text.isWhitespace (before '=' line)))
    (trim Text.isWhitespace (after '=' line))

/-- What is found in a text. -/
structure Found where
  «section» : Section := .other
  privateKey : List Char := []
  address : List Char := []
  mtu : Int := 0
  publicKey : List Char := []
  preShared : List Char := []
  endpoint : List Char := []
  reserved : List Char := []
  label : List Char := []
  amnezia : Bool := false

/-- The keys of the obfuscation. -/
def obfuscation : List (List Char) :=
  ["jc", "jmin", "jmax", "s1", "s2", "s3", "s4", "h1", "h2", "h3", "h4", "i1", "i2", "i3", "i4",
    "i5"].map String.toList

def Found.interface (f : Found) (key value : List Char) : Found :=
  if key = "privatekey".toList then { f with privateKey := value }
  else if key = "address".toList then { f with address := value }
  else if key = "mtu".toList then
    { f with mtu := (Text.toIntOrNull (String.ofList value)).getD 0 }
  else if key = "reserved".toList then { f with reserved := value }
  else if key = "name".toList then { f with label := value }
  else if key ∈ obfuscation ∧ Text.isBlank value = false ∧ value ≠ ['0'] then
    { f with amnezia := true }
  else f

def Found.peer (f : Found) (key value : List Char) : Found :=
  if key = "publickey".toList then { f with publicKey := value }
  else if key = "presharedkey".toList then { f with preShared := value }
  else if key = "endpoint".toList then { f with endpoint := value }
  else f

def Found.read (f : Found) : Line → Found
  | .blank => f
  | .header s => { f with «section» := s }
  | .entry key value =>
    match f.section with
    | .interface => f.interface key value
    | .peer => f.peer key value
    | .other => f

def find (text : List Char) : Found := ((lines text).map readLine).foldl Found.read {}

/-- The host and the port's text of an endpoint, at its last colon. -/
def splitEndpoint (endpoint : List Char) : Option (List Char × List Char) :=
  let port := (endpoint.reverse.takeWhile (· ≠ ':')).reverse
  let host := (endpoint.reverse.dropWhile (· ≠ ':')).tail.reverse
  if ':' ∉ endpoint ∨ host = [] then none
  else some (trim (fun c => c = '[' ∨ c = ']') host, port)

/-- The text that is handed over. -/
def conf (text : List Char) : List Char := trim Text.isWhitespace text

def parseWireguardConf (text : List Char) (source : ConfigSource) (fresh : String) :
    Option ProxyConfig :=
  let f := find text
  if f.privateKey = [] ∨ f.publicKey = [] ∨ f.endpoint = [] then none
  else do
    let (host, portText) ← splitEndpoint f.endpoint
    let port ← Text.toIntOrNull (String.ofList portText)
    let address := String.ofList host
    let named (kind : String) := (String.ofList f.label).ifEmpty (kind ++ " " ++ address)
    if f.amnezia then
      return {
        name := named "AmneziaWG", protocol := "amneziawg", address, port
        privateKey := String.ofList f.privateKey, publicKey := String.ofList f.publicKey
        localAddress := String.ofList f.address, mtu := f.mtu
        extra := (Json.obj (JSONObject.put [] "conf" (String.ofList (conf text)))).print
        source, id := fresh }
    else
      return {
        name := named "WireGuard", protocol := "wireguard", address, port
        privateKey := String.ofList f.privateKey, publicKey := String.ofList f.publicKey
        password := String.ofList f.preShared, localAddress := String.ofList f.address
        mtu := f.mtu, reserved := String.ofList f.reserved, source, id := fresh }

end ConfigParser

/-! ## The helper's reader -/

namespace Helper

/-- `unicode.IsSpace` -/
def isSpace (c : Char) : Bool :=
  (c.toNat == 0x85 || Text.isWhitespace c) && !(28 ≤ c.toNat && c.toNat ≤ 31)

/-- `strings.ToLower`, down to the ASCII letters. -/
def toLower (cs : List Char) : List Char :=
  cs.map fun c => if c = '\u0130' then 'i' else if c = '\u212A' then 'k' else c.toLower

/-- The longest line with its end, in bytes. -/
def maxToken : Nat := 1048576

def dropCR (line : List Char) : List Char :=
  if line.getLast? = some '\r' then line.dropLast else line

/-- The lines that a scanner gives; it stops without a word at one that is too long. -/
def scanLines (text : List Char) : List (List Char) :=
  let ls := Text.split '\n' text
  let ls := if ls.getLast? = some [] then ls.dropLast else ls
  (ls.takeWhile fun l => (Utf8.encode l).length < maxToken).map dropCR

def readLine (raw : List Char) : Line :=
  let line := trim isSpace raw
  if line.head? = some '#' ∨ line.head? = some ';' then .blank
  else if line = [] then .blank
  else if line.head? = some '[' then
    let name := toLower (trim (fun c => c = '[' ∨ c = ']' ∨ c = ' ') line)
    if name = "interface".toList then .header .interface
    else if name = "peer".toList then .header .peer
    else .header .other
  else if '=' ∉ line then .blank
  else .entry (toLower (trim isSpace (before '=' line))) (trim isSpace (after '=' line))

/-- `strconv.Atoi`, whose error is dropped: a number beyond 64 bits is the nearest, a text that is
none is 0. -/
def atoi (s : List Char) : Int :=
  let number (cs : List Char) : Option Nat :=
    if cs ≠ [] ∧ cs.all Char.isDigit then some (cs.foldl (fun n c => 10 * n + (c.toNat - 48)) 0)
    else none
  match s with
  | '-' :: cs => max (-2 ^ 63) (-(((number cs).getD 0 : Nat) : Int))
  | '+' :: cs => min (2 ^ 63 - 1) (((number cs).getD 0 : Nat) : Int)
  | cs => min (2 ^ 63 - 1) (((number cs).getD 0 : Nat) : Int)

structure Peer where
  publicKey : List Char := []
  presharedKey : List Char := []
  endpoint : List Char := []
  allowedIPs : List (List Char) := []
  keepalive : Int := 0

structure AwgConfig (Addr : Type) where
  privateKey : List Char := []
  addresses : List Addr := []
  dns : List Addr := []
  mtu : Int := 1280
  obfs : List (List Char × List Char) := []
  peers : List Peer := []

inductive ConfigError where
  | address (text : List Char)
  /-- It needs a private key, an address and a peer. -/
  | incomplete
  deriving Repr, DecidableEq

/-- The platform's readers of addresses. -/
structure NetIp (Addr : Type) where
  parsePrefix : List Char → Option Addr
  parseAddr : List Char → Option Addr
  /-- 1.1.1.1 -/
  fallback : Addr

section Reader

variable {Addr : Type} (net : NetIp Addr)

def pieces (value : List Char) : List (List Char) := (Text.split ',' value).map (trim isSpace)

/-- The address of a prefix, or an address alone. -/
def address (piece : List Char) : Option Addr := (net.parsePrefix piece).or (net.parseAddr piece)

/-- The addresses of a value, nothing where a piece of it is none. -/
def readAddresses (value : List Char) : Option (List Addr) := (pieces value).mapM (address net)

def atLast (f : Peer → Peer) : List Peer → List Peer
  | [] => []
  | [p] => [f p]
  | p :: q :: ps => p :: atLast f (q :: ps)

def Peer.set (p : Peer) (key value : List Char) : Peer :=
  if key = "publickey".toList then { p with publicKey := value }
  else if key = "presharedkey".toList then { p with presharedKey := value }
  else if key = "endpoint".toList then { p with endpoint := value }
  else if key = "allowedips".toList then { p with allowedIPs := p.allowedIPs ++ pieces value }
  else if key = "persistentkeepalive".toList then { p with keepalive := atoi value }
  else p

def AwgConfig.interface (c : AwgConfig Addr) (key value : List Char) :
    Except ConfigError (AwgConfig Addr) :=
  if key = "privatekey".toList then .ok { c with privateKey := value }
  else if key = "address".toList then
    match readAddresses net value with
    | some l => .ok { c with addresses := c.addresses ++ l }
    | none => .error (.address (((Text.split ',' value).find? fun a =>
        (address net (trim isSpace a)).isNone).getD []))
  else if key = "dns".toList then
    .ok { c with dns := c.dns ++ (pieces value).filterMap net.parseAddr }
  else if key = "mtu".toList then .ok { c with mtu := atoi value }
  else if key ∈ ConfigParser.obfuscation then
    .ok { c with obfs := Keyed.put Prod.fst c.obfs (key, value) }
  else .ok c

/-- The section that is read, and what is read so far. -/
structure FileReading (Addr : Type) where
  «section» : Section := .other
  config : AwgConfig Addr := {}

def FileReading.read (r : FileReading Addr) : Line → Except ConfigError (FileReading Addr)
  | .blank => .ok r
  | .header s =>
    .ok { «section» := s
          config := if s = .peer then { r.config with peers := r.config.peers ++ [{}] }
            else r.config }
  | .entry key value =>
    match r.section with
    | .interface => (r.config.interface net key value).map fun c => { r with config := c }
    | .peer =>
      .ok { r with config :=
        { r.config with peers := atLast (·.set key value) r.config.peers } }
    | .other => .ok r

def AwgConfig.checked (c : AwgConfig Addr) : Except ConfigError (AwgConfig Addr) :=
  if c.privateKey = [] ∨ c.addresses = [] ∨ c.peers = [] then .error .incomplete
  else .ok (if c.dns = [] then { c with dns := [net.fallback] } else c)

def parseAWGConfig (text : List Char) : Except ConfigError (AwgConfig Addr) := do
  let r ← ((scanLines text).map readLine).foldlM (FileReading.read net) {}
  r.config.checked net

/-- The peer that is connected to: of several that take the same addresses the last one keeps
them. -/
def AwgConfig.connects (c : AwgConfig Addr) : Option Peer := c.peers.getLast?

end Reader

end Helper

/-! ## What the readers agree on -/

section Agreement

variable {Addr : Type} (net : Helper.NetIp Addr)

/-- The app accepts the text, for the helper. -/
def Accepted (text : List Char) : Prop :=
  ∃ source fresh c, ConfigParser.parseWireguardConf text source fresh = some c ∧
    c.protocol = "amneziawg"

/-- The helper accepts the text that is handed over, and connects with what the app found. -/
def Agrees (text : List Char) : Prop :=
  ∃ c, Helper.parseAWGConfig net (ConfigParser.conf text) = .ok c ∧
    c.privateKey = (ConfigParser.find text).privateKey ∧
    Helper.readAddresses net (ConfigParser.find text).address = some c.addresses ∧
    ∃ p, c.connects = some p ∧ p.publicKey = (ConfigParser.find text).publicKey ∧
      p.presharedKey = (ConfigParser.find text).preShared ∧
      p.endpoint = (ConfigParser.find text).endpoint

/-- The lines that keys, addresses and peers come from. -/
def Line.counts : Line → Bool
  | .blank => false
  | .header _ => true
  | .entry key _ =>
    key ∈ ["privatekey", "address", "publickey", "presharedkey", "endpoint"].map String.toList

def appTokens (text : List Char) : List Line :=
  ((ConfigParser.lines text).map ConfigParser.readLine).filter Line.counts

def helperTokens (text : List Char) : List Line :=
  ((Helper.scanLines (ConfigParser.conf text)).map Helper.readLine).filter Line.counts

/-- The values of a key in the sections of a name, where the lines begin in this section. -/
def values (s : Section) (key : List Char) : Section → List Line → List (List Char)
  | _, [] => []
  | cur, .blank :: ls => values s key cur ls
  | _, .header s' :: ls => values s key s' ls
  | cur, .entry k v :: ls =>
    if cur = s ∧ k = key then v :: values s key cur ls else values s key cur ls

/-- What stands behind the last header of a peer. -/
def lastPeer : List Line → Option (List Line)
  | [] => none
  | .header .peer :: ls => some ((lastPeer ls).getD ls)
  | _ :: ls => lastPeer ls

/-- The value that a reader keeps which takes the last. -/
def last (vs : List (List Char)) : List Char := vs.getLast?.getD []

/-- The helper's lines say of the last peer, and of the interface, what the app's say. -/
structure Same (app helper : List Line) : Prop where
  privateKey : last (values .interface "privatekey".toList .other helper) =
    last (values .interface "privatekey".toList .other app)
  addresses : ∃ l, (values .interface "address".toList .other helper).mapM
      (Helper.readAddresses net) = some l ∧
    Helper.readAddresses net (last (values .interface "address".toList .other app)) =
      some l.flatten
  peer : ∃ ls, lastPeer helper = some ls ∧
    ∀ key ∈ ["publickey", "presharedkey", "endpoint"].map String.toList,
      last (values .peer key .peer ls) = last (values .peer key .other app)

/-- One line of addresses, and a last peer with all that the peers before it have. -/
structure Whole (tokens : List Line) : Prop where
  address : ∃ value, values .interface "address".toList .other tokens = [value] ∧
    (Helper.readAddresses net value).isSome
  publicKey : ∃ ls ∈ lastPeer tokens, values .peer "publickey".toList .peer ls ≠ []
  endpoint : ∃ ls ∈ lastPeer tokens, values .peer "endpoint".toList .peer ls ≠ []
  presharedKey : (∃ ls ∈ lastPeer tokens, values .peer "presharedkey".toList .peer ls ≠ []) ∨
    last (values .peer "presharedkey".toList .other tokens) = []

end Agreement

/-! ## What a reader finds, from its tokens -/

section Values

variable {s cur : Section} {key : List Char} {ls : List Line}

theorem getLast?_cons_getD {v x : List Char} {vs : List (List Char)} :
    ((v :: vs).getLast?).getD x = (vs.getLast?).getD v := by
  cases vs with
  | nil => rfl
  | cons w vs => rw [List.getLast?_cons_cons, List.getLast?_cons]; rfl

theorem counted {key : List Char} (h : key ∈ ["privatekey", "address", "publickey",
    "presharedkey", "endpoint"].map String.toList) (v : List Char) :
    (Line.entry key v).counts = true := by
  simpa [Line.counts] using h

/-- Lines that do not count have no values. -/
theorem values_filter (hkey : ∀ v, (Line.entry key v).counts = true) :
    values s key cur (ls.filter Line.counts) = values s key cur ls := by
  induction ls generalizing cur with
  | nil => rfl
  | cons l ls ih =>
    cases l with
    | blank => exact ih
    | header s' => exact ih
    | entry k v =>
      cases hc : (Line.entry k v).counts with
      | true => rw [List.filter_cons_of_pos hc, values, values, ih]
      | false =>
        have hne : ¬(cur = s ∧ k = key) := fun h => by rw [h.2, hkey] at hc; cases hc
        rw [List.filter_cons_of_neg (by simp [hc]), values, if_neg hne, ih]

theorem lastPeer_filter : lastPeer (ls.filter Line.counts) =
    (lastPeer ls).map (·.filter Line.counts) := by
  induction ls with
  | nil => rfl
  | cons l ls ih =>
    cases l with
    | blank => exact ih
    | header s' =>
      rw [List.filter_cons_of_pos rfl]
      cases s' with
      | peer => cases hl : lastPeer ls <;> simp [lastPeer, ih, hl]
      | interface => exact ih
      | other => exact ih
    | entry k v =>
      cases hc : (Line.entry k v).counts with
      | true => rw [List.filter_cons_of_pos hc]; exact ih
      | false => rw [List.filter_cons_of_neg (by simp [hc])]; exact ih

/-- The values of the last peer are the last ones of the peers. -/
theorem values_lastPeer {ls' : List Line} (h : lastPeer ls = some ls') :
    ∃ earlier, values .peer key cur ls = earlier ++ values .peer key .peer ls' := by
  induction ls generalizing cur with
  | nil => cases h
  | cons l ls ih =>
    cases l with
    | blank => exact ih h
    | header s' =>
      cases s' with
      | peer =>
        cases hl : lastPeer ls with
        | none =>
          simp only [lastPeer, hl, Option.getD_none, Option.some.injEq] at h
          exact ⟨[], by rw [h, values, List.nil_append]⟩
        | some ls'' =>
          simp only [lastPeer, hl, Option.getD_some, Option.some.injEq] at h
          exact ih (hl.trans (congrArg some h))
      | interface => exact ih h
      | other => exact ih h
    | entry k v =>
      obtain ⟨earlier, he⟩ := @ih cur h
      rw [values]
      split
      · exact ⟨v :: earlier, by rw [he, List.cons_append]⟩
      · exact ⟨earlier, he⟩

/-- Without a peer there is nothing of one. -/
theorem values_noPeer (h : lastPeer ls = none) (hcur : cur ≠ .peer) :
    values .peer key cur ls = [] := by
  induction ls generalizing cur with
  | nil => rfl
  | cons l ls ih =>
    cases l with
    | blank => exact ih h hcur
    | header s' =>
      cases s' with
      | peer => cases h
      | interface => exact ih h (by decide)
      | other => exact ih h (by decide)
    | entry k v =>
      rw [values, if_neg fun hc => hcur hc.1]
      exact ih h hcur

end Values

section App

open ConfigParser

variable {f : Found} {l : Line} {ls : List Line}

theorem read_section : (f.read l).section = match l with
    | .header s => s
    | _ => f.section := by
  cases l with
  | blank => rfl
  | header s => rfl
  | entry k v =>
    simp only [Found.read]
    cases hs : f.section with
    | interface =>
      simp only [Found.interface]
      split_ifs <;> exact hs
    | peer =>
      simp only [Found.peer]
      split_ifs <;> exact hs
    | other => exact hs

/-- A field that one key of one section gives has the last value of it. -/
theorem find_get (get : Found → List Char) (s : Section) (key : List Char)
    (hread : ∀ (f : Found) (l : Line), get (f.read l) = match l with
      | .entry k v => if f.section = s ∧ k = key then v else get f
      | _ => get f) :
    get (ls.foldl Found.read f) = ((values s key f.section ls).getLast?).getD (get f) := by
  induction ls generalizing f with
  | nil => rfl
  | cons l ls ih =>
    have hr := hread f l
    have hs := @read_section f l
    rw [List.foldl_cons, ih]
    cases l with
    | blank => rfl
    | header s' => rw [hr, hs]; rfl
    | entry k v =>
      dsimp only at hr hs
      rw [hr, hs, values]
      split
      · rw [getLast?_cons_getD]
      · rfl

theorem find_interface (get : Found → List Char) (key : List Char)
    (hentry : ∀ f k v, get (f.interface k v) = if k = key then v else get f)
    (hpeer : ∀ f k v, get (f.peer k v) = get f) (hsection : ∀ f s, get { f with «section» := s } =
      get f) (hstart : get {} = []) (text : List Char) :
    get (find text) = ((values .interface key .other
      ((lines text).map ConfigParser.readLine)).getLast?).getD [] := by
  unfold find
  rw [find_get get .interface key, hstart]
  intro f l
  cases l with
  | blank => rfl
  | header s => exact hsection f s
  | entry k v =>
    simp only [Found.read]
    cases hs : f.section with
    | interface => simp [hentry]
    | peer => simp [hpeer]
    | other => simp

theorem find_peer (get : Found → List Char) (key : List Char)
    (hentry : ∀ f k v, get (f.peer k v) = if k = key then v else get f)
    (hinterface : ∀ f k v, get (f.interface k v) = get f)
    (hsection : ∀ f s, get { f with «section» := s } = get f) (hstart : get {} = [])
    (text : List Char) :
    get (find text) = ((values .peer key .other
      ((lines text).map ConfigParser.readLine)).getLast?).getD [] := by
  unfold find
  rw [find_get get .peer key, hstart]
  intro f l
  cases l with
  | blank => rfl
  | header s => exact hsection f s
  | entry k v =>
    simp only [Found.read]
    cases hs : f.section with
    | interface => simp [hinterface]
    | peer => simp [hentry]
    | other => simp

/-- The last values of an app's text, as its tokens have them. -/
structure FoundIn (f : Found) (tokens : List Line) : Prop where
  privateKey : f.privateKey = last (values .interface "privatekey".toList .other tokens)
  address : f.address = last (values .interface "address".toList .other tokens)
  publicKey : f.publicKey = last (values .peer "publickey".toList .other tokens)
  preShared : f.preShared = last (values .peer "presharedkey".toList .other tokens)
  endpoint : f.endpoint = last (values .peer "endpoint".toList .other tokens)

theorem find_found (text : List Char) : FoundIn (find text) (appTokens text) := by
  have hpeer (f : Found) (k v : List Char) : (f.peer k v).privateKey = f.privateKey ∧
      (f.peer k v).address = f.address := by
    unfold Found.peer
    split_ifs <;> exact ⟨rfl, rfl⟩
  have hinterface (f : Found) (k v : List Char) : (f.interface k v).publicKey = f.publicKey ∧
      (f.interface k v).preShared = f.preShared ∧ (f.interface k v).endpoint = f.endpoint := by
    unfold Found.interface
    split_ifs <;> exact ⟨rfl, rfl, rfl⟩
  unfold appTokens
  constructor
  · rw [values_filter (counted (by simp))]
    refine find_interface (·.privateKey) _ (fun f k v => ?_) (fun f k v => (hpeer f k v).1)
      (fun f s => rfl) rfl text
    unfold Found.interface
    split_ifs <;> rfl
  · rw [values_filter (counted (by simp))]
    refine find_interface (·.address) _ (fun f k v => ?_) (fun f k v => (hpeer f k v).2)
      (fun f s => rfl) rfl text
    unfold Found.interface
    split_ifs <;> simp_all
  · rw [values_filter (counted (by simp))]
    refine find_peer (·.publicKey) _ (fun f k v => ?_) (fun f k v => (hinterface f k v).1)
      (fun f s => rfl) rfl text
    unfold Found.peer
    split_ifs <;> rfl
  · rw [values_filter (counted (by simp))]
    refine find_peer (·.preShared) _ (fun f k v => ?_) (fun f k v => (hinterface f k v).2.1)
      (fun f s => rfl) rfl text
    unfold Found.peer
    split_ifs <;> simp_all
  · rw [values_filter (counted (by simp))]
    refine find_peer (·.endpoint) _ (fun f k v => ?_) (fun f k v => (hinterface f k v).2.2)
      (fun f s => rfl) rfl text
    unfold Found.peer
    split_ifs <;> simp_all

end App

section Help

open Helper

variable {Addr : Type} {net : NetIp Addr} {r r' : FileReading Addr} {l : Line} {ls : List Line}
  {c c' : AwgConfig Addr} {key value : List Char}

/-- A field of a peer that this key gives. -/
structure FieldOf (get : Peer → List Char) (key : List Char) : Prop where
  start : get {} = []
  set : ∀ p k v, get (p.set k v) = if k = key then v else get p

theorem publicKey_field : FieldOf (·.publicKey) "publickey".toList := by
  refine ⟨rfl, fun p k v => ?_⟩
  unfold Peer.set
  split_ifs <;> rfl

theorem presharedKey_field : FieldOf (·.presharedKey) "presharedkey".toList := by
  refine ⟨rfl, fun p k v => ?_⟩
  unfold Peer.set
  split_ifs <;> simp_all

theorem endpoint_field : FieldOf (·.endpoint) "endpoint".toList := by
  refine ⟨rfl, fun p k v => ?_⟩
  unfold Peer.set
  split_ifs <;> simp_all

theorem getLast?_atLast (f : Peer → Peer) (ps : List Peer) :
    (atLast f ps).getLast? = ps.getLast?.map f := by
  fun_induction atLast f ps with
  | case1 => rfl
  | case2 => rfl
  | case3 p q ps ih =>
    cases ha : atLast f (q :: ps) with
    | nil =>
      rw [ha, List.getLast?_cons] at ih
      cases ih
    | cons x xs => rw [List.getLast?_cons_cons, List.getLast?_cons_cons, ← ha, ih]

/-- What a line of addresses, or any other of the interface, does. -/
theorem interface_ok (h : r.config.interface net key value = .ok c) :
    c.peers = r.config.peers ∧
      c.privateKey = (if key = "privatekey".toList then value else r.config.privateKey) ∧
      if key = "address".toList then
        ∃ l, readAddresses net value = some l ∧ c.addresses = r.config.addresses ++ l
      else c.addresses = r.config.addresses := by
  unfold AwgConfig.interface at h
  split at h
  · rename_i hk
    obtain rfl := Except.ok.inj h
    simp [hk]
  rename_i hpk
  split at h
  · rename_i hk
    split at h
    · rename_i l hl
      obtain rfl := Except.ok.inj h
      refine ⟨rfl, by rw [if_neg hpk], ?_⟩
      rw [if_pos hk]
      exact ⟨l, hl, rfl⟩
    · cases h
  rename_i hk
  rw [if_neg hpk, if_neg hk]
  split_ifs at h <;> (obtain rfl := Except.ok.inj h; exact ⟨rfl, rfl, rfl⟩)

/-- A line of the interface fails only where it has a piece that is no address. -/
theorem interface_isOk (h : key = "address".toList → (readAddresses net value).isSome) :
    ∃ c, r.config.interface net key value = .ok c := by
  unfold AwgConfig.interface
  split
  · exact ⟨_, rfl⟩
  split
  · obtain ⟨l, hl⟩ := Option.isSome_iff_exists.1 (h ‹_›)
    rw [hl]
    exact ⟨_, rfl⟩
  split_ifs <;> exact ⟨_, rfl⟩

/-- What has been read by the end of these lines. -/
structure ReadBy (net : NetIp Addr) (r r' : FileReading Addr) (ls : List Line) : Prop where
  privateKey : r'.config.privateKey =
    ((values .interface "privatekey".toList r.section ls).getLast?).getD r.config.privateKey
  addresses : ∃ l, (values .interface "address".toList r.section ls).mapM (readAddresses net) =
    some l ∧ r'.config.addresses = r.config.addresses ++ l.flatten
  peer : ∀ get key, FieldOf get key → r'.config.connects.map get =
    match lastPeer ls with
    | some ls' => some (((values .peer key .peer ls').getLast?).getD [])
    | none => r.config.connects.map fun p =>
        ((values .peer key r.section ls).getLast?).getD (get p)

theorem fold_entry {r1 : FileReading Addr} (hr : r.read net (.entry key value) = .ok r1)
    (h : ReadBy net r1 r' ls) : ReadBy net r r' (.entry key value :: ls) := by
  simp only [FileReading.read] at hr
  cases hs : r.section with
  | other =>
    rw [hs] at hr
    obtain rfl := Except.ok.inj hr
    have hv (s : Section) (hne : Section.other ≠ s) (k : List Char) :
        values s k .other (.entry key value :: ls) = values s k .other ls := by
      rw [values, if_neg fun hc => hne hc.1]
    refine ⟨?_, ?_, fun get k hf => ?_⟩
    · rw [hs, hv _ (by decide), h.privateKey, hs]
    · rw [hs, hv _ (by decide), ← hs]
      exact h.addresses
    · rw [hs, hv _ (by decide), h.peer get k hf, hs]
      rfl
  | peer =>
    rw [hs] at hr
    obtain rfl := Except.ok.inj hr
    have hv (k : List Char) : values .interface k .peer (.entry key value :: ls) =
        values .interface k .peer ls := by
      rw [values, if_neg fun hc => by cases hc.1]
    refine ⟨?_, ?_, fun get k hf => ?_⟩
    · rw [hs, hv, h.privateKey]
    · rw [hs, hv]
      exact h.addresses
    · rw [h.peer get k hf]
      change _ = match lastPeer ls with
        | some ls' => some (((values .peer k .peer ls').getLast?).getD [])
        | none => r.config.connects.map fun p =>
          ((values .peer k r.section (.entry key value :: ls)).getLast?).getD (get p)
      cases lastPeer ls with
      | some ls' => rfl
      | none =>
        simp only [AwgConfig.connects, getLast?_atLast, Option.map_map, hs]
        congr 1
        funext p
        simp only [Function.comp, hf.set, values, true_and]
        split
        · rw [getLast?_cons_getD]
        · rfl
  | interface =>
    rw [hs] at hr
    obtain ⟨c, hc, rfl⟩ : ∃ c, r.config.interface net key value = .ok c ∧
        { «section» := .interface, config := c } = r1 := by
      cases hc : r.config.interface net key value with
      | error e => rw [hc] at hr; cases hr
      | ok c => rw [hc] at hr; exact ⟨c, rfl, Except.ok.inj hr⟩
    obtain ⟨hpeers, hpk, haddr⟩ := interface_ok hc
    refine ⟨?_, ?_, fun get k hf => ?_⟩
    · rw [h.privateKey, hs, values, hpk]
      simp only [true_and]
      split
      · rw [getLast?_cons_getD]
      · rfl
    · obtain ⟨l, hl, happ⟩ := h.addresses
      dsimp only at hl happ
      rw [hs, values]
      simp only [true_and]
      split at haddr
      · obtain ⟨m, hm, hadd⟩ := haddr
        rw [if_pos ‹_›]
        refine ⟨m :: l, by rw [List.mapM_cons, hm, hl]; rfl, ?_⟩
        rw [happ, hadd, List.flatten_cons, List.append_assoc]
      · rw [if_neg ‹_›]
        exact ⟨l, hl, by rw [happ, haddr]⟩
    · have hp := h.peer get k hf
      have hconn : (AwgConfig.connects c) = r.config.connects := congrArg List.getLast? hpeers
      rw [hp]
      change _ = match lastPeer ls with
        | some ls' => some (((values .peer k .peer ls').getLast?).getD [])
        | none => r.config.connects.map fun p =>
          ((values .peer k r.section (.entry key value :: ls)).getLast?).getD (get p)
      cases lastPeer ls with
      | some ls' => rfl
      | none =>
        dsimp only
        rw [hconn, hs, values, if_neg fun hc => by cases hc.1]

theorem fold_ok (h : ls.foldlM (FileReading.read net) r = .ok r') : ReadBy net r r' ls := by
  induction ls generalizing r with
  | nil =>
    obtain rfl := Except.ok.inj h
    refine ⟨rfl, ⟨[], rfl, by simp⟩, fun get key _ => ?_⟩
    simp [lastPeer, values]
  | cons l ls ih =>
    rw [List.foldlM_cons] at h
    cases hr : r.read net l with
    | error e => rw [hr] at h; cases h
    | ok r1 =>
      rw [hr] at h
      have hrest := ih h
      cases l with
      | blank =>
        obtain rfl := Except.ok.inj hr
        exact ⟨hrest.privateKey, hrest.addresses, hrest.peer⟩
      | header s =>
        obtain rfl := Except.ok.inj hr
        cases s with
        | interface => exact ⟨hrest.privateKey, hrest.addresses, hrest.peer⟩
        | other => exact ⟨hrest.privateKey, hrest.addresses, hrest.peer⟩
        | peer =>
          refine ⟨hrest.privateKey, hrest.addresses, fun get key hf => ?_⟩
          have hp := hrest.peer get key hf
          rw [hp]
          cases hl : lastPeer ls with
          | some ls' => simp [lastPeer, hl]
          | none => simp [lastPeer, hl, AwgConfig.connects, hf.start]
      | entry k v => exact fold_entry hr hrest

theorem fold_isOk (h : ∀ v ∈ values .interface "address".toList r.section ls,
    (readAddresses net v).isSome) : ∃ r', ls.foldlM (FileReading.read net) r = .ok r' := by
  induction ls generalizing r with
  | nil => exact ⟨r, rfl⟩
  | cons l ls ih =>
    have hnext (r1 : FileReading Addr) (hr : r.read net l = .ok r1)
        (h1 : ∀ v ∈ values .interface "address".toList r1.section ls,
          (readAddresses net v).isSome) :
        ∃ r', (l :: ls).foldlM (FileReading.read net) r = .ok r' := by
      obtain ⟨r', hr'⟩ := ih h1
      exact ⟨r', by rw [List.foldlM_cons, hr]; exact hr'⟩
    cases l with
    | blank => exact hnext r rfl h
    | header s => exact hnext _ rfl h
    | entry k v =>
      rw [values] at h
      cases hs : r.section with
      | peer =>
        rw [hs, if_neg fun hc => by cases hc.1] at h
        exact hnext { «section» := .peer, config :=
          { r.config with peers := atLast (·.set k v) r.config.peers } }
          (by simp only [FileReading.read, hs]) h
      | other =>
        rw [hs, if_neg fun hc => by cases hc.1] at h
        refine hnext r (by simp only [FileReading.read, hs]) ?_
        rw [hs]
        exact h
      | interface =>
        rw [hs] at h
        simp only [true_and] at h
        obtain ⟨c, hc⟩ := @interface_isOk _ net r k v fun hk => by
          rw [if_pos hk] at h
          exact h v (.head _)
        refine hnext { «section» := .interface, config := c }
          (by simp only [FileReading.read, hs, hc]; rfl) fun w hw => ?_
        split at h
        · exact h w (.tail _ hw)
        · exact h w hw

/-- There is always a piece, so a value that is read has an address. -/
theorem readAddresses_ne_nil {l : List Addr} (h : readAddresses net value = some l) : l ≠ [] := by
  unfold readAddresses pieces at h
  cases hs : Text.split ',' value with
  | nil => exact absurd hs (Text.split_ne_nil _ _)
  | cons piece rest =>
    rw [hs, List.map_cons, List.mapM_cons] at h
    obtain ⟨a, -, h⟩ := Option.bind_eq_some_iff.1 h
    obtain ⟨as, -, h⟩ := Option.bind_eq_some_iff.1 h
    cases h
    exact List.cons_ne_nil a as

theorem mapM_isSome {f : List Char → Option (List Addr)} {vs : List (List Char)}
    {l : List (List Addr)} (h : vs.mapM f = some l) : ∀ v ∈ vs, (f v).isSome := by
  induction vs generalizing l with
  | nil => exact fun v hv => absurd hv List.not_mem_nil
  | cons w vs ih =>
    rw [List.mapM_cons] at h
    obtain ⟨a, ha, h⟩ := Option.bind_eq_some_iff.1 h
    obtain ⟨as, has, -⟩ := Option.bind_eq_some_iff.1 h
    intro v hv
    cases hv with
    | head => rw [ha]; rfl
    | tail _ hv => exact ih has v hv

/-- What the helper has at the end, by its tokens. -/
structure ReadIn (net : NetIp Addr) (c : AwgConfig Addr) (tokens : List Line) : Prop where
  privateKey : c.privateKey = last (values .interface "privatekey".toList .other tokens)
  addresses : ∃ l, (values .interface "address".toList .other tokens).mapM
    (readAddresses net) = some l ∧ c.addresses = l.flatten
  peer : ∃ ls p, lastPeer tokens = some ls ∧ c.connects = some p ∧
    p.publicKey = last (values .peer "publickey".toList .peer ls) ∧
    p.presharedKey = last (values .peer "presharedkey".toList .peer ls) ∧
    p.endpoint = last (values .peer "endpoint".toList .peer ls)

theorem checked_ok (h : c.checked net = .ok c') : c'.privateKey = c.privateKey ∧
    c'.addresses = c.addresses ∧ c'.peers = c.peers ∧ c.peers ≠ [] := by
  unfold AwgConfig.checked at h
  split_ifs at h with hlack hdns
  · obtain rfl := Except.ok.inj h
    push Not at hlack
    exact ⟨rfl, rfl, rfl, hlack.2.2⟩
  · obtain rfl := Except.ok.inj h
    push Not at hlack
    exact ⟨rfl, rfl, rfl, hlack.2.2⟩

/-- An accepted text's configuration, from the tokens alone. -/
theorem parse_ok {text : List Char} (h : parseAWGConfig net text = .ok c) :
    ReadIn net c (((scanLines text).map Helper.readLine).filter Line.counts) := by
  unfold parseAWGConfig at h
  cases hfold : ((scanLines text).map Helper.readLine).foldlM (FileReading.read net) {} with
  | error e => rw [hfold] at h; cases h
  | ok r =>
    rw [hfold] at h
    obtain ⟨hpk, haddr, hpeers, hsome⟩ := checked_ok h
    have hread := fold_ok hfold
    refine ⟨?_, ?_, ?_⟩
    · rw [hpk, hread.privateKey, values_filter (counted (by simp))]
      rfl
    · obtain ⟨l, hl, happ⟩ := hread.addresses
      rw [values_filter (counted (by simp))]
      exact ⟨l, hl, by rw [haddr, happ]; rfl⟩
    · obtain ⟨p, hp⟩ := Option.isSome_iff_exists.1 (List.getLast?_isSome.2 hsome)
      have hp' : r.config.connects = some p := hp
      cases hlast : lastPeer ((scanLines text).map Helper.readLine) with
      | none =>
        have hnone := hread.peer _ _ publicKey_field
        rw [hlast, hp'] at hnone
        cases hnone
      | some ls =>
        have hfield (get : Peer → List Char) (key : List Char) (hf : FieldOf get key)
            (hc : ∀ v, (Line.entry key v).counts = true) :
            get p = last (values .peer key .peer (ls.filter Line.counts)) := by
          have h := hread.peer get key hf
          rw [hlast, hp'] at h
          rw [values_filter hc]
          exact Option.some.inj h
        refine ⟨ls.filter Line.counts, p, by rw [lastPeer_filter, hlast]; rfl, ?_, ?_, ?_, ?_⟩
        · rw [AwgConfig.connects, hpeers]
          exact hp
        · exact hfield _ _ publicKey_field (counted (by simp))
        · exact hfield _ _ presharedKey_field (counted (by simp))
        · exact hfield _ _ endpoint_field (counted (by simp))

/-- A text with a key, addresses and a peer is accepted. -/
theorem parse_isOk {text : List Char} {tokens : List Line}
    (ht : ((scanLines text).map Helper.readLine).filter Line.counts = tokens)
    (hkey : last (values .interface "privatekey".toList .other tokens) ≠ [])
    (haddr : ∃ l, (values .interface "address".toList .other tokens).mapM
      (readAddresses net) = some l ∧ l.flatten ≠ [])
    (hpeer : (lastPeer tokens).isSome) : ∃ c, parseAWGConfig net text = .ok c := by
  subst ht
  rw [values_filter (counted (by simp))] at hkey haddr
  obtain ⟨l, hl, hne⟩ := haddr
  have hsome : ∀ v ∈ values .interface "address".toList .other
      ((scanLines text).map Helper.readLine), (readAddresses net v).isSome :=
    mapM_isSome hl
  obtain ⟨r, hfold⟩ := fold_isOk (r := {}) hsome
  have hread := fold_ok hfold
  have hpk : r.config.privateKey ≠ [] := by
    rw [hread.privateKey]
    exact hkey
  have had : r.config.addresses ≠ [] := by
    obtain ⟨l', hl', happ⟩ := hread.addresses
    obtain rfl := Option.some.inj (hl.symm.trans hl')
    rw [happ]
    exact hne
  have hpeers : r.config.peers ≠ [] := by
    intro hnil
    rw [lastPeer_filter, Option.isSome_map] at hpeer
    obtain ⟨ls, hls⟩ := Option.isSome_iff_exists.1 hpeer
    have h := hread.peer _ _ publicKey_field
    rw [hls, AwgConfig.connects, hnil] at h
    cases h
  refine ⟨if r.config.dns = [] then { r.config with dns := [net.fallback] } else r.config, ?_⟩
  unfold parseAWGConfig
  rw [hfold]
  exact if_neg (by simp [hpk, had, hpeers])

end Help

section Agree

open Helper ConfigParser

variable {Addr : Type} {net : NetIp Addr} {tokens : List Line} {text : List Char}

theorem last_append {xs ys : List (List Char)} (h : ys ≠ []) : last (xs ++ ys) = last ys := by
  unfold last
  rw [List.getLast?_append_of_ne_nil xs h]

theorem ne_nil_of_last {vs : List (List Char)} (h : last vs ≠ []) : vs ≠ [] := by
  rintro rfl
  exact h rfl

/-- Every value has an address, so all of them come from the last value only where it is the
only one. -/
theorem one_value {vs : List (List Char)} {l : List (List Addr)}
    (hl : vs.mapM (readAddresses net) = some l)
    (h : readAddresses net (last vs) = some l.flatten) :
    ∃ v, vs = [v] ∧ (readAddresses net v).isSome := by
  rcases List.eq_nil_or_concat vs with rfl | ⟨init, v, rfl⟩
  · obtain rfl := Option.some.inj hl
    exact absurd rfl (readAddresses_ne_nil h)
  · rw [List.concat_eq_append] at hl h ⊢
    rw [last_append (List.cons_ne_nil _ _), show last [v] = v from rfl] at h
    rw [List.mapM_append] at hl
    obtain ⟨l0, hl0, hl⟩ := Option.bind_eq_some_iff.1 hl
    obtain ⟨l1, hl1, hl⟩ := Option.bind_eq_some_iff.1 hl
    rw [List.mapM_cons, h] at hl1
    obtain rfl := Option.some.inj hl1
    have happ : l0 ++ [l.flatten] = l := Option.some.inj hl
    have hflat := congrArg List.flatten happ
    rw [List.flatten_append, List.flatten_singleton] at hflat
    have hnil : l0.flatten = [] := List.append_left_eq_self.1 hflat
    cases init with
    | nil => exact ⟨v, rfl, by rw [h]; rfl⟩
    | cons w ws =>
      rw [List.mapM_cons] at hl0
      obtain ⟨a, ha, hl0⟩ := Option.bind_eq_some_iff.1 hl0
      obtain ⟨as, -, hl0⟩ := Option.bind_eq_some_iff.1 hl0
      obtain rfl := Option.some.inj hl0
      rw [List.flatten_cons, List.append_eq_nil_iff] at hnil
      exact absurd hnil.1 (readAddresses_ne_nil ha)

/-- Where both readers see these lines. -/
theorem same_iff_whole
    (hpub : last (values .peer "publickey".toList .other tokens) ≠ [])
    (hend : last (values .peer "endpoint".toList .other tokens) ≠ []) :
    Same net tokens tokens ↔ Whole net tokens := by
  constructor
  · intro h
    obtain ⟨l, hl, hlast⟩ := h.addresses
    obtain ⟨ls, hls, hsame⟩ := h.peer
    refine ⟨one_value hl hlast, ⟨ls, hls, ?_⟩, ⟨ls, hls, ?_⟩, ?_⟩
    · exact ne_nil_of_last (by rw [hsame _ (by simp)]; exact hpub)
    · exact ne_nil_of_last (by rw [hsame _ (by simp)]; exact hend)
    · by_cases hpsk : values .peer "presharedkey".toList .peer ls = []
      · right
        rw [← hsame _ (by simp), hpsk]
        rfl
      · exact .inl ⟨ls, hls, hpsk⟩
  · intro h
    obtain ⟨v, hv, hsome⟩ := h.address
    obtain ⟨m, hm⟩ := Option.isSome_iff_exists.1 hsome
    obtain ⟨ls, hls, hpk⟩ := h.publicKey
    have hrest {key : List Char} (hne : values .peer key .peer ls ≠ []) :
        last (values .peer key .peer ls) = last (values .peer key .other tokens) := by
      obtain ⟨earlier, he⟩ := @values_lastPeer .other key tokens ls hls
      rw [he, last_append hne]
    refine ⟨rfl, ⟨[m], ?_, ?_⟩, ls, hls, fun key hkey => ?_⟩
    · rw [hv, List.mapM_cons, hm]
      rfl
    · rw [hv, List.flatten_singleton]
      exact hm
    · simp only [List.map_cons, List.map_nil, List.mem_cons, List.not_mem_nil, or_false] at hkey
      rcases hkey with rfl | rfl | rfl
      · exact hrest hpk
      · by_cases hpsk : values .peer "presharedkey".toList .peer ls = []
        · rcases h.presharedKey with ⟨ls', hls', hne⟩ | hnone
          · obtain rfl := Option.some.inj (hls.symm.trans hls')
            exact absurd hpsk hne
          · rw [hnone, hpsk]
            rfl
        · exact hrest hpsk
      · obtain ⟨ls', hls', hne⟩ := h.endpoint
        obtain rfl := Option.some.inj (hls.symm.trans hls')
        exact hrest hne

/-- An accepted text has the keys and the endpoint. -/
theorem Accepted.found (h : Accepted text) : (find text).privateKey ≠ [] ∧
    (find text).publicKey ≠ [] ∧ (find text).endpoint ≠ [] := by
  obtain ⟨source, fresh, c, hc, -⟩ := h
  unfold parseWireguardConf at hc
  dsimp only at hc
  split_ifs at hc with hlack
  all_goals
    push Not at hlack
    exact hlack

theorem agrees_iff_same (h : Accepted text) :
    Agrees net text ↔ Same net (appTokens text) (helperTokens text) := by
  have hfound := find_found text
  constructor
  · rintro ⟨c, hparse, hpk, haddr, p, hp, hpub, hpsk, hend⟩
    have hread := parse_ok hparse
    obtain ⟨l, hl, hflat⟩ := hread.addresses
    obtain ⟨ls, p', hls, hp', hpub', hpsk', hend'⟩ := hread.peer
    obtain rfl := Option.some.inj (hp.symm.trans hp')
    refine ⟨?_, ⟨l, hl, ?_⟩, ls, hls, fun key hkey => ?_⟩
    · exact hread.privateKey.symm.trans (hpk.trans hfound.privateKey)
    · rw [← hflat, ← haddr, hfound.address]
    · simp only [List.map_cons, List.map_nil, List.mem_cons, List.not_mem_nil, or_false] at hkey
      rcases hkey with rfl | rfl | rfl
      · exact hpub'.symm.trans (hpub.trans hfound.publicKey)
      · exact hpsk'.symm.trans (hpsk.trans hfound.preShared)
      · exact hend'.symm.trans (hend.trans hfound.endpoint)
  · intro hsame
    obtain ⟨l, hl, hlast⟩ := hsame.addresses
    obtain ⟨ls, hls, hfields⟩ := hsame.peer
    have hkey : last (values .interface "privatekey".toList .other (helperTokens text)) ≠ [] := by
      rw [hsame.privateKey]
      exact hfound.privateKey ▸ h.found.1
    have hpeer : (lastPeer (helperTokens text)).isSome := by rw [hls]; rfl
    obtain ⟨c, hc⟩ := parse_isOk rfl hkey ⟨l, hl, readAddresses_ne_nil hlast⟩ hpeer
    have hread := parse_ok hc
    obtain ⟨l', hl', hflat⟩ := hread.addresses
    obtain rfl := Option.some.inj (hl.symm.trans hl')
    obtain ⟨ls', p, hls', hp, hpub, hpsk, hend⟩ := hread.peer
    obtain rfl := Option.some.inj (hls.symm.trans hls')
    refine ⟨c, hc, ?_, ?_, p, hp, ?_, ?_, ?_⟩
    · exact hread.privateKey.trans (hsame.privateKey.trans hfound.privateKey.symm)
    · rw [hflat, hfound.address]
      exact hlast
    · exact hpub.trans ((hfields _ (by simp)).trans hfound.publicKey.symm)
    · exact hpsk.trans ((hfields _ (by simp)).trans hfound.preShared.symm)
    · exact hend.trans ((hfields _ (by simp)).trans hfound.endpoint.symm)

/-- A decimal number of at most this, without zeros in front. -/
def decimal (most : Nat) (cs : List Char) : Option Nat :=
  let n := cs.foldl (fun n c => 10 * n + (c.toNat - 48)) 0
  if cs ≠ [] ∧ cs.all Char.isDigit ∧ (cs.head? = some '0' → cs = ['0']) ∧ n ≤ most then some n
  else none

/-- The addresses of four numbers. -/
def dotted : NetIp (List Nat) where
  parseAddr cs := match (Text.split '.' cs).mapM (decimal 255) with
    | some [a, b, c, d] => some [a, b, c, d]
    | _ => none
  parsePrefix cs := match Text.split '/' cs with
    | [addr, bits] => match (Text.split '.' addr).mapM (decimal 255), decimal 32 bits with
      | some [a, b, c, d], some _ => some [a, b, c, d]
      | _, _ => none
    | _ => none
  fallback := [1, 1, 1, 1]

/-- A configuration whose private key's line ends so. -/
def sample (comment : String) : List Char :=
  ["[Interface]".toList,
    "PrivateKey = yAnz5TF+lXXJte14tji3zlMNq+hd2rYUIgJBgB3fBmk=".toList ++ comment.toList,
    "Address = 10.8.0.2/32".toList, "Jc = 4".toList, [], "[Peer]".toList,
    "PublicKey = xTIBA5rboUvnH4htodjb6e697QjLERt1NAB4mZqp8Dg=".toList,
    "Endpoint = 127.0.0.1:51820".toList].flatMap (· ++ ['\n'])

theorem accepted_of {text : List Char}
    (h : (parseWireguardConf text .personal "").map (·.protocol) = some "amneziawg") :
    Accepted text := by
  obtain ⟨c, hc, hp⟩ := Option.map_eq_some_iff.1 h
  exact ⟨.personal, "", c, hc, hp⟩

/-- What both readers see in it. -/
def sampleTokens : List Line :=
  [.header .interface,
    .entry "privatekey".toList "yAnz5TF+lXXJte14tji3zlMNq+hd2rYUIgJBgB3fBmk=".toList,
    .entry "address".toList "10.8.0.2/32".toList, .header .peer,
    .entry "publickey".toList "xTIBA5rboUvnH4htodjb6e697QjLERt1NAB4mZqp8Dg=".toList,
    .entry "endpoint".toList "127.0.0.1:51820".toList]

theorem sampleTokens_whole : Whole dotted sampleTokens := by
  have hlast : lastPeer sampleTokens = some
      [.entry "publickey".toList "xTIBA5rboUvnH4htodjb6e697QjLERt1NAB4mZqp8Dg=".toList,
        .entry "endpoint".toList "127.0.0.1:51820".toList] := rfl
  exact
    { address := ⟨"10.8.0.2/32".toList, by decide +kernel, by decide +kernel⟩
      publicKey := ⟨_, hlast, by decide +kernel⟩
      endpoint := ⟨_, hlast, by decide +kernel⟩
      presharedKey := .inr (by decide +kernel) }

end Agree

end Ghajar.Awg
