import Ghajar.Lib.Base64
import Ghajar.Lib.Search
import Ghajar.Lib.Text
import Ghajar.Lib.Utf8

/-!
# Links of NPV configurations

`NpvContainer` reads its containers with the platform's JSON library. A value of that library may
be a null reference, which stands where an array leaves an element out. `link` makes a share link
of a configuration, `decodeSentinels` and `substitute` replace what stands for other texts.
-/

namespace Ghajar.Npv

/-- What the code asks of a number: `toString()`, the whole number that a finite `Double` stands
for, and `toInt()`. -/
structure Number where
  shown : String
  whole : Option Int
  int : Int32

inductive Value where
  /-- A null reference. -/
  | missing
  /-- `JSONObject.NULL` -/
  | null
  | bool (b : Bool)
  | num (n : Number)
  | str (s : String)
  | arr (items : List Value)
  | obj (fields : List (String × Value))

abbrev Fields := List (String × Value)

/-- What is outside: the JSON library (none where it throws), HMAC-SHA256, the tables of upper and
lower case, and how many bytes one replacement character stands for. -/
structure Platform where
  readObject : String → Option Fields
  readArray : String → Option (List Value)
  print : Value → String
  /-- The whole part of the number in a text. -/
  parseInt : String → Option Int32
  hmac : List UInt8 → List UInt8 → { d : List UInt8 // d.length = 32 }
  uppercase : String → String
  lowercase : String → String
  replaced : List UInt8 → Nat

/-- A text of UTF-8. -/
def Platform.utf8 (p : Platform) (bytes : List UInt8) : String :=
  String.ofList (Utf8.decode p.replaced bytes)

/-- `toByteArray()` -/
def toByteArray (s : String) : List UInt8 := Utf8.encode s.toList

namespace Fields

def optJSONObject (o : Fields) (k : String) : Option Fields :=
  match o.lookup k with
  | some (.obj fields) => some fields
  | _ => none

def optJSONArray (o : Fields) (k : String) : Option (List Value) :=
  match o.lookup k with
  | some (.arr items) => some items
  | _ => none

def optString (p : Platform) (o : Fields) (k : String) : String :=
  match o.lookup k with
  | none | some .missing => ""
  | some .null => "null"
  | some (.bool b) => toString b
  | some (.num n) => n.shown
  | some (.str s) => s
  | some v => p.print v

def optInt (p : Platform) (o : Fields) (k : String) : Int32 :=
  match o.lookup k with
  | some (.num n) => n.int
  | some (.str s) => (p.parseInt s).getD 0
  | _ => 0

def put (o : Fields) (k : String) (v : Value) : Fields :=
  if o.any (·.1 == k) then o.map fun f => if f.1 == k then (k, v) else f else o ++ [(k, v)]

end Fields

/-! ## Texts -/

def contains (word s : String) : Bool := (Search.index word.toList s.toList).isSome

/-- Every occurrence of `w` in `s` replaced by `new`, in `n` rounds at most. -/
def replaceN (w new : List Char) : Nat → List Char → List Char
  | 0, s => s
  | n + 1, s =>
    match Search.index w s with
    | some i => s.take i ++ new ++ replaceN w new n (s.drop (i + w.length))
    | none => s

def replace (w new s : String) : String :=
  String.ofList (replaceN w.toList new.toList s.toList.length s.toList)

def isNotBlank (s : String) : Bool := !s.blank

/-- The base-64 decoder that takes nothing but digits and the padding. -/
def decodeBase64 (a : Base64.Alphabet) (s : String) : Option (List UInt8) :=
  if s.toList.all (Base64.counts a) then Base64.decode a s.toList else none

/-- The padding that is left out. -/
def padded (s : String) : String :=
  s ++ String.ofList (List.replicate ((4 - s.toList.length % 4) % 4) '=')

def hexDigit (n : Nat) : Char := Char.ofNat (if n < 10 then 48 + n else 55 + n)

def esc (s : String) : String :=
  String.ofList ((toByteArray s).flatMap fun b =>
    let c := Char.ofNat b.toNat
    if c.isAlphanum ∨ c ∈ ['.', '-', '*', '_'] then [c]
    else ['%', hexDigit (b.toNat / 16), hexDigit (b.toNat % 16)])

/-- `or` -/
def firstOf (values : List (Option String)) : String :=
  ((values.find? fun v => v.getD "" ≠ "").getD none).getD ""

def int (s : Option String) : Int :=
  ((s.map String.trimmed).bind Text.toIntOrNull).getD 0

def query (q : List (String × String)) : String :=
  "&".intercalate ((q.mergeSort fun a b => a.1 ≤ b.1).map fun f => esc f.1 ++ "=" ++ esc f.2)

def bracket (h : String) : String :=
  if h.contains ':' && !h.startsWith "[" then "[" ++ h ++ "]" else h

/-! ## Links -/

section Links

variable (p : Platform)

def text : Option Value → String
  | none | some .missing | some .null => ""
  | some (.str s) => s
  | some (.num n) => n.whole.elim n.shown toString
  | some (.bool b) => toString b
  | some v => p.print v

/-- The fields of a profile as texts, by name. -/
def flat (o : Fields) (k : String) : Option String := (o.lookup k).map fun v => text p (some v)

def network (f : String → Option String) : String :=
  let n := p.lowercase ((f "network").getD "").trimmed
  if n ∈ ["tcp", "kcp", "ws", "httpupgrade", "xhttp", "http", "h2", "grpc"] then n else "tcp"

def allowInsecure (f : String → Option String) : Bool :=
  let given (k : String) : Option Bool :=
    let v := p.lowercase ((f k).getD "").trimmed
    if v ∈ ["true", "1", "yes"] then some true
    else if v ∈ ["false", "0", "no"] then some false
    else none
  ((given "tlsAllowInsecure").or (given "insecure")).getD false

def streamQuery (f : String → Option String) : List (String × String) :=
  let network := firstOf [f "network", some "tcp"]
  let security := firstOf [f "security", some "none"]
  let «set» (k : String) (v : Option String) : List (String × String) :=
    if v.getD "" = "" then [] else [(k, v.getD "")]
  [("type", network), ("security", security)] ++
  (if network = "ws" then «set» "path" (f "path") ++ «set» "host" (f "host")
  else if network = "grpc" then
    «set» "serviceName" (f "serviceName") ++
      «set» "mode" (firstOf [f "mode", f "xhttpMode", some "gun"]) ++
      «set» "authority" (f "authority")
  else if network = "kcp" then «set» "headerType" (f "headerType") ++ «set» "seed" (f "seed")
  else if network = "quic" then «set» "key" (f "key") ++ «set» "headerType" (f "headerType")
  else if network = "xhttp" ∨ network = "httpupgrade" then
    «set» "path" (f "path") ++ «set» "host" (f "host") ++
      «set» "mode" (firstOf [f "xhttpMode", f "mode"]) ++ «set» "extra" (f "xhttpExtra")
  else if network = "tcp" ∨ network = "raw" then
    let headerType := (f "headerType").getD ""
    if headerType = "" ∨ headerType = "none" then []
    else ("headerType", headerType) :: («set» "host" (f "host") ++ «set» "path" (f "path"))
  else []) ++
  if security = "tls" then
    «set» "sni" (f "sni") ++ «set» "fp" (f "fingerPrint") ++ «set» "alpn" (f "alpn") ++
      if allowInsecure p f then [("allowInsecure", "1")] else []
  else if security = "reality" then
    «set» "sni" (f "sni") ++ «set» "fp" (f "fingerPrint") ++ «set» "pbk" (f "publicKey") ++
      «set» "sid" (f "shortId") ++ «set» "spx" (f "spiderX")
  else []

def base64 (a : Base64.Alphabet) (pad : Bool) (s : String) : String :=
  String.ofList (Base64.encode a pad (toByteArray s))

def vmessLink (host : String) (port : Int) (remarks : String) (f : String → Option String) :
    String :=
  let net := network p f
  let headerType :=
    if net = "grpc" then (f "mode").getD "" else firstOf [f "headerType", some "none"]
  let path :=
    if net = "kcp" then firstOf [f "path", f "seed"]
    else if net = "grpc" then firstOf [f "path", f "serviceName"]
    else (f "path").getD ""
  let hostHeader :=
    if net = "grpc" then firstOf [f "host", f "authority"] else (f "host").getD ""
  let security := (f "security").getD ""
  let o : Fields :=
    [("v", .str "2"), ("ps", .str remarks), ("add", .str host), ("port", .str (toString port)),
      ("id", .str ((f "password").getD "")), ("aid", .str (toString (int (f "alterId")))),
      ("scy", .str (firstOf [f "method", some "auto"])),
      ("net", .str (firstOf [f "network", some "tcp"])), ("type", .str headerType),
      ("host", .str hostHeader), ("path", .str path),
      ("tls", .str (if security = "tls" ∨ security = "reality" then "tls" else "")),
      ("sni", .str ((f "sni").getD "")), ("fp", .str ((f "fingerPrint").getD "")),
      ("alpn", .str ((f "alpn").getD "")),
      ("insecure",
        .str (if security ≠ "tls" then "" else if allowInsecure p f then "1" else "0"))]
  "vmess://" ++ base64 .standard true (p.print (.obj o))

def v2rayLink (remarks address : String) (f : String → Option String) : String :=
  let host := firstOf [f "server", some address]
  let port := if 0 < int (f "serverPort") then int (f "serverPort") else int (f "port")
  let password := (f "password").getD ""
  let flow := if isNotBlank ((f "flow").getD "") then [("flow", (f "flow").getD "")] else []
  let configType := int (f "configType")
  if configType = 1 then vmessLink p host port remarks f
  else if configType = 5 then
    "vless://" ++ password ++ "@" ++ host ++ ":" ++ toString port ++ "?" ++
      query (streamQuery p f ++ ("encryption", firstOf [f "method", some "none"]) :: flow) ++
      "#" ++ esc remarks
  else if configType = 6 then
    "trojan://" ++ esc password ++ "@" ++ host ++ ":" ++ toString port ++ "?" ++
      query (streamQuery p f ++ flow) ++ "#" ++ esc remarks
  else if configType = 3 then
    "ss://" ++ base64 .standard true ((f "method").getD "" ++ ":" ++ password) ++ "@" ++ host ++
      ":" ++ toString port ++ "#" ++ esc remarks
  else ""

def sshMode (type proxy sni payload : String) : String :=
  let tls := sni ≠ "" ∨ contains "TLS" type ∨ contains "SSL" type
  if contains "WS" type ∨ contains "WEBSOCKET" type then if tls then "wss" else "ws"
  else if proxy ≠ "" then if tls then "https-proxy" else "http-proxy"
  else if payload ≠ "" then if tls then "payload-tls" else "payload"
  else if tls then "tls"
  else "direct"

/-- A link of the application's own scheme. -/
def sshLink (remarks : String) (f : String → Option String) : String :=
  let host := firstOf [f "sshHost", f "host", f "server"]
  if host = "" then ""
  else
    let given := int (firstOf [f "sshPort", f "port"])
    let port := if 1 ≤ given ∧ given ≤ 65535 then given else 22
    let type := p.uppercase (firstOf [f "sshConfigType", f "connectionType", f "type"])
    let payload := firstOf [f "payload", f "customPayload"]
    let proxyPort := (f "proxyPort").getD ""
    let proxyHost := (f "proxyHost").filter (· ≠ "") |>.map fun h =>
      h ++ if proxyPort = "" then "" else ":" ++ proxyPort
    let proxy := firstOf [f "httpProxy", f "proxy", proxyHost]
    let sni := firstOf [f "sni", f "serverNameIndication", f "sslSni", f "tlsSni"]
    let mode := sshMode type proxy sni payload
    let q := (if mode = "direct" then [] else [("mode", mode)]) ++
      (if proxy = "" then [] else [("proxy", proxy)]) ++
      (if sni = "" then [] else [("sni", sni)]) ++
      if payload = "" then [] else [("payload", base64 .urlSafe false payload)]
    let password := (f "sshPassword").getD ""
    let user := esc ((f "sshUsername").getD "") ++ if password = "" then "" else ":" ++ esc password
    "ssh://" ++ (if user = "" then "" else user ++ "@") ++ bracket host ++ ":" ++ toString port ++
      (if q = [] then "" else "?" ++ query q) ++ "#" ++ esc (remarks.ifEmpty ("SSH " ++ host))

def proxyLink (remarks address kind : String) (f : String → Option String) : String :=
  let scheme := if kind.startsWith "http" then "http" else "socks5"
  let host := firstOf [f "server", f "host", some address]
  let port := int (firstOf [f "serverPort", f "port"])
  if ¬(1 ≤ port ∧ port ≤ 65535) ∨ host = "" then ""
  else
    let user := (f "username").getD ""
    let auth := if user = "" then "" else esc user ++ ":" ++ esc ((f "password").getD "") ++ "@"
    scheme ++ "://" ++ auth ++ bracket host ++ ":" ++ toString port ++ "#" ++
      esc (remarks.ifEmpty (host ++ ":" ++ toString port))

/-- Where `rawJsonLine` keeps the name of the profile. -/
def nameKey : String := "__ghajarName"

def rawJsonLine (remarks : String) (profile : Fields) : String :=
  let written := profile.optString p "v2rayJson"
  let raw := (profile.optJSONObject "v2rayJson").or
    (if written.trimmed.startsWith "\x7b" then p.readObject written else none)
  raw.elim "" fun raw => p.print (.obj (raw.put nameKey (.str remarks)))

def link : Value → String
  | .obj obj =>
    let remarks := text p (obj.lookup "name")
    let address := text p (obj.lookup "address")
    match Fields.optJSONObject obj "v2rayProfile", Fields.optJSONObject obj "sshConfig" with
    | some prof, _ =>
      (v2rayLink p remarks address (flat p prof)).ifEmpty (rawJsonLine p remarks prof)
    | none, some ssh => sshLink p remarks (flat p ssh)
    | none, none =>
      let kinds := ["socksConfig", "socksProfile", "httpConfig", "httpProfile", "proxyConfig"]
      let made (kind : String) : Option String :=
        (Fields.optJSONObject obj kind).map fun o => proxyLink remarks address kind (flat p o)
      (kinds.findSome? made).getD ""
  | cfg => text p (some cfg)

end Links

/-! ## What stands for other texts -/

def sentinelPrefix : String := "npvs1:"

def isSentinel (c : Char) : Bool := Base64.counts .standard c || Base64.counts .urlSafe c

def sentinel (tok : String) : Option (List UInt8) :=
  (decodeBase64 .standard tok).or
    ((decodeBase64 .urlSafe tok).or (decodeBase64 .urlSafe (padded tok)))

section Sentinels

variable (p : Platform)

/-- The texts that sentinels stand for are put in their places, one after the other; `n` is at
least the length of the text. -/
def decodeN : Nat → List Char → List Char
  | 0, s => s
  | n + 1, s =>
    match Search.index sentinelPrefix.toList s with
    | none => s
    | some i =>
      let rest := s.drop (i + sentinelPrefix.toList.length)
      let tok := rest.takeWhile isSentinel
      let dec :=
        match sentinel (String.ofList tok) with
        | none => sentinelPrefix.toList ++ tok
        | some bytes => (p.utf8 bytes).toList
      s.take i ++ dec ++ decodeN n (rest.drop tok.length)

def decodeSentinels (s : String) : String := String.ofList (decodeN p s.toList.length s.toList)

mutual

/-- `decodeSentinels` of a value. -/
def decodeValue : Value → Value
  | .str s => .str (decodeSentinels p s)
  | .obj fields => .obj (decodeFields fields)
  | .arr items => .arr (decodeItems items)
  | v => v

def decodeItems : List Value → List Value
  | [] => []
  | v :: vs => decodeValue v :: decodeItems vs

def decodeFields : Fields → Fields
  | [] => []
  | (k, v) :: fs => (k, decodeValue v) :: decodeFields fs

end

/-- The texts of the fields of a container, newest first. -/
abbrev FieldTexts := List (Int32 × List UInt8)

def fieldText (raw : Option (List UInt8)) : String :=
  let s := ((raw.map p.utf8).getD "").trimmed
  if 2 ≤ s.toList.length ∧ s.toList.head? = some '"' ∧ s.toList.getLast? = some '"' then
    match (p.readArray ("[" ++ s ++ "]")).bind (·.head?) with
    | some (.str t) => t
    | some (.num n) => n.shown
    | some (.bool b) => toString b
    | some .null => "null"
    | some .missing | none => String.ofList ((s.toList.drop 1).dropLast)
    | some v => p.print v
  else s

mutual

def substitute (fields : FieldTexts) : Value → Value
  | .num n => .str (decodeSentinels p (fieldText p (fields.lookup n.int)))
  | .obj o => .obj (substituteFields fields o)
  | .arr items => .arr (substituteItems fields items)
  | v => v

def substituteItems (fields : FieldTexts) : List Value → List Value
  | [] => []
  | v :: vs => substitute fields v :: substituteItems fields vs

def substituteFields (fields : FieldTexts) : Fields → Fields
  | [] => []
  | (k, v) :: fs => (k, substitute fields v) :: substituteFields fields fs

end

end Sentinels

end Ghajar.Npv
