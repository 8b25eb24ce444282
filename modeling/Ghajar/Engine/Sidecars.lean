import Mathlib
import Ghajar.Config.TextPlatform
import Ghajar.Lib.GoFlag
import Ghajar.Npv.Link

/-!
# The helper's user name and secret

`SingBoxConfig.sidecar`, `Sidecars.sstp` and `Sidecars.softether`, `SidecarRunner.start` and what
the two modes of the helper read first. Placeholders are replaced in everything the process gets,
also in what the user entered, and the helper cuts line breaks off the end of the secret.
-/

namespace Ghajar.Sidecar

open Ghajar Npv

structure SidecarLaunch where
  args : List String
  files : List (String × String)
  env : List (String × String)

def PORT : String := "\x7bport\x7d"
def PORT2 : String := "\x7bport2\x7d"
def DIR : String := "\x7bdir\x7d"

/-! ## The launch -/

def server (c : ProxyConfig) : String :=
  (if ':' ∈ c.address.toList then "[" ++ c.address ++ "]" else c.address) ++ ":" ++ toString c.port

def mtu (c : ProxyConfig) : Int := if 576 ≤ c.mtu ∧ c.mtu ≤ 1500 then c.mtu else 1400

/-- What `SingBoxConfig.sidecar` puts down for the two protocols. -/
def sidecar (p : Platform) (c : ProxyConfig) : Option JSONObject :=
  if c.protocol = "softether" then
    let x := c.extraJson p
    some (JSONObject.put [] "kind" "softether"
      |>.put "server" (server c)
      |>.put "hub" ((x.optString "hub").ifBlank "DEFAULT")
      |>.put "user" c.uuid
      |>.put "password" c.password
      |>.put "plain" (x.optBoolean "plain")
      |>.put "sni" c.sni
      |>.put "allowInsecure" c.allowInsecure
      |>.put "pin" c.pinnedCertSha256
      |>.put "ip" (x.optString "ip")
      |>.put "gw" (x.optString "gw")
      |>.put "dns" (x.optString "dns")
      |>.put "mtu" (mtu c))
  else if c.protocol = "sstp" then
    some (JSONObject.put [] "kind" "sstp"
      |>.put "server" (server c)
      |>.put "user" c.uuid
      |>.put "password" c.password
      |>.put "sni" c.sni
      |>.put "auth" (c.method.ifBlank "auto")
      |>.put "allowInsecure" c.allowInsecure
      |>.put "pin" c.pinnedCertSha256
      |>.put "mtu" (mtu c))
  else none

/-- `^[0-9a-fA-F:]{64,95}$` -/
def isPin (s : String) : Bool :=
  64 ≤ s.toList.length ∧ s.toList.length ≤ 95 ∧
    s.toList.all fun c => c.isDigit || c ∈ "abcdefABCDEF:".toList

/-- `^\d{1,3}(\.\d{1,3}){3}/\d{1,2}$` -/
def isStatic (s : String) : Bool :=
  let digits (most : Nat) (cs : List Char) : Bool :=
    cs ≠ [] ∧ cs.length ≤ most ∧ cs.all fun c => (Text.digitOf c).isSome
  match Text.split '/' s.toList with
  | [address, bits] =>
    (Text.split '.' address).length = 4 && (Text.split '.' address).all (digits 3) && digits 2 bits
  | _ => false

/-- A flag with a value, where there is one. -/
def option (flag value : String) : List String := if value.blank then [] else [flag, value]

def switch (flag : String) (on : Bool) : List String := if on then [flag] else []

def mtuArg (p : Platform) (spec : JSONObject) : String :=
  let n := if (spec.opt "mtu").isSome then optInt p spec "mtu" else 1400
  toString (max 576 (min n 1500))

/-- A requirement that is not met throws. -/
def sstp (p : Platform) (spec : JSONObject) : Option SidecarLaunch :=
  let server := spec.optString "server"
  let user := spec.optString "user"
  let pin := spec.optString "pin"
  if server.blank ∨ server.toList.head? = some ':' ∨ user.blank then none
  else if !pin.blank && !isPin pin then none
  else some
    { args := ["sstp", "-listen", PORT, "-server", server, "-user", user,
          "-auth", (spec.optString "auth").ifBlank "auto", "-mtu", mtuArg p spec] ++
        option "-sni" (spec.optString "sni") ++ option "-pin" pin ++
        switch "-insecure" (spec.optBoolean "allowInsecure")
      files := [("sstp.pass", spec.optString "password")]
      env := [("SSTP_PASSWORD_FILE", DIR ++ "/sstp.pass")] }

def softether (p : Platform) (spec : JSONObject) : Option SidecarLaunch :=
  let server := spec.optString "server"
  let user := spec.optString "user"
  let pin := spec.optString "pin"
  let ip := spec.optString "ip"
  if server.blank ∨ server.toList.head? = some ':' ∨ user.blank then none
  else if !pin.blank && !isPin pin then none
  else if !ip.blank && !isStatic ip then none
  else some
    { args := ["softether", "-listen", PORT, "-server", server,
          "-hub", (spec.optString "hub").ifBlank "DEFAULT", "-user", user,
          "-mtu", mtuArg p spec] ++
        switch "-plain" (spec.optBoolean "plain") ++
        option "-sni" (spec.optString "sni") ++ option "-pin" pin ++
        switch "-insecure" (spec.optBoolean "allowInsecure") ++
        option "-ip" ip ++ option "-gw" (spec.optString "gw") ++
        option "-dns" (spec.optString "dns")
      files := [("se.pass", spec.optString "password")]
      env := [("SE_PASSWORD_FILE", DIR ++ "/se.pass")] }

/-- `Sidecars.build`, for the two kinds. -/
def build (p : Platform) (spec : JSONObject) : Option SidecarLaunch :=
  if spec.optString "kind" = "sstp" then sstp p spec
  else if spec.optString "kind" = "softether" then softether p spec
  else none

/-! ## The process -/

/-- Where the runner starts a process. -/
structure Host where
  port : Fin 65536
  port2 : Fin 65536
  /-- The working directory. -/
  dir : String
  cacheDir : String
  inherited : String → Option String
  /-- The app's private directory is none of the placeholders. -/
  dir_plain : '\x7b' ∉ dir.toList

structure Process where
  args : List String
  env : List (String × String)
  inherited : String → Option String
  files : List (String × String)

def fill (h : Host) (s : String) : String :=
  replace DIR h.dir (replace PORT (toString h.port.val) (replace PORT2 (toString h.port2.val) s))

/-- The system takes no text with a zero in it. -/
def hasZero (s : String) : Bool := s.toList.contains '\x00'

def start (h : Host) (launch : SidecarLaunch) : Option Process :=
  let args := launch.args.map (fill h)
  let env := launch.env.map fun e => (e.1, fill h e.2)
  if args.any hasZero || env.any (fun e => hasZero e.2) then none
  else some
    { args
      env := [("HOME", h.dir), ("TMPDIR", h.cacheDir)] ++ env
      inherited := h.inherited
      files := launch.files.map fun f => (h.dir ++ "/" ++ f.1, fill h f.2) }

/-! ## The helper -/

def bytes (s : String) : List UInt8 := Utf8.encode s.toList

def getenv (proc : Process) (name : String) : String :=
  ((proc.env.reverse.lookup name).or (proc.inherited name)).getD ""

def readFile (proc : Process) (path : String) : Option (List UInt8) :=
  (proc.files.lookup path).map bytes

/-- `strings.TrimRight(s, "\r\n")` -/
def trimRight (b : List UInt8) : List UInt8 :=
  (b.reverse.dropWhile fun x => x = 13 ∨ x = 10).reverse

def secretFromEnv (proc : Process) (name : String) : Option (List UInt8) :=
  let pf := getenv proc (name ++ "_FILE")
  if pf ≠ "" then (readFile proc pf).map trimRight else some (bytes (getenv proc name))

def sstpFlags : List (String × GoFlag.Kind) :=
  [("listen", .whole), ("server", .text), ("sni", .text), ("user", .text), ("auth", .text),
    ("insecure", .switch), ("pin", .text), ("mtu", .whole), ("dns", .text), ("v", .switch)]

def softetherFlags : List (String × GoFlag.Kind) :=
  [("listen", .whole), ("server", .text), ("hub", .text), ("user", .text), ("plain", .switch),
    ("sni", .text), ("pin", .text), ("insecure", .switch), ("ip", .text), ("gw", .text),
    ("dns", .text), ("mtu", .whole), ("v", .switch)]

/-- The user name and the secret a mode goes on with. -/
def credentials (proc : Process) (formal : List (String × GoFlag.Kind)) (args : List String)
    (secret : String) : Option (List UInt8 × List UInt8) := do
  let l ← GoFlag.parse formal args
  let pass ← secretFromEnv proc secret
  some (bytes (GoFlag.get l "user" ""), pass)

def main (proc : Process) : Option (List UInt8 × List UInt8) :=
  match proc.args with
  | "sstp" :: args => credentials proc sstpFlags args "SSTP_PASSWORD"
  | "softether" :: args => credentials proc softetherFlags args "SE_PASSWORD"
  | _ => none

end Ghajar.Sidecar
