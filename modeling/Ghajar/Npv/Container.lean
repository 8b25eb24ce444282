import Ghajar.Crypto.ChaCha20Poly1305
import Ghajar.Lib.JavaArray
import Ghajar.Npv.Link

/-!
# NPV containers

`open` reads the open export, the containers of the first generation and those of the second
(`NpvContainer.open`). Offsets and lengths are `Int`s, added as they come from the file, and each
read throws where its range is not in the array.
-/

namespace Ghajar.Npv

open Exits JavaArray

inductive Result where
  | opened (lines : List String) (creatorMessage : String)
  | needsPassphrase
  | wrongPassphrase
  | «protected» (why : String)
  | invalid (why : String)

abbrev Step := Exits Thrown Result

def openMarker : String := "NPVO1"
def maxBytes : Nat := 8 * 1024 * 1024
def minIters : Int32 := 1
def maxIters : Int32 := 10000000

def gen2Version : UInt8 := 5
def gen2HeaderFixed : Int32 := 135
def gen2KeyBlockOffset : Int32 := 53
def gen2RecipientPk : Int32 := 32
def gen2RecipientWrap : Int32 := 0x5d
def gen2PassBlock : Int32 := 80
def gen2Sig : Int32 := 64
def gen2SentinelSeq : Int32 := 0xFFFF
def methodRecipient : UInt8 := 0
def methodPass : UInt8 := 1
def methodAppKey : UInt8 := 2

def appKeyWhy : String :=
  "این فایل با کلید داخلی خود اپ NPV قفل شده و رمزی برای شما ندارد؛ باز کردنش یعنی دور زدن قفل سازنده و پشتیبانی نمی‌شود. " ++
    "از سازنده بخواهید خروجی با رمز عبور یا لینک مستقیم بدهد."

def recipientWhy : String :=
  "این فایل برای گیرندهٔ مشخصی رمز شده و فقط با کلید خصوصی همان گیرنده باز می‌شود."

def legacyWhy : String :=
  "این فایل NPVT قدیمی است که با کلید داخلی خود اپ NPV قفل شده؛ باز کردنش یعنی دور زدن قفل سازنده و پشتیبانی نمی‌شود. از سازنده لینک یا خروجی باز (NPVO1) بخواهید."

def badHeader : Result := .invalid "سرآیند NPVS خراب است."
def incomplete : Result := .invalid "فایل NPVS ناقص است."
def badBody : Result := .invalid "بدنهٔ NPVS خراب است."
def incompleteBody : Result := .invalid "بدنهٔ NPVS ناقص است."
def badIters : Result := .invalid "تعداد تکرار رمز نامعتبر است."
def unknownMethod : String := "روش قفل این فایل شناخته نشد."
def notOpened : Result := .invalid "محتوای فایل باز نشد (فایل دستکاری شده است)."

/-! ## Keys -/

def be16 (v : Int32) : List UInt8 := [(v >>> 8).toInt8.toUInt8, v.toInt8.toUInt8]

def be32 (v : Int32) : List UInt8 := Bytes.be32 v.toUInt32

def itersInRange (iters : Int32) : Prop := minIters ≤ iters ∧ iters ≤ maxIters

instance (iters : Int32) : Decidable (itersInRange iters) :=
  inferInstanceAs (Decidable (_ ∧ _))

section

variable (p : Platform)

/-- The hash of the salt and the number of the block, added to the hash of each hash after it. -/
def pbkdf2Block (password salt : List UInt8) (iterations : Int32) (block : Int32) : List UInt8 :=
  let u := (p.hmac password (salt ++ be32 block)).1
  let again (ut : List UInt8 × List UInt8) : List UInt8 × List UInt8 :=
    let u := (p.hmac password ut.1).1
    (u, List.zipWith (· ^^^ ·) ut.2 u)
  (again^[iterations.toInt.toNat - 1] (u, u)).2

def pbkdf2Loop (password salt : List UInt8) (iterations : Int32) (dkLen written : Nat)
    (block : Int32) : List UInt8 :=
  if written < dkLen then
    let n := min 32 (dkLen - written)
    (pbkdf2Block p password salt iterations block).take n ++
      pbkdf2Loop password salt iterations dkLen (written + n) (block + 1)
  else []
termination_by dkLen - written
decreasing_by omega

def pbkdf2 (password salt : List UInt8) (iterations : Int32) (dkLen : Nat) : Step (List UInt8) :=
  if password = [] then throws .illegalArgument
  else .ok (pbkdf2Loop p password salt iterations dkLen 0 1)

def hkdf (ikm salt : List UInt8) (info : String) (extra : List UInt8) : List UInt8 :=
  let s := if salt = [] then List.replicate 32 0 else salt
  let prk := (p.hmac s ikm).1
  (p.hmac prk (toByteArray info ++ extra ++ [1])).1

/-! ## Payloads -/

/-- `configs.get(i)`, which throws on a null reference. -/
def element : Value → Step Value
  | .missing => throws .json
  | v => .ok v

/-- The links of the configurations, with their texts put in by `f`. -/
def links (f : Value → Value) (configs : List Value) : Step (List String) :=
  configs.mapM fun v => do
    let v ← element v
    return link p (f v)

def creatorMessage (policy : Option Fields) : String :=
  let texts := policy.elim [] fun o =>
    [o.optString p "displayMessage", o.optString p "customServerMessage"]
  "\n".intercalate ((texts.map fun t => (replace "\r\n" "\n" t).trimmed).filter (· ≠ ""))

/-- `lines()` -/
def linesOf : List Char → List (List Char)
  | [] => [[]]
  | '\r' :: '\n' :: cs => [] :: linesOf cs
  | c :: cs =>
    if c = '\n' ∨ c = '\r' then [] :: linesOf cs
    else
      match linesOf cs with
      | [] => [[c]]
      | w :: ws => (c :: w) :: ws

/-- Letters and digits, and `://` behind them. -/
def hasScheme (s : String) : Bool :=
  let scheme := s.toList.takeWhile Char.isAlphanum
  scheme ≠ [] ∧ "://".toList.isPrefixOf (s.toList.drop scheme.length)

def payloadConfigs (t : String) : Option (List Value) :=
  ((p.readObject t).bind fun o => o.optJSONArray "configs").or (p.readArray t)

def linesFromPayload (text : String) : Step (List String) := do
  let t := text.trimmed
  match payloadConfigs p t with
  | some configs =>
    let found ← links p (decodeValue p) configs
    return found.filter isNotBlank
  | none =>
    return ((linesOf t.toList).map fun l => (String.ofList l).trimmed).filter hasScheme

def b64Url (s : String) : Option (List UInt8) := decodeBase64 .urlSafe (padded s)

/-! ## The open export -/

def openExport (bytes : List UInt8) : Step Result := do
  let body := replace openMarker "" (replace (openMarker ++ "\n") "" (p.utf8 bytes))
  leaveIf (body.blank = true) (.invalid "فایل NPVO1 خالی است.")
  let configs ← orLeave ((p.readObject body).bind fun o => o.optJSONArray "configs")
    (.invalid "محتوای NPVO1 فهرست کانفیگ نیست.")
  leaveIf (configs = []) (.invalid "فایل NPVO1 کانفیگی ندارد.")
  let found ← links p (decodeValue p) configs
  return .opened (found.filter isNotBlank) ""

/-! ## The first generation -/

/-- What `openV1` reads of the file. -/
structure V1Parts where
  headerRaw : List UInt8
  hdr : Fields
  nonce : List UInt8
  body : List UInt8

/-- `openV1`, up to the body. -/
def v1Parts (b : List UInt8) : Step V1Parts := do
  leaveIf (size b < 89) incomplete
  let version ← get b 5
  leaveIf (1 < version.toInt8) (.invalid "نسخهٔ این فایل NPVS پشتیبانی نمی‌شود.")
  let hdrLen ← getInt b 5
  leaveIf (hdrLen < 0 ∨ size b < 9 + hdrLen) badHeader
  let headerRaw ← copyOfRange b 9 (9 + hdrLen)
  let hdr ← orLeave (p.readObject (p.utf8 headerRaw)) (.invalid "سرآیند NPVS خوانده نشد.")
  let off := 9 + hdrLen
  leaveIf (size b < off + 16) incomplete
  let nonce ← copyOfRange b off (off + 12)
  let bodyLen ← getInt b (off + 12)
  let off := off + 16
  leaveIf (bodyLen < 16 ∨ size b < off + bodyLen + 64) badBody
  let body ← copyOfRange b off (off + bodyLen)
  return ⟨headerRaw, hdr, nonce, body⟩

/-- `openV1`, from the passphrase block of the header on. -/
def v1Text (parts : V1Parts) (passphrase : Option String) : Step String := do
  leaveIf ((parts.hdr.optJSONObject "appKey").isSome = true) (.protected appKeyWhy)
  let recipients := (parts.hdr.optJSONArray "recipients").getD []
  let pass ← orLeave (parts.hdr.optJSONObject "passphrase")
    (.protected (if 0 < recipients.length then recipientWhy else unknownMethod))
  leaveIf (passphrase.getD "" = "") .needsPassphrase
  leaveIf (pass.optString p "kdf" ≠ "pbkdf2-hmac-sha256")
    (.invalid "روش رمز این فایل پشتیبانی نمی‌شود.")
  let iters := pass.optInt p "iters"
  leaveIf (¬itersInRange iters) badIters
  let salt ← orLeave (b64Url (pass.optString p "salt")) (.invalid "salt نامعتبر است.")
  let wrap ← orLeave (b64Url (pass.optString p "wrap")) (.invalid "wrap نامعتبر است.")
  leaveIf (wrap.length ≠ 60) (.invalid "wrap نامعتبر است.")
  let kek ← pbkdf2 p (toByteArray (passphrase.getD "")) salt iters 32
  let wrapNonce ← copyOfRange wrap 0 12
  let wrapBody ← copyOfRange wrap 12 (size wrap)
  let dek ← orLeave (ChaCha20Poly1305.open kek wrapNonce wrapBody salt) .wrongPassphrase
  let pt ← orLeave (ChaCha20Poly1305.open dek parts.nonce parts.body parts.headerRaw) notOpened
  return decodeSentinels p (p.utf8 pt)

def openV1 (b : List UInt8) (passphrase : Option String) : Step Result := do
  let parts ← v1Parts p b
  let text ← v1Text p parts passphrase
  let lines ← linesFromPayload p text
  return .opened lines (creatorMessage p (parts.hdr.optJSONObject "policy"))

/-! ## The second generation -/

/-- What `openGen2` reads of the header. -/
structure Gen2Key where
  iters : Int32
  salt : List UInt8
  wrap : List UInt8
  /-- `prefix`, which the metadata are sealed with. -/
  before : List UInt8
  metaBlob : List UInt8

/-- `openGen2`, from the header to the metadata. -/
def gen2Key (h : List UInt8) : Step Gen2Key := do
  let version ← get h 0
  leaveIf (version ≠ 1) (.invalid "نسخهٔ سرآیند NPVS پشتیبانی نمی‌شود.")
  let method ← get h 50
  let recipients ← getShort h 51
  leaveIf (0x400 < recipients) badHeader
  leaveIf (method = methodAppKey) (.protected appKeyWhy)
  leaveIf (method = methodRecipient) (.protected recipientWhy)
  leaveIf (method ≠ methodPass) (.invalid unknownMethod)
  let off := gen2KeyBlockOffset + recipients * (gen2RecipientPk + gen2RecipientWrap)
  leaveIf (size h < off + gen2PassBlock + 4) incomplete
  let iters ← getInt h off
  leaveIf (¬itersInRange iters) badIters
  let salt ← copyOfRange h (off + 4) (off + 20)
  let wrap ← copyOfRange h (off + 20) (off + gen2PassBlock)
  let off := off + gen2PassBlock
  leaveIf (size h < off + 4) incomplete
  let metaLen ← getInt h off
  leaveIf (metaLen < 16 ∨ size h < off + 4 + metaLen) incomplete
  let before ← copyOfRange h 0 off
  let metaBlob ← copyOfRange h (off + 4) (off + 4 + metaLen)
  return ⟨iters, salt, wrap, before, metaBlob⟩

/-- `openGen2`, the body behind the header: its nonce and itself. -/
def gen2Body (b : List UInt8) (hdrLen : Int32) : Step (List UInt8 × List UInt8) := do
  let boff := 9 + hdrLen
  leaveIf (size b < boff + 16) incomplete
  let nonce ← copyOfRange b boff (boff + 12)
  let bodyLen ← getInt b (boff + 12)
  let boff := boff + 16
  leaveIf (bodyLen < 32 ∨ size b < boff + bodyLen + gen2Sig) badBody
  let body ← copyOfRange b boff (boff + bodyLen)
  return (nonce, body)

/-- The rows of the body from `pos` on; a row that is not sealed with its key is passed over. -/
def gen2Rows (dek contentId body : List UInt8) : Nat → Int32 → FieldTexts → Step FieldTexts
  | 0, _, fields => .ok fields
  | count + 1, pos, fields => do
    leaveIf (size body < pos + 6) incompleteBody
    let seq ← getShort body pos
    let len ← getShort body (pos + 4)
    leaveIf (size body < pos + 6 + len) incompleteBody
    let blob ← copyOfRange body (pos + 6) (pos + 6 + len)
    let ptLen := size blob - 16
    let key := hkdf p dek contentId "NPV-fields-v1/field/" (be16 seq)
    let aad := toByteArray "NPV-fields-v1/record/" ++ contentId ++ be16 seq ++ be32 ptLen
    let fields :=
      if ptLen < 0 then fields
      else
        match ChaCha20Poly1305.open key (List.replicate 12 0) blob aad with
        | some text => (seq, text) :: fields
        | none => fields
    gen2Rows dek contentId body count (pos + 6 + len) fields

/-- `openGen2`, the fields of the body. -/
def gen2Fields (dek body : List UInt8) : Step FieldTexts := do
  leaveIf (size body < 66 ∨ body.take 4 ≠ [0x4e, 0x50, 0x46, 1]) badBody
  let contentId ← copyOfRange body 4 36
  let count ← getShort body 36
  gen2Rows p dek contentId body count.toInt.toNat 38 []

/-- `openGen2`, from the passphrase on. -/
def gen2Open (key : Gen2Key) (nonce body : List UInt8) (passphrase : Option String) :
    Step Result := do
  leaveIf (passphrase.getD "" = "") .needsPassphrase
  let kdk ← pbkdf2 p (toByteArray (passphrase.getD "")) key.salt key.iters 32
  let wrapNonce ← copyOfRange key.wrap 0 12
  let wrapBody ← copyOfRange key.wrap 12 (size key.wrap)
  let dek ← orLeave (ChaCha20Poly1305.open kdk wrapNonce wrapBody key.salt) .wrongPassphrase
  let metadata ← orLeave
    (ChaCha20Poly1305.open (hkdf p dek nonce "NPVS-v5/metadata" []) nonce key.metaBlob key.before)
    notOpened
  let fields ← gen2Fields p dek body
  let table ← orLeave (fields.lookup gen2SentinelSeq)
    (.invalid "فهرست کانفیگ در فایل پیدا نشد.")
  let configs ← orLeave ((p.readObject (p.utf8 table)).bind fun o => o.optJSONArray "configs")
    (.invalid "فهرست کانفیگ در فایل خوانده نشد.")
  let found ← links p (substitute p fields) configs
  let policy := (p.readObject (p.utf8 metadata)).bind fun o => o.optJSONObject "policy"
  return .opened (found.filter isNotBlank) (creatorMessage p policy)

def openGen2 (b : List UInt8) (passphrase : Option String) : Step Result := do
  let hdrLen ← getInt b 5
  leaveIf (hdrLen < gen2HeaderFixed ∨ size b < 9 + hdrLen) badHeader
  let h ← copyOfRange b 9 (9 + hdrLen)
  let key ← gen2Key h
  let sealed ← gen2Body b hdrLen
  gen2Open p key sealed.1 sealed.2 passphrase

/-! ## Containers -/

/-- The first bytes as text, from the first character on that is not blank. -/
def headText (head : List UInt8) : List Char :=
  (head.map fun b => Char.ofNat b.toNat).dropWhile Text.isWhitespace

def openStep (bytes : List UInt8) (passphrase : Option String) : Step Result := do
  leaveIf (maxBytes < bytes.length) (.invalid "حجم فایل بیش از حد مجاز است.")
  let head ← copyOfRange bytes 0 (if size bytes ≤ 16 then size bytes else 16)
  let head := headText head
  if openMarker.toList.isPrefixOf head then openExport p bytes
  else if "NPVTSUB1".toList.isPrefixOf head ∨ "NPVT1".toList.isPrefixOf head then
    return .protected legacyWhy
  else if 9 ≤ size bytes ∧ bytes.take 4 = [0x4e, 0x50, 0x56, 0x53] then do
    let version ← get bytes 4
    if version = gen2Version then openGen2 p bytes passphrase else openV1 p bytes passphrase
  else return .invalid "این فایل NPV شناخته نشد."

def «open» (bytes : List UInt8) (passphrase : Option String) : Except Thrown Result :=
  (openStep p bytes passphrase).result

end

end Ghajar.Npv
