import Ghajar.Lib.Utf8
import Ghajar.Ppp.Wire

/-!
# MS-CHAPv2

The response of the client and the proof of the server, from
`native/ghajar-helper/sstp.go`. The hash functions and the block cipher are
parameters (`Crypto`), and so is `strings.ToUpper`; nothing proved here looks
inside them.
-/

namespace Ghajar.Ppp

/-- The library functions the authentication is built on. -/
structure Crypto where
  md4 : Bytes → Bytes
  sha1 : Bytes → Bytes
  /-- One DES block: key, then plain text. -/
  des : Bytes → Bytes → Bytes
  toUpper : Bytes → Bytes

/-- Go's `[]rune(s)`: every malformed byte is a replacement character. -/
def runes (s : Bytes) : List Char := Utf8.decode (fun _ => 1) s

def le16 (n : Nat) : Bytes := [UInt8.ofNat n, UInt8.ofNat (n / 256)]

/-- `utf16.Encode` of one rune, little endian. -/
def utf16le (c : Char) : Bytes :=
  if c.toNat < 0x10000 then le16 c.toNat
  else le16 (0xd800 + (c.toNat - 0x10000) / 1024) ++ le16 (0xdc00 + (c.toNat - 0x10000) % 1024)

/-- `copy(dst[off:], src)`. -/
def copyAt (dst : Bytes) (off : Nat) (src : Bytes) : Bytes :=
  dst.take off ++ src.take (dst.length - off) ++ dst.drop (off + src.length)

def upperHex (n : Nat) : UInt8 := UInt8.ofNat (if n < 10 then 48 + n else 55 + n)

/-- `strings.ToUpper(hex.EncodeToString(b))`. -/
def hexUpper (b : Bytes) : Bytes :=
  b.flatMap fun x => [upperHex (x.toNat / 16), upperHex (x.toNat % 16)]

/-- The bytes of an ASCII literal. -/
def ascii (s : String) : Bytes := s.toList.map fun c => UInt8.ofNat c.toNat

def authMagic1 : Bytes := ascii "Magic server to client signing constant"
def authMagic2 : Bytes := ascii "Pad to make it do more than one iteration"
def mppeMagic1 : Bytes := ascii "This is the MPPE Master Key"
def mppeMagic2 : Bytes := ascii
  "On the client side, this is the send key; on the server side, it is the receive key."
def mppeMagic3 : Bytes := ascii
  "On the client side, this is the receive key; on the server side, it is the send key."

def desKey (k : Bytes) : Bytes :=
  let k (i : Nat) : UInt8 := k.getD i 0
  [k 0 &&& 0xfe, k 0 <<< 7 ||| k 1 >>> 1, k 1 <<< 6 ||| k 2 >>> 2, k 2 <<< 5 ||| k 3 >>> 3,
    k 3 <<< 4 ||| k 4 >>> 4, k 4 <<< 3 ||| k 5 >>> 5, k 5 <<< 2 ||| k 6 >>> 6, k 6 <<< 1]

namespace Crypto

variable (C : Crypto)

def ntPasswordHash (password : Bytes) : Bytes := C.md4 ((runes password).flatMap utf16le)

def challengeHash (peer auth user : Bytes) : Bytes := (C.sha1 (peer ++ auth ++ user)).take 8

def challengeResponse (challenge pwHash : Bytes) : Bytes :=
  let z := copyAt (List.replicate 21 0) 0 pwHash
  (List.range 3).flatMap fun i => C.des (desKey ((z.drop (i * 7)).take 7)) challenge

def ntResponse (auth peer user password : Bytes) : Bytes :=
  C.challengeResponse (C.challengeHash peer auth user) (C.ntPasswordHash password)

def authenticatorResponse (password nt peer auth user : Bytes) : Bytes :=
  let d := C.sha1 (C.md4 (C.ntPasswordHash password) ++ nt ++ authMagic1)
  ascii "S=" ++ hexUpper (C.sha1 (d ++ C.challengeHash peer auth user ++ authMagic2))

def masterKey (password nt : Bytes) : Bytes :=
  (C.sha1 (C.md4 (C.ntPasswordHash password) ++ nt ++ mppeMagic1)).take 16

def asymmetricKey (master magic : Bytes) : Bytes :=
  (C.sha1 (master ++ List.replicate 40 0 ++ magic ++ List.replicate 40 0xf2)).take 16

def clientHLAK (password nt : Bytes) : Bytes :=
  let m := C.masterKey password nt
  C.asymmetricKey m mppeMagic2 ++ C.asymmetricKey m mppeMagic3

end Crypto

end Ghajar.Ppp
