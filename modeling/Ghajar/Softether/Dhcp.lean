import Ghajar.Lib.Reactive
import Ghajar.Softether.Ethernet

/-!
# DHCP on the Virtual Hub

`parseDHCP` and `seLink.dhcp` (`native/ghajar-helper/softether.go`). The parser walks the options
of a reply by index; `Options` says which options a byte string has, and `reading` what they
mean. The exchange is a reactive machine: `settle` sends the message of the phase, `react` takes a
frame or the end of the three seconds. It takes the four-byte form of the server's address before
it looks whether there is one.
-/

namespace Ghajar.Softether

open Bytes Reactive

/-- `dhcpLease`; the time in seconds. -/
structure Lease where
  addr : Option Addr
  router : Option Addr
  server : Option Addr
  pfx : Nat
  dns : List Addr
  lease : Nat
  deriving DecidableEq, Repr

/-- What `parseDHCP` returns with `ok`. -/
structure Reply where
  msgType : UInt8
  lease : Lease
  deriving DecidableEq, Repr

/-! ## `parseDHCP` -/

/-- `b[i:j]`; `none` is the panic. -/
def slice (b : List UInt8) (i j : Nat) : Option (List UInt8) :=
  if i ≤ j ∧ j ≤ b.length then some ((b.drop i).take (j - i)) else none

/-- The bits of a mask byte that is not full: ones, and then zeros. -/
def partOnes (b : UInt8) : Option Nat := [0, 0x80, 0xc0, 0xe0, 0xf0, 0xf8, 0xfc, 0xfe].idxOf? b

/-- `simpleMaskLength`. -/
def maskOnes : List UInt8 → Option Nat
  | [] => some 0
  | b :: bs =>
    if b = 0xff then (maskOnes bs).map (8 + ·)
    else if bs.all (· == 0) then partOnes b else none

/-- The ones of `net.IPMask.Size`. -/
def maskSize (v : List UInt8) : Nat := (maskOnes v).getD 0

/-- `for j := 0; j+4 <= len(v); j += 4`, with as many rounds as there are bytes. -/
def dnsLoop : Nat → List UInt8 → Nat → List Addr → Option (List Addr)
  | 0, _, _, dns => some dns
  | n + 1, v, j, dns =>
    if j + 4 ≤ v.length then do
      let a ← slice v j (j + 4)
      dnsLoop n v (j + 4) (dns ++ [.from4 a])
    else some dns

/-- `switch t`. -/
def readOption (t : UInt8) (v : List UInt8) (r : Reply) : Option Reply :=
  if t = 53 then
    if v.length = 1 then do
      let x ← v[0]?
      some { r with msgType := x }
    else some r
  else if t = 1 then
    some (if v.length = 4 then { r with lease.pfx := maskSize v } else r)
  else if t = 3 then
    if 4 ≤ v.length then do
      let a ← slice v 0 4
      some { r with lease.router := some (.from4 a) }
    else some r
  else if t = 6 then do
    let dns ← dnsLoop v.length v 0 r.lease.dns
    some { r with lease.dns := dns }
  else if t = 51 then
    some (if v.length = 4 then { r with lease.lease := (rd32 v).toNat } else r)
  else if t = 54 then
    some (if v.length = 4 then { r with lease.server := some (.from4 v) } else r)
  else some r

/-- `for i := 240; i < len(b);`, with as many rounds as there are bytes. -/
def optionLoop : Nat → List UInt8 → Nat → Reply → Option Reply
  | 0, _, _, r => some r
  | n + 1, b, i, r =>
    if i < b.length then do
      let t ← b[i]?
      if t = 255 then some r
      else if t = 0 then optionLoop n b (i + 1) r
      else if b.length ≤ i + 1 then some r
      else do
        let l ← b[i + 1]?
        if b.length < i + 2 + l.toNat then some r
        else do
          let v ← slice b (i + 2) (i + 2 + l.toNat)
          let r ← readOption t v r
          optionLoop n b (i + 2 + v.length) r
    else some r

/-- Where the options are read from: no lease yet but the address. -/
def blank (yiaddr : Addr) : Reply := ⟨0, ⟨some yiaddr, none, none, 24, [], 0⟩⟩

/-- A reply with our transaction id. -/
def isReply (b : List UInt8) (xid : UInt32) : Bool :=
  240 ≤ b.length && b.getD 0 0 == 2 && rd32 ((b.drop 4).take 4) == xid &&
    (b.drop 236).take 4 == [99, 130, 83, 99]

/-- The outer `none` is an index out of range, the inner one `!ok`. -/
def parseDHCP (b : List UInt8) (xid : UInt32) : Option (Option Reply) :=
  if !isReply b xid then some none
  else do
    let y ← slice b 16 20
    let r ← optionLoop b.length b 240 (blank (.from4 y))
    some (if r.msgType ≠ 0 then some r else none)

/-! ## What the options are -/

/-- The options in a byte string: pads are skipped, the end ends them, and so does an option that
is cut short. -/
inductive Options : List UInt8 → List (UInt8 × List UInt8) → Prop
  | none : Options [] []
  | stop (rest : List UInt8) : Options (255 :: rest) []
  | pad {rest : List UInt8} {os : List (UInt8 × List UInt8)} (hr : Options rest os) :
      Options (0 :: rest) os
  | cut (t : UInt8) {rest : List UInt8} (h0 : t ≠ 0) (h255 : t ≠ 255)
      (hc : ∀ l v, rest = l :: v → v.length < l.toNat) : Options (t :: rest) []
  | option {t l : UInt8} {v rest : List UInt8} {os : List (UInt8 × List UInt8)} (h0 : t ≠ 0)
      (h255 : t ≠ 255) (hl : v.length = l.toNat) (hr : Options rest os) :
      Options (t :: l :: (v ++ rest)) ((t, v) :: os)

/-- The addresses in a value, four bytes each. -/
def addrs : List UInt8 → List Addr
  | a :: b :: c :: d :: v => .from4 [a, b, c, d] :: addrs v
  | _ => []

/-- The last option of this kind with a usable value. -/
def lastOf {α : Type} (os : List (UInt8 × List UInt8)) (t : UInt8)
    (use : List UInt8 → Option α) : Option α :=
  os.reverse.findSome? fun o => if o.1 = t then use o.2 else none

/-- A value of just `n` bytes. -/
def exactly {α : Type} (n : Nat) (f : List UInt8 → α) (v : List UInt8) : Option α :=
  if v.length = n then some (f v) else none

/-- What the options of a reply mean: the last usable one counts, and of the DNS servers all. -/
def reading (yiaddr : Addr) (os : List (UInt8 × List UInt8)) : Reply where
  msgType := (lastOf os 53 (exactly 1 fun v => v.headD 0)).getD 0
  lease :=
    { addr := some yiaddr
      router := lastOf os 3 fun v => if 4 ≤ v.length then some (.from4 (v.take 4)) else none
      server := lastOf os 54 (exactly 4 .from4)
      pfx := (lastOf os 1 (exactly 4 maskSize)).getD 24
      dns := os.flatMap fun o => if o.1 = 6 then addrs o.2 else []
      lease := (lastOf os 51 (exactly 4 fun v => (rd32 v).toNat)).getD 0 }

/-- The reference: nothing for what is no reply to us or has no message type. -/
def Read (b : List UInt8) (xid : UInt32) (res : Option Reply) : Prop :=
  if isReply b xid then
    ∃ os, Options (b.drop 240) os ∧
      res = if (reading (.from4 ((b.drop 16).take 4)) os).msgType ≠ 0 then
        some (reading (.from4 ((b.drop 16).take 4)) os) else none
  else res = none

/-! ## The parser reads the options -/

theorem slice_eq {b : List UInt8} {i n : Nat} (h : i + n ≤ b.length) :
    slice b i (i + n) = some ((b.drop i).take n) := by
  rw [slice, if_pos ⟨Nat.le_add_right i n, h⟩, Nat.add_sub_cancel_left]

theorem addrs_of_four {v : List UInt8} (h : 4 ≤ v.length) :
    addrs v = .from4 (v.take 4) :: addrs (v.drop 4) := by
  match v, h with
  | a :: b :: c :: d :: v, _ => rfl

theorem addrs_of_lt {v : List UInt8} (h : v.length < 4) : addrs v = [] := by
  match v, h with
  | [], _ => rfl
  | [_], _ => rfl
  | [_, _], _ => rfl
  | [_, _, _], _ => rfl

theorem dnsLoop_eq {n : Nat} {v : List UInt8} {j : Nat} {dns : List Addr} (hn : v.length ≤ n + j) :
    dnsLoop n v j dns = some (dns ++ addrs (v.drop j)) := by
  induction n generalizing j dns with
  | zero =>
    rw [dnsLoop, List.drop_eq_nil_of_le (by omega)]
    exact congrArg some (List.append_nil dns).symm
  | succ n ih =>
    rw [dnsLoop]
    split
    · rename_i hj
      rw [slice_eq hj, Option.bind_eq_bind, Option.bind_some, ih (by omega),
        addrs_of_four (v := v.drop j) (by rw [List.length_drop]; omega), List.drop_drop,
        List.append_assoc]
      rfl
    · rename_i hj
      rw [addrs_of_lt (by rw [List.length_drop]; omega), List.append_nil]

/-- An option of this kind with a usable value. -/
def usable {α : Type} (t : UInt8) (use : List UInt8 → Option α) (o : UInt8 × List UInt8) :
    Option α := if o.1 = t then use o.2 else none

/-- The first four bytes of a longer value. -/
def firstAddr (v : List UInt8) : Option Addr :=
  if 4 ≤ v.length then some (.from4 (v.take 4)) else none

/-- `readOption` on the whole reply, with nothing to go wrong. -/
def Reply.apply (r : Reply) (o : UInt8 × List UInt8) : Reply where
  msgType := (usable 53 (exactly 1 fun v => v.headD 0) o).getD r.msgType
  lease :=
    { addr := r.lease.addr
      router := (usable 3 firstAddr o).or r.lease.router
      server := (usable 54 (exactly 4 .from4) o).or r.lease.server
      pfx := (usable 1 (exactly 4 maskSize) o).getD r.lease.pfx
      dns := r.lease.dns ++ if o.1 = 6 then addrs o.2 else []
      lease := (usable 51 (exactly 4 fun v => (rd32 v).toNat) o).getD r.lease.lease }

theorem readOption_eq (t : UInt8) (v : List UInt8) (r : Reply) :
    readOption t v r = some (r.apply (t, v)) := by
  unfold readOption Reply.apply usable exactly firstAddr
  by_cases h53 : t = 53
  · subst h53
    by_cases hl : v.length = 1
    · match v, hl with
      | [x], _ => simp
    · simp [hl]
  by_cases h1 : t = 1
  · subst h1
    by_cases hl : v.length = 4 <;> simp [hl]
  by_cases h3 : t = 3
  · subst h3
    by_cases hl : 4 ≤ v.length
    · have hs : slice v 0 4 = some (v.take 4) := slice_eq (i := 0) (n := 4) (by omega)
      simp [hl, hs]
    · simp [hl]
  by_cases h6 : t = 6
  · subst h6
    simp [dnsLoop_eq (v := v) (j := 0) (Nat.le_add_right _ _)]
  by_cases h51 : t = 51
  · subst h51
    by_cases hl : v.length = 4 <;> simp [hl]
  by_cases h54 : t = 54
  · subst h54
    by_cases hl : v.length = 4 <;> simp [hl]
  · simp [h53, h1, h3, h6, h51, h54]

theorem optionLoop_eq {n : Nat} {b : List UInt8} {i : Nat} {r : Reply}
    {os : List (UInt8 × List UInt8)} (hn : b.length ≤ n + i) (ho : Options (b.drop i) os) :
    optionLoop n b i r = some (os.foldl Reply.apply r) := by
  induction n generalizing i r os with
  | zero =>
    rw [List.drop_eq_nil_of_le (by omega)] at ho
    cases ho
    rfl
  | succ n ih =>
    rw [optionLoop]
    split
    · rename_i hi
      have hget : b.drop i = b[i] :: b.drop (i + 1) := List.drop_eq_getElem_cons hi
      rw [List.getElem?_eq_getElem hi, Option.bind_eq_bind, Option.bind_some]
      generalize hs : b.drop i = s at ho
      generalize hrest : b.drop (i + 1) = rest at hget
      have hrestlen := congrArg List.length hrest
      rw [List.length_drop] at hrestlen
      rw [hs] at hget
      cases ho with
      | none => cases hget
      | stop =>
        rw [← (List.cons.inj hget).1]
        rfl
      | pad hr =>
        obtain ⟨ht, rfl⟩ := List.cons.inj hget
        rw [← ht]
        exact ih (by omega) (hrest ▸ hr)
      | cut t h0 h255 hc =>
        obtain ⟨ht, rfl⟩ := List.cons.inj hget
        rw [← ht, if_neg h255, if_neg h0]
        split
        · rfl
        · rename_i hi1
          have hi1 : i + 1 < b.length := by omega
          have hnext : b.drop (i + 1) = b[i + 1] :: b.drop (i + 1 + 1) :=
            List.drop_eq_getElem_cons hi1
          rw [List.getElem?_eq_getElem hi1, Option.bind_some]
          have hlt := hc _ _ (hrest ▸ hnext)
          rw [List.length_drop] at hlt
          rw [if_pos (by omega)]
          rfl
      | @option t l v rest' os h0 h255 hl hr =>
        obtain ⟨ht, hrest'⟩ := List.cons.inj hget
        subst hrest'
        rw [← ht, if_neg h255, if_neg h0]
        simp only [List.length_cons, List.length_append] at hrestlen
        have hi1 : i + 1 < b.length := by omega
        have hnext : b.drop (i + 1) = b[i + 1] :: b.drop (i + 1 + 1) :=
          List.drop_eq_getElem_cons hi1
        obtain ⟨hl1, hv⟩ := List.cons.inj (hrest.symm.trans hnext)
        rw [if_neg (by omega), List.getElem?_eq_getElem hi1, Option.bind_some, ← hl1,
          if_neg (by omega), slice_eq (by omega), Option.bind_eq_bind, Option.bind_some, ← hv,
          ← hl, List.take_left, readOption_eq, Option.bind_eq_bind, Option.bind_some]
        refine ih (by omega) ?_
        have hd : b.drop (i + 2 + v.length) = rest' := by
          rw [← List.drop_drop, ← hv, List.drop_left]
        rw [hd]
        exact hr
    · rename_i hi
      rw [List.drop_eq_nil_of_le (by omega)] at ho
      cases ho
      rfl

/-- Every byte string has options. -/
theorem options_exist (n : Nat) {b : List UInt8} (hb : b.length ≤ n) : ∃ os, Options b os := by
  induction n generalizing b with
  | zero =>
    obtain rfl := List.eq_nil_of_length_eq_zero (Nat.le_zero.1 hb)
    exact ⟨[], .none⟩
  | succ n ih =>
    match b with
    | [] => exact ⟨[], .none⟩
    | t :: rest =>
      rw [List.length_cons] at hb
      by_cases h255 : t = 255
      · exact ⟨[], h255 ▸ .stop rest⟩
      by_cases h0 : t = 0
      · obtain ⟨os, hos⟩ := ih (b := rest) (by omega)
        exact ⟨os, h0 ▸ .pad hos⟩
      by_cases hc : ∀ l v, rest = l :: v → v.length < l.toNat
      · exact ⟨[], .cut t h0 h255 hc⟩
      · simp only [not_forall, not_lt] at hc
        obtain ⟨l, v, rfl, hl⟩ := hc
        rw [List.length_cons] at hb
        obtain ⟨os, hos⟩ := ih (b := v.drop l.toNat) (by rw [List.length_drop]; omega)
        refine ⟨(t, v.take l.toNat) :: os, ?_⟩
        have h := Options.option h0 h255 (l := l) (v := v.take l.toNat)
          (by rw [List.length_take]; omega) hos
        rwa [List.take_append_drop] at h

theorem lastOf_cons {α : Type} (o : UInt8 × List UInt8) (os : List (UInt8 × List UInt8))
    (t : UInt8) (use : List UInt8 → Option α) :
    lastOf (o :: os) t use = (lastOf os t use).or (usable t use o) := by
  unfold lastOf
  rw [List.reverse_cons, List.findSome?_append, List.findSome?_singleton]
  rfl

theorem foldl_apply (os : List (UInt8 × List UInt8)) (r : Reply) :
    os.foldl Reply.apply r =
      { msgType := (lastOf os 53 (exactly 1 fun v => v.headD 0)).getD r.msgType
        lease :=
          { addr := r.lease.addr
            router := (lastOf os 3 firstAddr).or r.lease.router
            server := (lastOf os 54 (exactly 4 .from4)).or r.lease.server
            pfx := (lastOf os 1 (exactly 4 maskSize)).getD r.lease.pfx
            dns := r.lease.dns ++ os.flatMap fun o => if o.1 = 6 then addrs o.2 else []
            lease := (lastOf os 51 (exactly 4 fun v => (rd32 v).toNat)).getD r.lease.lease } } := by
  induction os generalizing r with
  | nil => simp [lastOf]
  | cons o os ih =>
    rw [List.foldl_cons, ih]
    simp only [lastOf_cons, Reply.apply, List.flatMap_cons, List.append_assoc, Option.or_assoc]
    have hgetD : ∀ {α : Type} (x y : Option α) (d : α), (x.or y).getD d = x.getD (y.getD d) := by
      intro α x y d
      cases x <;> rfl
    simp only [hgetD]

theorem foldl_blank (y : Addr) (os : List (UInt8 × List UInt8)) :
    os.foldl Reply.apply (blank y) = reading y os := by
  rw [foldl_apply]
  simp only [blank, Option.or_none, List.nil_append]
  rfl

/-- **`parseDHCP` reads no index out of range and is the reference reading.** -/
theorem parseDHCP_read (b : List UInt8) (xid : UInt32) :
    ∃ res, parseDHCP b xid = some res ∧ Read b xid res := by
  unfold parseDHCP Read
  cases hr : isReply b xid with
  | false => exact ⟨none, rfl, rfl⟩
  | true =>
    simp only [Bool.not_true, Bool.false_eq_true, if_false, if_true]
    obtain ⟨os, hos⟩ := options_exist _ (Nat.le_refl (b.drop 240).length)
    have hlen : 240 ≤ b.length := by
      simp only [isReply, Bool.and_eq_true, decide_eq_true_eq] at hr
      exact hr.1.1.1
    have hy : slice b 16 20 = some ((b.drop 16).take 4) := slice_eq (i := 16) (n := 4) (by omega)
    rw [hy, Option.bind_eq_bind, Option.bind_some, optionLoop_eq (Nat.le_add_right _ _) hos,
      Option.bind_eq_bind, Option.bind_some, foldl_blank]
    exact ⟨_, rfl, os, hos, rfl⟩

/-- A byte string has its options and no others. -/
theorem Options.unique {b : List UInt8} {os os' : List (UInt8 × List UInt8)} (h : Options b os)
    (h' : Options b os') : os = os' := by
  induction h generalizing os' with
  | none =>
    cases h'
    rfl
  | stop rest =>
    generalize hs : 255 :: rest = s at h'
    cases h' with
    | none => cases hs
    | stop => rfl
    | pad => exact absurd (List.cons.inj hs).1 (by decide)
    | cut => rfl
    | option _ h255 => exact absurd (List.cons.inj hs).1.symm h255
  | @pad rest os hr ih =>
    generalize hs : 0 :: rest = s at h'
    cases h' with
    | none => cases hs
    | stop => exact absurd (List.cons.inj hs).1 (by decide)
    | pad hr' =>
      obtain ⟨-, rfl⟩ := List.cons.inj hs
      exact ih hr'
    | cut t h0 => exact absurd (List.cons.inj hs).1.symm h0
    | option h0 => exact absurd (List.cons.inj hs).1.symm h0
  | @cut t rest h0 h255 hc =>
    generalize hs : t :: rest = s at h'
    cases h' with
    | none => rfl
    | stop => rfl
    | pad => exact absurd (List.cons.inj hs).1 h0
    | cut => rfl
    | option _ _ hl =>
      have hlt := hc _ _ (List.cons.inj hs).2
      rw [List.length_append] at hlt
      omega
  | @option t l v rest os h0 h255 hl hr ih =>
    generalize hs : t :: l :: (v ++ rest) = s at h'
    cases h' with
    | none => cases hs
    | stop => exact absurd (List.cons.inj hs).1 h255
    | pad => exact absurd (List.cons.inj hs).1 h0
    | cut _ _ _ hc =>
      have hlt := hc _ _ (List.cons.inj hs).2.symm
      rw [List.length_append] at hlt
      omega
    | option _ _ hl' hr' =>
      obtain ⟨rfl, htail⟩ := List.cons.inj hs
      obtain ⟨rfl, hv⟩ := List.cons.inj htail
      obtain ⟨rfl, rfl⟩ := List.append_inj hv (hl.trans hl'.symm)
      rw [ih hr']

theorem Read.unique {b : List UInt8} {xid : UInt32} {res res' : Option Reply}
    (h : Read b xid res) (h' : Read b xid res') : res = res' := by
  unfold Read at h h'
  split at h
  · rename_i hr
    rw [if_pos hr] at h'
    obtain ⟨os, ho, rfl⟩ := h
    obtain ⟨os', ho', rfl⟩ := h'
    rw [ho.unique ho']
  · rename_i hr
    rw [if_neg hr] at h'
    exact h.trans h'.symm

/-- The address of a reply is its `yiaddr`. -/
theorem Read.addr {b : List UInt8} {xid : UInt32} {r : Reply} (h : Read b xid (some r)) :
    r.lease.addr = some (.from4 ((b.drop 16).take 4)) := by
  unfold Read at h
  split at h
  · obtain ⟨os, -, hr⟩ := h
    split at hr
    · rw [Option.some.inj hr]
      rfl
    · cases hr
  · cases h

/-- A server that is read is an IPv4 address. -/
theorem Read.server {b : List UInt8} {xid : UInt32} {r : Reply} {a : Addr}
    (h : Read b xid (some r)) (ha : r.lease.server = some a) : ∃ n, a = .v4 n := by
  unfold Read at h
  split at h
  · obtain ⟨os, -, hr⟩ := h
    split at hr
    · rw [Option.some.inj hr] at ha
      obtain ⟨o, -, ho⟩ := List.exists_of_findSome?_eq_some ha
      split at ho
      · unfold exactly at ho
        split at ho
        · exact ⟨_, (Option.some.inj ho).symm⟩
        · cases ho
      · cases ho
    · cases hr
  · cases h

/-! ## The exchange -/

/-- DISCOVER until an OFFER comes, then REQUEST until the ACK does; `try` counts the sends. -/
inductive Phase
  | discover (try' : Nat)
  | request (try' : Nat) (offer : Lease)
  deriving DecidableEq, Repr

structure Dhcp where
  phase : Phase
  /-- The message of this round is sent and `wait` runs. -/
  sent : Bool
  /-- The frames sent, newest first. -/
  out : List (List UInt8)
  deriving DecidableEq, Repr

inductive DhcpEvent
  | frame (f : List UInt8)
  | timeout
  deriving DecidableEq, Repr

inductive DhcpResult
  | lease (l : Lease)
  | err (msg : String)
  /-- The panic of `As4`. -/
  | crash
  deriving DecidableEq, Repr

section
/- The client's hardware address, the transaction id, and `l.lease` in a renewal. -/
variable (mac : Mac) (xid : UInt32) (renew : Option Lease)

/-- `dhcpMessage`; `none` when the client's address has no four-byte form. -/
def dhcpMessage (msgType : UInt8) (ciaddr : Option Addr) (opts : List (List UInt8)) :
    Option (List UInt8) := do
  let c4 ← if ciaddr.isSome then as4 ciaddr else some [0, 0, 0, 0]
  some ([1, 1, 6, 0] ++ be32 xid ++ [0, 0, 0x80, 0] ++ c4 ++ List.replicate 12 0 ++ mac.1 ++
    List.replicate 202 0 ++ [99, 130, 83, 99] ++ [53, 1, msgType] ++ [61, 7, 1] ++ mac.1 ++
    [12, 6, 0x67, 0x68, 0x61, 0x6a, 0x61, 0x72] ++ [55, 4, 1, 3, 6, 51] ++ opts.flatten ++ [255])

/-- The closure `send`. -/
def sendFrame (m : Option (List UInt8)) (src : Option Addr) : Option (List UInt8) := do
  let p ← udpIPv4 src (some .broadcast) 68 67 (← m)
  some (ethFrame bcastMAC mac 0x0800 p)

def discoverFrame : Option (List UInt8) := sendFrame mac (dhcpMessage mac xid 1 none []) (some .zero)

/-- The REQUEST: `offer.addr.As4()` and `offer.server.As4()` come first. -/
def requestFrame (offer : Lease) : Option (List UInt8) := do
  let a4 ← as4 offer.addr
  let s4 ← as4 offer.server
  let opts := [[50, 4] ++ a4]
  match renew with
  | some l => sendFrame mac (dhcpMessage mac xid 3 l.addr opts) l.addr
  | none =>
    sendFrame mac (dhcpMessage mac xid 3 none
      (if offer.server.isSome then opts ++ [[54, 4] ++ s4] else opts)) (some .zero)

def settle (s : Dhcp) : Next Dhcp DhcpResult :=
  if s.sent then .go s
  else
    match s.phase with
    | .discover n =>
      if n = 4 then .ret s (.err ("dhcp: no offer from the Virtual Hub (enable SecureNAT / a " ++
        "DHCP server, or set a static address)"))
      else
        match discoverFrame mac xid with
        | some f => .go { s with sent := true, out := f :: s.out }
        | none => .ret s .crash
    | .request n offer =>
      if n < 4 then
        match requestFrame mac xid renew offer with
        | some f => .go { s with sent := true, out := f :: s.out }
        | none => .ret s .crash
      else .ret s (.err "dhcp: the Virtual Hub did not acknowledge the address")

/-- `wait` returned false: the next round. -/
def Dhcp.again (s : Dhcp) : Dhcp :=
  match s.phase with
  | .discover n => { s with phase := .discover (n + 1), sent := false }
  | .request n offer => { s with phase := .request (n + 1) offer, sent := false }

/-- The message type that is waited for. -/
def Dhcp.want (s : Dhcp) : UInt8 :=
  match s.phase with
  | .discover _ => 2
  | .request _ _ => 5

/-- `wait` returned the reply. -/
def accept (s : Dhcp) (l : Lease) : Next Dhcp DhcpResult :=
  match s.phase with
  | .discover _ => .go { s with phase := .request 0 l, sent := false }
  | .request _ offer => .ret s (.lease { l with server := l.server.or offer.server })

/-- A message of the channel. -/
def receive (s : Dhcp) (m : List UInt8) : Next Dhcp DhcpResult :=
  match parseDHCP m xid with
  | none => .ret s .crash
  | some none => .go s
  | some (some r) =>
    if r.msgType = 6 then .go s.again -- NAK
    else if r.msgType = s.want then accept s r.lease
    else .go s

def reactDhcp (s : Dhcp) : DhcpEvent → Next Dhcp DhcpResult
  | .timeout => .go s.again
  | .frame f =>
    match content mac f with
    | some (.dhcp m) => receive xid s m
    | _ => .go s

def dhcpMachine : Machine Dhcp DhcpEvent DhcpResult := ⟨settle mac xid renew, reactDhcp mac xid⟩

/-- The function, fed the frames that come in and the ends of the three seconds. -/
def dhcp (es : List DhcpEvent) : Dhcp × Option DhcpResult :=
  (dhcpMachine mac xid renew).run
    ⟨match renew with | some l => .request 0 l | none => .discover 0, false, []⟩ es

end

/-! ## What a run may do -/

/-- A frame with a reply to us, or a timeout. -/
def isOurs (mac : Mac) (xid : UInt32) : DhcpEvent → Bool
  | .timeout => true
  | .frame f =>
    match content mac f with
    | some (.dhcp m) => isReply m xid
    | _ => false

/-- A run does not crash, its lease is that of an ACK to us, and other frames do not matter. -/
structure Harmless (mac : Mac) (xid : UInt32) (renew : Option Lease) (es : List DhcpEvent) :
    Prop where
  noCrash : (dhcp mac xid renew es).2 ≠ some .crash
  fromAck : ∀ l, (dhcp mac xid renew es).2 = some (.lease l) →
    ∃ f m r, .frame f ∈ es ∧ content mac f = some (.dhcp m) ∧ Read m xid (some r) ∧
      r.msgType = 5 ∧ ∃ server, l = { r.lease with server := r.lease.server.or server }
  onlyOurs : dhcp mac xid renew es = dhcp mac xid renew (es.filter (isOurs mac xid))

/-- An OFFER that comes while one is waited for names its server. -/
def Served (mac : Mac) (xid : UInt32) (s : Dhcp) (e : DhcpEvent) : Prop :=
  ∀ n f m r, s.phase = .discover n → e = .frame f → content mac f = some (.dhcp m) →
    Read m xid (some r) → r.msgType = 2 → r.lease.server ≠ none

section
variable {mac : Mac} {xid : UInt32} {renew : Option Lease} {s : Dhcp}

/-- What `receive` does is what the reference reading says. -/
theorem receive_read {m : List UInt8} {res : Option Reply} (h : Read m xid res) :
    receive xid s m =
      match res with
      | none => .go s
      | some r =>
        if r.msgType = 6 then .go s.again
        else if r.msgType = s.want then accept s r.lease
        else .go s := by
  obtain ⟨res', hp, hr⟩ := parseDHCP_read m xid
  obtain rfl := h.unique hr
  rw [receive, hp]
  cases res <;> rfl

/-- An address and a server that have their four bytes. -/
def Given (l : Lease) : Prop :=
  (∃ a, l.addr = some (.v4 a)) ∧ ∃ a, l.server = some (.v4 a)

theorem requestFrame_some {offer : Lease} (ho : Given offer) (hr : ∀ l, renew = some l → Given l) :
    ∃ f, requestFrame mac xid renew offer = some f := by
  obtain ⟨⟨a, ha⟩, b, hb⟩ := ho
  have ha4 : as4 offer.addr = some (be32 a) := by rw [ha]; rfl
  have hb4 : as4 offer.server = some (be32 b) := by rw [hb]; rfl
  unfold requestFrame
  rw [ha4, hb4]
  cases renew with
  | none => exact ⟨_, rfl⟩
  | some l =>
    obtain ⟨⟨c, hc⟩, -⟩ := hr l rfl
    simp only [hc]
    exact ⟨_, rfl⟩

/-- The offer that a REQUEST is made of has what it needs. -/
def Ready (s : Dhcp) : Prop := ∀ n offer, s.phase = .request n offer → Given offer

theorem settle_ready (hr : ∀ l, renew = some l → Given l) (hs : Ready s) :
    (settle mac xid renew s).All Ready fun _ r => ∃ m, r = .err m := by
  unfold settle
  split
  · exact hs
  split
  · split
    · exact ⟨_, rfl⟩
    · obtain ⟨f, hf⟩ : ∃ f, discoverFrame mac xid = some f := ⟨_, rfl⟩
      rw [hf]
      exact hs
  · rename_i n offer hp
    split
    · obtain ⟨f, hf⟩ : ∃ f, requestFrame mac xid renew offer = some f :=
        requestFrame_some (hs n offer hp) hr
      rw [hf]
      exact hs
    · exact ⟨_, rfl⟩

theorem Ready.again (hs : Ready s) : Ready s.again := by
  intro n offer hp
  unfold Dhcp.again at hp
  split at hp
  · cases hp
  · rename_i n' offer' hp'
    cases hp
    exact hs n' offer hp'

/-- No crash, and a lease that a renewal can be made of. -/
def Sound (r : DhcpResult) : Prop := r ≠ .crash ∧ ∀ l, r = .lease l → Given l

theorem sound_err {m : String} : Sound (.err m) := ⟨nofun, nofun⟩

theorem react_ready {e : DhcpEvent} (hs : Ready s) (he : Served mac xid s e) :
    (reactDhcp mac xid s e).All Ready fun _ r => Sound r := by
  cases e with
  | timeout => exact hs.again
  | frame f =>
    rw [reactDhcp]
    split
    · rename_i m hm
      obtain ⟨res, -, hres⟩ := parseDHCP_read m xid
      rw [receive_read hres]
      cases res with
      | none => exact hs
      | some r =>
        simp only
        split
        · exact hs.again
        split
        · rename_i hwant
          unfold accept
          split
          · rename_i n hp
            have h2 : r.msgType = 2 := by
              rw [hwant, Dhcp.want, hp]
            obtain ⟨a, ha⟩ := Option.ne_none_iff_exists'.1 (he n f m r hp rfl hm hres h2)
            obtain ⟨b, rfl⟩ := hres.server ha
            intro n' offer hp'
            cases hp'
            exact ⟨⟨_, hres.addr⟩, b, ha⟩
          · rename_i n offer hp
            refine ⟨nofun, fun l hl => ?_⟩
            cases hl
            obtain ⟨-, a, ha⟩ := hs n offer hp
            refine ⟨⟨_, hres.addr⟩, ?_⟩
            cases hserver : r.lease.server with
            | none => exact ⟨a, ha⟩
            | some b =>
              obtain ⟨c, rfl⟩ := hres.server hserver
              exact ⟨c, rfl⟩
        · exact hs
    · exact hs

/-- Where a lease comes from. -/
theorem react_lease {e : DhcpEvent} {t : Dhcp} {l : Lease}
    (h : reactDhcp mac xid s e = .ret t (.lease l)) :
    ∃ f m r, e = .frame f ∧ content mac f = some (.dhcp m) ∧ Read m xid (some r) ∧
      r.msgType = 5 ∧ ∃ server, l = { r.lease with server := r.lease.server.or server } := by
  cases e with
  | timeout => cases h
  | frame f =>
    rw [reactDhcp] at h
    split at h
    · rename_i m hm
      obtain ⟨res, -, hres⟩ := parseDHCP_read m xid
      rw [receive_read hres] at h
      cases res with
      | none => cases h
      | some r =>
        simp only at h
        split at h
        · cases h
        split at h
        · rename_i hwant
          unfold accept at h
          split at h
          · cases h
          · rename_i n offer hp
            cases h
            refine ⟨f, m, r, rfl, hm, hres, ?_, offer.server, rfl⟩
            rw [hwant, Dhcp.want, hp]
        · cases h
    · cases h

theorem settle_idem {t : Dhcp} (h : settle mac xid renew s = .go t) :
    settle mac xid renew t = .go t := by
  have hsent : t.sent = true := by
    unfold settle at h
    split at h
    · cases h
      assumption
    split at h
    · split at h
      · cases h
      · split at h
        · cases h
          rfl
        · cases h
    · split at h
      · split at h
        · cases h
          rfl
        · cases h
      · cases h
  rw [settle, if_pos hsent]

/-- A frame without a reply to us changes nothing. -/
theorem react_skip {e : DhcpEvent} (h : isOurs mac xid e = false) :
    reactDhcp mac xid s e = .go s := by
  cases e with
  | timeout => cases h
  | frame f =>
    rw [isOurs] at h
    rw [reactDhcp]
    split
    · rename_i m hm
      rw [hm] at h
      simp only at h
      have hread : Read m xid none := by
        unfold Read
        rw [h]
        rfl
      exact receive_read hread
    · rfl

/-! ## The theorem -/

variable (mac xid renew)

/-- The states `dhcp` starts in. -/
def start : Dhcp := ⟨match renew with | some l => .request 0 l | none => .discover 0, false, []⟩

variable {mac xid renew}

theorem start_ready (hr : ∀ l, renew = some l → Given l) : Ready (start renew) := by
  intro n offer hp
  cases renew with
  | none => cases hp
  | some l =>
    cases hp
    exact hr _ rfl

theorem run_sound {es : List DhcpEvent} (hr : ∀ l, renew = some l → Given l)
    (hm : (dhcpMachine mac xid renew).Meets (Served mac xid) (start renew) es) :
    ∀ r, (dhcp mac xid renew es).2 = some r → Sound r := by
  intro r hres
  have hrun := Machine.run_inv (M := dhcpMachine mac xid renew) (I := Ready) (W := Ready)
    (F := fun _ r => Sound r)
    (fun s hs => (settle_ready hr hs).mono (fun _ h => h) fun _ r ⟨m, hm⟩ => hm ▸ sound_err)
    (fun s e hs he => react_ready hs he) (start_ready hr) hm
  change ((dhcpMachine mac xid renew).run (start renew) es).2 = _ at hres
  generalize (dhcpMachine mac xid renew).run (start renew) es = p at hrun hres
  obtain ⟨t, _ | r'⟩ := p
  · cases hres
  · obtain rfl := Option.some.inj hres
    exact hrun

theorem settle_ret {t : Dhcp} {r : DhcpResult} (h : settle mac xid renew s = .ret t r) :
    ∀ l, r ≠ .lease l := by
  unfold settle at h
  split at h
  · cases h
  split at h
  · split at h
    · cases h
      exact nofun
    · split at h
      · cases h
      · cases h
        exact nofun
  · split at h
    · split at h
      · cases h
      · cases h
        exact nofun
    · cases h
      exact nofun

theorem harmless_of_meets {es : List DhcpEvent} (hr : ∀ l, renew = some l → Given l)
    (hm : (dhcpMachine mac xid renew).Meets (Served mac xid) (start renew) es) :
    Harmless mac xid renew es := by
  refine ⟨fun hcrash => (run_sound hr hm _ hcrash).1 rfl, fun l hl => ?_, ?_⟩
  · rcases Machine.run_result hl with ⟨t, u, hs⟩ | ⟨t, u, e, he, hs⟩
    · exact absurd rfl (settle_ret hs l)
    · obtain ⟨f, m, r, rfl, h⟩ := react_lease hs
      exact ⟨f, m, r, he, h⟩
  · exact Machine.run_filter (M := dhcpMachine mac xid renew) (fun _ _ h => settle_idem h)
      (fun _ _ h => react_skip h) es _

/-- An OFFER without a server ends in a crash. -/
theorem crash_of_unserved {e : DhcpEvent} (he : ¬Served mac xid s e) (es : List DhcpEvent) :
    ((dhcpMachine mac xid none).after s e es).2 = some .crash := by
  simp only [Served, not_forall, not_not] at he
  obtain ⟨n, f, m, r, hp, rfl, hm, hres, h2, hnone⟩ := he
  have hreact : reactDhcp mac xid s (.frame f) =
      .go { s with phase := .request 0 r.lease, sent := false } := by
    rw [reactDhcp, hm]
    simp only
    rw [receive_read hres]
    simp only [h2, Dhcp.want, hp, accept]
    rfl
  have hsettle : (dhcpMachine mac xid none).settle
      { s with phase := .request 0 r.lease, sent := false } =
      .ret { s with phase := .request 0 r.lease, sent := false } .crash := by
    have hreq : requestFrame mac xid none r.lease = none := by
      unfold requestFrame
      rw [hnone, hres.addr]
      rfl
    simp only [dhcpMachine, settle, hreq]
    rfl
  unfold Machine.after
  rw [show (dhcpMachine mac xid none).react s (.frame f) = _ from hreact]
  exact congrArg Prod.snd (Machine.run_ret (dhcpMachine mac xid none) hsettle es)

/-- A run that does not crash had its servers named. -/
theorem meets_of_noCrash {es : List DhcpEvent} (h : (dhcp mac xid none es).2 ≠ some .crash) :
    (dhcpMachine mac xid none).Meets (Served mac xid) (start none) es :=
  Machine.meets_of_run (M := dhcpMachine mac xid none) (I := fun _ => True) (W := fun _ => True)
    (F := fun _ _ => True) (G := fun p => p.2 ≠ some .crash)
    (fun _ _ => Next.all_state.2 trivial) (fun _ _ _ _ => Next.all_state.2 trivial)
    (fun _ _ es _ he hne => hne (crash_of_unserved he es)) trivial h

/-- Only the REQUEST is left. -/
def Requesting (s : Dhcp) : Prop := ∃ n offer, s.phase = .request n offer

theorem settle_requesting (hs : Requesting s) :
    (settle mac xid renew s).All Requesting fun _ _ => True := by
  obtain ⟨n, offer, hp⟩ := hs
  unfold settle
  split
  · exact ⟨n, offer, hp⟩
  · rw [hp]
    simp only
    split
    · split
      · exact ⟨n, offer, rfl⟩
      · trivial
    · trivial

theorem react_requesting {e : DhcpEvent} (hs : Requesting s) :
    (reactDhcp mac xid s e).All Requesting fun _ _ => True := by
  obtain ⟨n, offer, hp⟩ := hs
  have hagain : Requesting s.again := ⟨n + 1, offer, by simp only [Dhcp.again, hp]⟩
  cases e with
  | timeout => exact hagain
  | frame f =>
    rw [reactDhcp]
    split
    · rw [receive]
      split
      · trivial
      · exact ⟨n, offer, hp⟩
      · split
        · exact hagain
        split
        · rw [accept, hp]
          trivial
        · exact ⟨n, offer, hp⟩
    · exact ⟨n, offer, hp⟩

/-- A renewal waits for no OFFER. -/
theorem renewal_meets {l : Lease} {es : List DhcpEvent} :
    (dhcpMachine mac xid (some l)).Meets (Served mac xid) (start (some l)) es :=
  Machine.meets_of_run (M := dhcpMachine mac xid (some l)) (I := Requesting) (W := Requesting)
    (F := fun _ _ => True) (G := fun _ => True) (fun _ hs => settle_requesting hs)
    (fun _ _ hs _ => react_requesting hs)
    (fun s e es hs hn => absurd (fun n f m r hp => by
      obtain ⟨n', offer, hp'⟩ := hs
      rw [hp'] at hp
      cases hp) hn)
    ⟨0, l, rfl⟩ trivial

end

/-- A frame of the hub with the reply `m`. -/
def replyFrame (mac : Mac) (m : List UInt8) : List UInt8 :=
  (udpIPv4 (some (.v4 0x0a000001)) (some .broadcast) 67 68 m).elim [] (ethFrame mac bcastMAC 0x0800)

/-- A reply to the transaction 7 with the address 10.0.0.2 and these options. -/
def replyMessage (opts : List UInt8) : List UInt8 :=
  [2, 1, 6, 0, 0, 0, 0, 7] ++ List.replicate 8 0 ++ [10, 0, 0, 2] ++ List.replicate 216 0 ++
    [99, 130, 83, 99] ++ opts

def hostMAC : Mac := ⟨[0x5e, 1, 2, 3, 4, 5], rfl⟩

/-- An OFFER of the server 10.0.0.1, and its ACK. -/
def offerAndAck : List DhcpEvent :=
  [.frame (replyFrame hostMAC (replyMessage [53, 1, 2, 54, 4, 10, 0, 0, 1, 255])),
   .frame (replyFrame hostMAC (replyMessage [53, 1, 5, 51, 4, 0, 0, 14, 16, 255]))]

def leased : Lease := ⟨some (.v4 0x0a000002), none, some (.v4 0x0a000001), 24, [], 3600⟩

end Ghajar.Softether
