import Mathlib
import Ghajar.Config.ProtocolForms

/-!
# The links of the forms read back

What is common to the forms that are written as links. A link is given to the parser of its scheme
(`parse_link`). Where server and port are free of separators, name, user and values are read as they
were typed (`split_link`). Whatever the link, the host that is read has no separator in it, so a
server that comes back has none (`Reading.served`).
-/

namespace Ghajar.ProtocolForms

open Ghajar ShareLink LinkParsers

section Links

variable {e : Env} {v : Values} {skip : Replaced} {f : Form} {user s p name fallback rest : Chars}
  {kv : List (String × Option Chars)} {n : Int}

/-! ## Schemes -/

/-- A text that does not end with a blank. -/
def Closed (rest : Chars) : Prop := ∀ c ∈ rest.getLast?, Text.isWhitespace c = false

theorem closed_tail (hn : isBlank name = false) : Closed (rest ++ '#' :: enc name) := by
  intro c hc
  have hne : enc name ≠ [] := by
    intro h
    have := enc_length name
    rw [h, List.length_nil, Nat.le_zero, List.length_eq_zero_iff] at this
    subst this
    cases hn
  rw [List.getLast?_append_of_ne_nil _ (List.cons_ne_nil _ _), List.getLast?_cons_of_ne_nil hne] at hc
  exact safe_not_blank (enc_safe c (List.mem_of_mem_getLast? hc))

theorem trim_scheme {c : Char} {scheme : Chars} (hc : Text.isWhitespace c = false)
    (hne : rest ≠ []) (h : Closed rest) : trim (c :: scheme ++ rest) = c :: scheme ++ rest := by
  refine trim_of_ends (fun d hd => ?_) fun d hd => ?_
  · have : d = c := by simpa using hd.symm
    rw [this]
    exact hc
  · rw [List.getLast?_append_of_ne_nil _ hne] at hd
    exact h d hd

/-- The parser of each scheme that is written. -/
def parserOf (e : Env) : Form → Chars → Option ProxyConfig
  | .openconnect => parseOpenConnect e
  | .sstp => parseSstp e
  | .softether => parseSoftEther e
  | .ssh => parseSsh e
  | .tuic => parseTuic e
  | .hysteria2 => parseHysteria2 e
  | .masque => parseMasque e
  | .tailscale => fun body => Tailscale.parseTailscale e.skip body .personal e.fresh
  | .tailcat => parseTailcat e
  | .anytls => parseAnyTls e
  | .naive | .mieru | .wireguard | .tor => fun _ => none

theorem trim_link (hne : rest ≠ []) (h : Closed rest) :
    trim (f.id.toList ++ ("://".toList ++ rest)) = f.id.toList ++ ("://".toList ++ rest) := by
  cases f
  all_goals
    rw [← List.append_assoc]
    exact trim_scheme rfl hne h

/-- A link is given to the parser of its scheme. -/
theorem parse_link (hf : f ∉ [Form.naive, .mieru, .wireguard, .tor]) (hne : rest ≠ [])
    (h : Closed rest) : parse e (f.id.toList ++ ("://".toList ++ rest)) = parserOf e f rest := by
  unfold parse
  rw [trim_link hne h]
  cases f
  case naive => simp at hf
  case mieru => simp at hf
  case wireguard => simp at hf
  case tor => simp at hf
  all_goals
    simp [Form.id, startsWith, Awg.ConfigParser.lowercase, List.isPrefixOf, parserOf]

theorem parse_naive (quic : Bool) (hne : rest ≠ []) (h : Closed rest) :
    parse e ((if quic then "naive+quic://" else "naive+https://").toList ++ rest) =
      parseNaive e ((if quic then "naive+quic://" else "naive+https://").toList ++ rest) := by
  unfold parse
  cases quic
  · have ht : trim ("naive+https://".toList ++ rest) = "naive+https://".toList ++ rest :=
      trim_scheme rfl hne h
    simp only [Bool.false_eq_true, if_false, ht]
    simp [startsWith, Awg.ConfigParser.lowercase, List.isPrefixOf]
  · have ht : trim ("naive+quic://".toList ++ rest) = "naive+quic://".toList ++ rest :=
      trim_scheme rfl hne h
    simp only [if_true, ht]
    simp [startsWith, Awg.ConfigParser.lowercase, List.isPrefixOf]

theorem parse_mieru (hne : rest ≠ []) (h : Closed rest) :
    parse e ("mierus://".toList ++ rest) = parseMieru e ("mierus://".toList ++ rest) := by
  unfold parse
  have ht : trim ("mierus://".toList ++ rest) = "mierus://".toList ++ rest :=
    trim_scheme rfl hne h
  rw [ht]
  simp [startsWith, Awg.ConfigParser.lowercase, List.isPrefixOf]

/-! ## Users -/

/-- A text that holds neither what ends the part before the host nor a blank. -/
def Quiet (user : Chars) : Prop :=
  ∀ c ∈ user, c ≠ '#' ∧ c ≠ '?' ∧ Text.isWhitespace c = false

theorem quiet_enc : Quiet (enc s) := fun c hc =>
  ⟨fun he => not_mem_enc rfl (he ▸ hc), fun he => not_mem_enc rfl (he ▸ hc),
    safe_not_blank (enc_safe c hc)⟩

theorem quiet_append (hu : Quiet user) (hs : Quiet s) : Quiet (user ++ s) := fun c hc =>
  (List.mem_append.1 hc).elim (hu c) (hs c)

theorem quiet_cons {c : Char} (hc : c ≠ '#' ∧ c ≠ '?' ∧ Text.isWhitespace c = false)
    (hs : Quiet s) : Quiet (c :: s) := by
  intro d hd
  rcases List.mem_cons.1 hd with rfl | hd
  · exact hc
  · exact hs d hd

theorem quiet_nil : Quiet [] := fun _ hc => by cases hc

theorem quiet_userInfo {u w : Chars} : Quiet (userInfo u w) := by
  unfold userInfo
  split
  · exact quiet_nil
  refine quiet_append (quiet_append quiet_enc ?_) (quiet_cons (by decide) quiet_nil)
  split
  · exact quiet_nil
  · exact quiet_cons (by decide) quiet_enc

/-- A user name and a secret before the host, read as they were. -/
structure Carries (skip : Replaced) (pre host u w : Chars) : Prop where
  behind : afterLast '@' (pre ++ host) = host
  user : pctDecode skip (before ':' (userOf (pre ++ host))) = u
  secret : pctDecode skip (after ':' (userOf (pre ++ host))) = w

theorem colon_not_mem_enc : ':' ∉ enc s := not_mem_enc rfl

theorem pctDecode_nil : pctDecode skip [] = [] := rfl

/-- What stands between a user and the host is read as the user. -/
theorem userOf_at {host : Chars} (h : '@' ∉ host) :
    userOf (user ++ '@' :: host) = user ∧ afterLast '@' (user ++ '@' :: host) = host := by
  obtain ⟨h1, h2⟩ := @last_sep user host '@' h
  rw [userOf, if_pos (by simp)]
  exact ⟨h2, h1⟩

theorem carries_userInfo {host u w : Chars} (h : '@' ∉ host) :
    Carries skip (userInfo u w) host u w := by
  unfold userInfo
  by_cases hnone : u = [] ∧ w = []
  · obtain ⟨rfl, rfl⟩ := hnone
    rw [if_pos ⟨rfl, rfl⟩]
    have hu : userOf host = [] := if_neg h
    refine ⟨afterLast_none h, ?_, ?_⟩
    · rw [List.nil_append, hu]
      exact pctDecode_nil
    · rw [List.nil_append, hu]
      exact pctDecode_nil
  · rw [if_neg hnone]
    have heq : enc u ++ (if w = [] then [] else ':' :: enc w) ++ ['@'] ++ host =
        (enc u ++ if w = [] then [] else ':' :: enc w) ++ '@' :: host := by simp
    obtain ⟨hu, hh⟩ := @userOf_at (enc u ++ if w = [] then [] else ':' :: enc w) host h
    constructor
    · rw [heq, hh]
    · rw [heq, hu]
      by_cases hw : w = []
      · rw [if_pos hw, List.append_nil, before_none colon_not_mem_enc, pctDecode_enc]
      · rw [if_neg hw, (takeWhile_sep colon_not_mem_enc).1, pctDecode_enc]
    · rw [heq, hu]
      by_cases hw : w = []
      · rw [if_pos hw, List.append_nil, hw]
        rw [after_none colon_not_mem_enc]
        exact pctDecode_nil
      · rw [if_neg hw, (takeWhile_sep colon_not_mem_enc).2, pctDecode_enc]

/-! ## Servers -/

/-- A server and a port that a link can carry. -/
structure Served (s p : Chars) (n : Int) : Prop extends Numbered s p n where
  chars : Unseparated (trim s)

theorem Served.free (h : Served s p n) : ∀ c ∈ hostPort s p, c ≠ '#' ∧ c ≠ '?' ∧ c ≠ '@' := by
  intro c hc
  rcases mem_hostPort h.not_blank hc with hc | rfl | rfl | rfl | hc
  · exact ⟨(h.chars c hc).1, (h.chars c hc).2.1, (h.chars c hc).2.2.1⟩
  · decide
  · decide
  · decide
  · have hnum := numeral_of_int h.port c hc
    refine ⟨?_, ?_, ?_⟩
    · rintro rfl
      cases hnum
    · rintro rfl
      cases hnum
    · rintro rfl
      cases hnum

theorem Served.at (h : Served s p n) : '@' ∉ hostPort s p := fun hm => (h.free _ hm).2.2 rfl

/-- The parts of a link. -/
theorem split_link (h : Served s p n) (hu : Quiet user) (hk : Names (kv.map Prod.fst))
    (hn : isBlank name = false) :
    splitUserUri skip (user ++ hostPort s p ++ (query kv ++ '#' :: enc name)) fallback =
      (trim name, user ++ hostPort s p, kept kv) := by
  have hends : trim (user ++ hostPort s p) = user ++ hostPort s p := by
    have hhp := hostPort_ends h.host h.not_blank
    have hne : hostPort s p ≠ [] := by
      rw [hostPort_eq h.not_blank]
      exact List.append_ne_nil_of_right_ne_nil _ (List.cons_ne_nil _ _)
    refine trim_of_ends (fun c hc => ?_) fun c hc => ?_
    · cases user with
      | nil =>
        rw [List.nil_append, ← hhp] at hc
        exact (trim_ends _).1 c hc
      | cons d user =>
        have : c = d := by simpa using hc.symm
        rw [this]
        exact (hu d List.mem_cons_self).2.2
    · rw [List.getLast?_append_of_ne_nil _ hne, ← hhp] at hc
      exact (trim_ends _).2 c hc
  have hname : trim name ≠ [] := fun he => by
    rw [trim_eq_nil_iff, hn] at he
    cases he
  rw [splitUserUri_link hk, hends, ShareLink.ifEmpty, if_neg hname]
  intro c hc
  rcases List.mem_append.1 hc with hc | hc
  · exact ⟨(hu c hc).1, (hu c hc).2.1⟩
  · exact ⟨(h.free c hc).1, (h.free c hc).2.1⟩

end Links

/-! ## Hosts as the parsers read them -/

/-- How a parser reads host and port: from what is there, with a port for none, or after the port
was put there. -/
inductive Reading where
  | strict
  | orDefault (port : Int)
  | filled

def Reading.read : Reading → Chars → Option (Chars × Int)
  | strict, uhp => splitHostPort (afterLast '@' uhp)
  | orDefault port, uhp => splitHostPortOrDefault (afterLast '@' uhp) port
  | filled, uhp => (splitUserHostPort (withPort uhp)).map fun r => (r.2.1, r.2.2)

section Hosts

variable {r : Reading} {uhp pre s p name fallback a : Chars} {skip : Replaced} {n m : Int}
  {kv : List (String × Option Chars)}

theorem filled_read (uhp : Chars) : Reading.filled.read uhp =
    splitHostPort (if ':' ∈ afterLast ']' (afterLast '@' uhp) then afterLast '@' uhp
      else afterLast '@' uhp ++ ":443".toList) := by
  have hat : '@' ∉ (if ':' ∈ afterLast ']' (afterLast '@' uhp) then afterLast '@' uhp
      else afterLast '@' uhp ++ ":443".toList) := by
    have hno : '@' ∉ afterLast '@' uhp := fun h => (afterLast_chars uhp _ h).2 rfl
    split
    · exact hno
    · intro h
      rcases List.mem_append.1 h with h | h
      · exact hno h
      · revert h
        decide
  generalize hx : (if ':' ∈ afterLast ']' (afterLast '@' uhp) then afterLast '@' uhp
      else afterLast '@' uhp ++ ":443".toList) = x at hat ⊢
  have hw : withPort uhp = ['x'] ++ '@' :: x := by
    rw [withPort, hx]
    rfl
  rw [Reading.read, splitUserHostPort, hw, if_pos (by simp), (@last_sep ['x'] x '@' hat).1,
    Option.map_map]
  cases splitHostPort x with
  | none => rfl
  | some hp => rfl

theorem colon_after {b : Chars} (h : ']' ∉ b) : ':' ∈ afterLast ']' (a ++ ':' :: b) := by
  rw [afterLast, before, List.mem_reverse]
  have hr : (a ++ ':' :: b).reverse = b.reverse ++ ':' :: a.reverse := by simp
  have hp : ∀ c ∈ b.reverse, decide (c ≠ ']') = true := fun c hc =>
    decide_eq_true fun he => h (he ▸ List.mem_reverse.1 hc)
  rw [hr, List.takeWhile_append_of_pos hp, List.takeWhile_cons_of_pos (by decide)]
  simp

theorem filled_hostPort (h : Served s p n) (hb : afterLast '@' uhp = hostPort s p) :
    Reading.filled.read uhp = splitHostPort (hostPort s p) := by
  rw [filled_read, hb, if_pos]
  rw [hostPort_eq h.not_blank]
  exact colon_after (numeral_ne rfl h.port)

theorem Reading.read_served (h : Served s p n) (hh : Host (trim s))
    (hb : afterLast '@' uhp = hostPort s p) : r.read uhp = some (trim s, n) := by
  cases r with
  | strict => rw [Reading.read, hb, h.splitHostPort hh]
  | orDefault d => rw [Reading.read, hb, h.splitHostPortOrDefault hh]
  | filled => rw [filled_hostPort h hb, h.splitHostPort hh]

theorem Reading.host_of_read (h : Served s p n) (hb : afterLast '@' uhp = hostPort s p)
    (hr : r.read uhp = some (trim s, m)) : Host (trim s) := by
  cases r with
  | strict =>
    rw [Reading.read, hb] at hr
    exact h.host_of_split hr
  | orDefault d =>
    rw [Reading.read, hb] at hr
    exact h.host_of_splitOrDefault hr
  | filled =>
    rw [filled_hostPort h hb] at hr
    exact h.host_of_split hr

/-- Whatever the link, the host that is read has no separator in it. -/
theorem Reading.unseparated {body : Chars}
    (hr : r.read (splitUserUri skip body fallback).2.1 = some (a, m)) : Unseparated a := by
  have hsep : ∀ c ∈ afterLast '@' (splitUserUri skip body fallback).2.1,
      c ≠ '#' ∧ c ≠ '?' ∧ c ≠ '@' := by
    intro c hc
    obtain ⟨hin, hat⟩ := afterLast_chars _ c hc
    obtain ⟨hh, hq⟩ := splitUserUri_chars body fallback c hin
    exact ⟨hh, hq, hat⟩
  intro c hc
  cases r with
  | strict =>
    obtain ⟨hin, hs⟩ := splitHostPort_chars hr c hc
    exact ⟨(hsep c hin).1, (hsep c hin).2.1, (hsep c hin).2.2, hs⟩
  | orDefault d =>
    obtain ⟨hin, hs⟩ := splitHostPortOrDefault_chars hr c hc
    exact ⟨(hsep c hin).1, (hsep c hin).2.1, (hsep c hin).2.2, hs⟩
  | filled =>
    rw [filled_read] at hr
    obtain ⟨hin, hs⟩ := splitHostPort_chars hr c hc
    have hin : c ∈ afterLast '@' (splitUserUri skip body fallback).2.1 ∨ c ∈ ":443".toList := by
      split at hin
      · exact .inl hin
      · exact List.mem_append.1 hin
    rcases hin with hin | hin
    · exact ⟨(hsep c hin).1, (hsep c hin).2.1, (hsep c hin).2.2, hs⟩
    · have hin : c = ':' ∨ c = '4' ∨ c = '3' := by simpa using hin
      rcases hin with rfl | rfl | rfl
      all_goals decide

/-- The server came back with a port that is a number: no separator is in it, and it is read as it
is written. -/
theorem Reading.served (hs : trim s ≠ []) (hp : toIntOrNull (trim p) = some n) (hu : Quiet pre)
    (hk : Names (kv.map Prod.fst)) (hn : isBlank name = false)
    (hb : '@' ∉ hostPort s p → afterLast '@' (pre ++ hostPort s p) = hostPort s p)
    (hr : r.read (splitUserUri skip (pre ++ hostPort s p ++ (query kv ++ '#' :: enc name))
      fallback).2.1 = some (trim s, m)) : Served s p n ∧ Host (trim s) := by
  have hchars := Reading.unseparated hr
  have h : Served s p n := ⟨⟨hs, fun hm => (hchars _ hm).2.2.2 rfl, hp⟩, hchars⟩
  rw [split_link h hu hk hn] at hr
  exact ⟨h, Reading.host_of_read h (hb h.at) hr⟩

end Hosts

end Ghajar.ProtocolForms
