import Mathlib
import Ghajar.Config.ConfigShare

/-!
# What a link to share carries

For each protocol the profile that is read of a link (`carried_read`): what a writer leaves out is
gone, what a reader takes for something else is that.
-/

namespace Ghajar.ConfigShare

open Ghajar ShareLink LinkParsers

/-! ## What the links carry -/

/-- The protocols of the links. -/
def shared : List String := ["hysteria2", "tuic", "masque", "anytls", "naive", "sstp"]

/-- A profile with a link that can be read. -/
structure Shareable (c : ProxyConfig) : Prop extends Addressed c where
  protocol : c.protocol ∈ shared
  user : c.protocol = "tuic" ∨ c.protocol = "sstp" → c.uuid.blank = false
  password : c.protocol = "anytls" → c.password.blank = false
  numbers : c.mtu ≤ 2147483647 ∧ c.hyUpMbps ≤ 2147483647 ∧ c.hyDownMbps ≤ 2147483647

namespace Carried

def nameOr (fallback name : String) : String :=
  text (ShareLink.ifEmpty (trim name.toList) fallback.toList)

def secret (s : String) : String := text (plused s.toList)

def speed (n : Int) : Int := if n > 0 then n else 0

def bounded (lo hi n : Int) : Int := if lo ≤ n ∧ n ≤ hi then n else 0

def choice (a b fallback s : String) : String := if s = a ∨ s = b then s else fallback

def obfs (password obfs : String) : String :=
  if password = "" then "" else obfs.ifEmpty "salamander"

variable (e : Env) (c : ProxyConfig)

def hysteria2 : ProxyConfig :=
  { name := nameOr "Hysteria2" c.name
    protocol := "hysteria2"
    address := c.address
    port := c.port
    password := secret c.password
    sni := c.sni
    alpn := c.alpn
    security := "tls"
    hyObfs := obfs c.hyObfsPassword c.hyObfs
    hyObfsPassword := c.hyObfsPassword
    hyUpMbps := speed c.hyUpMbps
    hyDownMbps := speed c.hyDownMbps
    allowInsecure := c.allowInsecure
    id := e.fresh }

def tuic : ProxyConfig :=
  { name := nameOr "TUIC" c.name
    protocol := "tuic"
    address := c.address
    port := c.port
    uuid := secret c.uuid
    password := secret c.password
    sni := c.sni
    alpn := c.alpn
    security := "tls"
    method := e.platform.lowercase c.method
    mode := e.platform.lowercase c.mode
    allowInsecure := c.allowInsecure
    id := e.fresh }

def masque : ProxyConfig :=
  { name := nameOr "MASQUE" c.name
    protocol := "masque"
    address := c.address
    port := c.port
    uuid := secret c.uuid
    password := secret c.password
    mode := choice "1" "2" "3" c.mode
    path := text (pctDecode e.skip c.path.toList)
    sni := c.sni
    alpn := c.alpn
    fingerprint := c.fingerprint
    pinnedCertSha256 := c.pinnedCertSha256
    security := "tls"
    allowInsecure := c.allowInsecure
    mtu := bounded 1280 9000 c.mtu
    id := e.fresh }

def anytls : ProxyConfig :=
  { name := nameOr "AnyTLS" c.name
    protocol := "anytls"
    address := c.address
    port := c.port
    password := secret c.password
    sni := c.sni
    security := "tls"
    fingerprint := c.fingerprint
    allowInsecure := c.allowInsecure
    id := e.fresh }

def naive : ProxyConfig :=
  { name := nameOr "NaiveProxy" c.name
    protocol := "naive"
    address := c.address
    port := c.port
    uuid := secret c.uuid
    password := secret c.password
    sni := c.sni.ifEmpty c.address
    mode := choice "quic" "quic" "https" c.mode
    security := "tls"
    id := e.fresh }

def sstp : ProxyConfig :=
  { name := nameOr "SSTP" c.name
    protocol := "sstp"
    address := c.address
    port := c.port
    uuid := secret c.uuid
    password := secret c.password
    sni := c.sni
    method := choice "pap" "mschapv2" "auto" c.method
    allowInsecure := c.allowInsecure
    pinnedCertSha256 := c.pinnedCertSha256
    security := "tls"
    mtu := bounded 576 1500 c.mtu
    id := e.fresh }

end Carried

/-- What is read of the link of a profile. -/
def carried (e : Env) (c : ProxyConfig) : ProxyConfig :=
  match c.protocol with
  | "hysteria2" => Carried.hysteria2 e c
  | "tuic" => Carried.tuic e c
  | "masque" => Carried.masque e c
  | "anytls" => Carried.anytls e c
  | "naive" => Carried.naive e c
  | "sstp" => Carried.sstp e c
  | _ => c

section Read

variable {e : Env} {c : ProxyConfig} {other : ProxyConfig → Chars} {user query : Chars}
  {scheme : String} {params : List (String × String)}

theorem closed_share : ProtocolForms.Closed (user ++ (hostOf c ++ ':' :: portOf c) ++
    tail query c.name.toList) := by
  intro d hd
  have hlast : (user ++ (hostOf c ++ ':' :: portOf c) ++ tail query c.name.toList).getLast? =
      ('#' :: enc c.name.toList).getLast? := by
    rw [tail, ← List.append_assoc, List.getLast?_append_of_ne_nil _ (List.cons_ne_nil _ _)]
  rw [hlast] at hd
  rcases List.mem_cons.1 (List.mem_of_mem_getLast? hd) with rfl | hd
  · rfl
  · exact enc_not_blank hd

theorem share_ne_nil : user ++ (hostOf c ++ ':' :: portOf c) ++ tail query c.name.toList ≠ [] := by
  refine List.append_ne_nil_of_right_ne_nil _ ?_
  rw [tail]
  exact List.append_ne_nil_of_right_ne_nil _ (List.cons_ne_nil _ _)

/-- A link to share is given to the parser of its scheme. -/
theorem parse_simple {f : ProtocolForms.Form}
    (hf : f ∉ [ProtocolForms.Form.naive, .mieru, .wireguard, .tor]) :
    parse e (simpleLink f.id user c params) =
      ProtocolForms.parserOf e f (beforeHost user ++ (hostOf c ++ ':' :: portOf c) ++
        tail (joined (written params)) c.name.toList) :=
  ProtocolForms.parse_link hf share_ne_nil closed_share

theorem quiet_pair {s t : Chars} : ProtocolForms.Quiet (enc s ++ ':' :: enc t) :=
  ProtocolForms.quiet_append quiet_enc (ProtocolForms.quiet_cons (by decide) quiet_enc)

theorem quiet_userPass : ProtocolForms.Quiet (userPass c) := by
  rw [userPass]
  refine ProtocolForms.quiet_append quiet_enc ?_
  split
  · exact ProtocolForms.quiet_cons (by decide) quiet_enc
  · exact ProtocolForms.quiet_nil

theorem plused_not_blank {s : String} (h : s.blank = false) :
    (text (plused s.toList)).blank = false := by
  rw [String.blank, ← Bool.not_eq_true, Text.isBlank, List.all_eq_true] at h ⊢
  intro hall
  apply h
  intro d hd
  by_cases hs : d = ' '
  · rw [hs]
    rfl
  · refine hall d ?_
    rw [text, String.toList_ofList]
    exact List.mem_map.2 ⟨d, hd, if_neg hs⟩

theorem Addressed.reachable (h : Addressed c) {c' : ProxyConfig} (ha : c'.address = c.address)
    (hp : c'.port = c.port) : LinkParsers.reachable c' = true := by
  have hblank : c.address.blank = false := by
    have hne : trim c.address.toList ≠ [] := by
      rw [h.trimmed]
      exact fun he => h.some (String.toList_eq_nil_iff.1 he)
    rw [← Bool.not_eq_true]
    exact fun hb => hne (trim_eq_nil_iff.2 hb)
  rw [LinkParsers.reachable, ha, hp, hblank]
  simpa using h.port

theorem Addressed.filled_read (h : Addressed c) {uhp : Chars}
    (hb : afterLast '@' uhp = hostOf c ++ ':' :: portOf c) :
    ∃ u, splitUserHostPort (withPort uhp) = Option.some (u, c.address.toList, c.port) := by
  have hr := h.read .filled hb
  rw [ProtocolForms.Reading.read, Option.map_eq_some_iff] at hr
  obtain ⟨⟨u, a, m⟩, hs, he⟩ := hr
  cases he
  exact ⟨u, hs⟩

/-- The last check of a parser. -/
theorem Addressed.checked (h : Addressed c) {c' : ProxyConfig} {b : Bool}
    (ha : c'.address = c.address) (hp : c'.port = c.port) (hb : b = false) :
    (if (!b && LinkParsers.reachable c') = true then Option.some c' else none) =
      Option.some c' := by
  rw [h.reachable ha hp, hb]
  rfl

theorem text_toList (s : String) : text s.toList = s := String.ofList_toList

theorem named_tuic : Named (tuicParams c)
    ["sni", "alpn", "congestion_control", "udp_relay_mode", "allow_insecure"] :=
  ⟨rfl, names_of (by decide) (by decide)⟩

theorem pair_before (hne : c.uuid.toList ≠ []) :
    beforeHost (enc c.uuid.toList ++ ':' :: enc c.password.toList) =
      enc c.uuid.toList ++ ':' :: enc c.password.toList ++ ['@'] := by
  have hu : enc c.uuid.toList ≠ [] := fun he => hne (enc_eq_nil_iff.1 he)
  refine before_some (List.append_ne_nil_of_left_ne_nil hu _) fun he => hu ?_
  cases hu' : enc c.uuid.toList with
  | nil => rfl
  | cons d ds =>
    rw [hu', List.cons_append] at he
    injection he with _ he
    simp at he

theorem Addressed.user_read (h : Addressed c) (user : Chars) :
    splitUserHostPort (user ++ ['@'] ++ (hostOf c ++ ':' :: portOf c)) =
      Option.some (user, c.address.toList, c.port) := by
  obtain ⟨hl, hb⟩ := @last_sep user (hostOf c ++ ':' :: portOf c) '@' h.at
  have hr : ProtocolForms.Reading.strict.read (user ++ '@' :: (hostOf c ++ ':' :: portOf c)) =
      Option.some (c.address.toList, c.port) := h.read .strict hl
  rw [ProtocolForms.Reading.read, hl] at hr
  rw [List.append_assoc, List.singleton_append, splitUserHostPort, if_pos (by simp), hl,
    hb, hr]
  rfl

theorem tuic_read (h : Shareable c) (hp : c.protocol = "tuic") :
    parse e (toLink other c) = some (Carried.tuic e c) := by
  have huuid := h.user (.inl hp)
  have hne : c.uuid.toList ≠ [] := fun he => by
    rw [String.blank, he] at huuid
    cases huuid
  have hlink : toLink other c = simpleLink (ProtocolForms.Form.id .tuic)
      (enc c.uuid.toList ++ ':' :: enc c.password.toList) c (tuicParams c) := by
    unfold toLink
    rw [hp]
    rfl
  obtain ⟨h1, h2⟩ := @takeWhile_sep ':' (enc c.uuid.toList) (enc c.password.toList) colon_not_mem
  have hmethod : lowercase e (((sent (tuicParams c)).get? "congestion_control").getD
      ((sent (tuicParams c)).get "congestion")) = e.platform.lowercase c.method := by
    have hother : (sent (tuicParams c)).get "congestion" = [] := by
      rw [Query.get, named_tuic.get?_other (by decide)]
      rfl
    have hget : text ((sent (tuicParams c)).get "congestion_control") = c.method :=
      named_tuic.get 2 rfl
    rw [hother, lowercase]
    exact congrArg _ hget
  have hmode : lowercase e ((sent (tuicParams c)).get "udp_relay_mode") =
      e.platform.lowercase c.mode := by
    rw [lowercase, named_tuic.get 3 rfl]
  have hsni : text ((sent (tuicParams c)).get "sni") = c.sni := named_tuic.get 0 rfl
  have halpn : text ((sent (tuicParams c)).get "alpn") = c.alpn := named_tuic.get 1 rfl
  have hinsecure : insecure (sent (tuicParams c)) = c.allowInsecure :=
    named_tuic.allow_insecure 4 rfl (by decide) (by decide)
  have huser : uuidOf e (enc c.uuid.toList ++ ':' :: enc c.password.toList) =
      Carried.secret c.uuid := by
    rw [uuidOf, h1, pctDecode_enc, Carried.secret]
  have hpass : passwordOf e (enc c.uuid.toList ++ ':' :: enc c.password.toList) =
      Carried.secret c.password := by
    rw [passwordOf, h2, pctDecode_enc, Carried.secret]
  rw [hlink, parse_simple (by decide)]
  change parseTuic e _ = _
  unfold parseTuic
  rw [h.split (quiet_before quiet_pair) named_tuic.fst_names]
  dsimp only
  rw [pair_before hne, h.user_read, Option.bind_eq_bind, Option.bind_some]
  dsimp only
  have hcolon : ':' ∈ enc c.uuid.toList ++ ':' :: enc c.password.toList := by simp
  rw [huser, hpass, hmethod, hmode, hsni, halpn, hinsecure, text_toList, if_pos hcolon]
  refine (h.checked ?_ ?_ (plused_not_blank huuid)).trans ?_
  · rfl
  · rfl
  · rw [Carried.tuic]
    rfl

theorem named_anytls : Named (anytlsParams c) ["sni", "fp", "insecure"] :=
  ⟨rfl, names_of (by decide) (by decide)⟩

theorem anytls_read (h : Shareable c) (hp : c.protocol = "anytls") :
    parse e (toLink other c) = some (Carried.anytls e c) := by
  have hpassword := h.password hp
  have hne : enc c.password.toList ≠ [] := fun he => by
    rw [String.blank, enc_eq_nil_iff.1 he] at hpassword
    cases hpassword
  have hb : beforeHost (enc c.password.toList) = enc c.password.toList ++ ['@'] :=
    before_some hne fun he => colon_not_mem (u := c.password.toList) (by
      rw [he]
      exact List.mem_cons_self)
  have hlink : toLink other c =
      simpleLink (ProtocolForms.Form.id .anytls) (enc c.password.toList) c (anytlsParams c) := by
    unfold toLink
    rw [hp]
    rfl
  have hsni : text (ShareLink.ifEmpty ((sent (anytlsParams c)).get "sni")
      ((sent (anytlsParams c)).get "peer")) = c.sni := by
    have hpeer : (sent (anytlsParams c)).get "peer" = [] := by
      rw [Query.get, named_anytls.get?_other (by decide)]
      rfl
    rw [hpeer, ProtocolForms.ifEmpty_nil]
    exact named_anytls.get 0 rfl
  have halpn : (sent (anytlsParams c)).get "alpn" = [] := by
    rw [Query.get, named_anytls.get?_other (by decide)]
    rfl
  have hfp : text ((sent (anytlsParams c)).get "fp") = c.fingerprint := named_anytls.get 1 rfl
  have hinsecure : insecure (sent (anytlsParams c)) = c.allowInsecure :=
    named_anytls.insecure 2 rfl (by decide) (by decide)
  rw [hlink, parse_simple (by decide)]
  change parseAnyTls e _ = _
  unfold parseAnyTls
  rw [h.split (quiet_before quiet_enc) named_anytls.fst_names]
  dsimp only
  rw [hb, h.user_read, Option.bind_eq_bind, Option.bind_some]
  dsimp only
  rw [hsni, halpn, hfp, hinsecure, text_toList, pctDecode_enc]
  refine (h.checked ?_ ?_ (plused_not_blank hpassword)).trans ?_
  · rfl
  · rfl
  · rw [Carried.anytls]
    rfl

theorem named_naive : Named (naiveParams c) ["sni"] := ⟨rfl, names_of (by decide) (by decide)⟩

theorem text_ifEmpty {cs : Chars} {s : String} :
    (text cs).ifEmpty s = text (ShareLink.ifEmpty cs s.toList) := by
  unfold String.ifEmpty ShareLink.ifEmpty
  by_cases hs : cs = []
  · have he : text cs = "" := by rw [hs]; rfl
    rw [if_pos hs, if_pos he, text_toList]
  · have hne : text cs ≠ "" := fun he => hs (by
      rw [← String.toList_ofList (l := cs)]
      exact String.toList_eq_nil_iff.2 he)
    rw [if_neg hne, if_neg hs]

theorem choice_quic (s : String) :
    Carried.choice "quic" "quic" "https" s = if s = "quic" then "quic" else "https" := by
  unfold Carried.choice
  by_cases hs : s = "quic"
  · rw [if_pos (.inl hs), if_pos hs, hs]
  · rw [if_neg fun h => hs (h.elim id id), if_neg hs]

theorem naive_scheme (c : ProxyConfig) :
    (if c.mode = "quic" then "naive+quic" else "naive+https").toList ++ "://".toList =
      (if c.mode = "quic" then "naive+quic://" else "naive+https://").toList := by
  split <;> decide

theorem afterScheme_naive (quic : Bool) (rest : Chars) :
    afterScheme ((if quic then "naive+quic://" else "naive+https://").toList ++ rest) = rest ∧
      startsWith (Awg.ConfigParser.lowercase
        ((if quic then "naive+quic://" else "naive+https://").toList ++ rest)) "naive+quic://" =
          quic := by
  cases quic with
  | true =>
    simp [afterScheme, Search.index, List.isPrefixOf, startsWith, Awg.ConfigParser.lowercase]
  | false =>
    simp [afterScheme, Search.index, List.isPrefixOf, startsWith, Awg.ConfigParser.lowercase]

theorem naive_read (h : Shareable c) (hp : c.protocol = "naive") :
    parse e (toLink other c) = some (Carried.naive e c) := by
  have hlink : toLink other c = (if decide (c.mode = "quic") then "naive+quic://"
      else "naive+https://").toList ++ (beforeHost (userPass c) ++ (hostOf c ++ ':' :: portOf c) ++
        tail (joined (written (naiveParams c))) c.name.toList) := by
    unfold toLink
    rw [hp]
    change simpleLink _ _ _ _ = _
    rw [simpleLink, ← List.append_assoc, naive_scheme]
    simp only [decide_eq_true_eq]
    rfl
  have hc := @carries_userPass _ e.skip c h.at
  have hread := h.read (.orDefault 443) hc.behind
  have huser : uuidOf e (userOf (beforeHost (userPass c) ++ (hostOf c ++ ':' :: portOf c))) =
      Carried.secret c.uuid := congrArg text hc.user
  have hpass : passwordOf e (userOf (beforeHost (userPass c) ++ (hostOf c ++ ':' :: portOf c))) =
      Carried.secret c.password := congrArg text hc.secret
  have hsni : text (ShareLink.ifEmpty ((sent (naiveParams c)).get "sni") c.address.toList) =
      c.sni.ifEmpty c.address := by
    have hget : text ((sent (naiveParams c)).get "sni") =
        if c.sni ≠ c.address then c.sni else "" := named_naive.get 0 rfl
    rw [← text_ifEmpty, hget]
    unfold String.ifEmpty
    by_cases hs : c.sni = c.address
    · rw [if_neg (not_not.2 hs), if_pos rfl, hs]
      split <;> rfl
    · rw [if_pos hs]
  rw [hlink, ProtocolForms.parse_naive _ share_ne_nil closed_share]
  unfold parseNaive
  obtain ⟨hrest, hquic⟩ := afterScheme_naive (decide (c.mode = "quic"))
    (beforeHost (userPass c) ++ (hostOf c ++ ':' :: portOf c) ++
        tail (joined (written (naiveParams c))) c.name.toList)
  rw [hrest, hquic, h.split (quiet_before quiet_userPass) named_naive.fst_names]
  dsimp only
  rw [show splitHostPortOrDefault _ 443 = _ from hread, Option.bind_eq_bind, Option.bind_some]
  dsimp only
  rw [huser, hpass, hsni, text_toList, Carried.naive, choice_quic]
  simp only [decide_eq_true_eq]
  rfl

theorem named_sstp : Named (sstpParams c) ["sni", "auth", "allow_insecure", "pin", "mtu"] :=
  ⟨rfl, names_of (by decide) (by decide)⟩

theorem sstp_read (h : Shareable c) (hp : c.protocol = "sstp") :
    parse e (toLink other c) = some (Carried.sstp e c) := by
  have huuid := h.user (.inr hp)
  have hne : c.uuid.toList ≠ [] := fun he => by
    rw [String.blank, he] at huuid
    cases huuid
  have hlink : toLink other c = simpleLink (ProtocolForms.Form.id .sstp)
      (enc c.uuid.toList ++ ':' :: enc c.password.toList) c (sstpParams c) := by
    unfold toLink
    rw [hp]
    rfl
  have hc := @carries_pair c.uuid.toList c.password.toList _ e.skip h.at hne
  obtain ⟨u, hread⟩ := h.filled_read hc.behind
  have huser : uuidOf e (userOf (beforeHost (enc c.uuid.toList ++ ':' :: enc c.password.toList) ++
      (hostOf c ++ ':' :: portOf c))) = Carried.secret c.uuid := congrArg text hc.user
  have hpass : passwordOf e
      (userOf (beforeHost (enc c.uuid.toList ++ ':' :: enc c.password.toList) ++
        (hostOf c ++ ':' :: portOf c))) = Carried.secret c.password := congrArg text hc.secret
  have hsni : text ((sent (sstpParams c)).get "sni") = c.sni := named_sstp.get 0 rfl
  have hauth : text ((sent (sstpParams c)).get "auth") = oneOf "pap" "mschapv2" c.method :=
    named_sstp.get 1 rfl
  have hpin : text ((sent (sstpParams c)).get "pin") = c.pinnedCertSha256 := named_sstp.get 3 rfl
  have hmtu : within 576 1500 ((sent (sstpParams c)).get? "mtu") = Carried.bounded 576 1500 c.mtu :=
    named_sstp.within 4 rfl (by decide) h.numbers.1
  have hinsecure : insecure (sent (sstpParams c)) = c.allowInsecure :=
    named_sstp.allow_insecure 2 rfl (by decide) (by decide)
  have hmethod : (if Awg.ConfigParser.lowercase ((sent (sstpParams c)).get "auth") = "pap".toList ∨
      Awg.ConfigParser.lowercase ((sent (sstpParams c)).get "auth") = "mschapv2".toList then
        text (Awg.ConfigParser.lowercase ((sent (sstpParams c)).get "auth")) else "auto") =
      Carried.choice "pap" "mschapv2" "auto" c.method := by
    rw [show (sent (sstpParams c)).get "auth" = (oneOf "pap" "mschapv2" c.method).toList from by
      rw [← hauth, text, String.toList_ofList]]
    unfold oneOf Carried.choice
    by_cases hm : c.method = "pap" ∨ c.method = "mschapv2"
    · rw [if_pos hm, if_pos hm]
      rcases hm with hm | hm
      all_goals
        rw [hm]
        decide
    · rw [if_neg hm, if_neg hm]
      decide
  rw [hlink, parse_simple (by decide)]
  change parseSstp e _ = _
  unfold parseSstp
  rw [h.split (quiet_before quiet_pair) named_sstp.fst_names]
  dsimp only
  rw [hread, Option.bind_eq_bind, Option.bind_some]
  dsimp only
  rw [huser, hpass, hsni, hmethod, hpin, hmtu, hinsecure, text_toList]
  refine (h.checked ?_ ?_ (plused_not_blank huuid)).trans ?_
  · rfl
  · rfl
  · rw [Carried.sstp]
    rfl

theorem named_masque : Named (masqueParams c)
    ["version", "path", "sni", "alpn", "fp", "pin", "insecure", "mtu"] :=
  ⟨rfl, names_of (by decide) (by decide)⟩

theorem masque_read (h : Shareable c) (hp : c.protocol = "masque") :
    parse e (toLink other c) = some (Carried.masque e c) := by
  have hlink : toLink other c = simpleLink (ProtocolForms.Form.id .masque) (userPass c) c
      (masqueParams c) := by
    have hnone : (if c.uuid = "" ∧ c.password = "" then [] else userPass c) = userPass c := by
      split
      · next hn =>
        rw [userPass, hn.1, hn.2]
        rfl
      · rfl
    unfold toLink
    rw [hp]
    change simpleLink _ _ _ _ = _
    rw [hnone]
    rfl
  have hc := @carries_userPass _ e.skip c h.at
  have hread := h.read (.orDefault 443) hc.behind
  have huser : uuidOf e (userOf (beforeHost (userPass c) ++ (hostOf c ++ ':' :: portOf c))) =
      Carried.secret c.uuid := congrArg text hc.user
  have hpass : passwordOf e (userOf (beforeHost (userPass c) ++ (hostOf c ++ ':' :: portOf c))) =
      Carried.secret c.password := congrArg text hc.secret
  have hversion : toString (if within 1 3 ((sent (masqueParams c)).get? "version") = 0 then 3
      else within 1 3 ((sent (masqueParams c)).get? "version")) =
        Carried.choice "1" "2" "3" c.mode := by
    rw [named_masque.get? 0 rfl, oneOf, Carried.choice]
    by_cases hm : c.mode = "1" ∨ c.mode = "2"
    · rw [if_pos hm, if_pos hm]
      rcases hm with hm | hm
      all_goals
        rw [hm]
        decide
    · rw [if_neg hm, if_neg hm]
      decide
  have hpath : (sent (masqueParams c)).get "path" = c.path.toList := by
    rw [Query.get, named_masque.get? 1 rfl]
    split
    · next hn =>
      rw [hn]
      rfl
    · rfl
  have hsni : text ((sent (masqueParams c)).get "sni") = c.sni := named_masque.get 2 rfl
  have halpn : text ((sent (masqueParams c)).get "alpn") = c.alpn := named_masque.get 3 rfl
  have hfp : text ((sent (masqueParams c)).get "fp") = c.fingerprint := named_masque.get 4 rfl
  have hpin : text ((sent (masqueParams c)).get "pin") = c.pinnedCertSha256 :=
    named_masque.get 5 rfl
  have hmtu : within 1280 9000 ((sent (masqueParams c)).get? "mtu") =
      Carried.bounded 1280 9000 c.mtu :=
    named_masque.within 7 rfl (by decide) h.numbers.1
  have hinsecure : insecure (sent (masqueParams c)) = c.allowInsecure :=
    named_masque.insecure 6 rfl (by decide) (by decide)
  rw [hlink, parse_simple (by decide)]
  change parseMasque e _ = _
  unfold parseMasque
  rw [h.split (quiet_before quiet_userPass) named_masque.fst_names]
  dsimp only
  rw [show splitHostPortOrDefault _ 443 = _ from hread, Option.bind_eq_bind, Option.bind_some]
  dsimp only
  rw [huser, hpass, hversion, hpath, hsni, halpn, hfp, hpin, hmtu, hinsecure, text_toList,
    if_pos (h.reachable ?_ ?_), Carried.masque]
  · rfl
  · rfl
  · rfl

/-- The pairs of its link, with nothing for those that are left out. -/
def hysteria2Pairs (c : ProxyConfig) : List (String × String) :=
  [("sni", c.sni), ("alpn", c.alpn), ("insecure", flag c.allowInsecure),
    ("obfs", Carried.obfs c.hyObfsPassword c.hyObfs),
    ("obfs-password", c.hyObfsPassword), ("upmbps", positive c.hyUpMbps),
    ("downmbps", positive c.hyDownMbps)]

theorem named_hysteria2 : Named (hysteria2Pairs c)
    ["sni", "alpn", "insecure", "obfs", "obfs-password", "upmbps", "downmbps"] :=
  ⟨rfl, names_of (by decide) (by decide)⟩

theorem written_cons (k v : String) (params : List (String × String)) :
    written ((k, v) :: params) = (if v = "" then [] else [(k, v)]) ++ written params := by
  unfold written
  by_cases hv : v = ""
  · rw [if_pos hv, List.filter_cons_of_neg (by simpa using hv)]
    rfl
  · rw [if_neg hv, List.filter_cons_of_pos (by simpa using hv)]
    rfl

theorem ifEmpty_ne_nil {s t : String} (h : t ≠ "") : s.ifEmpty t ≠ "" := by
  unfold String.ifEmpty
  split
  · exact h
  · assumption

theorem hysteria2_params (h : Shareable c) : hysteria2Params c = written (hysteria2Pairs c) := by
  have hnumber : ∀ (k : String) {n : Int}, n ≤ 2147483647 →
      (if positive n = "" then [] else [(k, positive n)]) =
        if n > 0 then [(k, toString n)] else [] := by
    intro k n hn
    unfold positive
    by_cases hpos : n > 0
    · rw [if_pos hpos, if_neg (toString_ne_nil hpos.le hn), if_pos hpos]
    · rw [if_neg hpos, if_pos rfl, if_neg hpos]
  have hflag : (if flag c.allowInsecure = "" then [] else [("insecure", flag c.allowInsecure)]) =
      if c.allowInsecure then [("insecure", "1")] else [] := by
    cases c.allowInsecure <;> rfl
  have hobfs : ∀ params, written
      (("obfs", Carried.obfs c.hyObfsPassword c.hyObfs) ::
        ("obfs-password", c.hyObfsPassword) :: params) =
      (if c.hyObfsPassword ≠ "" then [("obfs", c.hyObfs.ifEmpty "salamander"),
        ("obfs-password", c.hyObfsPassword)] else []) ++ written params := by
    intro params
    rw [written_cons, written_cons, Carried.obfs]
    by_cases hp : c.hyObfsPassword = ""
    · rw [if_pos hp, if_pos rfl, if_pos hp, if_neg (not_not.2 hp)]
      rfl
    · rw [if_neg hp, if_neg (ifEmpty_ne_nil (by decide)), if_neg hp, if_pos hp]
      rfl
  rw [hysteria2Pairs, written_cons, written_cons, written_cons, hobfs, written_cons, written_cons,
    hnumber _ h.numbers.2.1, hnumber _ h.numbers.2.2, hflag, hysteria2Params]
  simp only [ne_eq, ite_not, List.append_assoc, written, List.filter_nil, List.append_nil]

theorem number_getD {n : Int} : (if n > 0 then some n else none).getD 0 = Carried.speed n := by
  unfold Carried.speed
  split <;> rfl

theorem hysteria2_read (h : Shareable c) (hp : c.protocol = "hysteria2") :
    parse e (toLink other c) = some (Carried.hysteria2 e c) := by
  have hlink : toLink other c = (ProtocolForms.Form.id .hysteria2).toList ++ ("://".toList ++
      (enc c.password.toList ++ ['@'] ++ (hostOf c ++ ':' :: portOf c) ++
        tail (joined (hysteria2Params c)) c.name.toList)) := by
    have hthis : toLink other c = hysteria2Link c := by simp [toLink, hp]
    exact hthis
  rw [hysteria2_params h] at hlink
  have hsni : text (ShareLink.ifEmpty ((sent (hysteria2Pairs c)).get "sni")
      ((sent (hysteria2Pairs c)).get "peer")) = c.sni := by
    have hpeer : (sent (hysteria2Pairs c)).get "peer" = [] := by
      rw [Query.get, named_hysteria2.get?_other (by decide)]
      rfl
    rw [hpeer, ProtocolForms.ifEmpty_nil]
    exact named_hysteria2.get 0 rfl
  have hhost : (sent (hysteria2Pairs c)).get "host" = [] := by
    rw [Query.get, named_hysteria2.get?_other (by decide)]
    rfl
  have halpn : text ((sent (hysteria2Pairs c)).get "alpn") = c.alpn := named_hysteria2.get 1 rfl
  have hobfs : text ((sent (hysteria2Pairs c)).get "obfs") =
      Carried.obfs c.hyObfsPassword c.hyObfs :=
    named_hysteria2.get 3 rfl
  have hparam : text (ShareLink.ifEmpty ((sent (hysteria2Pairs c)).get "obfs-password")
      ((sent (hysteria2Pairs c)).get "obfsParam")) = c.hyObfsPassword := by
    have hnone : (sent (hysteria2Pairs c)).get "obfsParam" = [] := by
      rw [Query.get, named_hysteria2.get?_other (by decide)]
      rfl
    rw [hnone, ProtocolForms.ifEmpty_nil]
    exact named_hysteria2.get 4 rfl
  have hup : (toIntOrNull (((sent (hysteria2Pairs c)).get? "upmbps").getD
      ((sent (hysteria2Pairs c)).get "up"))).getD 0 =
        Carried.speed c.hyUpMbps := by
    rw [← number_getD, ← named_hysteria2.number 5 rfl h.numbers.2.1]
    have hup : (sent (hysteria2Pairs c)).get "up" = [] := by
      rw [Query.get, named_hysteria2.get?_other (by decide)]
      rfl
    rw [hup]
    cases (sent (hysteria2Pairs c)).get? "upmbps" <;> rfl
  have hdown : (toIntOrNull (((sent (hysteria2Pairs c)).get? "downmbps").getD
      ((sent (hysteria2Pairs c)).get "down"))).getD 0 =
        Carried.speed c.hyDownMbps := by
    rw [← number_getD, ← named_hysteria2.number 6 rfl h.numbers.2.2]
    have hdown : (sent (hysteria2Pairs c)).get "down" = [] := by
      rw [Query.get, named_hysteria2.get?_other (by decide)]
      rfl
    rw [hdown]
    cases (sent (hysteria2Pairs c)).get? "downmbps" <;> rfl
  have hinsecure : isOne (((sent (hysteria2Pairs c)).get? "insecure").getD
      ((sent (hysteria2Pairs c)).get "allowInsecure")) = c.allowInsecure := by
    rw [named_hysteria2.get?_flag 2 rfl, Query.get, named_hysteria2.get?_other (by decide)]
    cases c.allowInsecure <;> rfl
  rw [hlink, ProtocolForms.parse_link (by decide) share_ne_nil closed_share]
  change parseHysteria2 e _ = _
  unfold parseHysteria2
  rw [h.split (ProtocolForms.quiet_append quiet_enc
    (ProtocolForms.quiet_cons (by decide) ProtocolForms.quiet_nil)) named_hysteria2.fst_names]
  dsimp only
  rw [h.user_read, Option.bind_eq_bind, Option.bind_some]
  dsimp only
  rw [pctDecode_enc, hsni, hhost, halpn, hobfs, hparam, hup, hdown, hinsecure, text_toList,
    Carried.hysteria2]
  rfl

/-- What is read of a link to share. -/
theorem carried_read (h : Shareable c) : parse e (toLink other c) = some (carried e c) := by
  have hp := h.protocol
  simp only [shared, List.mem_cons, List.not_mem_nil, or_false] at hp
  unfold carried
  rcases hp with hp | hp | hp | hp | hp | hp
  · rw [hysteria2_read h hp, hp]
    rfl
  · rw [tuic_read h hp, hp]
    rfl
  · rw [masque_read h hp, hp]
    rfl
  · rw [anytls_read h hp, hp]
    rfl
  · rw [naive_read h hp, hp]
    rfl
  · rw [sstp_read h hp, hp]
    rfl

end Read

end Ghajar.ConfigShare
