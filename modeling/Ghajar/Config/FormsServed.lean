import Mathlib
import Ghajar.Config.FormsKept

/-!
# Forms whose link names a server

For six of these forms, what the parser makes of the link they are written as once server and port
are read (`tuic_read` and so on), and from this exactly when everything typed is kept (`kept_iff`).
A profile whose server is the one that was typed can only come from a server that is free of
separators (`served_address`).
-/

namespace Ghajar.ProtocolForms

open Ghajar ShareLink LinkParsers

section Served

variable {e : Env} {v input : Values} {f : Form} {c : ProxyConfig}
  {l uhp user a t fallback : Chars} {m n : Int} {k key : String}

/-! ## Filled forms -/

/-- What is true of the values a profile is built from. -/
structure Ready (f : Form) (v : Values) : Prop where
  filled : Filled v
  default : ∀ {k s : String}, f.default? k = some s → typed v k ≠ []
  required : ∀ d ∈ f.fields, d.required = true → typed v d.key ≠ []

theorem ready_values (h : f.missing (f.values input) = none) : Ready f (f.values input) :=
  ⟨filled_values f input, typed_of_default, fun _ hd hr => typed_of_required h hd hr⟩

theorem Ready.server (h : Ready f v) (hf : ProtocolForms.server ∈ f.fields) :
    typed v "server" ≠ [] :=
  h.required ProtocolForms.server hf rfl

/-! ## Servers -/

theorem ServerRead.served (h : ServerRead v) (hne : typed v "server" ≠ []) :
    Served (raw v "server") (raw v "port") (number (typed v "port")) := by
  refine ⟨⟨hne, fun hm => (h.chars _ hm).2.2.2 rfl, ?_⟩, h.chars⟩
  obtain ⟨n, hn⟩ := Option.isSome_iff_exists.1 h.port
  rw [number, hn]
  exact hn

theorem strict_of_user (h : splitUserHostPort uhp = some (user, a, m)) :
    Reading.strict.read uhp = some (a, m) := by
  unfold splitUserHostPort at h
  split at h
  · obtain ⟨⟨a', m'⟩, hs, he⟩ := Option.map_eq_some_iff.1 h
    injection he with _ he
    injection he with h1 h2
    rw [Reading.read, hs]
    subst h1 h2
    rfl
  · cases h

theorem filled_of_user (h : splitUserHostPort (withPort uhp) = some (user, a, m)) :
    Reading.filled.read uhp = some (a, m) := by
  rw [Reading.read, h]
  rfl

theorem of_check {b : Bool} {c' : ProxyConfig} (h : (if b = true then some c' else none) = some c) :
    c' = c := by
  split at h
  · exact Option.some.inj h
  · cases h

/-- The server and the port of a profile are those of its link. -/
theorem parser_reads (hf : f ∈ served) (h : parserOf e f l = some c) :
    ∃ a m, (reading f).read (splitUserUri e.skip l []).2.1 = some (a, m) ∧
      c.address = text a ∧ c.port = m := by
  cases f
  case openconnect =>
    obtain ⟨hp, hs, h⟩ := Option.bind_eq_some_iff.1 h
    refine ⟨hp.1, hp.2, hs, ?_⟩
    rw [← of_check h]
    exact ⟨rfl, rfl⟩
  case masque =>
    obtain ⟨hp, hs, h⟩ := Option.bind_eq_some_iff.1 h
    refine ⟨hp.1, hp.2, hs, ?_⟩
    rw [← of_check h]
    exact ⟨rfl, rfl⟩
  case ssh =>
    obtain ⟨hp, hs, h⟩ := Option.bind_eq_some_iff.1 h
    obtain ⟨extra, -, h⟩ := Option.bind_eq_some_iff.1 h
    refine ⟨hp.1, hp.2, hs, ?_⟩
    rw [← of_check h]
    exact ⟨rfl, rfl⟩
  case tuic =>
    obtain ⟨⟨user, a, m⟩, hs, h⟩ := Option.bind_eq_some_iff.1 h
    refine ⟨a, m, strict_of_user hs, ?_⟩
    rw [← of_check h]
    exact ⟨rfl, rfl⟩
  case anytls =>
    obtain ⟨⟨user, a, m⟩, hs, h⟩ := Option.bind_eq_some_iff.1 h
    refine ⟨a, m, strict_of_user hs, ?_⟩
    rw [← of_check h]
    exact ⟨rfl, rfl⟩
  case hysteria2 =>
    obtain ⟨⟨user, a, m⟩, hs, h⟩ := Option.bind_eq_some_iff.1 h
    refine ⟨a, m, strict_of_user hs, ?_⟩
    rw [← Option.some.inj h]
    exact ⟨rfl, rfl⟩
  case sstp =>
    change parseSstp e l = some c at h
    unfold parseSstp at h
    dsimp only at h
    obtain ⟨⟨user, a, m⟩, hs, h⟩ := Option.bind_eq_some_iff.1 h
    refine ⟨a, m, filled_of_user hs, ?_⟩
    rw [← of_check h]
    exact ⟨rfl, rfl⟩
  case softether =>
    change parseSoftEther e l = some c at h
    unfold parseSoftEther at h
    dsimp only at h
    obtain ⟨⟨user, a, m⟩, hs, h⟩ := Option.bind_eq_some_iff.1 h
    refine ⟨a, m, filled_of_user hs, ?_⟩
    rw [← of_check h]
    exact ⟨rfl, rfl⟩
  all_goals
    simp [served] at hf

theorem behind_server (h : '@' ∉ hostPort (raw v "server") (raw v "port")) :
    afterLast '@' (before_server v f ++ hostPort (raw v "server") (raw v "port")) =
      hostPort (raw v "server") (raw v "port") := by
  cases f
  case tuic =>
    rw [before_server, List.append_assoc]
    exact (userOf_at h).2
  case hysteria2 =>
    rw [before_server, List.append_assoc]
    exact (userOf_at h).2
  case anytls =>
    rw [before_server, List.append_assoc]
    exact (userOf_at h).2
  all_goals exact (@carries_userInfo (fun _ => 1) _ _ _ h).behind

/-- A server that comes back as it was typed has no separator in it. -/
theorem serverRead_of (hf : f ∈ served) (hne : typed v "server" ≠ [])
    (hp : IsNumber (typed v "port")) (hr : parserOf e f (body v f) = some c)
    (ha : c.address = text (typed v "server")) : ServerRead v := by
  obtain ⟨a, m, hread, haddr, -⟩ := parser_reads hf hr
  have he : a = typed v "server" := String.ofList_injective (haddr.symm.trans ha)
  obtain ⟨n, hn⟩ := Option.isSome_iff_exists.1 hp
  rw [he] at hread
  obtain ⟨h, hh⟩ := Reading.served hne hn quiet_before (names_query f) nameOf_not_blank
    behind_server hread
  exact ⟨h.chars, hh, hp⟩

/-! ## Links with a server that is read -/

theorem split_body (h : Served (raw v "server") (raw v "port") n) :
    splitUserUri e.skip (body v f) fallback =
      (trim (f.nameOf v), before_server v f ++ hostPort (raw v "server") (raw v "port"),
        kept (queryOf v f)) :=
  split_link h quiet_before (names_query f) nameOf_not_blank

theorem read_body (h : Served (raw v "server") (raw v "port") n) (hh : Host (typed v "server")) :
    (reading f).read (before_server v f ++ hostPort (raw v "server") (raw v "port")) =
      some (typed v "server", n) :=
  Reading.read_served h hh (behind_server h.at)

theorem user_body (h : Served (raw v "server") (raw v "port") n)
    (hf : before_server v f = userInfo (raw v "user") (raw v "pass")) :
    uuidOf e (userOf (before_server v f ++ hostPort (raw v "server") (raw v "port"))) =
      text (raw v "user") ∧
    passwordOf e (userOf (before_server v f ++ hostPort (raw v "server") (raw v "port"))) =
      text (raw v "pass") := by
  rw [hf]
  have hc := @carries_userInfo e.skip _ (raw v "user") (raw v "pass") h.at
  exact ⟨congrArg text hc.user, congrArg text hc.secret⟩

/-- What stands between the scheme and `@` is read as the user. -/
theorem splitUserHostPort_body (user : Chars) (h : Served (raw v "server") (raw v "port") n)
    (hh : Host (typed v "server")) (hu : before_server v f = user ++ ['@']) :
    splitUserHostPort (before_server v f ++ hostPort (raw v "server") (raw v "port")) =
      some (user, typed v "server", n) := by
  have hs := h.splitHostPort hh
  obtain ⟨h1, h2⟩ := @last_sep user (hostPort (raw v "server") (raw v "port")) '@' h.at
  rw [hu, List.append_assoc, List.singleton_append, splitUserHostPort, if_pos (by simp), h1, h2, hs]
  rfl

/-! ## Values of the query -/

theorem get?_typed (i : Nat) (h : (queryOf v f)[i]? = some (k, txt v key)) :
    (kept (queryOf v f)).get? k = if typed v key = [] then none else some (typed v key) :=
  get?_txt (names_query f) (List.mem_of_getElem? h)

theorem get_typed (i : Nat) (h : (queryOf v f)[i]? = some (k, txt v key)) :
    (kept (queryOf v f)).get k = typed v key :=
  get_txt (names_query f) (List.mem_of_getElem? h)

theorem get?_on (i : Nat) (h : (queryOf v f)[i]? = some (k, flag v key)) :
    (kept (queryOf v f)).get? k = if on v key then some ['1'] else none :=
  get?_flag (names_query f) (List.mem_of_getElem? h)

theorem insecure_on (i : Nat) (h : (queryOf v f)[i]? = some ("insecure", flag v "insecure"))
    (h1 : (f.names.all fun k => !Text.equalsIgnoreCase k "allowInsecure") = true)
    (h2 : (f.names.all fun k => !Text.equalsIgnoreCase k "allow_insecure") = true) :
    insecure (kept (queryOf v f)) = on v "insecure" := by
  rw [insecure, get?_on i h, get?_other h1, get?_other h2]
  cases on v "insecure" with
  | true => rfl
  | false => rfl

theorem allow_insecure_on (i : Nat)
    (h : (queryOf v f)[i]? = some ("allow_insecure", flag v "insecure"))
    (h1 : (f.names.all fun k => !Text.equalsIgnoreCase k "insecure") = true)
    (h2 : (f.names.all fun k => !Text.equalsIgnoreCase k "allowInsecure") = true) :
    insecure (kept (queryOf v f)) = on v "insecure" := by
  rw [insecure, get?_on i h, get?_other h1, get?_other h2]
  cases on v "insecure" with
  | true => rfl
  | false => rfl

theorem typed_nil_iff : typed v key = [] ↔ isBlank (raw v key) = true := trim_eq_nil_iff

theorem typed_not_blank (h : typed v key ≠ []) : isBlank (typed v key) = false := by
  rw [← Bool.not_eq_true, ← trim_eq_nil_iff, typed, trim_trim]
  exact h

theorem putText_typed (o : JSONObject) (name : String) (i : Nat)
    (h : (queryOf v f)[i]? = some (k, txt v key)) :
    putText o name ((kept (queryOf v f)).get? k) = putTyped o name (typed v key) := by
  rw [get?_typed i h, putText, putTyped]
  by_cases ht : typed v key = []
  · rw [if_pos ht, if_pos ht]
    rfl
  · rw [if_neg ht, if_neg ht, notBlank, Option.filter_some, typed_not_blank ht]
    rfl

theorem ifEmpty_nil (cs : Chars) : ShareLink.ifEmpty cs [] = cs := by
  unfold ShareLink.ifEmpty
  split
  · exact (‹cs = []›).symm
  · rfl

/-! ## What the parsers make of the links -/

theorem tuic_read (hr : Ready .tuic v) (hs : ServerRead v)
    (h : parseTuic e (body v .tuic) = some c) :
    c = { Entered.tuic v e with
      method := lowercase e (typed v "cc"), mode := lowercase e [] } := by
  have hserved := hs.served (hr.server (by simp [Form.fields]))
  have huser := splitUserHostPort_body (f := .tuic)
    (enc (raw v "uuid") ++ ':' :: enc (raw v "pass")) hserved hs.host rfl
  have hsep := @takeWhile_sep ':' (enc (raw v "uuid")) (enc (raw v "pass")) colon_not_mem_enc
  have huuid : uuidOf e (enc (raw v "uuid") ++ ':' :: enc (raw v "pass")) =
      text (raw v "uuid") := by
    rw [uuidOf, hsep.1, pctDecode_enc]
  have hpass : passwordOf e (enc (raw v "uuid") ++ ':' :: enc (raw v "pass")) =
      text (raw v "pass") := by
    rw [passwordOf, hsep.2, pctDecode_enc]
  have hcc : ((kept (queryOf v .tuic)).get? "congestion_control").getD
      ((kept (queryOf v .tuic)).get "congestion") = typed v "cc" := by
    rw [get?_typed 0 rfl,
      if_neg (hr.default (s := "bbr") (by decide))]
    rfl
  have hsni : (kept (queryOf v .tuic)).get "sni" = typed v "sni" :=
    get_typed 2 rfl
  have halpn : (kept (queryOf v .tuic)).get "alpn" = typed v "alpn" :=
    get_typed 1 rfl
  have hrelay : (kept (queryOf v .tuic)).get "udp_relay_mode" = [] := get_other (by decide)
  have hinsecure : insecure (kept (queryOf v .tuic)) = on v "insecure" :=
    allow_insecure_on 3 rfl (by decide) (by decide)
  unfold parseTuic at h
  rw [split_body hserved] at h
  dsimp only at h
  rw [huser, Option.bind_eq_bind, Option.bind_some] at h
  dsimp only at h
  rw [Option.ite_none_right_eq_some] at h
  rw [← Option.some.inj h.2, huuid, hpass, hcc, hsni, halpn, hrelay, hinsecure, if_pos (by simp)]
  rw [Entered.tuic]

theorem hysteria2_read (hr : Ready .hysteria2 v) (hs : ServerRead v)
    (h : parseHysteria2 e (body v .hysteria2) = some c) : c = Entered.hysteria2 v e := by
  have hserved := hs.served (hr.server (by simp [Form.fields]))
  have huser := splitUserHostPort_body (f := .hysteria2) (enc (raw v "pass")) hserved hs.host rfl
  have hobfs : text ((kept (queryOf v .hysteria2)).get "obfs") =
      if typed v "obfs" = [] then "" else "salamander" := by
    have hmem : ("obfs", if isBlank (raw v "obfs") then none else some "salamander".toList) ∈
        queryOf v .hysteria2 := List.mem_cons_self
    rw [Query.get, get?_query (names_query _) hmem]
    by_cases hb : isBlank (raw v "obfs") = true
    · rw [if_pos hb, if_pos (typed_nil_iff.2 hb)]
      rfl
    · rw [if_neg hb, if_neg fun ht => hb (typed_nil_iff.1 ht)]
      rfl
  have hobfsPass : (kept (queryOf v .hysteria2)).get "obfs-password" = typed v "obfs" :=
    get_typed 1 rfl
  have hsni : (kept (queryOf v .hysteria2)).get "sni" = typed v "sni" :=
    get_typed 2 rfl
  have hinsecure : isOne (((kept (queryOf v .hysteria2)).get? "insecure").getD
      ((kept (queryOf v .hysteria2)).get "allowInsecure")) = on v "insecure" := by
    rw [get?_on 3 rfl, get_other (by decide)]
    cases on v "insecure" with
    | true => rfl
    | false => rfl
  have hpeer : (kept (queryOf v .hysteria2)).get "peer" = [] := get_other (by decide)
  have hhost : (kept (queryOf v .hysteria2)).get "host" = [] := get_other (by decide)
  have halpn : (kept (queryOf v .hysteria2)).get "alpn" = [] := get_other (by decide)
  have hparam : (kept (queryOf v .hysteria2)).get "obfsParam" = [] := get_other (by decide)
  have hup : (kept (queryOf v .hysteria2)).get? "upmbps" = none := get?_other (by decide)
  have hup' : (kept (queryOf v .hysteria2)).get "up" = [] := get_other (by decide)
  have hdown : (kept (queryOf v .hysteria2)).get? "downmbps" = none := get?_other (by decide)
  have hdown' : (kept (queryOf v .hysteria2)).get "down" = [] := get_other (by decide)
  unfold parseHysteria2 at h
  rw [split_body hserved] at h
  dsimp only at h
  rw [huser, Option.bind_eq_bind, Option.bind_some] at h
  dsimp only at h
  rw [← Option.some.inj h, pctDecode_enc, hobfs, hobfsPass, hsni, hinsecure, hpeer, hhost, halpn,
    hparam, hup, hup', hdown, hdown', ifEmpty_nil (typed v "sni"), ifEmpty_nil (typed v "obfs")]
  rw [Entered.hysteria2]
  rfl

theorem anytls_read (hr : Ready .anytls v) (hs : ServerRead v)
    (h : parseAnyTls e (body v .anytls) = some c) : c = Entered.anytls v e := by
  have hserved := hs.served (hr.server (by simp [Form.fields]))
  have huser := splitUserHostPort_body (f := .anytls) (enc (raw v "pass")) hserved hs.host rfl
  have hsni : (kept (queryOf v .anytls)).get "sni" = typed v "sni" :=
    get_typed 0 rfl
  have hinsecure : insecure (kept (queryOf v .anytls)) = on v "insecure" :=
    insecure_on 1 rfl (by decide) (by decide)
  have hpeer : (kept (queryOf v .anytls)).get "peer" = [] := get_other (by decide)
  have halpn : (kept (queryOf v .anytls)).get "alpn" = [] := get_other (by decide)
  have hfp : (kept (queryOf v .anytls)).get "fp" = [] := get_other (by decide)
  unfold parseAnyTls at h
  rw [split_body hserved] at h
  dsimp only at h
  rw [huser, Option.bind_eq_bind, Option.bind_some] at h
  dsimp only at h
  rw [Option.ite_none_right_eq_some] at h
  rw [← Option.some.inj h.2, pctDecode_enc, hsni, hinsecure, hpeer, halpn, hfp,
    ifEmpty_nil (typed v "sni")]
  rw [Entered.anytls]
  rfl

/-- The number of the text, as the parser takes it from the link. -/
def bounded (lo hi : Int) (t : Chars) : Int := within lo hi (if t = [] then none else some t)

theorem bounded_iff {lo hi : Int} :
    (bounded lo hi t = number t ∧ (t = [] ∨ IsNumber t)) ↔ Bounded lo hi t := within_iff

theorem within_typed {lo hi : Int} (i : Nat) (h : (queryOf v f)[i]? = some (k, txt v key)) :
    within lo hi ((kept (queryOf v f)).get? k) = bounded lo hi (typed v key) := by
  rw [get?_typed i h]
  rfl

theorem get?_otherThan {word : String} (i : Nat)
    (h : (queryOf v f)[i]? = some (k, otherThan v key word)) :
    (kept (queryOf v f)).get? k =
      if v key = some word ∨ typed v key = [] then none else some (typed v key) := by
  rw [get?_query (names_query f) (List.mem_of_getElem? h), otherThan]
  by_cases hw : v key = some word
  · rw [if_pos (.inl hw), hw, Option.bind_some, if_pos rfl]
    rfl
  · have he : ((v key).bind fun s => if s = word then none else some s.toList) = txt v key := by
      cases hv : v key with
      | none => rw [txt, hv]; rfl
      | some s =>
        rw [Option.bind_some, if_neg fun hs => hw (by rw [hv, hs]), txt, hv]
        rfl
    rw [he, value_txt]
    simp [hw]

/-- The version that is read, which is the third where there is none. -/
def versionRead (v : Values) : Int :=
  within 1 3 (if v "version" = some "3" ∨ typed v "version" = [] then none
    else some (typed v "version"))

theorem masque_read (hr : Ready .masque v) (hs : ServerRead v)
    (h : parseMasque e (body v .masque) = some c) :
    c = { Entered.masque v e with
      mode := toString (if versionRead v = 0 then 3 else versionRead v)
      path := text (pctDecode e.skip (typed v "path"))
      mtu := bounded 1280 9000 (typed v "mtu") } := by
  have hserved := hs.served (hr.server (by simp [Form.fields]))
  have hread : splitHostPortOrDefault (afterLast '@'
      (before_server v .masque ++ hostPort (raw v "server") (raw v "port"))) 443 =
      some (typed v "server", number (typed v "port")) := read_body (f := .masque) hserved hs.host
  obtain ⟨huser, hpass⟩ := user_body (e := e) (f := .masque) hserved rfl
  have hversion : within 1 3 ((kept (queryOf v .masque)).get? "version") = versionRead v := by
    rw [get?_otherThan 0 rfl]
    rfl
  have hpath : (kept (queryOf v .masque)).get "path" = typed v "path" :=
    get_typed 1 rfl
  have hsni : (kept (queryOf v .masque)).get "sni" = typed v "sni" :=
    get_typed 2 rfl
  have halpn : (kept (queryOf v .masque)).get "alpn" = typed v "alpn" :=
    get_typed 3 rfl
  have hfp : (kept (queryOf v .masque)).get "fp" = typed v "fp" :=
    get_typed 4 rfl
  have hpin : (kept (queryOf v .masque)).get "pin" = typed v "pin" :=
    get_typed 5 rfl
  have hmtu : within 1280 9000 ((kept (queryOf v .masque)).get? "mtu") =
      bounded 1280 9000 (typed v "mtu") := within_typed 6 rfl
  have hinsecure : insecure (kept (queryOf v .masque)) = on v "insecure" :=
    insecure_on 7 rfl (by decide) (by decide)
  unfold parseMasque at h
  rw [split_body hserved] at h
  dsimp only at h
  rw [hread, Option.bind_eq_bind, Option.bind_some] at h
  dsimp only at h
  rw [Option.ite_none_right_eq_some] at h
  rw [← Option.some.inj h.2, huser, hpass, hversion, hpath, hsni, halpn, hfp, hpin, hmtu, hinsecure]
  rw [Entered.masque]

theorem filled_body (h : Served (raw v "server") (raw v "port") n)
    (hh : Host (typed v "server")) (hf : reading f = .filled) :
    ∃ u, splitUserHostPort
      (withPort (before_server v f ++ hostPort (raw v "server") (raw v "port"))) =
        some (u, typed v "server", n) := by
  have hr := read_body (f := f) h hh
  rw [hf, Reading.read, Option.map_eq_some_iff] at hr
  obtain ⟨⟨u, a, m⟩, hs, he⟩ := hr
  cases he
  exact ⟨u, hs⟩

/-- The way to log in for a text in lower case. -/
def authOf (auth : Chars) : String :=
  if auth = "pap".toList ∨ auth = "mschapv2".toList then text auth else "auto"

/-- The way to log in, as the parser takes it from the link. -/
def authRead (v : Values) : String :=
  authOf (Awg.ConfigParser.lowercase
    (if v "auth" = some "auto" ∨ typed v "auth" = [] then [] else typed v "auth"))

theorem sstp_read (hr : Ready .sstp v) (hs : ServerRead v)
    (h : parseSstp e (body v .sstp) = some c) :
    c = { Entered.sstp v e with
      method := authRead v
      mtu := bounded 576 1500 (typed v "mtu") } := by
  have hserved := hs.served (hr.server (by simp [Form.fields]))
  obtain ⟨u, hread⟩ := filled_body (f := .sstp) hserved hs.host rfl
  obtain ⟨huser, hpass⟩ := user_body (e := e) (f := .sstp) hserved rfl
  have hauth : (kept (queryOf v .sstp)).get "auth" =
      if v "auth" = some "auto" ∨ typed v "auth" = [] then [] else typed v "auth" := by
    rw [Query.get, get?_otherThan 0 rfl]
    split <;> rfl
  have hsni : (kept (queryOf v .sstp)).get "sni" = typed v "sni" :=
    get_typed 1 rfl
  have hpin : (kept (queryOf v .sstp)).get "pin" = typed v "pin" :=
    get_typed 2 rfl
  have hmtu : within 576 1500 ((kept (queryOf v .sstp)).get? "mtu") =
      bounded 576 1500 (typed v "mtu") := within_typed 3 rfl
  have hinsecure : insecure (kept (queryOf v .sstp)) = on v "insecure" :=
    allow_insecure_on 4 rfl (by decide) (by decide)
  unfold parseSstp at h
  rw [split_body hserved] at h
  dsimp only at h
  rw [hread, Option.bind_eq_bind, Option.bind_some] at h
  dsimp only at h
  rw [Option.ite_none_right_eq_some] at h
  rw [← Option.some.inj h.2, huser, hpass, hauth, hsni, hpin, hmtu, hinsecure]
  rw [Entered.sstp, authRead, authOf]

theorem softether_read (hr : Ready .softether v) (hs : ServerRead v)
    (h : parseSoftEther e (body v .softether) = some c) :
    c = { Entered.softether v e with mtu := bounded 576 1500 (typed v "mtu") } := by
  have hserved := hs.served (hr.server (by simp [Form.fields]))
  obtain ⟨u, hread⟩ := filled_body (f := .softether) hserved hs.host rfl
  obtain ⟨huser, hpass⟩ := user_body (e := e) (f := .softether) hserved rfl
  have hhub : ShareLink.ifBlank ((kept (queryOf v .softether)).get "hub") "DEFAULT".toList =
      typed v "hub" := by
    have hne : typed v "hub" ≠ [] := hr.default (s := "DEFAULT") (by decide)
    rw [get_typed 0 rfl, ShareLink.ifBlank, typed_not_blank hne]
    rfl
  have hplain : Text.equalsIgnoreCase (text ((kept (queryOf v .softether)).get "auth")) "plain" =
      on v "plain" := by
    have hmem : ("auth", if on v "plain" then some "plain".toList else none) ∈
        queryOf v .softether := List.mem_of_getElem? (i := 1) rfl
    rw [Query.get, get?_query (names_query _) hmem]
    cases on v "plain" with
    | true => decide
    | false => decide
  have hsni : (kept (queryOf v .softether)).get "sni" = typed v "sni" :=
    get_typed 2 rfl
  have hpin : (kept (queryOf v .softether)).get "pin" = typed v "pin" :=
    get_typed 3 rfl
  have hinsecure : insecure (kept (queryOf v .softether)) = on v "insecure" :=
    allow_insecure_on 4 rfl (by decide) (by decide)
  have hmtu : within 576 1500 ((kept (queryOf v .softether)).get? "mtu") =
      bounded 576 1500 (typed v "mtu") := within_typed 8 rfl
  unfold parseSoftEther at h
  rw [split_body hserved] at h
  dsimp only at h
  rw [hread, Option.bind_eq_bind, Option.bind_some] at h
  dsimp only at h
  rw [Option.ite_none_right_eq_some] at h
  rw [← Option.some.inj h.2, huser, hpass, hhub, hplain, hsni, hpin, hmtu, hinsecure]
  simp only [List.foldl_cons, List.foldl_nil]
  rw [putText_typed _ "ip" 5 rfl, putText_typed _ "gw" 6 rfl, putText_typed _ "dns" 7 rfl]
  rw [Entered.softether, Entered.softetherExtra]

/-! ## What is kept -/

/-- The forms whose profile holds each text in a field of its own. -/
def plain : List Form := [.sstp, .softether, .tuic, .hysteria2, .masque, .anytls]

/-- The parser takes over the texts that it does not copy. -/
def Verbatim (e : Env) (v : Values) : Form → Prop
  | .sstp => text (typed v "auth") ∈ ["auto", "pap", "mschapv2"] ∧
      Bounded 576 1500 (typed v "mtu")
  | .softether => Bounded 576 1500 (typed v "mtu")
  | .tuic => lowercase e (typed v "cc") = text (typed v "cc")
  | .masque => text (typed v "version") ∈ ["1", "2", "3"] ∧
      pctDecode e.skip (typed v "path") = typed v "path" ∧ Bounded 1280 9000 (typed v "mtu")
  | _ => True

theorem text_eq_iff {s : String} : text t = s ↔ t = s.toList := by
  constructor
  · rintro rfl
    exact (String.toList_ofList).symm
  · rintro rfl
    exact String.ofList_toList

theorem authOf_mem (auth : Chars) : authOf auth ∈ ["auto", "pap", "mschapv2"] := by
  unfold authOf
  split
  · next h =>
    rcases h with h | h
    · rw [h]
      decide
    · rw [h]
      decide
  · decide

theorem typed_of_some {s : String} (h : v key = some s) : typed v key = trim s.toList := by
  rw [typed, raw, h]
  rfl

theorem authRead_eq_iff : authRead v = text (typed v "auth") ↔
    text (typed v "auth") ∈ ["auto", "pap", "mschapv2"] := by
  refine ⟨fun h => h ▸ authOf_mem _, fun h => ?_⟩
  simp only [List.mem_cons, List.not_mem_nil, or_false, text_eq_iff] at h
  unfold authRead
  by_cases hc : v "auth" = some "auto" ∨ typed v "auth" = []
  · have ht : typed v "auth" = "auto".toList := by
      rcases hc with hc | hc
      · rw [typed_of_some hc]
        decide
      · rw [hc] at h
        exact absurd h (by decide)
    rw [if_pos hc, ht]
    decide
  · rw [if_neg hc]
    rcases h with h | h | h
    all_goals
      rw [h]
      decide

theorem versionRead_le : versionRead v = 0 ∨ 1 ≤ versionRead v ∧ versionRead v ≤ 3 := by
  unfold versionRead within
  split
  · split
    · exact .inr ‹_›
    · exact .inl rfl
  · exact .inl rfl

theorem versionRead_eq_iff (hne : typed v "version" ≠ []) :
    toString (if versionRead v = 0 then 3 else versionRead v) = text (typed v "version") ↔
      text (typed v "version") ∈ ["1", "2", "3"] := by
  constructor
  · intro h
    rw [← h]
    rcases @versionRead_le v with h0 | ⟨h1, h3⟩
    · rw [h0]
      decide
    · generalize versionRead v = n at h1 h3
      obtain rfl | rfl | rfl : n = 1 ∨ n = 2 ∨ n = 3 := by omega
      all_goals decide
  · intro h
    simp only [List.mem_cons, List.not_mem_nil, or_false, text_eq_iff] at h
    unfold versionRead
    by_cases hc : v "version" = some "3" ∨ typed v "version" = []
    · have ht : typed v "version" = "3".toList := by
        rw [typed_of_some (hc.resolve_right hne)]
        decide
      rw [if_pos hc, ht]
      decide
    · rw [if_neg hc]
      rcases h with h | h | h
      all_goals
        rw [h]
        decide

/-- Server and port of the profile are what was typed if and only if the server has no separator
and the port is a number. -/
theorem served_address (hf : f ∈ served) (h : build e f.id input = .ok c) :
    (IsNumber (typed (f.values input) "port") ∧
      c.address = text (typed (f.values input) "server") ∧
      c.port = number (typed (f.values input) "port")) ↔ ServerRead (f.values input) := by
  obtain ⟨hm, c', hp, hc⟩ := build_served hf h
  have hready := ready_values hm
  have hne : typed (f.values input) "server" ≠ [] := by
    refine hready.server ?_
    revert hf
    cases f <;> simp [served, Form.fields]
  have hcert : c.address = c'.address ∧ c.port = c'.port := by
    rw [hc]
    split
    · unfold withCertificate
      split <;> exact ⟨rfl, rfl⟩
    · exact ⟨rfl, rfl⟩
  rw [hcert.1, hcert.2]
  constructor
  · rintro ⟨hport, ha, -⟩
    exact serverRead_of hf hne hport hp ha
  · intro hs
    obtain ⟨a, m, hread, ha, hport⟩ := parser_reads hf hp
    have hserved := hs.served hne
    rw [split_body hserved] at hread
    dsimp only at hread
    rw [read_body hserved hs.host] at hread
    cases hread
    exact ⟨hs.port, ha, hport⟩

theorem forall_numbers {P : Chars → Prop} (hp : P (typed v "port")) (hm : P (typed v "mtu"))
    (hf : f ∈ plain) : ∀ t ∈ f.numbers v, P t := by
  have hall : f.numbers v = [typed v "port"] ∨ f.numbers v = [typed v "port", typed v "mtu"] := by
    revert hf
    cases f <;> simp [plain, Form.numbers]
  intro t ht
  rcases hall with h | h
  · rw [h] at ht
    rw [List.mem_singleton.1 ht]
    exact hp
  · rw [h] at ht
    simp only [List.mem_cons, List.not_mem_nil, or_false] at ht
    rcases ht with rfl | rfl
    · exact hp
    · exact hm

theorem sstp_kept (hr : Ready .sstp v) (hs : ServerRead v)
    (h : parseSstp e (body v .sstp) = some c) : Kept v e c .sstp ↔ Verbatim e v .sstp := by
  obtain rfl := sstp_read hr hs h
  constructor
  · rintro ⟨hh, hn⟩
    have hmtu := hn (typed v "mtu") (List.mem_cons_of_mem _ List.mem_cons_self)
    have hmethod := congrArg ProxyConfig.method (show _ = Entered.sstp v e from hh)
    have hbound := congrArg ProxyConfig.mtu (show _ = Entered.sstp v e from hh)
    simp only [Entered.sstp] at hmethod hbound
    exact ⟨authRead_eq_iff.1 hmethod, bounded_iff.1 ⟨hbound, hmtu⟩⟩
  · rintro ⟨ha, hb⟩
    obtain ⟨hb, hn⟩ := bounded_iff.2 hb
    rw [authRead_eq_iff.2 ha, hb]
    refine ⟨?_, forall_numbers (.inr hs.port) hn (by decide)⟩
    change _ = Entered.sstp v e
    rw [Entered.sstp]

theorem softether_kept (hr : Ready .softether v) (hs : ServerRead v)
    (h : parseSoftEther e (body v .softether) = some c) :
    Kept v e c .softether ↔ Verbatim e v .softether := by
  obtain rfl := softether_read hr hs h
  constructor
  · rintro ⟨hh, hn⟩
    have hmtu := hn (typed v "mtu") (List.mem_cons_of_mem _ List.mem_cons_self)
    have hbound := congrArg ProxyConfig.mtu (show _ = Entered.softether v e from hh)
    simp only [Entered.softether] at hbound
    exact bounded_iff.1 ⟨hbound, hmtu⟩
  · intro hb
    obtain ⟨hb, hn⟩ := bounded_iff.2 hb
    rw [hb]
    refine ⟨?_, forall_numbers (.inr hs.port) hn (by decide)⟩
    change _ = Entered.softether v e
    rw [Entered.softether]

theorem masque_kept (hr : Ready .masque v) (hs : ServerRead v)
    (h : parseMasque e (body v .masque) = some c) : Kept v e c .masque ↔ Verbatim e v .masque := by
  have hne : typed v "version" ≠ [] := hr.default (s := "3") (by decide)
  obtain rfl := masque_read hr hs h
  constructor
  · rintro ⟨hh, hn⟩
    have hmtu := hn (typed v "mtu") (List.mem_cons_of_mem _ List.mem_cons_self)
    have hmode := congrArg ProxyConfig.mode (show _ = Entered.masque v e from hh)
    have hpath := congrArg ProxyConfig.path (show _ = Entered.masque v e from hh)
    have hbound := congrArg ProxyConfig.mtu (show _ = Entered.masque v e from hh)
    simp only [Entered.masque] at hmode hpath hbound
    exact ⟨(versionRead_eq_iff hne).1 hmode, String.ofList_injective hpath,
      bounded_iff.1 ⟨hbound, hmtu⟩⟩
  · rintro ⟨hv, hpath, hb⟩
    obtain ⟨hb, hn⟩ := bounded_iff.2 hb
    rw [(versionRead_eq_iff hne).2 hv, hpath, hb]
    refine ⟨?_, forall_numbers (.inr hs.port) hn (by decide)⟩
    change _ = Entered.masque v e
    rw [Entered.masque]

theorem tuic_kept (he : lowercase e [] = "") (hr : Ready .tuic v) (hs : ServerRead v)
    (h : parseTuic e (body v .tuic) = some c) : Kept v e c .tuic ↔ Verbatim e v .tuic := by
  obtain rfl := tuic_read hr hs h
  rw [he]
  constructor
  · rintro ⟨hh, -⟩
    have hmethod := congrArg ProxyConfig.method (show _ = Entered.tuic v e from hh)
    simp only [Entered.tuic] at hmethod
    exact hmethod
  · intro hcc
    rw [show lowercase e (typed v "cc") = text (typed v "cc") from hcc]
    refine ⟨?_, fun t ht => ?_⟩
    · change _ = Entered.tuic v e
      rw [Entered.tuic]
    · rw [List.mem_singleton.1 ht]
      exact .inr hs.port

theorem kept_read (hf : f ∈ plain) (he : lowercase e [] = "") (hr : Ready f v) (hs : ServerRead v)
    (h : parserOf e f (body v f) = some c) : Kept v e c f ↔ Verbatim e v f := by
  cases f
  case sstp => exact sstp_kept hr hs h
  case softether => exact softether_kept hr hs h
  case tuic => exact tuic_kept he hr hs h
  case masque => exact masque_kept hr hs h
  case hysteria2 =>
    refine iff_of_true ⟨hysteria2_read hr hs h, fun t ht => ?_⟩ trivial
    rw [List.mem_singleton.1 ht]
    exact .inr hs.port
  case anytls =>
    refine iff_of_true ⟨anytls_read hr hs h, fun t ht => ?_⟩ trivial
    rw [List.mem_singleton.1 ht]
    exact .inr hs.port
  all_goals
    simp [plain] at hf

/-- What is kept says what the server is. -/
theorem Kept.address (hf : f ∈ plain) (hk : Kept v e c f) :
    c.address = text (typed v "server") ∧ c.port = number (typed v "port") ∧
      (typed v "port" = [] ∨ IsNumber (typed v "port")) := by
  obtain ⟨hh, hn⟩ := hk
  cases f
  case sstp =>
    rw [show c = Entered.sstp v e from hh]
    refine ⟨?_, ?_, hn _ List.mem_cons_self⟩
    all_goals rw [Entered.sstp]
  case softether =>
    rw [show c = Entered.softether v e from hh]
    refine ⟨?_, ?_, hn _ List.mem_cons_self⟩
    all_goals rw [Entered.softether]
  case tuic =>
    rw [show c = Entered.tuic v e from hh]
    refine ⟨?_, ?_, hn _ List.mem_cons_self⟩
    all_goals rw [Entered.tuic]
  case hysteria2 =>
    rw [show c = Entered.hysteria2 v e from hh]
    refine ⟨?_, ?_, hn _ List.mem_cons_self⟩
    all_goals rw [Entered.hysteria2]
  case masque =>
    rw [show c = Entered.masque v e from hh]
    refine ⟨?_, ?_, hn _ List.mem_cons_self⟩
    all_goals rw [Entered.masque]
  case anytls =>
    rw [show c = Entered.anytls v e from hh]
    refine ⟨?_, ?_, hn _ List.mem_cons_self⟩
    all_goals rw [Entered.anytls]
  all_goals
    simp [plain] at hf

/-- Everything typed is kept, and no text changes another field, if and only if the server has no
separator, the port is a number, and the parser takes over what it does not copy. -/
theorem kept_iff (hf : f ∈ plain) (he : lowercase e [] = "") (h : build e f.id input = .ok c) :
    Kept (f.values input) e c f ↔
      ServerRead (f.values input) ∧ Verbatim e (f.values input) f := by
  have hserved : f ∈ served ∧ f ≠ .openconnect ∧ f.default? "port" = some "443" := by
    revert hf
    cases f
    all_goals decide
  obtain ⟨hm, c', hp, hc⟩ := build_served hserved.1 h
  rw [if_neg hserved.2.1] at hc
  subst hc
  have hready := ready_values hm
  constructor
  · intro hk
    obtain ⟨ha, hport, hnum⟩ := hk.address hf
    have hs : ServerRead (f.values input) := (served_address hserved.1 h).1
      ⟨hnum.resolve_left (hready.default hserved.2.2), ha, hport⟩
    exact ⟨hs, (kept_read hf he hready hs hp).1 hk⟩
  · rintro ⟨hs, hv⟩
    exact (kept_read hf he hready hs hp).2 hv

end Served

/-! ## A form with separators in its password -/

/-- Texts of ASCII. -/
def someEnv : Env where
  platform := ⟨fun _ => none, String.toInt?,
    fun s => text (Awg.ConfigParser.lowercase s.toList), 0, 0, 0⟩
  skip := fun _ => 1
  uriHost := fun _ => none
  other := fun _ => none
  fresh := "id"

def someInput : Values := fun k =>
  if k = "server" then some "a.b" else if k = "pass" then some "p@#%" else none

theorem someInput_builds : (build someEnv "anytls" someInput).isOk = true := by decide

theorem someInput_read : ServerRead (Form.anytls.values someInput) := by
  have hserver : typed (Form.anytls.values someInput) "server" = ['a', '.', 'b'] := by decide
  refine ⟨?_, ?_, by decide⟩
  · simp [hserver, Unseparated]
  · simp [hserver, Host]

theorem served_address_one : ∃ c, build someEnv "anytls" someInput = .ok c ∧
    c.address = text (typed (Form.anytls.values someInput) "server") := by
  cases hb : build someEnv "anytls" someInput with
  | error m =>
    have h := someInput_builds
    rw [hb] at h
    cases h
  | ok c => exact ⟨c, rfl, ((served_address (f := .anytls) (by decide) hb).2 someInput_read).2.1⟩

theorem kept_iff_one : ∃ c, build someEnv "anytls" someInput = .ok c ∧
    Kept (Form.anytls.values someInput) someEnv c .anytls := by
  cases hb : build someEnv "anytls" someInput with
  | error m =>
    have h := someInput_builds
    rw [hb] at h
    cases h
  | ok c =>
    exact ⟨c, rfl, (kept_iff (f := .anytls) (by decide) (by decide) hb).2 ⟨someInput_read, trivial⟩⟩

end Ghajar.ProtocolForms
