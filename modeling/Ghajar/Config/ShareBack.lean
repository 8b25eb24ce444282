import Mathlib
import Ghajar.Config.ShareRead

/-!
# What comes back of a shared profile

A link is read as the very profile it was written from under conditions that are exact
(`shared_iff`), and a profile that is passed on and on loses nothing after the first time
(`passed_on`).
-/

namespace Ghajar.ConfigShare

open Ghajar ShareLink LinkParsers

/-! ## What comes back -/

/-- The texts, the numbers and the flag that the reader of a link fills in. -/
def fields (c : ProxyConfig) : List String × List Int × Bool :=
  let server := [c.name, c.protocol, c.address, c.security, c.password, c.sni]
  match c.protocol with
  | "hysteria2" => (server ++ [c.host, c.alpn, c.hyObfs, c.hyObfsPassword],
      [c.port, c.hyUpMbps, c.hyDownMbps], c.allowInsecure)
  | "tuic" => (server ++ [c.uuid, c.alpn, c.method, c.mode], [c.port], c.allowInsecure)
  | "masque" => (server ++ [c.uuid, c.mode, c.path, c.alpn, c.fingerprint, c.pinnedCertSha256],
      [c.port, c.mtu], c.allowInsecure)
  | "anytls" => (server ++ [c.alpn, c.fingerprint], [c.port], c.allowInsecure)
  | "naive" => (server ++ [c.uuid, c.mode], [c.port], false)
  | "sstp" => (server ++ [c.uuid, c.method, c.pinnedCertSha256], [c.port, c.mtu], c.allowInsecure)
  | _ => (server, [c.port], false)

/-- What a profile of each protocol must not have for its link to lose it. -/
def Faithful (e : Env) (c : ProxyConfig) : Prop :=
  match c.protocol with
  | "hysteria2" => c.host = "" ∧ (c.hyObfsPassword = "" ↔ c.hyObfs = "") ∧
      0 ≤ c.hyUpMbps ∧ 0 ≤ c.hyDownMbps
  | "tuic" => ' ' ∉ c.uuid.toList ∧ e.platform.lowercase c.method = c.method ∧
      e.platform.lowercase c.mode = c.mode
  | "masque" => ' ' ∉ c.uuid.toList ∧ c.mode ∈ ["3", "1", "2"] ∧
      pctDecode e.skip c.path.toList = c.path.toList ∧
        (c.mtu = 0 ∨ 1280 ≤ c.mtu ∧ c.mtu ≤ 9000)
  | "anytls" => c.alpn = ""
  | "naive" => ' ' ∉ c.uuid.toList ∧ c.sni ≠ "" ∧ c.mode ∈ ["https", "quic", "quic"]
  | "sstp" => ' ' ∉ c.uuid.toList ∧ c.method ∈ ["auto", "pap", "mschapv2"] ∧
      (c.mtu = 0 ∨ 576 ≤ c.mtu ∧ c.mtu ≤ 1500)
  | _ => True

section Back

variable {e : Env} {c : ProxyConfig} {other : ProxyConfig → Chars} {s t : String}

theorem secret_iff : Carried.secret s = s ↔ ' ' ∉ s.toList := by
  rw [← plused_eq_iff, Carried.secret, ProtocolForms.text_eq_iff]

theorem nameOr_iff (hne : t ≠ "") (ht : trim t.toList = t.toList) :
    Carried.nameOr t s = s ↔ s ≠ "" ∧ trim s.toList = s.toList := by
  rw [Carried.nameOr, ProtocolForms.text_eq_iff, ShareLink.ifEmpty]
  by_cases hn : trim s.toList = []
  · rw [if_pos hn]
    constructor
    · intro he
      rw [← he, ht] at hn
      exact absurd (String.toList_eq_nil_iff.1 hn) hne
    · rintro ⟨hc, he⟩
      rw [he] at hn
      exact absurd (String.toList_eq_nil_iff.1 hn) hc
  · rw [if_neg hn]
    refine ⟨fun he => ⟨fun hc => hn ?_, he⟩, fun h => h.2⟩
    rw [hc]
    rfl

theorem bounded_iff {lo hi n : Int} : Carried.bounded lo hi n = n ↔ n = 0 ∨ lo ≤ n ∧ n ≤ hi := by
  unfold Carried.bounded
  split
  · next h => exact ⟨fun _ => .inr h, fun _ => rfl⟩
  · next h => exact ⟨fun he => .inl he.symm, fun he => (he.resolve_right h).symm⟩

theorem speed_iff {n : Int} : Carried.speed n = n ↔ 0 ≤ n := by
  unfold Carried.speed
  split <;> omega

theorem ifEmpty_iff (ht : t ≠ "") : s.ifEmpty t = s ↔ s ≠ "" := by
  unfold String.ifEmpty
  by_cases hs : s = ""
  · rw [if_pos hs, hs]
    exact ⟨fun h => absurd h ht, fun h => absurd rfl h⟩
  · rw [if_neg hs]
    exact ⟨fun _ => hs, fun _ => rfl⟩

theorem obfs_iff : Carried.obfs s t = t ↔ (s = "" ↔ t = "") := by
  unfold Carried.obfs
  by_cases hs : s = ""
  · rw [if_pos hs]
    exact ⟨fun h => ⟨fun _ => h.symm, fun _ => hs⟩, fun h => (h.1 hs).symm⟩
  · rw [if_neg hs, ifEmpty_iff (by decide)]
    exact ⟨fun h => ⟨fun h' => absurd h' hs, fun h' => absurd h' h⟩, fun h ht => hs (h.2 ht)⟩

theorem choice_iff {a b d : String} : Carried.choice a b d s = s ↔ s ∈ [d, a, b] := by
  unfold Carried.choice
  simp only [List.mem_cons, List.not_mem_nil, or_false]
  split
  · next h => exact ⟨fun _ => .inr h, fun _ => rfl⟩
  · next h => exact ⟨fun he => .inl he.symm, fun he => (he.resolve_right h).symm⟩

/-- The link of a profile is read as the profile itself if and only if the name has no blanks at its
ends, there is no space in user and password, and the protocol loses nothing. -/
theorem shared_iff (h : Shareable c) :
    (parse e (toLink other c)).map fields = some (fields c) ↔
      (c.name ≠ "" ∧ trim c.name.toList = c.name.toList) ∧ c.security = "tls" ∧
        ' ' ∉ c.password.toList ∧ Faithful e c := by
  have hp := h.protocol
  simp only [shared, List.mem_cons, List.not_mem_nil, or_false] at hp
  rw [carried_read h, Option.map_some, Option.some_inj]
  rcases hp with hp | hp | hp | hp | hp | hp
  · have hf : fields (carried e c) = fields (Carried.hysteria2 e c) := by simp [carried, hp]
    rw [hf]
    simp only [fields, Carried.hysteria2, hp, Faithful, Prod.mk.injEq, List.cons_append,
      List.nil_append, List.cons.injEq, true_and, and_true,
      nameOr_iff (t := "Hysteria2") (by decide) (by decide), secret_iff,
      @eq_comm _ "tls" c.security,
      speed_iff, obfs_iff, @eq_comm _ "" c.host]
    tauto
  · have hf : fields (carried e c) = fields (Carried.tuic e c) := by simp [carried, hp]
    rw [hf]
    simp only [fields, Carried.tuic, hp, Faithful, Prod.mk.injEq, List.cons_append,
      List.nil_append, List.cons.injEq, true_and, and_true,
      nameOr_iff (t := "TUIC") (by decide) (by decide), secret_iff,
      @eq_comm _ "tls" c.security]
  · have hf : fields (carried e c) = fields (Carried.masque e c) := by simp [carried, hp]
    rw [hf]
    simp only [fields, Carried.masque, hp, Faithful, Prod.mk.injEq, List.cons_append,
      List.nil_append, List.cons.injEq, true_and, and_true,
      nameOr_iff (t := "MASQUE") (by decide) (by decide), secret_iff,
      @eq_comm _ "tls" c.security,
      choice_iff, bounded_iff,
      ProtocolForms.text_eq_iff (t := pctDecode e.skip c.path.toList)]
    tauto
  · have hf : fields (carried e c) = fields (Carried.anytls e c) := by simp [carried, hp]
    rw [hf]
    simp only [fields, Carried.anytls, hp, Faithful, Prod.mk.injEq, List.cons_append,
      List.nil_append, List.cons.injEq, true_and, and_true,
      nameOr_iff (t := "AnyTLS") (by decide) (by decide), secret_iff,
      @eq_comm _ "tls" c.security,
      @eq_comm _ "" c.alpn]
  · have hf : fields (carried e c) = fields (Carried.naive e c) := by simp [carried, hp]
    rw [hf]
    simp only [fields, Carried.naive, hp, Faithful, Prod.mk.injEq, List.cons_append,
      List.nil_append, List.cons.injEq, true_and, and_true,
      nameOr_iff (t := "NaiveProxy") (by decide) (by decide), secret_iff,
      @eq_comm _ "tls" c.security,
      choice_iff, ifEmpty_iff h.some]
    tauto
  · have hf : fields (carried e c) = fields (Carried.sstp e c) := by simp [carried, hp]
    rw [hf]
    simp only [fields, Carried.sstp, hp, Faithful, Prod.mk.injEq, List.cons_append,
      List.nil_append, List.cons.injEq, true_and, and_true,
      nameOr_iff (t := "SSTP") (by decide) (by decide), secret_iff,
      @eq_comm _ "tls" c.security,
      choice_iff, bounded_iff]
    tauto

/-! A profile that is passed on and on -/

/-- What is left of a profile after so many times of sharing and reading. -/
def passedOn (e : Env) (other : ProxyConfig → Chars) (c : ProxyConfig) : ℕ → Option ProxyConfig
  | 0 => some c
  | n + 1 => (passedOn e other c n).bind fun c => parse e (toLink other c)

theorem nameOr_again (ht : trim t.toList = t.toList) :
    Carried.nameOr t (Carried.nameOr t s) = Carried.nameOr t s := by
  unfold Carried.nameOr text ShareLink.ifEmpty
  rw [String.toList_ofList]
  by_cases hn : trim s.toList = []
  · rw [if_pos hn, ht]
    split <;> rfl
  · rw [if_neg hn, trim_trim, if_neg hn]

theorem secret_again : Carried.secret (Carried.secret s) = Carried.secret s := by
  unfold Carried.secret text
  rw [String.toList_ofList, plused_plused]

theorem speed_again {n : Int} : Carried.speed (Carried.speed n) = Carried.speed n := by
  rw [speed_iff]
  unfold Carried.speed
  split <;> omega

theorem bounded_again {lo hi n : Int} :
    Carried.bounded lo hi (Carried.bounded lo hi n) = Carried.bounded lo hi n := by
  rw [bounded_iff]
  unfold Carried.bounded
  split
  · exact .inr ‹_›
  · exact .inl rfl

theorem obfs_again : Carried.obfs s (Carried.obfs s t) = Carried.obfs s t := by
  rw [obfs_iff]
  unfold Carried.obfs
  by_cases hs : s = ""
  · rw [if_pos hs]
    exact iff_of_true hs rfl
  · rw [if_neg hs]
    exact iff_of_false hs (ifEmpty_ne_nil (by decide))

theorem choice_again {a b d : String} :
    Carried.choice a b d (Carried.choice a b d s) = Carried.choice a b d s := by
  rw [choice_iff]
  unfold Carried.choice
  simp only [List.mem_cons, List.not_mem_nil, or_false]
  split
  · exact .inr ‹_›
  · exact .inl rfl

theorem ifEmpty_again : (s.ifEmpty t).ifEmpty t = s.ifEmpty t := by
  by_cases ht : t = ""
  · unfold String.ifEmpty
    rw [ht]
    split <;> rfl
  · exact (ifEmpty_iff ht).2 (ifEmpty_ne_nil ht)

theorem path_again {skip : Replaced} (h : pctDecode skip s.toList = s.toList) :
    text (pctDecode skip s.toList) = s := ProtocolForms.text_eq_iff.2 h

/-- What is read of a link is what its own link is read as. -/
theorem carried_again (h : Shareable c)
    (hl : ∀ s, e.platform.lowercase (e.platform.lowercase s) = e.platform.lowercase s)
    (hpath : c.protocol = "masque" → pctDecode e.skip c.path.toList = c.path.toList) :
    carried e (carried e c) = carried e c := by
  have hp := h.protocol
  simp only [shared, List.mem_cons, List.not_mem_nil, or_false] at hp
  rcases hp with hp | hp | hp | hp | hp | hp
  · have hf : carried e c = Carried.hysteria2 e c := by simp [carried, hp]
    have hf' : carried e (Carried.hysteria2 e c) =
        Carried.hysteria2 e (Carried.hysteria2 e c) := rfl
    rw [hf, hf']
    simp only [Carried.hysteria2, nameOr_again (t := "Hysteria2") (by decide), secret_again,
      speed_again, obfs_again]
  · have hf : carried e c = Carried.tuic e c := by simp [carried, hp]
    have hf' : carried e (Carried.tuic e c) = Carried.tuic e (Carried.tuic e c) := rfl
    rw [hf, hf']
    simp only [Carried.tuic, nameOr_again (t := "TUIC") (by decide), secret_again,
      hl]
  · have hf : carried e c = Carried.masque e c := by simp [carried, hp]
    have hf' : carried e (Carried.masque e c) = Carried.masque e (Carried.masque e c) := rfl
    rw [hf, hf']
    simp only [Carried.masque, nameOr_again (t := "MASQUE") (by decide), secret_again,
      choice_again, bounded_again, path_again (hpath hp)]
  · have hf : carried e c = Carried.anytls e c := by simp [carried, hp]
    have hf' : carried e (Carried.anytls e c) = Carried.anytls e (Carried.anytls e c) := rfl
    rw [hf, hf']
    simp only [Carried.anytls, nameOr_again (t := "AnyTLS") (by decide), secret_again]
  · have hf : carried e c = Carried.naive e c := by simp [carried, hp]
    have hf' : carried e (Carried.naive e c) = Carried.naive e (Carried.naive e c) := rfl
    rw [hf, hf']
    simp only [Carried.naive, nameOr_again (t := "NaiveProxy") (by decide), secret_again,
      choice_again, ifEmpty_again]
  · have hf : carried e c = Carried.sstp e c := by simp [carried, hp]
    have hf' : carried e (Carried.sstp e c) = Carried.sstp e (Carried.sstp e c) := rfl
    rw [hf, hf']
    simp only [Carried.sstp, nameOr_again (t := "SSTP") (by decide), secret_again,
      choice_again, bounded_again]

theorem bounded_le {lo hi n : Int} (h : n ≤ 2147483647) : Carried.bounded lo hi n ≤ 2147483647 := by
  unfold Carried.bounded
  split
  · exact h
  · decide

theorem speed_le {n : Int} (h : n ≤ 2147483647) : Carried.speed n ≤ 2147483647 := by
  unfold Carried.speed
  split
  · exact h
  · decide

theorem shareable_of {c' : ProxyConfig} (h : Shareable c) (ha : c'.address = c.address)
    (hport : c'.port = c.port) (hp : c'.protocol = c.protocol)
    (hu : c.protocol = "tuic" ∨ c.protocol = "sstp" → c'.uuid = Carried.secret c.uuid)
    (hs : c.protocol = "anytls" → c'.password = Carried.secret c.password)
    (hmtu : c'.mtu ≤ 2147483647)
    (hspeed : c'.hyUpMbps ≤ 2147483647 ∧ c'.hyDownMbps ≤ 2147483647) : Shareable c' := by
  refine ⟨⟨?_, ?_, ?_, ?_, ?_⟩, ?_, fun hu' => ?_, fun hs' => ?_, hmtu, hspeed⟩
  · rw [ha]
    exact h.some
  · rw [ha]
    exact h.trimmed
  · rw [ha]
    exact h.chars
  · rw [ha]
    exact h.host
  · rw [hport]
    exact h.port
  · rw [hp]
    exact h.protocol
  · rw [hp] at hu'
    rw [hu hu']
    exact plused_not_blank (h.user hu')
  · rw [hp] at hs'
    rw [hs hs']
    exact plused_not_blank (h.password hs')

/-- A profile that was read can be shared again. -/
theorem carried_shareable (h : Shareable c) : Shareable (carried e c) := by
  have hp := h.protocol
  simp only [shared, List.mem_cons, List.not_mem_nil, or_false] at hp
  obtain ⟨hmtu, hspeed⟩ := h.numbers
  have hzero : (0 : Int) ≤ 2147483647 := by decide
  rcases hp with hp | hp | hp | hp | hp | hp
  · rw [show carried e c = Carried.hysteria2 e c by simp [carried, hp]]
    exact shareable_of h rfl rfl hp.symm (fun hu => absurd hu (by rw [hp]; decide))
      (fun hu => absurd hu (by rw [hp]; decide)) hzero ⟨speed_le hspeed.1, speed_le hspeed.2⟩
  · rw [show carried e c = Carried.tuic e c by simp [carried, hp]]
    exact shareable_of h rfl rfl hp.symm (fun _ => rfl)
      (fun hu => absurd hu (by rw [hp]; decide)) hzero ⟨hzero, hzero⟩
  · rw [show carried e c = Carried.masque e c by simp [carried, hp]]
    exact shareable_of h rfl rfl hp.symm (fun hu => absurd hu (by rw [hp]; decide))
      (fun hu => absurd hu (by rw [hp]; decide)) (bounded_le hmtu) ⟨hzero, hzero⟩
  · rw [show carried e c = Carried.anytls e c by simp [carried, hp]]
    exact shareable_of h rfl rfl hp.symm (fun hu => absurd hu (by rw [hp]; decide))
      (fun _ => rfl) hzero ⟨hzero, hzero⟩
  · rw [show carried e c = Carried.naive e c by simp [carried, hp]]
    exact shareable_of h rfl rfl hp.symm (fun hu => absurd hu (by rw [hp]; decide))
      (fun hu => absurd hu (by rw [hp]; decide)) hzero ⟨hzero, hzero⟩
  · rw [show carried e c = Carried.sstp e c by simp [carried, hp]]
    exact shareable_of h rfl rfl hp.symm (fun _ => rfl)
      (fun hu => absurd hu (by rw [hp]; decide)) (bounded_le hmtu) ⟨hzero, hzero⟩

/-- Sharing a profile again and again loses no more than sharing it once. -/
theorem passed_on (h : Shareable c)
    (hl : ∀ s, e.platform.lowercase (e.platform.lowercase s) = e.platform.lowercase s)
    (hpath : c.protocol = "masque" → pctDecode e.skip c.path.toList = c.path.toList) (n : ℕ) :
    passedOn e other c (n + 1) = some (carried e c) := by
  induction n with
  | zero => exact carried_read h
  | succ n ih =>
    rw [passedOn, ih, Option.bind_some, carried_read (carried_shareable h),
      carried_again h hl hpath]

end Back

/-! ## A profile with a space in its password -/

def someProfile : ProxyConfig :=
  { name := "n"
    protocol := "anytls"
    address := "a.b"
    port := 443
    password := "p w#"
    security := "tls"
    id := "id" }

theorem someProfile_shareable : Shareable someProfile := by
  have haddr : someProfile.address.toList = ['a', '.', 'b'] := by decide
  refine ⟨⟨by decide, ?_, ?_, ?_, by decide⟩, by decide, fun h => absurd h (by decide),
    fun _ => by decide, by decide⟩
  · rw [haddr]
    decide
  · simp [haddr, Unseparated]
  · simp [haddr, Host]

theorem toLower_ne {c d : Char} (hd : d.isLower = false) (hc : c ≠ d) : c.toLower ≠ d := by
  by_cases hu : c.isUpper = true
  · intro he
    have hl := Char.isLower_toLower_eq_isAlpha c
    rw [he, hd, Char.isAlpha, hu] at hl
    cases hl
  · rw [Char.toLower_eq_of_not_isUpper hu]
    exact hc

/-- Text in lower case is left as it is. -/
theorem lowercase_lowercase (cs : Chars) :
    Awg.ConfigParser.lowercase (Awg.ConfigParser.lowercase cs) = Awg.ConfigParser.lowercase cs := by
  unfold Awg.ConfigParser.lowercase
  rw [List.flatMap_assoc]
  refine List.flatMap_congr fun c _ => ?_
  by_cases hi : c = '\u0130'
  · rw [if_pos hi]
    decide
  by_cases hk : c = '\u212A'
  · rw [if_neg hi, if_pos hk]
    decide
  have hfix : c.toLower.toLower = c.toLower :=
    Char.toLower_eq_of_not_isUpper (by rw [Char.isUpper_toLower_eq_false]; decide)
  rw [if_neg hi, if_neg hk, List.flatMap_singleton, if_neg (toLower_ne (by decide) hi),
    if_neg (toLower_ne (by decide) hk), hfix]

theorem someEnv_lowercase (s : String) :
    ProtocolForms.someEnv.platform.lowercase (ProtocolForms.someEnv.platform.lowercase s) =
      ProtocolForms.someEnv.platform.lowercase s := by
  change text (Awg.ConfigParser.lowercase (text (Awg.ConfigParser.lowercase s.toList)).toList) = _
  rw [text, text, String.toList_ofList, lowercase_lowercase]
  rfl

theorem shared_iff_one :
    (parse ProtocolForms.someEnv (toLink (fun _ => []) someProfile)).map fields ≠
      some (fields someProfile) := by
  intro he
  have h := ((shared_iff someProfile_shareable).1 he).2.2.1
  exact absurd h (by decide)

theorem passed_on_one : passedOn ProtocolForms.someEnv (fun _ => []) someProfile 3 =
    some (carried ProtocolForms.someEnv someProfile) :=
  passed_on someProfile_shareable someEnv_lowercase (fun h => absurd h (by decide)) 2

end Ghajar.ConfigShare
