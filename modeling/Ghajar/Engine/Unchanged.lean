import Ghajar.Engine.Sidecars
import Ghajar.Lib.Infix

/-!
# What the user entered, in the helper

Every placeholder that is replaced takes a brace away and none brings one (`verbatim_of_count`), so
a text comes through exactly when it holds none. The flags of a launch are those the helper parses
back (`sstp_line`, `softether_line`), each with its value.
-/

namespace Ghajar.Sidecar

open Ghajar Npv

/-- No placeholder stands in the text. -/
def Verbatim (s : String) : Prop := ∀ w ∈ [PORT2, PORT, DIR], ¬w.toList <:+: s.toList

/-- The text does not end in a line break. -/
def EndsPlain (s : String) : Prop := ∀ c ∈ s.toList.getLast?, c ≠ '\r' ∧ c ≠ '\n'

/-! ## Placeholders -/

section Replace

variable {w new s rest : List Char} {c : Char} {n : ℕ}

theorem replaceN_plain (hw : w ≠ []) (h : ¬w <:+: s) : replaceN w new n s = s := by
  cases n with
  | zero => rfl
  | succ n =>
    have hnone : Search.index w s = none :=
      (Search.index_eq_none hw).2 fun i hi => h (Search.infix_iff.2 ⟨i, hi⟩)
    rw [replaceN, hnone]

/-- A word is taken off the front. -/
theorem replaceN_front : replaceN w new (n + 1) (w ++ rest) = new ++ replaceN w new n rest := by
  have hzero : Search.index w (w ++ rest) = some 0 :=
    Search.index_eq_some.2 ⟨Nat.zero_le _, List.prefix_append _ _, fun j hj => absurd hj (by omega)⟩
  rw [replaceN, hzero]
  simp

/-- A character that the words have and what stands for them has not becomes rarer. -/
theorem count_replaceN (hw : c ∈ w) (hnew : c ∉ new) :
    (replaceN w new n s).count c ≤ s.count c ∧
      (w <:+: s → 0 < n → (replaceN w new n s).count c < s.count c) := by
  induction n generalizing s with
  | zero => exact ⟨Nat.le_refl _, fun _ h => absurd h (Nat.lt_irrefl 0)⟩
  | succ n ih =>
    rw [replaceN]
    cases hi : Search.index w s with
    | none =>
      refine ⟨Nat.le_refl _, fun h => absurd h fun h => ?_⟩
      obtain ⟨i, hat⟩ := Search.infix_iff.1 h
      exact (Search.index_eq_none (List.ne_nil_of_mem hw)).1 hi i hat
    | some i =>
      obtain ⟨-, ⟨t, ht⟩, -⟩ := Search.index_eq_some.1 hi
      have hs : s = s.take i ++ (w ++ s.drop (i + w.length)) := by
        rw [← List.drop_drop, ← ht, List.drop_left, ht, List.take_append_drop]
      have hcount : s.count c =
          (s.take i).count c + (w.count c + (s.drop (i + w.length)).count c) := by
        conv_lhs => rw [hs]
        simp only [List.count_append]
      have hpos : 0 < w.count c := List.count_pos_iff.2 hw
      have hrest := (@ih (s.drop (i + w.length))).1
      simp only [List.count_append, List.count_eq_zero.2 hnew]
      omega

end Replace

section Fill

variable {h : Host} {s : String}

theorem toList_replace (w new s : String) :
    (replace w new s).toList = replaceN w.toList new.toList s.toList.length s.toList := by
  simp [replace]

theorem brace_digits (n : ℕ) : '\x7b' ∉ (toString n).toList := by
  intro hm
  have hdigit := Nat.isDigit_of_mem_toDigits (by decide) (by decide) (Nat.toList_repr (n := n) ▸ hm)
  exact absurd hdigit (by decide)

theorem replace_plain {w new s : String} (hw : w.toList ≠ []) (h : ¬w.toList <:+: s.toList) :
    replace w new s = s := by
  rw [← String.toList_inj, toList_replace, replaceN_plain hw h]

theorem fill_of_verbatim (hs : Verbatim s) : fill h s = s := by
  have h2 := hs PORT2 (by simp)
  have h1 := hs PORT (by simp)
  have hd := hs DIR (by simp)
  rw [fill, replace_plain (by decide) h2, replace_plain (by decide) h1,
    replace_plain (by decide) hd]

theorem verbatim_of_brace (hs : '\x7b' ∉ s.toList) : Verbatim s := by
  intro w hw
  refine Infix.not_infix ?_ hs
  simp only [List.mem_cons, List.not_mem_nil, or_false] at hw
  rcases hw with rfl | rfl | rfl <;> decide

/-- Every placeholder that is replaced takes a brace away. -/
theorem verbatim_of_count (hc : s.toList.count '\x7b' ≤ (fill h s).toList.count '\x7b') :
    Verbatim s := by
  have hlen {t w : String} (ht : w.toList <:+: t.toList) (hw : w.toList ≠ []) :
      0 < t.toList.length := by
    have := List.length_pos_iff.2 hw
    have := ht.length_le
    omega
  have hle (w new t : String) (hw : '\x7b' ∈ w.toList) (hnew : '\x7b' ∉ new.toList) :
      (replace w new t).toList.count '\x7b' ≤ t.toList.count '\x7b' ∧
        (t.toList.count '\x7b' ≤ (replace w new t).toList.count '\x7b' →
          ¬w.toList <:+: t.toList) := by
    have := @count_replaceN w.toList new.toList t.toList '\x7b' t.toList.length hw hnew
    rw [toList_replace]
    refine ⟨this.1, fun hge hin => ?_⟩
    have := this.2 hin (hlen hin (List.ne_nil_of_mem hw))
    omega
  have h2 := hle PORT2 (toString h.port2.val) s (by decide) (brace_digits _)
  have h1 := hle PORT (toString h.port.val) (replace PORT2 (toString h.port2.val) s) (by decide)
    (brace_digits _)
  have hd := hle DIR h.dir (replace PORT (toString h.port.val)
    (replace PORT2 (toString h.port2.val) s)) (by decide) h.dir_plain
  unfold fill at hc
  have hno2 := h2.2 (by omega)
  rw [replace_plain (by decide) hno2] at h1 hd hc
  have hno1 := h1.2 (by omega)
  rw [replace_plain (by decide) hno1] at hd hc
  have hnod := hd.2 (by omega)
  intro w hw
  simp only [List.mem_cons, List.not_mem_nil, or_false] at hw
  rcases hw with rfl | rfl | rfl
  · exact hno2
  · exact hno1
  · exact hnod

theorem fill_eq_iff : fill h s = s ↔ Verbatim s :=
  ⟨fun he => verbatim_of_count (by rw [he]), fill_of_verbatim⟩

/-- A placeholder at the front. -/
theorem replace_front {w new rest : String} (hw : w.toList ≠ []) (h : ¬w.toList <:+: rest.toList) :
    replace w new (w ++ rest) = new ++ rest := by
  obtain ⟨n, hn⟩ : ∃ n, (w ++ rest).toList.length = n + 1 := by
    have := List.length_pos_iff.2 hw
    rw [String.toList_append, List.length_append]
    exact ⟨w.toList.length + rest.toList.length - 1, by omega⟩
  rw [← String.toList_inj, toList_replace, hn, String.toList_append, replaceN_front,
    replaceN_plain hw h, String.toList_append]

theorem fill_port : fill h PORT = toString h.port.val := by
  have h2 : replace PORT2 (toString h.port2.val) PORT = PORT :=
    replace_plain (by decide) (by decide)
  have h1 : replace PORT (toString h.port.val) (PORT ++ "") = toString h.port.val ++ "" :=
    replace_front (by decide) (by decide)
  rw [String.append_empty, String.append_empty] at h1
  rw [fill, h2, h1]
  exact replace_plain (by decide) (verbatim_of_brace (brace_digits _) DIR (by simp))

theorem fill_dir {rest : String} (hrest : '\x7b' ∉ rest.toList)
    (h2 : ¬PORT2.toList <:+: (DIR ++ rest).toList) (h1 : ¬PORT.toList <:+: (DIR ++ rest).toList) :
    fill h (DIR ++ rest) = h.dir ++ rest := by
  rw [fill, replace_plain (by decide) h2, replace_plain (by decide) h1]
  exact replace_front (by decide) (verbatim_of_brace hrest DIR (by simp))

end Fill

/-! ## Line breaks -/

section Trim

theorem ofNat_eq {v k : ℕ} (hv : v < 256) (hk : k < 256) (h : UInt8.ofNat v = UInt8.ofNat k) :
    v = k := by
  have := congrArg UInt8.toNat h
  simp only [UInt8.toNat_ofNat'] at this
  omega

/-- Only the two characters end in their bytes. -/
theorem last_byte {c : Char} (hc : ¬(c = '\r' ∨ c = '\n')) :
    ∀ x ∈ (String.utf8EncodeChar c).getLast?, ¬(x = 13 ∨ x = 10) := by
  have hhigh (v : ℕ) (k : ℕ) (hk : k < 128) : UInt8.ofNat (v % 64 + 128) ≠ UInt8.ofNat k := by
    intro h
    have := ofNat_eq (by omega) (by omega) h
    omega
  have hchar {d : Char} (h : c.val.toNat = d.val.toNat) : c = d :=
    Char.ext (UInt32.toNat_inj.1 h)
  intro x hx hbreak
  unfold String.utf8EncodeChar at hx
  dsimp only at hx
  split_ifs at hx with h1 h2 h3
  · cases hx
    rcases hbreak with h | h
    · exact hc (.inl (hchar (ofNat_eq (by omega) (by decide) h)))
    · exact hc (.inr (hchar (ofNat_eq (by omega) (by decide) h)))
  all_goals
    cases hx
    rcases hbreak with h | h
    · exact hhigh _ 13 (by decide) h
    · exact hhigh _ 10 (by decide) h

theorem trimRight_append_break {b : List UInt8} {x : UInt8} (hx : x = 13 ∨ x = 10) :
    trimRight (b ++ [x]) = trimRight b := by
  simp [trimRight, hx]

theorem trimRight_eq_self {b : List UInt8} (h : ∀ x ∈ b.getLast?, ¬(x = 13 ∨ x = 10)) :
    trimRight b = b := by
  cases hl : b.reverse with
  | nil => simp [trimRight, List.reverse_eq_nil_iff.1 hl]
  | cons x r =>
    have hx : ¬(x = 13 ∨ x = 10) := h x (by rw [← List.head?_reverse, hl]; rfl)
    rw [trimRight, hl, List.dropWhile_cons_of_neg (by simpa using hx), ← hl, List.reverse_reverse]

theorem encode_append (s t : List Char) :
    Utf8.encode (s ++ t) = Utf8.encode s ++ Utf8.encode t := List.flatMap_append

/-- The line breaks are cut off, and nothing else. -/
theorem trimRight_encode (s : List Char) :
    ∃ t breaks, s = t ++ breaks ∧ (∀ c ∈ breaks, c = '\r' ∨ c = '\n') ∧
      trimRight (Utf8.encode s) = Utf8.encode t ∧
        (s = t ↔ ∀ c ∈ s.getLast?, c ≠ '\r' ∧ c ≠ '\n') := by
  induction s using List.reverseRecOn with
  | nil => exact ⟨[], [], rfl, by simp, rfl, by simp⟩
  | append_singleton s c ih =>
    have hsingle : Utf8.encode [c] = String.utf8EncodeChar c := List.append_nil _
    by_cases hc : c = '\r' ∨ c = '\n'
    · obtain ⟨t, breaks, hs, hbreaks, htrim, -⟩ := ih
      have hbyte : ∃ x, Utf8.encode [c] = [x] ∧ (x = 13 ∨ x = 10) := by
        rcases hc with rfl | rfl
        · exact ⟨13, by decide, .inl rfl⟩
        · exact ⟨10, by decide, .inr rfl⟩
      obtain ⟨x, hx, hxb⟩ := hbyte
      refine ⟨t, breaks ++ [c], by rw [hs, List.append_assoc], fun d hd => ?_, ?_, ?_⟩
      · rcases List.mem_append.1 hd with hd | hd
        · exact hbreaks d hd
        · exact List.mem_singleton.1 hd ▸ hc
      · rw [encode_append, hx, trimRight_append_break hxb, htrim]
      · rw [hs, List.append_assoc]
        refine iff_of_false (by simp) fun h => ?_
        have := h c (by simp)
        tauto
    · refine ⟨s ++ [c], [], by simp, by simp, ?_, ?_⟩
      · refine trimRight_eq_self fun x hx => last_byte hc x ?_
        rw [encode_append, hsingle,
          List.getLast?_append_of_ne_nil _ (Utf8.utf8EncodeChar_ne_nil c)] at hx
        exact hx
      · simp only [true_iff]
        intro d hd
        have : d = c := by simpa using hd.symm
        subst this
        exact not_or.1 hc

theorem bytes_inj {s t : String} (h : bytes s = bytes t) : s = t := by
  have := congrArg (Utf8.decode fun _ => 1) h
  rw [bytes, bytes, Utf8.decode_encode, Utf8.decode_encode] at this
  exact String.toList_inj.1 this

/-- The secret arrives when nothing in it is replaced and nothing cut off. -/
theorem secret_iff {h : Host} {s : String} :
    trimRight (bytes (fill h s)) = bytes s ↔ Verbatim s ∧ EndsPlain s := by
  constructor
  · intro he
    obtain ⟨t, breaks, hs, hbreaks, htrim, hends⟩ := trimRight_encode (fill h s).toList
    have ht : t = s.toList := by
      have hst : bytes (String.ofList t) = bytes s := by
        rw [← he, bytes, bytes, htrim, String.toList_ofList]
      rw [← bytes_inj hst, String.toList_ofList]
    have hv : Verbatim s := by
      refine verbatim_of_count (h := h) ?_
      rw [hs, ht, List.count_append]
      exact Nat.le_add_right _ _
    rw [fill_of_verbatim hv] at hends
    exact ⟨hv, hends.1 ht.symm⟩
  · rintro ⟨hv, he⟩
    obtain ⟨t, breaks, -, -, htrim, hends⟩ := trimRight_encode s.toList
    rw [fill_of_verbatim hv, bytes, htrim, ← hends.2 he]

end Trim

/-! ## The command line -/

section Launch

open GoFlag

variable {p : Platform} {h : Host} {spec : JSONObject} {launch : SidecarLaunch} {proc : Process}
  {formal : List (String × GoFlag.Kind)} {name v : String}

/-- A flag with the value it has after the placeholders are replaced. -/
def fillFlag (h : Host) (f : String × Option String) : String × Option String :=
  (f.1, f.2.map (fill h))

/-- The flag of `option`. -/
def optionFlag (name value : String) : List (String × Option String) :=
  if value.blank then [] else [(name, some value)]

def switchFlag (name : String) (on : Bool) : List (String × Option String) :=
  if on then [(name, none)] else []

theorem option_eq (name value : String) :
    option ("-" ++ name) value = (optionFlag name value).flatMap render := by
  unfold option optionFlag
  split <;> rfl

theorem switch_eq (name : String) (on : Bool) :
    switch ("-" ++ name) on = (switchFlag name on).flatMap render := by
  unfold switch switchFlag
  split <;> rfl

/-- The names of flags hold no placeholder. -/
theorem fill_render {l : List (String × Option String)} (hl : ∀ f ∈ l, '\x7b' ∉ f.1.toList) :
    (l.flatMap render).map (fill h) = (l.map (fillFlag h)).flatMap render := by
  induction l with
  | nil => rfl
  | cons f l ih =>
    have hname : fill h ("-" ++ f.1) = "-" ++ f.1 := by
      refine fill_of_verbatim (verbatim_of_brace ?_)
      rw [String.toList_append, List.mem_append, not_or]
      exact ⟨by decide, hl f (.head _)⟩
    rw [List.flatMap_cons, List.map_append, ih fun g hg => hl g (.tail _ hg), List.map_cons,
      List.flatMap_cons]
    obtain ⟨name, value⟩ := f
    cases value with
    | none => simpa [render, fillFlag] using hname
    | some v => simpa [render, fillFlag] using hname

/-- A name as a flag may have it. -/
def isName (name : String) : Bool :=
  name.toList.head?.any (· ≠ '-') && !name.toList.contains '='

theorem fits_name (hn : isName name = true) :
    ∃ c cs, name.toList = c :: cs ∧ c ≠ '-' ∧ '=' ∉ name.toList := by
  unfold isName at hn
  rw [Bool.and_eq_true] at hn
  cases hl : name.toList with
  | nil => simp [hl] at hn
  | cons c cs =>
    rw [hl] at hn
    exact ⟨c, cs, rfl, by simpa using hn.1, by simpa using hn.2⟩

theorem fits_text (hn : isName name = true) (hk : formal.lookup name = some .text) :
    GoFlag.Fits formal (name, some v) := ⟨fits_name hn, .text, by decide, hk, rfl⟩

theorem fits_whole {n : ℕ} (hn : isName name = true) (hk : formal.lookup name = some .whole)
    (h : n < 2 ^ 63) : GoFlag.Fits formal (name, some (toString n)) :=
  ⟨fits_name hn, .whole, by decide, hk, accepts_toString h⟩

theorem fits_switch (hn : isName name = true) (hk : formal.lookup name = some .switch) :
    GoFlag.Fits formal (name, none) := ⟨fits_name hn, hk⟩

theorem fits_optionFlag (hn : isName name = true) (hk : formal.lookup name = some .text) :
    ∀ f ∈ (optionFlag name v).map (fillFlag h), GoFlag.Fits formal f := by
  unfold optionFlag
  split
  · simp
  · intro f hf
    rw [List.mem_singleton.1 hf]
    exact fits_text hn hk

theorem fits_switchFlag {on : Bool} (hn : isName name = true)
    (hk : formal.lookup name = some .switch) :
    ∀ f ∈ (switchFlag name on).map (fillFlag h), GoFlag.Fits formal f := by
  unfold switchFlag
  split
  · intro f hf
    rw [List.mem_singleton.1 hf]
    exact fits_switch hn hk
  · simp

theorem mtuArg_eq : ∃ n : ℕ, n < 2 ^ 63 ∧ mtuArg p spec = toString n := by
  unfold mtuArg
  dsimp only
  generalize (if (spec.opt "mtu").isSome = true then optInt p spec "mtu" else 1400) = m
  refine ⟨(max 576 (min m 1500)).toNat, by omega, ?_⟩
  obtain ⟨n, hn⟩ := Int.eq_ofNat_of_zero_le (show 0 ≤ max 576 (min m 1500) by omega)
  rw [hn]
  rfl

theorem fill_toString (n : ℕ) : fill h (toString n) = toString n :=
  fill_of_verbatim (verbatim_of_brace (brace_digits n))

theorem optionFlag_name {names : List String} (hn : name ∈ names) :
    ∀ f ∈ optionFlag name v, f.1 ∈ names := by
  unfold optionFlag
  split
  · simp
  · intro f hf
    rwa [List.mem_singleton.1 hf]

theorem switchFlag_name {names : List String} {on : Bool} (hn : name ∈ names) :
    ∀ f ∈ switchFlag name on, f.1 ∈ names := by
  unfold switchFlag
  split
  · intro f hf
    rwa [List.mem_singleton.1 hf]
  · simp

/-- A command line with the user name among its flags, once. -/
structure CommandLine (formal : List (String × GoFlag.Kind)) (mode user : String)
    (pre post : List (String × Option String)) (args : List String) : Prop where
  args : args = mode :: (pre ++ ("user", some user) :: post).flatMap render
  before : ∀ f ∈ pre, f.1 ∈ ["listen", "server", "hub"]
  after : ∀ f ∈ post, f.1 ∈ ["auth", "mtu", "plain", "sni", "pin", "insecure", "ip", "gw", "dns"]
  fits : ∀ h : Host, ∀ f ∈ (pre ++ ("user", some user) :: post).map (fillFlag h), GoFlag.Fits formal f

theorem sstp_line (hl : sstp p spec = some launch) :
    (∃ pre post, CommandLine sstpFlags "sstp" (spec.optString "user") pre post launch.args) ∧
      launch.files = [("sstp.pass", spec.optString "password")] ∧
      launch.env = [("SSTP_PASSWORD_FILE", DIR ++ "/sstp.pass")] := by
  unfold sstp at hl
  dsimp only at hl
  split at hl
  · cases hl
  split at hl
  · cases hl
  obtain rfl := Option.some.inj hl
  obtain ⟨n, hn, hmtu⟩ := @mtuArg_eq p spec
  refine ⟨⟨[("listen", some PORT), ("server", some (spec.optString "server"))],
    ("auth", some ((spec.optString "auth").ifBlank "auto")) :: ("mtu", some (mtuArg p spec)) ::
      (optionFlag "sni" (spec.optString "sni") ++ (optionFlag "pin" (spec.optString "pin") ++
        switchFlag "insecure" (spec.optBoolean "allowInsecure"))),
    ?_, ?_, ?_, fun h => ?_⟩, rfl, rfl⟩
  · have hsni := option_eq "sni" (spec.optString "sni")
    have hpin := option_eq "pin" (spec.optString "pin")
    have hinsecure := switch_eq "insecure" (spec.optBoolean "allowInsecure")
    simp only [List.flatMap_append, List.flatMap_cons, ← hsni, ← hpin, ← hinsecure]
    simp only [render, List.append_assoc]
    rfl
  · simp
  · simp only [List.forall_mem_append, List.forall_mem_cons]
    exact ⟨by simp, by simp, optionFlag_name (by simp), optionFlag_name (by simp),
      switchFlag_name (by simp)⟩
  · simp only [List.cons_append, List.nil_append, List.map_append, List.map_cons,
      List.forall_mem_append, List.forall_mem_cons, fillFlag, Option.map_some, fill_port, hmtu,
      fill_toString]
    refine ⟨fits_whole rfl rfl (by omega), fits_text rfl rfl, fits_text rfl rfl, fits_text rfl rfl,
      fits_whole rfl rfl hn, fits_optionFlag rfl rfl, fits_optionFlag rfl rfl,
      fits_switchFlag rfl rfl⟩

theorem softether_line (hl : softether p spec = some launch) :
    (∃ pre post, CommandLine softetherFlags "softether" (spec.optString "user") pre post
      launch.args) ∧ launch.files = [("se.pass", spec.optString "password")] ∧
      launch.env = [("SE_PASSWORD_FILE", DIR ++ "/se.pass")] := by
  unfold softether at hl
  dsimp only at hl
  split at hl
  · cases hl
  split at hl
  · cases hl
  split at hl
  · cases hl
  obtain rfl := Option.some.inj hl
  obtain ⟨n, hn, hmtu⟩ := @mtuArg_eq p spec
  refine ⟨⟨[("listen", some PORT), ("server", some (spec.optString "server")),
      ("hub", some ((spec.optString "hub").ifBlank "DEFAULT"))],
    ("mtu", some (mtuArg p spec)) :: (switchFlag "plain" (spec.optBoolean "plain") ++
      (optionFlag "sni" (spec.optString "sni") ++ (optionFlag "pin" (spec.optString "pin") ++
        (switchFlag "insecure" (spec.optBoolean "allowInsecure") ++
          (optionFlag "ip" (spec.optString "ip") ++ (optionFlag "gw" (spec.optString "gw") ++
            optionFlag "dns" (spec.optString "dns"))))))), ?_, ?_, ?_, fun h => ?_⟩, rfl, rfl⟩
  · simp only [List.flatMap_append, List.flatMap_cons, ← option_eq, ← switch_eq]
    simp only [render, List.append_assoc]
    rfl
  · simp
  · simp only [List.forall_mem_append, List.forall_mem_cons]
    exact ⟨by simp, switchFlag_name (by simp), optionFlag_name (by simp), optionFlag_name (by simp),
      switchFlag_name (by simp), optionFlag_name (by simp), optionFlag_name (by simp),
      optionFlag_name (by simp)⟩
  · simp only [List.cons_append, List.nil_append, List.map_append, List.map_cons,
      List.forall_mem_append, List.forall_mem_cons, fillFlag, Option.map_some, fill_port, hmtu,
      fill_toString]
    exact ⟨fits_whole rfl rfl (by omega), fits_text rfl rfl, fits_text rfl rfl, fits_text rfl rfl,
      fits_whole rfl rfl hn, fits_switchFlag rfl rfl, fits_optionFlag rfl rfl,
      fits_optionFlag rfl rfl, fits_switchFlag rfl rfl, fits_optionFlag rfl rfl,
      fits_optionFlag rfl rfl, fits_optionFlag rfl rfl⟩

theorem getenv_last {proc : Process} {env : List (String × String)}
    (h : proc.env = env ++ [(name, v)]) : getenv proc name = v := by
  rw [getenv, h, List.reverse_append]
  simp

/-- A mode reads the user name and the secret as they are after the placeholders are replaced. -/
theorem credentials_eq (secret : String) {pre post : List (String × Option String)}
    {mode user password file path : String}
    (hc : CommandLine formal mode user pre post launch.args) (hmode : '\x7b' ∉ mode.toList)
    (hf : launch.files = [(file, password)]) (he : launch.env = [(secret ++ "_FILE", DIR ++ path)])
    (hpath : "/" ++ file = path) (hfill : fill h (DIR ++ path) = h.dir ++ path)
    (hstart : start h launch = some proc) :
    ∃ args, proc.args = mode :: args ∧ credentials proc formal args secret =
      some (bytes (fill h user), trimRight (bytes (fill h password))) := by
  have hnames : ∀ f ∈ pre ++ ("user", some user) :: post, '\x7b' ∉ f.1.toList := by
    have hbefore : ∀ n ∈ ["listen", "server", "hub"], '\x7b' ∉ n.toList := by decide
    have hafter : ∀ n ∈ ["auth", "mtu", "plain", "sni", "pin", "insecure", "ip", "gw", "dns"],
        '\x7b' ∉ n.toList := by decide
    intro f hf
    rcases List.mem_append.1 hf with hf | hf
    · exact hbefore _ (hc.before f hf)
    · rcases List.mem_cons.1 hf with rfl | hf
      · exact (by decide : '\x7b' ∉ "user".toList)
      · exact hafter _ (hc.after f hf)
  have hargs : launch.args.map (fill h) = mode ::
      ((pre ++ ("user", some user) :: post).map (fillFlag h)).flatMap render := by
    rw [hc.args, List.map_cons, fill_of_verbatim (verbatim_of_brace hmode), fill_render hnames]
  unfold start at hstart
  dsimp only at hstart
  split at hstart
  · cases hstart
  obtain rfl := Option.some.inj hstart
  refine ⟨_, hargs, ?_⟩
  have huser : get (((pre ++ ("user", some user) :: post).map (fillFlag h)).map setting) "user" "" =
      fill h user := by
    rw [List.map_append, List.map_append, List.map_cons, List.map_cons]
    refine get_of_once fun f hf => ?_
    obtain ⟨g, hg, rfl⟩ := List.mem_map.1 hf
    obtain ⟨e, he, rfl⟩ := List.mem_map.1 hg
    have hne : ∀ n ∈ ["auth", "mtu", "plain", "sni", "pin", "insecure", "ip", "gw", "dns"],
        n ≠ "user" := by decide
    exact hne _ (hc.after e he)
  have hfile : h.dir ++ path = h.dir ++ "/" ++ file := by rw [String.append_assoc, hpath]
  have hsecret (proc : Process) (henv : proc.env = [("HOME", h.dir), ("TMPDIR", h.cacheDir)] ++
      [(secret ++ "_FILE", h.dir ++ path)])
      (hfiles : proc.files = [(h.dir ++ "/" ++ file, fill h password)]) :
      secretFromEnv proc secret = some (trimRight (bytes (fill h password))) := by
    have hne : h.dir ++ path ≠ "" := by
      intro hnil
      have := congrArg String.toList hnil
      rw [← hpath] at this
      simp at this
    unfold secretFromEnv
    dsimp only
    rw [getenv_last henv, if_pos hne, readFile, hfiles, hfile]
    simp
  unfold credentials
  rw [parse_render (hc.fits h), Option.bind_eq_bind, Option.bind_some,
    hsecret _ (by rw [he]; simp [hfill]) (by rw [hf]; rfl), Option.bind_eq_bind, Option.bind_some,
    huser]

theorem main_eq (hl : build p spec = some launch) (hstart : start h launch = some proc) :
    main proc = some (bytes (fill h (spec.optString "user")),
      trimRight (bytes (fill h (spec.optString "password")))) := by
  unfold build at hl
  split at hl
  · obtain ⟨⟨pre, post, hc⟩, hf, he⟩ := sstp_line hl
    obtain ⟨args, hargs, hcred⟩ := credentials_eq "SSTP_PASSWORD" hc (by decide) hf he rfl
      (fill_dir (by decide) (by decide) (by decide)) hstart
    rw [main, hargs]
    exact hcred
  split at hl
  · obtain ⟨⟨pre, post, hc⟩, hf, he⟩ := softether_line hl
    obtain ⟨args, hargs, hcred⟩ := credentials_eq "SE_PASSWORD" hc (by decide) hf he rfl
      (fill_dir (by decide) (by decide) (by decide)) hstart
    rw [main, hargs]
    exact hcred
  · cases hl

theorem sidecar_values {c : ProxyConfig} (hs : sidecar p c = some spec) :
    spec.optString "user" = c.uuid ∧ spec.optString "password" = c.password := by
  unfold sidecar at hs
  split at hs
  · cases hs
    simp [JSONObject.optString, Json.asString]
  split at hs
  · cases hs
    simp [JSONObject.optString, Json.asString]
  · cases hs

/-- What the helper of a configuration reads. -/
theorem main_of_start {c : ProxyConfig}
    (hstart : ((sidecar p c).bind (build p)).bind (start h) = some proc) :
    main proc = some (bytes (fill h c.uuid), trimRight (bytes (fill h c.password))) := by
  obtain ⟨launch, hlaunch, hstart⟩ := Option.bind_eq_some_iff.1 hstart
  obtain ⟨spec, hspec, hbuild⟩ := Option.bind_eq_some_iff.1 hlaunch
  obtain ⟨huser, hpassword⟩ := sidecar_values hspec
  rw [main_eq hbuild hstart, huser, hpassword]

end Launch

/-- **When the helper reads what the user entered**: where it is started, exactly when no
placeholder stands in the user name or the password and the password ends in no line break. -/
theorem values_unchanged_iff (p : Platform) (h : Host) (c : ProxyConfig) (proc : Process)
    (hstart : ((sidecar p c).bind (build p)).bind (start h) = some proc) :
    main proc = some (bytes c.uuid, bytes c.password) ↔
      Verbatim c.uuid ∧ Verbatim c.password ∧ EndsPlain c.password := by
  rw [main_of_start hstart, Option.some_inj, Prod.mk.injEq, secret_iff]
  refine and_congr_left fun _ => ⟨fun hb => fill_eq_iff.1 (bytes_inj hb), fun hv => ?_⟩
  rw [fill_of_verbatim hv]

/-! ## Two profiles -/

def phone : Host :=
  { port := 40001
    port2 := 40002
    dir := "/data/user/0/app/no_backup/sing-box-sidecar"
    cacheDir := "/data/user/0/app/cache"
    inherited := fun _ => none
    dir_plain := by decide }

def account (password : String) : ProxyConfig :=
  { name := "s"
    protocol := "sstp"
    address := "vpn.example.com"
    port := 443
    uuid := "user"
    password
    id := "c1" }

def reader : Platform := { textPlatform with readLong := Text.toIntOrNull }

def launched (password : String) : Option Process :=
  ((sidecar reader (account password)).bind (build reader)).bind (start phone)

theorem account_starts {password : String} (h : (launched password).isSome = true) :
    ∃ proc, launched password = some proc := Option.isSome_iff_exists.1 h

/-- An account that is read as it was entered. -/
theorem secret_arrives : ∃ proc, launched "secret" = some proc ∧
    main proc = some (bytes "user", bytes "secret") := by
  obtain ⟨proc, hproc⟩ := @account_starts "secret" (by decide +kernel)
  refine ⟨proc, hproc, (values_unchanged_iff reader phone (account "secret") proc hproc).2 ?_⟩
  refine ⟨verbatim_of_brace (by decide), verbatim_of_brace (by decide), ?_⟩
  intro c hc
  have hlast : c = 't' := (Option.some.inj hc).symm
  subst hlast
  decide

/-- A password that ends in a line break arrives without it. -/
theorem break_cut : ∃ proc, launched "secret\n" = some proc ∧
    main proc ≠ some (bytes "user", bytes "secret\n") := by
  obtain ⟨proc, hproc⟩ := @account_starts "secret\n" (by decide +kernel)
  refine ⟨proc, hproc, fun hm => ?_⟩
  rw [main_of_start hproc, Option.some_inj, Prod.mk.injEq] at hm
  exact ((secret_iff.1 hm.2).2 '\n' (by decide)).2 rfl

end Ghajar.Sidecar
