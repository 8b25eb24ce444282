import Ghajar.Lib.JavaArray
import Ghajar.Share.Seal

/-!
# Share files that are cut short

`Gsb2.open` with the indices it reads: a range behind the end of the array throws, and only the
last one is read where exceptions are caught. `openFile_eq` says that this is `open`;
`openFile_returns_iff` when a result comes back, and what every shorter file is reported as.
-/

namespace Ghajar.Gsb2

open Exits JavaArray

/-- `Gsb2.open` -/
def openFile {K : Type} (v : Vault K) (draw : Nat → String) (bytes : List UInt8)
    (password : Option (List Char)) : Except Thrown OpenResult := Exits.result <| do
  leaveIf (!looksLike bytes || bytes.length > maxFile) (.invalid "این فایل GSB2 نیست.")
  leaveIf ((← get bytes 4) ≠ version) (.invalid "نسخهٔ این فایل GSB2 پشتیبانی نمی‌شود.")
  let pw := (← get bytes 5) &&& flagPassword ≠ 0
  leaveIf (pw ∧ noPassword password) .needsPassword
  let header ← copyOfRange bytes 0 6
  let salt ← copyOfRange bytes 6 22
  let iv ← copyOfRange bytes 22 34
  if pw then
    let body ← caught (copyOfRange bytes 34 (size bytes)) (.invalid "فایل GSB2 خراب است.")
    return openEnvelope v draw true (v.pbkdf2 (password.getD []) salt) iv header body
  else
    leaveIf (size bytes < 34 + 32 + 16) (.invalid "فایل GSB2 ناقص است.")
    let rawKey ← copyOfRange bytes 34 66
    let body ← caught (copyOfRange bytes 66 (size bytes)) (.invalid "فایل GSB2 خراب است.")
    return openEnvelope v draw false (v.secretKey rawKey) iv header body

/-- `needsPassword` -/
def needsPassword (bytes : List UInt8) : Bool :=
  looksLike bytes && bytes.getD 5 0 &&& flagPassword ≠ 0

/-- The file goes past the header and ends within the salt or the nonce. -/
def EndsInNonce (bytes : List UInt8) (password : Option (List Char)) : Prop :=
  looksLike bytes = true ∧ bytes.getD 4 0 = version ∧
    ¬(bytes.getD 5 0 &&& flagPassword ≠ 0 ∧ noPassword password = true) ∧ bytes.length < 34

/-- What a damaged file is to be reported as. -/
def Reported (bytes : List UInt8) : OpenResult → Prop
  | .ok _ => False
  | .needsPassword | .wrongPassword => needsPassword bytes = true
  | .invalid _ => True

section Opens

variable {K : Type} {v : Vault K} {draw : Nat → String} {bytes : List UInt8}
  {password other : Option (List Char)} {share : Share} {k : Nat}

/-- The slices that are read from the array. -/
theorem range_eq {ρ : Type} (hb : bytes.length < 2 ^ 31) {i n : Nat} (h : i + n ≤ bytes.length) :
    (copyOfRange bytes (.ofNat i) (.ofNat (i + n)) : Exits Thrown ρ _) =
      .ok ((bytes.drop i).take n) := by
  rw [copyOfRange_eq hb (Nat.le_add_right i n) h, Nat.add_sub_cancel_left]

theorem rest_eq {ρ : Type} (hb : bytes.length < 2 ^ 31) {i : Nat} (h : i ≤ bytes.length) :
    (copyOfRange bytes (.ofNat i) (size bytes) : Exits Thrown ρ _) = .ok (bytes.drop i) := by
  rw [size, copyOfRange_eq hb h le_rfl, List.take_of_length_le (by rw [List.length_drop])]

/-- A range behind the end throws. -/
theorem range_throws {ρ : Type} (hb : bytes.length < 2 ^ 31) {i n : Nat} (hn : i + n < 2 ^ 31)
    (h : bytes.length < i + n) :
    (copyOfRange bytes (.ofNat i) (.ofNat (i + n)) : Exits Thrown ρ _) =
      throws .indexOutOfBounds := by
  rw [copyOfRange, size, if_pos ((ofNat_lt hb hn).2 h)]

theorem looksLike_length (h : looksLike bytes = true) : 6 < bytes.length := by
  rw [looksLike, Bool.and_eq_true, decide_eq_true_eq] at h
  exact h.1

/-- `openFile` is `open`, which says nothing where a slice throws. -/
theorem openFile_eq (hb : bytes.length < 2 ^ 31) :
    openFile v draw bytes password =
      («open» v draw bytes password).elim (.error .indexOutOfBounds) .ok := by
  unfold openFile «open»
  by_cases hlooks : (!looksLike bytes || decide (bytes.length > maxFile)) = true
  · rw [if_pos hlooks, leaveIf, if_pos hlooks]
    rfl
  rw [if_neg hlooks, leaveIf, if_neg hlooks]
  have h6 : 6 < bytes.length := by
    rw [Bool.or_eq_true, not_or, Bool.not_eq_true', Bool.not_eq_false] at hlooks
    exact looksLike_length hlooks.1
  have h4 : (get bytes 4 : Exits Thrown OpenResult _) = .ok (bytes.getD 4 0) :=
    get_eq hb (i := 4) (by omega)
  have h5 : (get bytes 5 : Exits Thrown OpenResult _) = .ok (bytes.getD 5 0) :=
    get_eq hb (i := 5) (by omega)
  have hheader : (copyOfRange bytes 0 6 : Exits Thrown OpenResult _) = .ok (bytes.take 6) :=
    range_eq hb (i := 0) (n := 6) (by omega)
  rw [h4, h5]
  by_cases hversion : bytes.getD 4 0 ≠ version
  · rw [if_pos hversion]
    simp only [leaveIf, bind, Except.bind, if_pos hversion]
    rfl
  rw [if_neg hversion]
  by_cases hneeds : bytes.getD 5 0 &&& flagPassword ≠ 0 ∧ noPassword password = true
  · rw [if_pos hneeds]
    simp only [leaveIf, bind, Except.bind, if_neg hversion, if_pos hneeds]
    rfl
  rw [if_neg hneeds]
  simp only [leaveIf, bind, Except.bind, if_neg hversion, if_neg hneeds, hheader]
  by_cases hshort : bytes.length < 34
  · -- the file ends within the salt or within the nonce
    rw [if_pos hshort]
    by_cases h22 : bytes.length < 22
    · have hsalt : (copyOfRange bytes 6 22 : Exits Thrown OpenResult _) = _ :=
        range_throws hb (i := 6) (n := 16) (by omega) (by omega)
      rw [hsalt]
      rfl
    · have hsalt : (copyOfRange bytes 6 22 : Exits Thrown OpenResult _) = _ :=
        range_eq hb (i := 6) (n := 16) (by omega)
      have hiv : (copyOfRange bytes 22 34 : Exits Thrown OpenResult _) = _ :=
        range_throws hb (i := 22) (n := 12) (by omega) (by omega)
      rw [hsalt, hiv]
      rfl
  rw [if_neg hshort]
  have hsalt : (copyOfRange bytes 6 22 : Exits Thrown OpenResult _) = _ :=
    range_eq hb (i := 6) (n := 16) (by omega)
  have hiv : (copyOfRange bytes 22 34 : Exits Thrown OpenResult _) = _ :=
    range_eq hb (i := 22) (n := 12) (by omega)
  rw [hsalt, hiv]
  unfold openParts
  by_cases hpw : bytes.getD 5 0 &&& flagPassword ≠ 0
  · have hrest : (copyOfRange bytes 34 (size bytes) : Exits Thrown OpenResult _) = _ :=
      rest_eq hb (i := 34) (by omega)
    rw [if_pos hpw]
    simp only [if_pos hpw, hrest]
    rfl
  rw [if_neg hpw]
  have hsize : size bytes < (34 + 32 + 16 : Int32) ↔ (bytes.drop 34).length < 32 + 16 := by
    have := ofNat_lt (m := bytes.length) (n := 82) hb (by omega)
    rw [List.length_drop]
    exact this.trans (by omega)
  simp only [if_neg hpw]
  by_cases hkey : (bytes.drop 34).length < 32 + 16
  · simp only [if_pos hkey, if_pos (hsize.2 hkey)]
    rfl
  · have hlen : 82 ≤ bytes.length := by
      rw [List.length_drop] at hkey
      omega
    have hraw : (copyOfRange bytes 34 66 : Exits Thrown OpenResult _) = _ :=
      range_eq hb (i := 34) (n := 32) (by omega)
    have hrest : (copyOfRange bytes 66 (size bytes) : Exits Thrown OpenResult _) = _ :=
      rest_eq hb (i := 66) (by omega)
    simp only [if_neg hkey, if_neg (mt hsize.1 hkey), hraw, hrest, List.drop_drop]
    rfl

theorem openFile_of_open (hb : bytes.length < 2 ^ 31) {r : OpenResult}
    (h : «open» v draw bytes password = some r) : openFile v draw bytes password = .ok r := by
  rw [openFile_eq hb, h]
  rfl

/-- `open` is undefined exactly where the file ends within the nonce. -/
theorem open_eq_none : «open» v draw bytes password = none ↔ EndsInNonce bytes password := by
  unfold «open» EndsInNonce
  by_cases hlooks : looksLike bytes = true
  · by_cases hshort : bytes.length < 34
    · have hmax : ¬bytes.length > maxFile := by rw [maxFile]; omega
      simp only [hlooks, hmax, hshort, Bool.not_true, Bool.false_or, decide_false, if_false,
        if_true, Bool.false_eq_true, true_and, and_true, ne_eq]
      split_ifs <;> simp_all
    · simp only [hshort, if_false]
      split_ifs <;> simp
  · simp [hlooks]

theorem openFile_returns (hb : bytes.length < 2 ^ 31) :
    (∃ r, openFile v draw bytes password = .ok r) ↔ ¬EndsInNonce bytes password := by
  rw [openFile_eq hb, ← (open_eq_none : «open» v draw bytes password = none ↔ _)]
  cases «open» v draw bytes password with
  | none => exact ⟨nofun, fun h => absurd rfl h⟩
  | some r => exact ⟨fun _ => nofun, fun _ => ⟨r, rfl⟩⟩

/-! ## Files cut short -/

/-- A file that opens goes on behind the nonce, with a sealed envelope at its end. -/
theorem opened_parts (hv : v.cipher.Ideal) (h : «open» v draw bytes password = some (.ok share)) :
    looksLike bytes = true ∧ bytes.getD 4 0 = version ∧ bytes.length ≤ maxFile ∧
      34 ≤ bytes.length ∧ ∃ key text,
        bytes.drop (if bytes.getD 5 0 &&& flagPassword ≠ 0 then 34 else 66) =
          v.cipher.encrypt key ((bytes.drop 22).take 12) (bytes.take 6) text := by
  unfold «open» at h
  split at h
  · cases h
  split at h
  · cases h
  split at h
  · cases h
  split at h
  · cases h
  rename_i hlooks hversion _ hshort
  rw [Bool.or_eq_true, not_or, Bool.not_eq_true', Bool.not_eq_false, decide_eq_true_eq,
    not_lt] at hlooks
  refine ⟨hlooks.1, not_not.1 hversion, hlooks.2, not_lt.1 hshort, ?_⟩
  have h := Option.some.inj h
  unfold openParts at h
  split at h
  · rw [if_pos ‹_›]
    obtain ⟨t, ht⟩ := openEnvelope_ok h
    exact ⟨_, t, hv.sealed ht⟩
  · rw [if_neg ‹_›]
    split at h
    · cases h
    · obtain ⟨t, ht⟩ := openEnvelope_ok h
      rw [List.drop_drop] at ht
      exact ⟨_, t, hv.sealed ht⟩

/-- A sealed envelope that is cut short does not open. -/
theorem cut_envelope (hv : v.cipher.Ideal) (hp : v.cipher.NoPrefix) {i : Nat} {key key' : K}
    {iv iv' data data' text : List UInt8} {pw : Bool} (hk : k < bytes.length) (hi : i ≤ k)
    (h : bytes.drop i = v.cipher.encrypt key iv data text) :
    openEnvelope v draw pw key' iv' data' ((bytes.take k).drop i) =
      if pw then .wrongPassword else .invalid "فایل GSB2 خراب یا دستکاری شده است." := by
  have hlen : k - i < (v.cipher.encrypt key iv data text).length := by
    rw [← h, List.length_drop]
    omega
  unfold openEnvelope
  rw [List.drop_take, h, hv.decrypt_take hp hlen]

theorem looksLike_take (h : looksLike bytes = true) :
    looksLike (bytes.take k) = true ↔ 7 ≤ k := by
  have h6 := looksLike_length h
  unfold looksLike at h ⊢
  rw [Bool.and_eq_true, decide_eq_true_eq] at h ⊢
  constructor
  · rintro ⟨hlen, -⟩
    rw [List.length_take] at hlen
    omega
  · intro hk
    rw [List.length_take, List.take_take, min_eq_left (by omega : 4 ≤ k)]
    exact ⟨by omega, h.2⟩

theorem getD_take {i : Nat} (hi : i < k) : (bytes.take k).getD i 0 = bytes.getD i 0 := by
  rw [List.getD_eq_getElem?_getD, List.getD_eq_getElem?_getD, List.getElem?_take_of_lt hi]

/-- What is behind the nonce of a file cut short is told apart from a share. -/
theorem cut_reported (hv : v.cipher.Ideal) (hp : v.cipher.NoPrefix)
    (h : «open» v draw bytes password = some (.ok share)) (hk : k < bytes.length) (h34 : 34 ≤ k) :
    ∃ r, «open» v draw (bytes.take k) other = some r ∧ Reported bytes r := by
  obtain ⟨hlooks, hversion, hmax, -, key, text, hbody⟩ := opened_parts hv h
  have hlen : (bytes.take k).length = k := by rw [List.length_take]; omega
  have hlooks' := (looksLike_take hlooks).2 (by omega : 7 ≤ k)
  unfold «open»
  rw [hlooks', hlen, getD_take (by omega), getD_take (by omega), hversion,
    if_neg (by simp; omega), if_neg (fun h => h rfl)]
  by_cases hneeds : bytes.getD 5 0 &&& flagPassword ≠ 0 ∧ noPassword other = true
  · rw [if_pos hneeds]
    exact ⟨_, rfl, by rw [Reported, needsPassword, hlooks, decide_eq_true hneeds.1]; rfl⟩
  rw [if_neg hneeds, if_neg (by omega)]
  refine ⟨_, rfl, ?_⟩
  unfold openParts
  by_cases hpw : bytes.getD 5 0 &&& flagPassword ≠ 0
  · rw [if_pos hpw] at hbody ⊢
    rw [cut_envelope hv hp hk h34 hbody, if_pos rfl]
    exact (by rw [Reported, needsPassword, hlooks, decide_eq_true hpw]; rfl)
  · rw [if_neg hpw] at hbody ⊢
    by_cases hkey : ((bytes.take k).drop 34).length < 32 + 16
    · rw [if_pos hkey]
      trivial
    · rw [List.length_drop, hlen] at hkey
      rw [if_neg (by rw [List.length_drop, hlen]; exact hkey), List.drop_drop,
        cut_envelope hv hp hk (by omega) hbody]
      trivial

/-- A file that ends before that gives no share. -/
theorem short_reported (hlooks : looksLike bytes = true) (hk : k < 34) {r : OpenResult}
    (hr : «open» v draw (bytes.take k) other = some r) : Reported bytes r := by
  have hshort : (bytes.take k).length < 34 := by rw [List.length_take]; omega
  unfold «open» at hr
  rw [if_pos hshort] at hr
  split at hr
  · cases hr
    trivial
  split at hr
  · cases hr
    trivial
  split at hr
  · rename_i hcut _ hneeds
    have h7 : 7 ≤ k := by
      rw [Bool.or_eq_true, not_or, Bool.not_eq_true', Bool.not_eq_false] at hcut
      exact (looksLike_take hlooks).1 hcut.1
    rw [getD_take (by omega)] at hneeds
    cases hr
    rw [Reported, needsPassword, hlooks, decide_eq_true hneeds.1]
    rfl
  · cases hr

/-- When a file that opens is cut short within the nonce. -/
theorem endsInNonce_take (hlooks : looksLike bytes = true) (hversion : bytes.getD 4 0 = version)
    (hlen : 34 ≤ bytes.length) : EndsInNonce (bytes.take k) other ↔
      7 ≤ k ∧ k < 34 ∧ ¬(needsPassword bytes = true ∧ noPassword other = true) := by
  have hneeds : needsPassword bytes = true ↔ bytes.getD 5 0 &&& flagPassword ≠ 0 := by
    rw [needsPassword, hlooks, Bool.true_and, decide_eq_true_eq]
  unfold EndsInNonce
  rw [looksLike_take hlooks, List.length_take, hneeds]
  constructor
  · rintro ⟨h7, -, hn, hshort⟩
    rw [getD_take (by omega)] at hn
    exact ⟨h7, by omega, hn⟩
  · rintro ⟨h7, hk, hn⟩
    rw [getD_take (by omega), getD_take (by omega)]
    exact ⟨h7, hversion, hn, by omega⟩

end Opens

/-- **A share file gives a result**, and one cut short is told from a share, exactly when it does
not end within the salt or the nonce. -/
theorem openFile_returns_iff {K : Type} (v : Vault K) (hv : v.cipher.Ideal)
    (hp : v.cipher.NoPrefix) (draw : Nat → String) {bytes : List UInt8}
    (hb : bytes.length < 2 ^ 31) (password : Option (List Char)) :
    ((∃ r, openFile v draw bytes password = .ok r) ↔ ¬EndsInNonce bytes password) ∧
    ∀ share, openFile v draw bytes password = .ok (.ok share) → ∀ k < bytes.length, ∀ other,
      (∃ r, openFile v draw (bytes.take k) other = .ok r ∧ Reported bytes r) ↔
        ¬(7 ≤ k ∧ k < 34 ∧ ¬(needsPassword bytes = true ∧ noPassword other = true)) := by
  refine ⟨openFile_returns hb, fun share hopens k hk other => ?_⟩
  have hopen : «open» v draw bytes password = some (.ok share) := by
    rw [openFile_eq hb] at hopens
    cases ho : «open» v draw bytes password with
    | none => rw [ho] at hopens; cases hopens
    | some r => rw [ho] at hopens; cases hopens; rfl
  obtain ⟨hlooks, hversion, -, hlen, -⟩ := opened_parts hv hopen
  have hb' : (bytes.take k).length < 2 ^ 31 := by rw [List.length_take]; omega
  have hreturns : (∃ r, openFile v draw (bytes.take k) other = .ok r) ↔ _ := openFile_returns hb'
  rw [← endsInNonce_take hlooks hversion hlen, ← hreturns]
  clear hreturns
  constructor
  · rintro ⟨r, hr, -⟩
    exact ⟨r, hr⟩
  · intro hreturns
    by_cases h34 : 34 ≤ k
    · have hcut : ∃ r, «open» v draw (bytes.take k) other = some r ∧ Reported bytes r :=
        cut_reported hv hp hopen hk h34
      obtain ⟨r, hr, hrep⟩ := hcut
      exact ⟨r, openFile_of_open hb' hr, hrep⟩
    · obtain ⟨r, hr⟩ := hreturns
      refine ⟨r, hr, ?_⟩
      rw [openFile_eq hb'] at hr
      cases ho : «open» v draw (bytes.take k) other with
      | none => rw [ho] at hr; cases hr
      | some s =>
        rw [ho] at hr
        obtain rfl : s = r := Except.ok.inj hr
        exact short_reported hlooks (by omega) ho

/-- A file of which the head alone has come. -/
theorem head_throws :
    openFile openVault (fun _ => "new") [0x47, 0x53, 0x42, 0x32, 1, 0, 0] none =
      .error .indexOutOfBounds := by
  rw [openFile_eq (by decide), open_eq_none.2 ⟨rfl, rfl, by decide, by decide⟩]
  rfl

/-- The small share's file opens, and is told from what is left of it after forty bytes. -/
theorem link_cut : ∃ file, «seal» openVault link "k" "k" (some ['p', 'w']) zeros = some file ∧
    ∃ r, openFile openVault (fun _ => "new") (file.take 40) (some ['x']) = .ok r ∧
      Reported file r := by
  obtain ⟨envelope, henv, hseal⟩ := seal_spec openVault_ideal link_sealable (openVault_pair "k")
    (some ['p', 'w']) zeros fun _ => "new"
  have hfits := link_fits _ (by decide) _ hseal
  have hopen := opens_password openVault_ideal (by decide) henv hfits
  have hflag : (passwordFile openVault ((some ['p', 'w']).getD []) zeros envelope).getD 5 0 =
      flagPassword := rfl
  obtain ⟨-, -, -, -, key, text, hbody⟩ := opened_parts openVault_ideal.cipher hopen
  have hlong := (openVault_ideal.cipher.length key _ _ text).trans_eq
    (congrArg List.length hbody).symm
  rw [List.length_drop, hflag, if_pos (by decide)] at hlong
  clear henv hbody hflag
  change _ = some (passwordFile openVault ((some ['p', 'w']).getD []) zeros envelope) at hseal
  change (passwordFile openVault ((some ['p', 'w']).getD []) zeros envelope).length ≤ _ at hfits
  generalize passwordFile openVault ((some ['p', 'w']).getD []) zeros envelope = file at *
  have hb : file.length < 2 ^ 31 := hfits.trans_lt (by decide)
  have hcut := (openFile_returns_iff openVault openVault_ideal.cipher Sealing.inTheOpen_noPrefix
    (fun _ => "new") hb (some ['p', 'w'])).2 _ (openFile_of_open hb hopen) 40 (by omega)
    (some ['x'])
  exact ⟨file, hseal, hcut.2 fun h => absurd h.2.1 (by decide)⟩

end Ghajar.Gsb2
