import Ghajar.Config.TextPlatform
import Ghajar.Lib.Long
import Ghajar.Share.Share

/-!
# What is left of a share

`Share.expires` adds the duration to the moment of the import, and `Gvpn.percentLeft` multiplies
bytes and milliseconds by a hundred, all of it on longs that the issuer chooses. `carries_iff` and
`percent_iff` say for which of them the results are those of whole numbers.
-/

namespace Ghajar.Gsb2

open Ghajar

variable {p : Platform} {fingerprint : String → String} {share : Share} {m : Meta}

/-- The remaining share of whichever limit is closer to running out; nothing without limits. -/
def percentLeft (m : Meta) (used now importedAt : Int) : Option Int :=
  let byQuota :=
    if m.quotaBytes > 0 then
      some (Long.toInt (Long.div (Long.mul (max (Long.sub m.quotaBytes used) 0) 100) m.quotaBytes))
    else none
  let byTime :=
    if m.expiresAt > 0 ∧ m.expiresAt > importedAt then
      some (Long.toInt (Long.div (Long.mul (max (Long.sub m.expiresAt now) 0) 100)
        (Long.sub m.expiresAt importedAt)))
    else none
  ([byQuota, byTime].filterMap id).min?

/-- The end of a share as whole numbers have it: the earlier of the limits there are. -/
def Share.endsAt (share : Share) (importedAt : Int) : Int :=
  if share.durationMs > 0 then
    if share.expiresAt > 0 then min share.expiresAt (importedAt + share.durationMs)
    else importedAt + share.durationMs
  else share.expiresAt

/-- Every configuration that is stored can be read to end when the share does. -/
def Carries (p : Platform) (fingerprint : String → String) (share : Share) (t : Int) : Prop :=
  ∀ draw, ∀ c ∈ receivedConfigs p fingerprint share draw t,
    ∃ m, Meta.of p c = some m ∧ 0 < m.expiresAt ∧ m.expiresAt = share.endsAt t

/-- From now on the percentage is one, and grows neither with the bytes nor with the time. -/
def Percentage (m : Meta) (importedAt : Int) : Prop :=
  ∀ used used' now now', 0 ≤ used → used ≤ used' → IsLong used' →
    importedAt ≤ now → now ≤ now' → IsLong now' →
    (∀ n, percentLeft m used now importedAt = some n → 0 ≤ n ∧ n ≤ 100) ∧
      ∀ n n', percentLeft m used now importedAt = some n →
        percentLeft m used' now' importedAt = some n' → n' ≤ n

/-! ## The end of a share -/

theorem addLong_wrap (a b : Int) : addLong a b = Long.wrap (a + b) := rfl

/-- The sum of the import and the duration is past no long, or another limit is there. -/
theorem expires_eq_endsAt_iff (he : IsLong share.expiresAt) (hd : IsLong share.durationMs) {t : Int}
    (ht : IsLong t) (hl : 0 < share.expiresAt ∨ 0 < share.durationMs) :
    (0 < share.expires t ∧ share.expires t = share.endsAt t) ↔
      (0 < share.durationMs → 0 < t + share.durationMs ∧
        (t + share.durationMs < 2 ^ 63 ∨ 0 < share.expiresAt)) := by
  unfold Share.expires Share.endsAt
  unfold IsLong at he hd ht
  rw [min?_pair]
  by_cases hdur : share.durationMs > 0
  · rw [if_pos hdur, if_pos hdur, addLong_wrap]
    by_cases hsum : t + share.durationMs < 2 ^ 63
    · rw [Long.wrap_eq (by omega) hsum]
      split_ifs <;> omega
    · rw [Long.wrap_over (by omega) (by omega)]
      split_ifs <;> omega
  · rw [if_neg hdur, if_neg hdur]
    split_ifs <;> omega

/-- **What a received configuration carries** is the share's end, unless there is no such long. -/
theorem carries_iff (hr : Rereads p fingerprint share) (he : IsLong share.expiresAt)
    (hd : IsLong share.durationMs) (hq : IsLong share.quotaBytes) {t : Int} (ht : IsLong t)
    (hl : 0 < share.expiresAt ∨ 0 < share.durationMs) :
    Carries p fingerprint share t ↔ share.configs = [] ∨ share.id.blank = false ∧
      (0 < share.durationMs → 0 < t + share.durationMs ∧
        (t + share.durationMs < 2 ^ 63 ∨ 0 < share.expiresAt)) := by
  have hmeta := received_meta (t := t) hr hq he
  rw [← expires_eq_endsAt_iff he hd ht hl]
  constructor
  · intro h
    rcases hc : share.configs with - | ⟨c, cs⟩
    · exact .inl rfl
    · right
      obtain ⟨d, hd⟩ : ∃ d, d ∈ receivedConfigs p fingerprint share (fun _ => "") t :=
        List.exists_mem_of_ne_nil _ (by simp [receivedConfigs, hc])
      obtain ⟨m, hm, hpos, hend⟩ := h (fun _ => "") d hd
      rw [hmeta _ d hd] at hm
      split at hm
      · cases hm
      · rename_i hid
        obtain rfl := Option.some.inj hm
        exact ⟨by simpa using hid, hpos, hend⟩
  · rintro (hc | ⟨hid, hend⟩) draw c hmem
    · simp [receivedConfigs, hc] at hmem
    · exact ⟨share.limits fingerprint t, by rw [hmeta _ c hmem, hid]; rfl, hend⟩

/-! ## The percentage -/

/-- What the code makes of the part that is left of a limit. -/
def percentOf (left total : Int) : Int := Long.toInt (Long.div (Long.mul left 100) total)

section Percent

variable {left left' total : Int}

theorem percentOf_eq (h0 : 0 ≤ left) (hl : left ≤ total) (ht : 0 < total)
    (hf : total * 100 < 2 ^ 63) : percentOf left total = left * 100 / total := by
  have hq : left * 100 / total ≤ 100 :=
    Int.ediv_le_of_le_mul ht (by nlinarith)
  have hq0 : 0 ≤ left * 100 / total := Int.ediv_nonneg (by omega) (by omega)
  unfold percentOf
  rw [Long.mul_eq (by omega) (by omega),
    Long.div_eq (Int.tdiv_eq_ediv_of_nonneg (by omega)) (by omega) (by omega),
    Long.toInt_eq (by omega) (by omega)]

theorem percentOf_range (h0 : 0 ≤ left) (hl : left ≤ total) (ht : 0 < total)
    (hf : total * 100 < 2 ^ 63) : 0 ≤ percentOf left total ∧ percentOf left total ≤ 100 := by
  rw [percentOf_eq h0 hl ht hf]
  exact ⟨Int.ediv_nonneg (by omega) (by omega), Int.ediv_le_of_le_mul ht (by nlinarith)⟩

theorem percentOf_mono (h0 : 0 ≤ left') (hle : left' ≤ left) (hl : left ≤ total) (ht : 0 < total)
    (hf : total * 100 < 2 ^ 63) : percentOf left' total ≤ percentOf left total := by
  rw [percentOf_eq h0 (hle.trans hl) ht hf, percentOf_eq (h0.trans hle) hl ht hf]
  exact Int.ediv_le_ediv ht (by omega)

theorem tdiv_neg_left {a b : Int} (h : 0 ≤ a) : (-a).tdiv b = -(a / b) := by
  rw [Int.neg_tdiv, Int.tdiv_eq_ediv_of_nonneg h]

theorem ediv_one {a b : Int} (h1 : b ≤ a) (h2 : a < 2 * b) : a / b = 1 := by
  have h3 : 1 ≤ a / b := (Int.le_ediv_iff_mul_le (by omega)).2 (by omega)
  have h4 : a / b < 2 := Int.ediv_lt_of_lt_mul (by omega) h2
  omega

/-- A limit whose hundredfold is no long is wrong at some point: what is left of it there is
taken for a negative part. -/
theorem percentOf_wraps (hf : 2 ^ 63 ≤ total * 100) (ht : total < 2 ^ 63) :
    ∃ left, 0 ≤ left ∧ left ≤ total ∧ percentOf left total < 0 := by
  by_cases hsmall : total ≤ 9223372036854775716
  · -- the first number whose hundredfold is too large
    refine ⟨92233720368547759, by omega, by omega, ?_⟩
    have hm : Long.mul 92233720368547759 100 = -9223372036854775716 := by decide
    have hd := tdiv_neg_left (a := 9223372036854775716) (b := total) (by omega)
    have hq1 : 1 ≤ 9223372036854775716 / total :=
      (Int.le_ediv_iff_mul_le (by omega)).2 (by omega)
    have hq2 : 9223372036854775716 / total ≤ 100 :=
      Int.ediv_le_of_le_mul (by omega) (by omega)
    unfold percentOf
    rw [hm, Long.div_eq hd (by omega) (by omega), Long.toInt_eq (by omega) (by omega)]
    omega
  · -- a quarter of the range, whose hundredfold is the least long
    refine ⟨2 ^ 61, by omega, by omega, ?_⟩
    have hm : Long.mul (2 ^ 61) 100 = -2 ^ 63 := by decide
    have hd := tdiv_neg_left (a := 2 ^ 63) (b := total) (by omega)
    rw [ediv_one (by omega) (by omega)] at hd
    unfold percentOf
    rw [hm, Long.div_eq hd (by omega) (by omega)]
    decide

/-- A total that has wrapped is negative; where it is not among the least, so is some part. -/
theorem percentOf_negative (h1 : -9223372036854775800 ≤ total) (h2 : total < 0) :
    ∃ left, 0 ≤ left ∧ left ≤ 92233720368547758 ∧ percentOf left total < 0 := by
  refine ⟨(-total + 99) / 100, by omega, by omega, ?_⟩
  obtain ⟨part, hpart⟩ : ∃ part, part = (-total + 99) / 100 * 100 := ⟨_, rfl⟩
  have hd : part.tdiv total = -(part / -total) := by
    rw [← Int.tdiv_eq_ediv_of_nonneg (by omega), Int.tdiv_neg, Int.neg_neg]
  have hq1 : 1 ≤ part / -total := (Int.le_ediv_iff_mul_le (by omega)).2 (by omega)
  have hq2 : part / -total ≤ 100 := Int.ediv_le_of_le_mul (by omega) (by omega)
  unfold percentOf
  rw [Long.mul_eq (by omega) (by omega), ← hpart, Long.div_eq hd (by omega) (by omega),
    Long.toInt_eq (by omega) (by omega)]
  omega

/-- For the least totals the part grows as less is left. -/
theorem percentOf_grows (h1 : -2 ^ 63 ≤ total) (h2 : total < -9223372036854775800) :
    percentOf (2 ^ 61 + 1) total = 0 ∧ percentOf (2 ^ 61) total = 1 := by
  have hm1 : Long.mul (2 ^ 61 + 1) 100 = -9223372036854775708 := by decide
  have hm2 : Long.mul (2 ^ 61) 100 = -2 ^ 63 := by decide
  have hd1 : (-9223372036854775708 : Int).tdiv total = 0 := by
    rw [show total = -(-total) by omega, Int.tdiv_neg, Int.neg_tdiv, Int.neg_neg]
    exact Int.tdiv_eq_zero_of_lt (by omega) (by omega)
  have hd2 : (-2 ^ 63 : Int).tdiv total = 1 := by
    rw [show total = -(-total) by omega, Int.tdiv_neg, tdiv_neg_left (by omega), Int.neg_neg]
    exact ediv_one (by omega) (by omega)
  unfold percentOf
  rw [hm1, hm2, Long.div_eq hd1 (by omega) (by omega), Long.div_eq hd2 (by omega) (by omega)]
  decide

end Percent

/-- The limits' hundredfolds are longs. -/
def Fits (m : Meta) (importedAt : Int) : Prop :=
  (0 < m.quotaBytes → m.quotaBytes * 100 < 2 ^ 63) ∧
    (0 < m.expiresAt → importedAt < m.expiresAt → (m.expiresAt - importedAt) * 100 < 2 ^ 63)

section Least

variable {a b : Option Int} {n x : Int}

theorem least_mem (h : ([a, b].filterMap id).min? = some n) : a = some n ∨ b = some n := by
  cases a <;> cases b <;> simp_all [List.min?]
  omega

theorem least_le_left (h : ([a, b].filterMap id).min? = some n) (ha : a = some x) : n ≤ x := by
  cases b <;> simp_all [List.min?]
  omega

theorem least_le_right (h : ([a, b].filterMap id).min? = some n) (hb : b = some x) : n ≤ x := by
  cases a <;> simp_all [List.min?]
  omega

theorem least_some (h : a = some x ∨ b = some x) : ∃ n, ([a, b].filterMap id).min? = some n := by
  cases a <;> cases b <;> simp_all [List.min?]

end Least

section Left

variable {used used' now now' importedAt n : Int}

/-- The part of the quota that is left. -/
def byQuota (m : Meta) (used : Int) : Option Int :=
  if m.quotaBytes > 0 then
    some (percentOf (max (Long.sub m.quotaBytes used) 0) m.quotaBytes)
  else none

/-- The part of the time that is left. -/
def byTime (m : Meta) (now importedAt : Int) : Option Int :=
  if m.expiresAt > 0 ∧ m.expiresAt > importedAt then
    some (percentOf (max (Long.sub m.expiresAt now) 0) (Long.sub m.expiresAt importedAt))
  else none

theorem percentLeft_eq : percentLeft m used now importedAt =
    ([byQuota m used, byTime m now importedAt].filterMap id).min? := rfl

theorem byQuota_eq (hq : 0 < m.quotaBytes) (hl : IsLong m.quotaBytes) (h0 : 0 ≤ used)
    (hu : IsLong used) :
    byQuota m used = some (percentOf (max (m.quotaBytes - used) 0) m.quotaBytes) := by
  unfold IsLong at hl hu
  unfold byQuota
  rw [if_pos hq, Long.sub_eq (by omega) (by omega)]

theorem byTime_eq (he : 0 < m.expiresAt) (hl : IsLong m.expiresAt) (ht : importedAt < m.expiresAt)
    (hu : IsLong now) (hd : m.expiresAt - now < 2 ^ 63) :
    byTime m now importedAt =
      some (percentOf (max (m.expiresAt - now) 0) (Long.sub m.expiresAt importedAt)) := by
  unfold IsLong at hl hu
  unfold byTime
  rw [if_pos ⟨he, ht⟩, Long.sub_eq (a := m.expiresAt) (b := now) (by omega) hd]

/-- **The percentage is one** exactly when the hundredfold of each limit is a long. -/
theorem percent_iff (hq : IsLong m.quotaBytes) (he : IsLong m.expiresAt)
    (ht : IsLong importedAt) : Percentage m importedAt ↔ Fits m importedAt := by
  constructor
  · intro h
    have hquota : 0 < m.quotaBytes → m.quotaBytes * 100 < 2 ^ 63 := by
      intro hpos
      by_contra hbig
      obtain ⟨left, h0, hle, hneg⟩ := percentOf_wraps (not_lt.1 hbig) hq.2
      have hpart : byQuota m (m.quotaBytes - left) = _ := byQuota_eq hpos hq (by omega)
        ⟨by unfold IsLong at hq; omega, by unfold IsLong at hq; omega⟩
      rw [show max (m.quotaBytes - (m.quotaBytes - left)) 0 = left by omega] at hpart
      obtain ⟨n, hn⟩ := least_some (b := byTime m importedAt importedAt) (.inl hpart)
      have hrange := (h (m.quotaBytes - left) (m.quotaBytes - left) importedAt importedAt
        (by omega) le_rfl ⟨by unfold IsLong at hq; omega, by unfold IsLong at hq; omega⟩ le_rfl
        le_rfl ht).1 n hn
      have := least_le_left hn hpart
      omega
    refine ⟨hquota, fun hpos hlt => ?_⟩
    unfold IsLong at hq he ht
    by_contra hbig
    -- a moment at which the part is negative
    have key (left : Int) (h0 : 0 ≤ left) (hle : left ≤ m.expiresAt - importedAt)
        (hl : left < 2 ^ 63) (hneg : percentOf left (Long.sub m.expiresAt importedAt) < 0) :
        False := by
      have hpart : byTime m (m.expiresAt - left) importedAt = _ := byTime_eq hpos he hlt
        ⟨by omega, by omega⟩ (by omega)
      rw [show max (m.expiresAt - (m.expiresAt - left)) 0 = left by omega] at hpart
      obtain ⟨n, hn⟩ := least_some (a := byQuota m 0) (.inr hpart)
      have hrange := (h 0 0 (m.expiresAt - left) (m.expiresAt - left) le_rfl le_rfl
        ⟨by omega, by omega⟩ (by omega) le_rfl ⟨by omega, by omega⟩).1 n hn
      have := least_le_right hn hpart
      omega
    by_cases hfit : m.expiresAt - importedAt < 2 ^ 63
    · obtain ⟨left, h0, hle, hneg⟩ := percentOf_wraps (not_lt.1 hbig) hfit
      exact key left h0 hle (by omega) (by rwa [Long.sub_eq (by omega) hfit])
    · have htotal : Long.sub m.expiresAt importedAt = m.expiresAt - importedAt - 2 ^ 64 :=
        Long.wrap_over (by omega) (by omega)
      by_cases hlow : -9223372036854775800 ≤ m.expiresAt - importedAt - 2 ^ 64
      · obtain ⟨left, h0, hle, hneg⟩ := percentOf_negative hlow (by omega)
        exact key left h0 (by omega) (by omega) (by rwa [htotal])
      · -- the part is 0 and a moment later 1, and the quota is full
        have hgrows : percentOf (2 ^ 61 + 1) (m.expiresAt - importedAt - 2 ^ 64) = 0 ∧
            percentOf (2 ^ 61) (m.expiresAt - importedAt - 2 ^ 64) = 1 :=
          percentOf_grows (by omega) (by omega)
        have hp1 : byTime m (m.expiresAt - (2 ^ 61 + 1)) importedAt = _ := byTime_eq hpos he hlt
          ⟨by omega, by omega⟩ (by omega)
        have hp2 : byTime m (m.expiresAt - 2 ^ 61) importedAt = _ := byTime_eq hpos he hlt
          ⟨by omega, by omega⟩ (by omega)
        rw [show max (m.expiresAt - (m.expiresAt - (2 ^ 61 + 1))) 0 = 2 ^ 61 + 1 by omega, htotal,
          hgrows.1] at hp1
        rw [show max (m.expiresAt - (m.expiresAt - 2 ^ 61)) 0 = 2 ^ 61 by omega, htotal,
          hgrows.2] at hp2
        obtain ⟨n, hn⟩ := least_some (a := byQuota m 0) (.inr hp1)
        obtain ⟨n', hn'⟩ := least_some (a := byQuota m 0) (.inr hp2)
        have hle := (h 0 0 (m.expiresAt - (2 ^ 61 + 1)) (m.expiresAt - 2 ^ 61) le_rfl le_rfl
          ⟨by omega, by omega⟩ (by omega) (by omega) ⟨by omega, by omega⟩).2 n n' hn hn'
        have h0 := least_le_right hn hp1
        rcases least_mem hn' with hm | hm
        · -- nothing is used, so the quota's part is a hundred
          by_cases hpq : 0 < m.quotaBytes
          · rw [byQuota_eq hpq hq le_rfl ⟨by omega, by omega⟩,
              show max (m.quotaBytes - 0) 0 = m.quotaBytes by omega,
              percentOf_eq hpq.le le_rfl hpq (hquota hpq), Int.mul_ediv_cancel_left _ hpq.ne'] at hm
            have := Option.some.inj hm
            omega
          · rw [byQuota, if_neg hpq] at hm
            cases hm
        · rw [hp2] at hm
          have := Option.some.inj hm
          omega
  · rintro ⟨hquota, htime⟩ used used' now now' h0 hused hlong hi hnow hlongn
    have hlongu : IsLong used := ⟨by unfold IsLong at hlong; omega, by unfold IsLong at hlong; omega⟩
    have hlongw : IsLong now := ⟨by unfold IsLong at ht; omega, by unfold IsLong at hlongn; omega⟩
    constructor
    · intro n hn
      rw [percentLeft_eq] at hn
      rcases least_mem hn with hm | hm
      · by_cases hpq : 0 < m.quotaBytes
        · rw [byQuota_eq hpq hq h0 hlongu] at hm
          have : 0 ≤ percentOf (max (m.quotaBytes - used) 0) m.quotaBytes ∧ _ :=
            percentOf_range (by omega) (by omega) hpq (hquota hpq)
          rwa [Option.some.inj hm] at this
        · rw [byQuota, if_neg hpq] at hm
          cases hm
      · by_cases hpe : m.expiresAt > 0 ∧ m.expiresAt > importedAt
        · have hf := htime hpe.1 hpe.2
          rw [byTime_eq hpe.1 he hpe.2 hlongw (by omega),
            Long.sub_eq (by omega) (by omega)] at hm
          have : 0 ≤ percentOf (max (m.expiresAt - now) 0) (m.expiresAt - importedAt) ∧ _ :=
            percentOf_range (by omega) (by omega) (by omega) hf
          rwa [Option.some.inj hm] at this
        · rw [byTime, if_neg hpe] at hm
          cases hm
    · intro n n' hn hn'
      rw [percentLeft_eq] at hn hn'
      rcases least_mem hn with hm | hm
      · by_cases hpq : 0 < m.quotaBytes
        · have hle := least_le_left hn' (byQuota_eq hpq hq (by omega) hlong)
          rw [byQuota_eq hpq hq h0 hlongu] at hm
          rw [← Option.some.inj hm]
          exact hle.trans (percentOf_mono (by omega) (by omega) (by omega) hpq (hquota hpq))
        · rw [byQuota, if_neg hpq] at hm
          cases hm
      · by_cases hpe : m.expiresAt > 0 ∧ m.expiresAt > importedAt
        · have hf := htime hpe.1 hpe.2
          have hle := least_le_right hn' (byTime_eq hpe.1 he hpe.2 hlongn (by omega))
          rw [byTime_eq hpe.1 he hpe.2 hlongw (by omega)] at hm
          rw [← Option.some.inj hm]
          rw [Long.sub_eq (by omega) (by omega)] at hle ⊢
          exact hle.trans (percentOf_mono (by omega) (by omega) (by omega) (by omega) hf)
        · rw [byTime, if_neg hpe] at hm
          cases hm

end Left

/-- **A limited share stays limited**, and its percentage is one, exactly when the end of the
duration and the hundredfolds of the limits are longs. -/
theorem limits_numbers_iff (hr : Rereads p fingerprint share) (he : IsLong share.expiresAt)
    (hd : IsLong share.durationMs) (hq : IsLong share.quotaBytes) {t : Int} (ht : IsLong t)
    (hl : 0 < share.expiresAt ∨ 0 < share.durationMs) {importedAt : Int}
    (hmq : IsLong m.quotaBytes) (hme : IsLong m.expiresAt) (hi : IsLong importedAt) :
    (Carries p fingerprint share t ↔ share.configs = [] ∨ share.id.blank = false ∧
      (0 < share.durationMs → 0 < t + share.durationMs ∧
        (t + share.durationMs < 2 ^ 63 ∨ 0 < share.expiresAt))) ∧
    (Percentage m importedAt ↔ Fits m importedAt) :=
  ⟨carries_iff hr he hd hq ht hl, percent_iff hmq hme hi⟩

/-- A share of one server for so many milliseconds. -/
def lasting (durationMs : Int) : Share :=
  { id := "s1"
    name := "s"
    durationMs
    configs := [{ name := "a", protocol := "vless", address := "a.example", port := 443, id := "c1" }] }

theorem lasting_rereads (durationMs : Int) :
    Rereads textPlatform (fun key => key) (lasting durationMs) :=
  rereads_of_blank textPlatform_readsBack (by
    intro c hc
    obtain rfl := List.mem_singleton.1 hc
    rfl)

/-- An hour from the import, and half of ten bytes used. -/
theorem lasting_hour : Carries textPlatform (fun key => key) (lasting 3600000) 5 ∧
    Percentage ⟨"s1", "s", 0, 10, "k"⟩ 5 := by
  have h := @limits_numbers_iff _ _ _ ⟨"s1", "s", 0, 10, "k"⟩ (lasting_rereads 3600000)
    ⟨by decide, by decide⟩ ⟨by decide, by decide⟩ ⟨by decide, by decide⟩ 5 ⟨by decide, by decide⟩
    (by decide) 5 ⟨by decide, by decide⟩ ⟨by decide, by decide⟩ ⟨by decide, by decide⟩
  exact ⟨h.1.2 (.inr ⟨rfl, fun _ => ⟨by decide, by decide⟩⟩), h.2.2 ⟨by decide, by decide⟩⟩

/-- The longest duration there is ends before it begins: the share has no end. -/
theorem lasting_longest : ¬Carries textPlatform (fun key => key) (lasting (2 ^ 63 - 1)) 5 := by
  intro h
  have := (carries_iff (lasting_rereads _) ⟨by decide, by decide⟩ ⟨by decide, by decide⟩
    ⟨by decide, by decide⟩ ⟨by decide, by decide⟩ (by decide)).1 h
  revert this
  decide

end Ghajar.Gsb2
