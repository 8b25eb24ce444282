import Ghajar.Ppp.Negotiate

/-!
# What an accepted LCP request asks for

`askedAuth` is the authentication a Configure-Request asks for, read off its
options. `scanOpts_agrees` relates the protocol the option loop settles on to
it: a request that is neither rejected nor naked asks for nothing and sets
nothing, or asks for what the policy wants (`Wants`).
-/

namespace Ghajar.Ppp

/-- The value of the last authentication option, if any. -/
def lastAuth (opts : List PppOpt) : Option Bytes :=
  opts.foldl (fun v x => if x.t = lcpAuth then some x.v else v) none

/-- The authentication the data of a Configure-Request asks for. -/
def askedAuth (data : Bytes) : Option Bytes := (parseOpts data).bind lastAuth

section
variable {o : PppConfig}

/-- The option value asks for the protocol `p` in a way the policy wants. -/
def Wants (o : PppConfig) (v : Bytes) (p : Nat) : Prop :=
  ∃ a b rest, v = a :: b :: rest ∧ rd16 a b = p ∧ wantAuth o p (rest.headD 0) = true

theorem not_wants_zero {v : Bytes} : ¬ Wants o v 0 := by
  rintro ⟨a, b, rest, -, -, hw⟩
  unfold wantAuth at hw
  cases ho : o.auth <;> simp [ho, pppPAP, pppCHAP] at hw

/-- The protocol `p` is what was asked for. -/
def Agrees (o : PppConfig) : Option Bytes → Nat → Prop
  | none, p => p = 0
  | some v, p => Wants o v p

/-- One option that is not refused. -/
theorem scanOpt_agrees {r : LcpScan} {x : PppOpt} {v : Option Bytes}
    (hr : (scanOpt o r x).rej = []) (hn : (scanOpt o r x).nak = []) :
    r.rej = [] ∧ r.nak = [] ∧ (Agrees o v r.auth →
      Agrees o (if x.t = lcpAuth then some x.v else v) (scanOpt o r x).auth) := by
  unfold scanOpt at hr hn ⊢
  split at hr
  · rename_i ht
    have hx : x.t ≠ lcpAuth := by rcases ht with ht | ht | ht <;> rw [ht] <;> decide
    simp only [if_pos ht] at hn ⊢
    exact ⟨hr, hn, fun ha => by rwa [if_neg hx]⟩
  rename_i ht
  simp only [if_neg ht] at hn ⊢
  split at hr
  · rename_i hx
    simp only [if_pos hx] at hn ⊢
    split at hr
    · rename_i a b rest hv
      simp only [hv] at hn ⊢
      split at hr
      · rename_i hw
        simp only [if_pos hw] at hn ⊢
        exact ⟨hr, hn, fun _ => ⟨a, b, rest, rfl, rfl, hw⟩⟩
      · rename_i hw
        simp only [if_neg hw] at hn
        simp at hn
    · simp at hr
  · simp at hr

theorem foldl_scan_agrees {opts : List PppOpt} {r : LcpScan} {v : Option Bytes}
    (hr : (opts.foldl (scanOpt o) r).rej = []) (hn : (opts.foldl (scanOpt o) r).nak = []) :
    r.rej = [] ∧ r.nak = [] ∧ (Agrees o v r.auth →
      Agrees o (opts.foldl (fun v x => if x.t = lcpAuth then some x.v else v) v)
        (opts.foldl (scanOpt o) r).auth) := by
  induction opts generalizing r v with
  | nil => exact ⟨hr, hn, id⟩
  | cons x opts ih =>
    have ⟨hr1, hn1, ha1⟩ := ih (v := if x.t = lcpAuth then some x.v else v) hr hn
    have ⟨hr2, hn2, ha2⟩ := scanOpt_agrees (v := v) hr1 hn1
    exact ⟨hr2, hn2, fun ha => ha1 (ha2 ha)⟩

/-- **The protocol set by an accepted request is the one it asks for.** -/
theorem scanOpts_agrees {opts : List PppOpt} (hr : (scanOpts o opts).rej = [])
    (hn : (scanOpts o opts).nak = []) : Agrees o (lastAuth opts) (scanOpts o opts).auth :=
  (foldl_scan_agrees (v := none) hr hn).2.2 rfl

/-- An accepted request that sets no protocol asks for none. -/
theorem lastAuth_none {opts : List PppOpt} (hr : (scanOpts o opts).rej = [])
    (hn : (scanOpts o opts).nak = []) (ha : (scanOpts o opts).auth = 0) :
    lastAuth opts = none := by
  have h := scanOpts_agrees hr hn
  rw [ha] at h
  cases hl : lastAuth opts with
  | none => rfl
  | some v =>
    rw [hl] at h
    exact absurd h not_wants_zero

end

end Ghajar.Ppp
