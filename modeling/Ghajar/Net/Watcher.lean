import Ghajar.Lib.Keyed
import Ghajar.Lib.Run

/-!
# The network watcher

`NetworkWatcher`: the callback of the request for physical networks, as functions
on the one network it keeps. The callbacks come for any number of networks; each
is available, then its capabilities are known, then it may be lost (`step`).
`watcher_truthful` says when the watcher tells the truth about them.
-/

namespace Ghajar.Net

open Run

inductive NetKind where
  | wifi
  | cellular
  | other
  deriving DecidableEq, Repr

/-- The transports of `NetworkCapabilities` the watcher asks for. -/
structure Caps where
  wifi : Bool
  cellular : Bool
  deriving DecidableEq, Repr

def Caps.kind (caps : Caps) : NetKind :=
  if caps.wifi then .wifi
  else if caps.cellular then .cellular
  else .other

structure Watcher where
  kind : Option NetKind
  current : Option Nat
  deriving DecidableEq, Repr

/-- What `notifyAll` calls the listeners with. -/
abbrev Notice := Option NetKind × Option Nat

def onAvailable (w : Watcher) (network : Nat) : Watcher := { w with current := some network }

def onCapabilitiesChanged (w : Watcher) (network : Nat) (caps : Caps) :
    Watcher × Option Notice :=
  let kind := caps.kind
  let changed := some kind ≠ w.kind ∨ some network ≠ w.current
  (⟨some kind, some network⟩, if changed then some (some kind, some network) else none)

def onLost (w : Watcher) (network : Nat) : Watcher × Option Notice :=
  if some network ≠ w.current then (w, none) else (⟨none, none⟩, some (none, none))

/-! ## What Android delivers -/

/-- A network that is there, and its kind once its capabilities are known. -/
structure Present where
  id : Nat
  kind : Option NetKind
  deriving DecidableEq, Repr

structure Sys where
  watcher : Watcher
  networks : List Present
  deriving DecidableEq, Repr

inductive Act where
  | available (network : Nat)
  | capabilities (network : Nat) (caps : Caps)
  | lost (network : Nat)
  deriving DecidableEq, Repr

namespace Sys

def find (s : Sys) (network : Nat) : Option Present := Keyed.get Present.id s.networks network

def drop (s : Sys) (network : Nat) : List Present := s.networks.filter fun p => p.id ≠ network

/-- A callback that Android may deliver, and what the watcher makes of it. -/
def deliver (s : Sys) : Act → Option (Sys × Option Notice)
  | .available n =>
    match s.find n with
    | none => some (⟨onAvailable s.watcher n, s.networks ++ [⟨n, none⟩]⟩, none)
    | some _ => none
  | .capabilities n caps =>
    match s.find n with
    | none => none
    | some _ =>
      let r := onCapabilitiesChanged s.watcher n caps
      some (⟨r.1, Keyed.put Present.id s.networks ⟨n, some caps.kind⟩⟩, r.2)
  | .lost n =>
    match s.find n with
    | some ⟨_, some _⟩ =>
      let r := onLost s.watcher n
      some (⟨r.1, s.drop n⟩, r.2)
    | _ => none

def fresh : Sys := ⟨⟨none, none⟩, []⟩

end Sys

def step (s : Sys) (a : Act) : Option Sys := (s.deliver a).map Prod.fst

/-- The listeners are told what the watcher now says. -/
theorem deliver_notice {s s' : Sys} {a : Act} {n : Notice}
    (h : s.deliver a = some (s', some n)) : n = (s'.watcher.kind, s'.watcher.current) := by
  cases a with
  | available m =>
    simp only [Sys.deliver] at h
    split at h <;> simp at h
  | capabilities m caps =>
    simp only [Sys.deliver, onCapabilitiesChanged] at h
    split at h
    · cases h
    · obtain ⟨rfl, hn⟩ := Prod.mk.inj (Option.some.inj h)
      split at hn
      · exact (Option.some.inj hn).symm
      · cases hn
  | lost m =>
    simp only [Sys.deliver, onLost] at h
    split at h
    · obtain ⟨rfl, hn⟩ := Prod.mk.inj (Option.some.inj h)
      split at hn
      · cases hn
      · rename_i hm
        simp only [hm, if_false]
        exact (Option.some.inj hn).symm
    · cases h

/-! ## What it says is true -/

/-- Nobody is there whose kind is known. -/
def Sys.Dark (s : Sys) : Prop := ∀ p ∈ s.networks, p.kind = none

instance (s : Sys) : Decidable s.Dark := by
  unfold Sys.Dark
  infer_instance

structure Truthful (s : Sys) : Prop where
  none_iff : s.watcher.kind = none ↔ s.Dark
  present : ∀ k, s.watcher.kind = some k →
    ∃ p ∈ s.networks, p.kind = some k ∧ s.watcher.current = some p.id

/-- A network appears only where none is known, and the current one is lost only
where no other is. -/
def Alone (s : Sys) : Act → Prop
  | .available _ => s.Dark
  | .capabilities _ _ => True
  | .lost n => s.watcher.current = some n → ∀ p ∈ s.networks, p.id ≠ n → p.kind = none

instance (s : Sys) (a : Act) : Decidable (Alone s a) := by
  unfold Alone
  split <;> infer_instance

theorem available_iff {s s' : Sys} {n : Nat} (h : Truthful s)
    (hs : step s (.available n) = some s') : Truthful s' ↔ s.Dark := by
  simp only [step, Sys.deliver] at hs
  split at hs
  · rename_i hn
    cases hs
    constructor
    · intro h'
      refine h.none_iff.1 ?_
      cases hk : s.watcher.kind with
      | none => rfl
      | some k =>
        -- the new network has no kind yet, so it cannot be the current one
        obtain ⟨p, hp, hpk, hcur⟩ := h'.present k hk
        have hid : n = p.id := Option.some.inj hcur
        rcases List.mem_append.1 hp with hp | hp
        · exact absurd hid.symm (Keyed.get_none hn hp)
        · rw [List.mem_singleton.1 hp] at hpk
          cases hpk
    · intro hd
      have hk : s.watcher.kind = none := h.none_iff.2 hd
      refine ⟨⟨fun _ p hp => ?_, fun _ => hk⟩, fun k hk' => ?_⟩
      · rcases List.mem_append.1 hp with hp | hp
        · exact hd p hp
        · rw [List.mem_singleton.1 hp]
      · have hk' : s.watcher.kind = some k := hk'
        rw [hk] at hk'
        cases hk'
  · cases hs

theorem capabilities_truthful {s s' : Sys} {n : Nat} {caps : Caps}
    (hs : step s (.capabilities n caps) = some s') : Truthful s' := by
  simp only [step, Sys.deliver] at hs
  split at hs
  · cases hs
  · cases hs
    have hmem : (⟨n, some caps.kind⟩ : Present) ∈
        Keyed.put Present.id s.networks ⟨n, some caps.kind⟩ := Keyed.get_mem Keyed.get_put_self
    refine ⟨⟨fun h => (by cases h), fun hd => ?_⟩, fun k hk => ⟨_, hmem, hk, rfl⟩⟩
    have := hd _ hmem
    cases this

theorem lost_iff {s s' : Sys} {n : Nat} (h : Truthful s) (hs : step s (.lost n) = some s') :
    Truthful s' ↔ (s.watcher.current = some n → ∀ p ∈ s.networks, p.id ≠ n → p.kind = none) := by
  have hdrop : ∀ p, p ∈ s.drop n ↔ p ∈ s.networks ∧ p.id ≠ n := by
    intro p
    simp [Sys.drop]
  simp only [step, Sys.deliver, onLost] at hs
  split at hs
  · cases hs
    by_cases hc : some n = s.watcher.current
    · rw [if_neg (fun hne => hne hc)]
      constructor
      · intro h' _ p hp hne
        exact h'.none_iff.1 rfl p ((hdrop p).2 ⟨hp, hne⟩)
      · intro hd
        refine ⟨⟨fun _ p hp => ?_, fun _ => rfl⟩, fun k hk => (by cases hk)⟩
        obtain ⟨hp, hne⟩ := (hdrop p).1 hp
        exact hd hc.symm p hp hne
    · rw [if_pos hc]
      refine ⟨fun _ hc' => absurd hc'.symm hc, fun _ => ?_⟩
      refine ⟨⟨fun hk p hp => ?_, fun hd => ?_⟩, fun k hk => ?_⟩
      · exact h.none_iff.1 hk p ((hdrop p).1 hp).1
      · cases hk : s.watcher.kind with
        | none => rfl
        | some k =>
          obtain ⟨p, hp, hpk, hcur⟩ := h.present k hk
          have hne : p.id ≠ n := fun he => hc (by rw [hcur, he])
          rw [hd p ((hdrop p).2 ⟨hp, hne⟩)] at hpk
          cases hpk
      · obtain ⟨p, hp, hpk, hcur⟩ := h.present k hk
        have hne : p.id ≠ n := fun he => hc (by rw [hcur, he])
        exact ⟨p, (hdrop p).2 ⟨hp, hne⟩, hpk, hcur⟩
  · cases hs

theorem step_truthful {s s' : Sys} {a : Act} (h : Truthful s) (hs : step s a = some s') :
    Truthful s' ↔ Alone s a := by
  cases a with
  | available n => exact available_iff h hs
  | capabilities n caps => exact ⟨fun _ => trivial, fun _ => capabilities_truthful hs⟩
  | lost n => exact lost_iff h hs

theorem fresh_truthful : Truthful .fresh :=
  ⟨⟨fun _ p hp => absurd hp List.not_mem_nil, fun _ => rfl⟩, fun k hk => (by cases hk)⟩

/-- **The watcher tells the truth** after every callback exactly if networks do not overlap
where it matters. -/
theorem watcher_truthful {as : List Act} {s : Sys} (hr : run step .fresh as = some s) :
    Visits step Truthful .fresh as ↔ Meets step Alone .fresh as :=
  visits_iff_meets (I := fun _ => True) (fun _ _ _ _ _ _ => trivial)
    (fun _ _ _ _ h hs => step_truthful h hs) trivial fresh_truthful hr

/-- Wi-Fi and then mobile data. -/
def oneByOne : List Act :=
  [.available 1, .capabilities 1 ⟨true, false⟩, .lost 1, .available 2,
    .capabilities 2 ⟨false, true⟩]

theorem oneByOne_truthful : ∃ s, run step .fresh oneByOne = some s ∧
    s.watcher = ⟨some .cellular, some 2⟩ ∧ Visits step Truthful .fresh oneByOne :=
  ⟨_, rfl, rfl, (watcher_truthful rfl).2 (by decide)⟩

/-- Mobile data joins the Wi-Fi and goes again. -/
def overlapping : List Act :=
  [.available 1, .capabilities 1 ⟨true, false⟩, .available 2, .capabilities 2 ⟨false, true⟩,
    .lost 2]

/-- The Wi-Fi is still there, and the watcher says there is no network. -/
theorem overlapping_untruthful : ∃ s, run step .fresh overlapping = some s ∧
    s.watcher = ⟨none, none⟩ ∧ s.networks = [⟨1, some .wifi⟩] ∧ ¬Truthful s := by
  refine ⟨_, rfl, rfl, rfl, fun h => ?_⟩
  have hd := h.none_iff.1 rfl ⟨1, some .wifi⟩ (by decide)
  cases hd

end Ghajar.Net
