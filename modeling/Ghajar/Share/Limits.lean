import Ghajar.Lib.Run
import Ghajar.Share.Starts

/-!
# The limits of received shares, over whole runs

What a run promises is `LimitsHold`, of every step: nothing that dials a blocked
share's server is started, and no polled byte is left uncounted. What it needs for
that is `WithinReach`: the checks look at the server itself and not at its bases, the
switches are not checked, and the bytes go to the one share the session is drawn on.
-/

namespace Ghajar.Gsb2

open Ghajar ConfigBuilder Run

variable (p : Platform)

/-! ## The law and its condition -/

/-- The bytes were added to the share of this configuration, if it came with one. -/
def Counted (s s' : Sys) (bytes : Int) (g : ProxyConfig) : Prop :=
  ∀ m ∈ Meta.of p g, s'.prefs.used m.shareId = s.prefs.used m.shareId + bytes

/-- A tunnel that is up, or on its way. -/
def Pending (s : Sys) (t : Start) : Prop :=
  .start t ∈ s.intents ∨ (∃ b, (t, b) ∈ s.waiting) ∨ (∃ c ∈ s.switches, t = ⟨c, [c]⟩) ∨
    s.tunnel = some t

/-- No step asks for a tunnel that dials a configuration of a blocked share, none comes up that was
not asked for, and a round of polling counts for the share of each configuration dialled. -/
def LimitsHold (s : Sys) (a : Act) : Prop :=
  (∀ t ∈ issued p s a, ∀ g ∈ t.dials, blockedNow p s g = false) ∧
    (∀ s' ∈ step p s a, ∀ t, Pending s' t → Pending s t ∨ t ∈ issued p s a) ∧
    match a with
    | .poll up down =>
      ∀ t ∈ s.tunnel, ∀ s' ∈ step p s (.poll up down), ∀ g ∈ t.dials,
        Counted p s s' (up + down) g
    | _ => True

/-- The configuration under the active id came with the share of all that the tunnel dials. -/
def Drawn (s : Sys) (t : Start) : Prop :=
  ∀ g ∈ t.dials, ∀ m ∈ Meta.of p g, ∃ a ∈ (active s).bind (Meta.of p), a.shareId = m.shareId

/-- No base of a start that is not refused is blocked, no switch goes to a blocked server, and a
start that is taken draws on the share of all that it dials. -/
def WithinReach (s : Sys) : Act → Prop
  | .quickConnect prepared => ∀ c ∈ selected s, isRemoved c = false → blockedNow p s c = false →
      prepared = true → c.protocol ≠ "ikev2" →
      ∀ g ∈ bases (QuickConnect.options s.settings s.configs c) c, blockedNow p s g = false
  | .connect c _ => s.connected = false → isRemoved c = false → blockedNow p s c = false →
      c.protocol ≠ "ikev2" → ∀ g ∈ bases (homeOptions s c) c, blockedNow p s g = false
  | .deliver busy => ∀ t, s.intents.head? = some (.start t) → busy = false → s.tunnel = none →
      Drawn p s t
  | a => ∀ c ∈ target s a, blockedNow p s c = false

/-- The session is drawn on the share of all that its tunnel dials. -/
def Metered (s : Sys) : Prop :=
  ∀ t ∈ s.tunnel, ∀ g ∈ t.dials, ∀ m ∈ Meta.of p g, ∃ a ∈ s.gsb2Active, a.shareId = m.shareId

/-! ## What is asked for -/

section Issued

variable {p} {s : Sys} {c : ProxyConfig} {prepared : Bool} {t : Start}

theorem gate_none (h : (gate p s c).1.isSome ≠ true) : blockedNow p s c = false := by
  unfold blockedNow
  rw [← gate_isSome]
  exact Bool.eq_false_iff.2 h

theorem quickStart_some (h : quickStart p s prepared = some t) :
    ∃ c, selected s = some c ∧ isRemoved c = false ∧ blockedNow p s c = false ∧
      prepared = true ∧ c.protocol ≠ "ikev2" ∧
      t = asked (QuickConnect.options s.settings s.configs c) c := by
  unfold quickStart at h
  split at h
  · cases h
  rename_i c hc
  split_ifs at h with hr hg hp hi
  exact ⟨c, hc, Bool.eq_false_iff.2 hr, gate_none hg, by simpa using hp, hi,
    (Option.some.inj h).symm⟩

theorem homeStart_some (h : homeStart p s c = some t) :
    s.connected = false ∧ isRemoved c = false ∧ blockedNow p s c = false ∧
      c.protocol ≠ "ikev2" ∧ t = asked (homeOptions s c) c := by
  unfold homeStart at h
  split_ifs at h with hs hr hg hi
  exact ⟨Bool.eq_false_iff.2 hs, Bool.eq_false_iff.2 hr, gate_none hg, hi,
    (Option.some.inj h).symm⟩

theorem bases_options : bases s.settings.options c = [] := by
  unfold bases
  by_cases h : c.protocol = "tor" <;> simp [h, Settings.options, Options.chained]

theorem relaunchStart_some (h : relaunchStart p s c prepared = some t) :
    blockedNow p s c = false ∧ t = ⟨c, [c]⟩ := by
  unfold relaunchStart at h
  split_ifs at h with hp hg hr
  refine ⟨gate_none hg, ?_⟩
  rw [← Option.some.inj h, asked, bases_options]

theorem switchStart_eq : switchStart s c = ⟨c, [c]⟩ := by
  unfold switchStart asked bases
  by_cases h : c.protocol = "tor" <;>
    simp [h, GozarVpnService.options, Settings.options, Options.chained]

end Issued

/-! ## What a step keeps -/

section Steps

variable {p} {s s' : Sys} {a : Act}

/-- A step that leaves the tunnel and what it draws on alone. -/
theorem metered_of_eq (h : Metered p s) (ht : s'.tunnel = s.tunnel)
    (hg : s'.gsb2Active = s.gsb2Active) : Metered p s' := by
  unfold Metered
  rw [ht, hg]
  exact h

theorem metered_of_none (h : s.tunnel = none) : Metered p s := by
  intro t ht
  rw [h] at ht
  cases ht

theorem quickConnect_frame (prepared : Bool) :
    (quickConnect p s prepared).tunnel = s.tunnel ∧
      (quickConnect p s prepared).gsb2Active = s.gsb2Active := by
  unfold quickConnect
  split
  · exact ⟨rfl, rfl⟩
  dsimp only
  split
  · exact ⟨rfl, rfl⟩
  split <;> exact ⟨rfl, rfl⟩

theorem homeConnect_frame (c : ProxyConfig) (prepared : Bool) :
    (homeConnect p s c prepared).tunnel = s.tunnel ∧
      (homeConnect p s c prepared).gsb2Active = s.gsb2Active := by
  unfold homeConnect
  split
  · exact ⟨rfl, rfl⟩
  dsimp only
  split
  · exact ⟨rfl, rfl⟩
  split <;> exact ⟨rfl, rfl⟩

theorem relaunch_frame (c : ProxyConfig) (prepared : Bool) :
    (relaunch p s c prepared).tunnel = s.tunnel ∧
      (relaunch p s c prepared).gsb2Active = s.gsb2Active := by
  unfold relaunch
  split
  · exact ⟨rfl, rfl⟩
  dsimp only
  split <;> exact ⟨rfl, rfl⟩

/-- A round of polling leaves the tunnel alone or ends it. -/
theorem pollRound_tunnel (bytes : Int) :
    (pollRound p s bytes).gsb2Active = s.gsb2Active ∧
      ((pollRound p s bytes).tunnel = s.tunnel ∨ (pollRound p s bytes).tunnel = none) := by
  unfold pollRound
  split
  · exact ⟨rfl, .inl rfl⟩
  dsimp only
  split
  · exact ⟨rfl, .inr rfl⟩
  · exact ⟨rfl, .inl rfl⟩

theorem pollRound_used {m : Meta} (h : s.gsb2Active = some m) {bytes : Int} (hb : 0 ≤ bytes) :
    (pollRound p s bytes).prefs.used =
      fun i => if i = m.shareId then s.prefs.used i + bytes else s.prefs.used i := by
  unfold pollRound
  rw [h]
  dsimp only
  split <;> exact (Gsb2Store.now_used.trans (Gsb2Store.addUsage_used hb))

/-- A start that is taken draws on the share under the active id. -/
theorem takeStart_metered {t : Start} {busy : Bool} (h : Metered p s)
    (hd : busy = false → s.tunnel = none → Drawn p s t) : Metered p (takeStart p s t busy) := by
  unfold takeStart
  split
  · exact h
  · rename_i hn
    intro t' ht' g hg m hm
    obtain rfl := Option.some.inj ht'
    have hb : busy = false := by
      cases busy
      · rfl
      · exact absurd (.inl rfl) hn
    have ht : s.tunnel = none := by
      cases hs : s.tunnel with
      | none => rfl
      | some _ => exact absurd (.inr (by simp [hs])) hn
    exact hd hb ht g hg m hm

/-- A switch draws on the share of the one server that it dials. -/
theorem switchTunnel_metered {c : ProxyConfig} {tearingDown : Bool} (h : Metered p s) :
    Metered p (switchTunnel p s c tearingDown) := by
  unfold switchTunnel
  split
  · exact h
  · intro t ht g hg m hm
    obtain rfl := Option.some.inj ht
    rw [switchStart_eq] at hg
    obtain rfl := List.mem_singleton.1 hg
    exact ⟨m, hm, rfl⟩

theorem deliver_metered {busy : Bool} (h : Metered p s) (hw : WithinReach p s (.deliver busy))
    (hs : deliver p s busy = some s') : Metered p s' := by
  unfold deliver at hs
  split at hs
  · cases hs
  · obtain rfl := Option.some.inj hs
    exact metered_of_none rfl
  · rename_i t rest hi
    obtain rfl := Option.some.inj hs
    refine takeStart_metered (metered_of_eq h rfl rfl) fun hb ht => ?_
    exact hw t (by rw [hi]; rfl) hb ht

/-- **What one step keeps.** -/
theorem step_metered (h : Metered p s) (hw : WithinReach p s a) (hs : step p s a = some s') :
    Metered p s' := by
  cases a with
  | clock t => exact Option.some.inj hs ▸ metered_of_eq h rfl rfl
  | edit settings configs subscriptions selectedId =>
    exact Option.some.inj hs ▸ metered_of_eq h rfl rfl
  | setActive id => exact Option.some.inj hs ▸ metered_of_eq h rfl rfl
  | quickConnect prepared =>
    have hf := quickConnect_frame (p := p) (s := s) prepared
    exact Option.some.inj hs ▸ metered_of_eq h hf.1 hf.2
  | command i =>
    simp only [step] at hs
    split at hs
    · cases hs
    · exact Option.some.inj hs ▸ metered_of_eq h rfl rfl
  | connect c prepared =>
    have hf := homeConnect_frame (p := p) (s := s) c prepared
    exact Option.some.inj hs ▸ metered_of_eq h hf.1 hf.2
  | relaunch c prepared =>
    have hf := relaunch_frame (p := p) (s := s) c prepared
    exact Option.some.inj hs ▸ metered_of_eq h hf.1 hf.2
  | send i =>
    simp only [step] at hs
    split at hs
    · cases hs
    · exact Option.some.inj hs ▸ metered_of_eq h rfl rfl
  | drop i => exact Option.some.inj hs ▸ metered_of_eq h rfl rfl
  | deliver busy => exact deliver_metered h hw hs
  | reconnect => exact Option.some.inj hs ▸ metered_of_eq h rfl rfl
  | next => exact Option.some.inj hs ▸ metered_of_eq h rfl rfl
  | shareExpired => exact Option.some.inj hs ▸ metered_of_eq h rfl rfl
  | switchTunnel i tearingDown =>
    simp only [step] at hs
    split at hs
    · cases hs
    · exact Option.some.inj hs ▸ switchTunnel_metered (metered_of_eq h rfl rfl)
  | ready =>
    simp only [step] at hs
    split at hs
    · exact Option.some.inj hs ▸ metered_of_eq h rfl rfl
    · cases hs
  | poll up down =>
    simp only [step] at hs
    split at hs
    · obtain ⟨hg, ht⟩ := pollRound_tunnel (p := p) (s := s) (up + down : Int)
      refine Option.some.inj hs ▸ ht.elim (fun ht => metered_of_eq h ht hg) metered_of_none
    · cases hs
  | die => exact Option.some.inj hs ▸ metered_of_none rfl

/-- What a step asks for passed a check, but for the bases and the server of a switch. -/
theorem issued_allowed (hw : WithinReach p s a) :
    ∀ t ∈ issued p s a, ∀ g ∈ t.dials, blockedNow p s g = false := by
  have hswitch (a : Act) (hw : ∀ c ∈ target s a, blockedNow p s c = false) :
      ∀ t ∈ ((target s a).map (switchStart s)).toList, ∀ g ∈ t.dials,
        blockedNow p s g = false := by
    intro t ht g hg
    obtain ⟨c, hc, rfl⟩ := Option.map_eq_some_iff.1 (Option.mem_toList.1 ht)
    rw [switchStart_eq] at hg
    obtain rfl := List.mem_singleton.1 hg
    exact hw g hc
  cases a with
  | quickConnect prepared =>
    intro t ht g hg
    obtain ⟨c, hc, hr, hb, hp, hi, rfl⟩ := quickStart_some (Option.mem_toList.1 ht)
    rcases List.mem_cons.1 hg with rfl | hg
    · exact hb
    · exact hw c hc hr hb hp hi g hg
  | connect c prepared =>
    intro t ht g hg
    obtain ⟨hs, hr, hb, hi, rfl⟩ := homeStart_some (Option.mem_toList.1 ht)
    rcases List.mem_cons.1 hg with rfl | hg
    · exact hb
    · exact hw hs hr hb hi g hg
  | relaunch c prepared =>
    intro t ht g hg
    obtain ⟨hb, rfl⟩ := relaunchStart_some (Option.mem_toList.1 ht)
    obtain rfl := List.mem_singleton.1 hg
    exact hb
  | deliver busy => exact hswitch (.deliver busy) fun c hc => (by cases hc)
  | _ => exact hswitch _ hw

theorem pending_of_eq {t : Start} (h : Pending s' t) (hi : s'.intents = s.intents)
    (hw : s'.waiting = s.waiting) (hs : s'.switches = s.switches)
    (ht : s'.tunnel = s.tunnel) : Pending s t := by
  unfold Pending at h ⊢
  rw [← hi, ← hw, ← hs, ← ht]
  exact h

theorem quickConnect_pending {prepared : Bool} {t : Start}
    (h : Pending (quickConnect p s prepared) t) :
    Pending s t ∨ t ∈ (quickStart p s prepared).toList := by
  unfold quickConnect at h
  split at h
  · exact .inl h
  dsimp only at h
  split at h
  · exact .inl h
  split at h
  · exact .inl h
  · rename_i t' hq
    rcases h with h | h
    · rcases List.mem_append.1 h with h | h
      · exact .inl (.inl h)
      · obtain rfl : t = t' := by simpa using h
        exact .inr (Option.mem_toList.2 hq)
    · exact .inl (.inr h)

theorem homeConnect_pending {c : ProxyConfig} {prepared : Bool} {t : Start}
    (h : Pending (homeConnect p s c prepared) t) :
    Pending s t ∨ t ∈ (homeStart p s c).toList := by
  unfold homeConnect at h
  split at h
  · exact .inl h
  dsimp only at h
  split at h
  · exact .inl h
  rename_i t' hq
  split at h
  · rcases h with h | h
    · rcases List.mem_append.1 h with h | h
      · exact .inl (.inl h)
      · obtain rfl : t = t' := by simpa using h
        exact .inr (Option.mem_toList.2 hq)
    · exact .inl (.inr h)
  · rcases h with h | ⟨b, h⟩ | h
    · exact .inl (.inl h)
    · rcases List.mem_append.1 h with h | h
      · exact .inl (.inr (.inl ⟨b, h⟩))
      · obtain ⟨rfl, -⟩ : t = t' ∧ b = false := by simpa using h
        exact .inr (Option.mem_toList.2 hq)
    · exact .inl (.inr (.inr h))

theorem relaunch_pending {c : ProxyConfig} {prepared : Bool} {t : Start}
    (h : Pending (relaunch p s c prepared) t) :
    Pending s t ∨ t ∈ (relaunchStart p s c prepared).toList := by
  unfold relaunch at h
  split at h
  · exact .inl h
  dsimp only at h
  split at h
  · exact .inl h
  rename_i t' hq
  rcases h with h | ⟨b, h⟩ | h
  · exact .inl (.inl (by simpa using h))
  · rcases List.mem_append.1 h with h | h
    · exact .inl (.inr (.inl ⟨b, h⟩))
    · obtain ⟨rfl, -⟩ : t = t' ∧ b = true := by simpa using h
      exact .inr (Option.mem_toList.2 hq)
  · exact .inl (.inr (.inr h))

theorem send_pending {i : Nat} {t : Start} (h : Pending s' t)
    (hs : step p s (.send i) = some s') : Pending s t := by
  simp only [step] at hs
  split at hs
  · cases hs
  rename_i t' b hi
  obtain rfl := Option.some.inj hs
  rcases h with h | ⟨b, h⟩ | h
  · rcases List.mem_append.1 h with h | h
    · exact .inl h
    · obtain rfl : t = t' := by simpa using h
      exact .inr (.inl ⟨b, List.mem_of_getElem? hi⟩)
  · exact .inr (.inl ⟨b, List.mem_of_mem_eraseIdx h⟩)
  · exact .inr (.inr h)

theorem deliver_pending {busy : Bool} {t : Start} (h : Pending s' t)
    (hs : deliver p s busy = some s') : Pending s t := by
  unfold deliver at hs
  split at hs
  · cases hs
  · rename_i rest hi
    obtain rfl := Option.some.inj hs
    rcases h with h | h | h | h
    · exact .inl (by rw [hi]; exact .tail _ h)
    · exact .inr (.inl h)
    · exact .inr (.inr (.inl h))
    · cases h
  · rename_i t' rest hi
    obtain rfl := Option.some.inj hs
    have hsub : ∀ t, Pending { s with intents := rest } t → Pending s t := fun t h =>
      h.imp_left fun h => by rw [hi]; exact .tail _ h
    unfold takeStart at h
    split at h
    · exact hsub t h
    · rcases h with h | h | h | h
      · exact hsub t (.inl h)
      · exact hsub t (.inr (.inl h))
      · exact hsub t (.inr (.inr (.inl h)))
      · obtain rfl := Option.some.inj h
        exact .inl (by rw [hi]; exact List.mem_cons_self)

/-- A switch that was asked for adds its server. -/
theorem switches_pending {t : Start} {server : Option ProxyConfig}
    (h : Pending { s with switches := s.switches ++ server.toList } t) :
    Pending s t ∨ t ∈ (server.map (switchStart s)).toList := by
  rcases h with h | h | ⟨c, hc, rfl⟩ | h
  · exact .inl (.inl h)
  · exact .inl (.inr (.inl h))
  · rcases List.mem_append.1 hc with hc | hc
    · exact .inl (.inr (.inr (.inl ⟨c, hc, rfl⟩)))
    · refine .inr (Option.mem_toList.2 (Option.map_eq_some_iff.2 ⟨c, Option.mem_toList.1 hc, ?_⟩))
      exact switchStart_eq
  · exact .inl (.inr (.inr (.inr h)))

theorem switchTunnel_pending {i : Nat} {tearingDown : Bool} {t : Start} (h : Pending s' t)
    (hs : step p s (.switchTunnel i tearingDown) = some s') : Pending s t := by
  simp only [step] at hs
  split at hs
  · cases hs
  rename_i c hi
  obtain rfl := Option.some.inj hs
  have hsub : ∀ t, Pending { s with switches := s.switches.eraseIdx i } t → Pending s t :=
    fun t h => h.imp_right fun h => h.imp_right fun h => h.imp_left fun ⟨d, hd, he⟩ =>
      ⟨d, List.mem_of_mem_eraseIdx hd, he⟩
  unfold switchTunnel at h
  split at h
  · exact hsub t h
  · rcases h with h | h | h | h
    · exact hsub t (.inl h)
    · exact hsub t (.inr (.inl h))
    · exact hsub t (.inr (.inr (.inl h)))
    · rw [← Option.some.inj h, switchStart_eq]
      exact .inr (.inr (.inl ⟨c, List.mem_of_getElem? hi, rfl⟩))

theorem pollRound_pending {bytes : Int} {t : Start} (h : Pending (pollRound p s bytes) t) :
    Pending s t := by
  have hends : ∀ s' : Sys, Pending (die s') t → Pending s' t := fun s' h =>
    h.imp_right fun h => h.imp_right fun h => h.imp_right fun h => (by cases h)
  unfold pollRound at h
  split at h
  · exact h
  dsimp only at h
  split at h
  · exact hends s (pending_of_eq h rfl rfl rfl rfl)
  · exact h

/-- **Nothing comes up that was not asked for.** -/
theorem step_pending {t : Start} (hs : step p s a = some s') (h : Pending s' t) :
    Pending s t ∨ t ∈ issued p s a := by
  cases a with
  | clock t =>
    obtain rfl := Option.some.inj hs
    exact .inl h
  | edit settings configs subscriptions selectedId =>
    obtain rfl := Option.some.inj hs
    exact .inl h
  | setActive id =>
    obtain rfl := Option.some.inj hs
    exact .inl h
  | quickConnect prepared => exact quickConnect_pending (Option.some.inj hs ▸ h)
  | command i =>
    simp only [step] at hs
    split at hs
    · cases hs
    · obtain rfl := Option.some.inj hs
      exact .inl h
  | connect c prepared => exact homeConnect_pending (Option.some.inj hs ▸ h)
  | relaunch c prepared => exact relaunch_pending (Option.some.inj hs ▸ h)
  | send i => exact .inl (send_pending h hs)
  | drop i =>
    obtain rfl := Option.some.inj hs
    exact .inl (h.imp_right fun h => h.imp_left fun ⟨b, hb⟩ => ⟨b, List.mem_of_mem_eraseIdx hb⟩)
  | deliver busy => exact .inl (deliver_pending h hs)
  | reconnect => exact switches_pending (Option.some.inj hs ▸ h)
  | next =>
    obtain rfl := Option.some.inj hs
    exact switches_pending (pending_of_eq h rfl rfl rfl rfl)
  | shareExpired => exact switches_pending (Option.some.inj hs ▸ h)
  | switchTunnel i tearingDown => exact .inl (switchTunnel_pending h hs)
  | ready =>
    simp only [step] at hs
    split at hs
    · obtain rfl := Option.some.inj hs
      exact .inl h
    · cases hs
  | poll up down =>
    simp only [step] at hs
    split at hs
    · exact .inl (pollRound_pending (Option.some.inj hs ▸ h))
    · cases hs
  | die =>
    obtain rfl := Option.some.inj hs
    exact .inl (h.imp_right fun h => h.imp_right fun h => h.imp_right fun h => (by cases h))

/-- A round of polling counts for all that is dialled, once the session is drawn on its share. -/
theorem poll_counts (h : Metered p s) {up down : Nat} {t : Start} (ht : t ∈ s.tunnel)
    (hs : step p s (.poll up down) = some s') : ∀ g ∈ t.dials, Counted p s s' (up + down) g := by
  intro g hg m hm
  obtain ⟨a, ha, hid⟩ := h t ht g hg m hm
  simp only [step] at hs
  split at hs
  · obtain rfl := Option.some.inj hs
    rw [pollRound_used ha (by omega), hid]
    exact if_pos rfl
  · cases hs

theorem limits_of_metered (h : Metered p s) (hw : WithinReach p s a) : LimitsHold p s a := by
  refine ⟨issued_allowed hw, fun s' hs t ht => step_pending hs ht, ?_⟩
  cases a with
  | poll up down => exact fun t ht s' hs => poll_counts h ht hs
  | _ => trivial

end Steps

/-- **The limits hold along every run** whose steps stay within what the checks reach. -/
theorem share_limits_kept (p : Platform) (s : Sys) (as : List Act) (hs : s.tunnel = none)
    (hw : Meets (step p) (WithinReach p) s as) : Meets (step p) (LimitsHold p) s as :=
  meets_of_inv (fun _ _ _ h hw hs => step_metered h hw hs) (fun _ _ h hw => limits_of_metered h hw)
    (metered_of_none hs) hw

/-! ## Runs -/

def shareObject : JSONObject :=
  JSONObject.put [] "gsb2" (.obj (JSONObject.put [] "id" "s1"
    |>.put "name" "friends"
    |>.put "expiresAt" (0 : Int)
    |>.put "quota" (2048 : Int)
    |>.put "issuer" "9f86d081884c"))

def shareText : String := (Json.obj shareObject).print

def phone : Platform :=
  { readObject := fun raw => if raw = shareText then some shareObject else none
    readLong := Text.toIntOrNull
    lowercase := String.map Char.toLower
    mixedPort := 10626
    httpSharePort := 18686
    psiphonSocksPort := 0 }

/-- A received server. -/
def guest : ProxyConfig :=
  { name := "guest", protocol := "vless", address := "guest.example.com", port := 443
    uuid := "u", extra := shareText, locked := true, id := "g" }

/-- The user's own server. -/
def own : ProxyConfig :=
  { name := "own", protocol := "vless", address := "own.example.com", port := 443, uuid := "u"
    id := "o" }

/-- Another, put behind the received one. -/
def chainedOwn : ProxyConfig := { own with chainId := "g", id := "c" }

/-- The app as it is started, with what is written down of the share's bytes. -/
def started (usedBytes : Int) (configs : List ProxyConfig) : Sys :=
  { clock := 1000
    prefs := { used := fun _ => usedBytes, maxSeen := 1000 }
    settings := {}
    configs
    subscriptions := []
    selectedId := none }

def sessionRun : List Act :=
  [.quickConnect true, .command 0, .deliver false, .ready, .poll 300 500]

/-- The session of the user's own server, where the share is used up. -/
def ownSession : Sys :=
  { started 2048 [own, guest] with
    selectedId := some "o"
    activeId := some "o"
    tunnel := some ⟨own, [own]⟩
    connected := true }

theorem guestSession_kept :
    Meets (step phone) (WithinReach phone) (started 0 [guest]) sessionRun ∧
      Meets (step phone) (LimitsHold phone) (started 0 [guest]) sessionRun := by
  have hw : Meets (step phone) (WithinReach phone) (started 0 [guest]) sessionRun := by
    refine ⟨fun c hc _ _ _ _ g hg => ?_, fun c hc => (by cases hc), fun t ht _ _ g hg m hm => ?_,
      fun c hc => (by cases hc), fun c hc => (by cases hc), trivial⟩
    · obtain rfl : guest = c := Option.some.inj hc
      have hn : bases (QuickConnect.options {} [guest] guest) guest = [] := rfl
      exact absurd (hn ▸ hg) List.not_mem_nil
    · obtain rfl : ⟨guest, [guest]⟩ = t := Intent.start.inj (Option.some.inj ht)
      obtain rfl := List.mem_singleton.1 hg
      exact ⟨m, hm, rfl⟩
  exact ⟨hw, share_limits_kept phone (started 0 [guest]) sessionRun rfl hw⟩

theorem limits_passed :
    ¬Meets (step phone) (LimitsHold phone) (started 2048 [chainedOwn, guest])
        [.quickConnect true] ∧
      ¬Meets (step phone) (LimitsHold phone) (started 2048 [own, guest])
        ([.quickConnect true, .command 0, .deliver false, .ready] ++ [.next]) ∧
      ¬Meets (step phone) (LimitsHold phone) (started 0 [chainedOwn, guest]) sessionRun := by
  have hb : blockedNow phone (started 2048 [chainedOwn, guest]) guest = true := by decide
  refine ⟨fun h => ?_, fun h => ?_, fun h => ?_⟩
  · have hq : quickStart phone (started 2048 [chainedOwn, guest]) true =
        some ⟨chainedOwn, [chainedOwn, guest]⟩ := by rfl
    have hf := h.1.1 _ (Option.mem_toList.2 hq) guest (by simp)
    exact absurd hf (by rw [hb]; decide)
  · have hr : run (step phone) (started 2048 [own, guest])
        [.quickConnect true, .command 0, .deliver false, .ready] = some ownSession := rfl
    have ht : target ownSession .next = some guest := rfl
    have hf := (Meets.at_end h hr).1 ⟨guest, [guest]⟩ (by
      simp only [issued, ht, Option.map_some, Option.toList_some, switchStart_eq,
        List.mem_singleton]) guest (by simp)
    exact absurd hf (by decide)
  · have hc := h.2.2.2.2.1.2.2 ⟨chainedOwn, [chainedOwn, guest]⟩ rfl _ rfl guest (by simp)
      ⟨"s1", "friends", 0, 2048, "9f86d081884c"⟩ (by rfl)
    exact absurd hc (by decide)

end Ghajar.Gsb2
