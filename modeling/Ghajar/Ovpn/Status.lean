import Ghajar.Ovpn.Bridge

/-!
# The OpenVPN status is the engine's

`Honest`: the status is CONNECTED only for a profile with a live session that has
reported so, and a session whose last callback was a loss is shown neither as
CONNECTED nor as CONNECTING. `status_honest` says exactly in which runs it holds:
no late callback is believed and no loss falls into a window that hides it
(`believed`).
-/

namespace Ghajar.Ovpn

open Run Vpn

/-- A profile has a live session that has reported that it is connected. -/
def Sys.Reported (s : Sys) (uuid : Nat) : Prop :=
  ∃ n < s.count, (s.sessions n).uuid = uuid ∧ (s.sessions n).live = true ∧
    (s.sessions n).reported = true

/-- The last callback of the newest session was a loss. -/
def Sys.lost (s : Sys) : Prop :=
  ∃ n < s.count, s.count = n + 1 ∧ (s.sessions n).last = some .notConnected

instance (s : Sys) (uuid : Nat) : Decidable (s.Reported uuid) := by
  unfold Sys.Reported
  infer_instance

instance (s : Sys) : Decidable s.lost := by
  unfold Sys.lost
  infer_instance

structure Honest (s : Sys) : Prop where
  connected : s.bridge.status = .connected → ∃ u ∈ s.bridge.activeUuid, s.Reported u
  lost : s.lost → s.bridge.status ≠ .connected ∧ s.bridge.status ≠ .connecting

/-! ## The condition -/

/-- What a report of a session needs to be right: a connection, that its session is live and
the one shown; a loss, that no window hides it; a start, that it is not late. -/
def believedLevel (s : Sys) (n : Nat) : Level → Prop
  | .connected =>
    (∃ u ∈ s.bridge.activeUuid,
      ((s.sessions n).uuid = u ∧ (s.sessions n).live = true) ∨ s.Reported u) ∧
      (s.count = n + 1 ∨ ¬s.lost)
  | .notConnected =>
    s.count = n + 1 → s.bridge.explicitDisconnect = true ∨
      (s.bridge.keepConnectedGrace s.now = false ∧ s.bridge.starting s.now = false)
  | .start | .connectingServerReplied | .connectingNoServerReplyYet =>
    s.count = n + 1 ∨ ¬s.lost ∨ s.bridge.connectedConfirmed = true ∨
      (s.bridge.requestedUuid = none ∧ s.bridge.activeUuid = none)
  | _ => True

instance (s : Sys) (n : Nat) (l : Level) : Decidable (believedLevel s n l) := by
  unfold believedLevel
  split <;> infer_instance

/-- **The condition.** -/
def believed (s : Sys) : Act → Prop
  | .updateState n _ level => believedLevel s n level
  | .setConnectedVPN (some uuid) => s.bridge.status = .connected → s.Reported uuid
  | _ => True

instance (s : Sys) (a : Act) : Decidable (believed s a) := by
  unfold believed
  split <;> infer_instance

/-! ## The invariant -/

structure Inv (s : Sys) : Prop where
  confirmed : s.bridge.connectedConfirmed = true ↔ s.bridge.status = .connected
  requested : s.bridge.requestedUuid ≠ none → s.bridge.connectedConfirmed = false
  lost : s.lost → s.bridge.requestedUuid = none

/-- What the listener keeps of a bridge. -/
structure Sound (b : Bridge) : Prop where
  confirmed : b.connectedConfirmed = true ↔ b.status = .connected
  requested : b.requestedUuid ≠ none → b.connectedConfirmed = false

theorem Inv.sound {s : Sys} (h : Inv s) : Sound s.bridge := ⟨h.confirmed, h.requested⟩

namespace Bridge

variable {b : Bridge} {now : Nat}

theorem onConnected_sound : Sound (b.onConnected now) :=
  ⟨⟨fun _ => rfl, fun _ => rfl⟩, fun h => absurd rfl h⟩

theorem onFailed_sound : Sound b.onFailed :=
  ⟨⟨fun h => (by cases h), fun h => (by cases h)⟩, fun _ => rfl⟩

/-- A loss is shown as a connection only if there is one, as a start only if one is due. -/
theorem lossStatus_cases (b : Bridge) (now : Nat) :
    b.lossStatus now = .disconnected ∨
      (b.lossStatus now = .connected ∧ b.connectedConfirmed = true) ∨
      (b.lossStatus now = .connecting ∧ b.requestedUuid ≠ none) := by
  unfold lossStatus
  by_cases he : b.explicitDisconnect = true
  · exact .inl (if_pos he)
  by_cases hg : b.keepConnectedGrace now = true
  · refine .inr (.inl ⟨by rw [if_neg he, if_pos hg], ?_⟩)
    simp only [keepConnectedGrace, Bool.and_eq_true] at hg
    exact hg.1.1
  by_cases hs : b.starting now = true
  · refine .inr (.inr ⟨by rw [if_neg he, if_neg hg, if_pos hs], fun hn => ?_⟩)
    simp [starting, hn] at hs
  · exact .inl (by rw [if_neg he, if_neg hg, if_neg hs])

theorem onNotConnected_sound (h : Sound b) : Sound (b.onNotConnected now) := by
  unfold onNotConnected
  split
  · exact ⟨⟨fun h => (by cases h), fun h => (by cases h)⟩, fun hn => absurd rfl hn⟩
  · rename_i hd
    rcases lossStatus_cases b now with hl | ⟨hl, hc⟩ | ⟨hl, hr⟩
    · exact absurd hl hd
    · exact ⟨⟨fun _ => hl, fun _ => hc⟩, h.requested⟩
    · have hc := h.requested hr
      refine ⟨⟨fun ht => ?_, fun ht => ?_⟩, h.requested⟩
      · have ht : b.connectedConfirmed = true := ht
        rw [hc] at ht
        cases ht
      · have ht : b.lossStatus now = .connected := ht
        rw [hl] at ht
        cases ht

theorem connecting_sound (h : Sound b) (hc : b.connectedConfirmed = false) :
    Sound { b with status := .connecting } := by
  refine ⟨⟨fun ht => ?_, fun ht => (by cases ht)⟩, h.requested⟩
  have ht : b.connectedConfirmed = true := ht
  rw [hc] at ht
  cases ht

theorem onConnecting_sound (h : Sound b) : Sound b.onConnecting := by
  unfold onConnecting
  split
  · rename_i hc
    simp only [Bool.and_eq_true, Bool.not_eq_true'] at hc
    exact connecting_sound h hc.1
  · exact h

theorem onPaused_sound : Sound b.onPaused :=
  ⟨⟨fun h => (by cases h), fun h => (by cases h)⟩, fun _ => rfl⟩

theorem onUnknown_sound (h : Sound b) : Sound b.onUnknown := by
  unfold onUnknown
  split
  · rename_i hc
    simp only [Bool.and_eq_true, Bool.not_eq_true'] at hc
    exact connecting_sound h hc.1
  · exact h

theorem updateState_sound {connected : Bool} {level : Level} (h : Sound b) :
    Sound (b.updateState now connected level) := by
  have h' : Sound { b with engineState := connected } := ⟨h.confirmed, h.requested⟩
  cases level with
  | connected => exact onConnected_sound
  | authFailed | nonetwork | waitingForUserInput => exact onFailed_sound
  | notConnected => exact onNotConnected_sound h'
  | start | connectingServerReplied | connectingNoServerReplyYet => exact onConnecting_sound h'
  | vpnPaused => exact onPaused_sound
  | unknown => exact onUnknown_sound h'

theorem setConnectedVPN_sound {uuid : Option Nat} (h : Sound b) :
    Sound (b.setConnectedVPN uuid) := by
  cases uuid with
  | some clean =>
    simp only [setConnectedVPN]
    split
    · exact h
    · exact ⟨h.confirmed, h.requested⟩
  | none =>
    simp only [setConnectedVPN]
    split
    · exact ⟨⟨fun h => (by cases h), fun h => (by cases h)⟩, fun _ => rfl⟩
    · exact ⟨h.confirmed, h.requested⟩

theorem stopEngineNow_sound {bound : Bool} (h : Sound b) :
    Sound (b.stopEngineNow now bound) := by
  unfold stopEngineNow
  split
  · exact h
  · exact updateState_sound h

theorem request_sound {uuid : Nat} {starts : Bool} : Sound (b.request now uuid starts) := by
  cases starts <;> exact ⟨⟨fun h => (by cases h), fun h => (by cases h)⟩, fun _ => rfl⟩

theorem reset_sound : Sound b.reset :=
  ⟨⟨fun h => (by cases h), fun h => (by cases h)⟩, fun _ => rfl⟩

theorem disconnected_sound : Sound b.disconnected :=
  ⟨⟨fun h => (by cases h), fun h => (by cases h)⟩, fun _ => rfl⟩

/-! ## What a loss does that comes from nowhere -/

/-- A loss never makes a connection, and requests nothing. -/
theorem onNotConnected_spec (h : Sound b) :
    ((b.onNotConnected now).status = .connected →
        b.status = .connected ∧ (b.onNotConnected now).activeUuid = b.activeUuid) ∧
      ((b.onNotConnected now).status = .connecting → b.requestedUuid ≠ none) ∧
      ((b.onNotConnected now).requestedUuid ≠ none → b.requestedUuid ≠ none) := by
  unfold onNotConnected
  split
  · exact ⟨fun h => (by cases h), fun h => (by cases h), fun h => absurd rfl h⟩
  · rename_i hd
    refine ⟨fun hs => ?_, fun hs => ?_, fun hn => hn⟩
    · rcases lossStatus_cases b now with hl | ⟨-, hc⟩ | ⟨hl, -⟩
      · exact absurd hl hd
      · exact ⟨h.confirmed.1 hc, rfl⟩
      · have hs : b.lossStatus now = .connected := hs
        rw [hl] at hs
        cases hs
    · rcases lossStatus_cases b now with hl | ⟨hl, -⟩ | ⟨-, hr⟩
      · exact absurd hl hd
      · have hs : b.lossStatus now = .connecting := hs
        rw [hl] at hs
        cases hs
      · exact hr

/-- Where no window hides it, a loss is shown. -/
theorem lossStatus_disconnected (b : Bridge) (now : Nat) :
    b.lossStatus now = .disconnected ↔ b.explicitDisconnect = true ∨
      (b.keepConnectedGrace now = false ∧ b.starting now = false) := by
  unfold lossStatus
  by_cases he : b.explicitDisconnect = true
  · simp [he]
  by_cases hg : b.keepConnectedGrace now = true
  · simp [he, hg]
  by_cases hs : b.starting now = true
  · simp [he, hg, hs]
  · simp [he, hg, hs]

/-- A callback requests nothing. -/
theorem updateState_requested {connected : Bool} {level : Level} (h : Sound b)
    (hr : (b.updateState now connected level).requestedUuid ≠ none) : b.requestedUuid ≠ none := by
  have h' : Sound { b with engineState := connected } := ⟨h.confirmed, h.requested⟩
  cases level with
  | connected | authFailed | nonetwork | waitingForUserInput => exact absurd rfl hr
  | notConnected => exact (onNotConnected_spec h').2.2 hr
  | start | connectingServerReplied | connectingNoServerReplyYet =>
    simp only [updateState, onConnecting] at hr
    split at hr <;> exact hr
  | vpnPaused => exact hr
  | unknown =>
    simp only [updateState, onUnknown] at hr
    split at hr <;> exact hr

theorem stopEngineNow_requested {bound : Bool} (h : Sound b)
    (hr : (b.stopEngineNow now bound).requestedUuid ≠ none) : b.requestedUuid ≠ none := by
  unfold stopEngineNow at hr
  split at hr
  · exact hr
  · exact updateState_requested h hr

end Bridge

/-! ## The sessions -/

theorem reported_hears {s : Sys} {b : Bridge} {n : Nat} {level : Level} {u : Nat}
    (hn : n < s.count) :
    Sys.Reported { s with
        bridge := b, sessions := Function.update s.sessions n ((s.sessions n).hears level) } u ↔
      s.Reported u ∨
        (level = .connected ∧ (s.sessions n).uuid = u ∧ (s.sessions n).live = true) := by
  constructor
  · rintro ⟨m, hm, hu, hl, hr⟩
    by_cases hmn : m = n
    · subst hmn
      simp only [Function.update_self, Session.hears, Bool.or_eq_true, decide_eq_true_eq]
        at hu hl hr
      rcases hr with hr | hr
      · exact .inl ⟨m, hm, hu, hl, hr⟩
      · exact .inr ⟨hr, hu, hl⟩
    · simp only [Function.update_of_ne hmn] at hu hl hr
      exact .inl ⟨m, hm, hu, hl, hr⟩
  · rintro (⟨m, hm, hu, hl, hr⟩ | ⟨rfl, hu, hl⟩)
    · refine ⟨m, hm, ?_⟩
      by_cases hmn : m = n
      · subst hmn
        simp [Session.hears, hu, hl, hr]
      · simp only [Function.update_of_ne hmn]
        exact ⟨hu, hl, hr⟩
    · exact ⟨n, hn, by simp [Session.hears, hu, hl]⟩

theorem lost_hears {s : Sys} {b : Bridge} {n : Nat} {level : Level} (hn : n < s.count) :
    Sys.lost { s with
        bridge := b, sessions := Function.update s.sessions n ((s.sessions n).hears level) } ↔
      (s.count = n + 1 ∧ level = .notConnected) ∨ (s.count ≠ n + 1 ∧ s.lost) := by
  constructor
  · rintro ⟨m, hm, hc, hl⟩
    have hc : s.count = m + 1 := hc
    by_cases hmn : m = n
    · subst hmn
      simp only [Function.update_self, Session.hears, Option.some.injEq] at hl
      exact .inl ⟨hc, hl⟩
    · simp only [Function.update_of_ne hmn] at hl
      exact .inr ⟨by omega, m, hm, hc, hl⟩
  · rintro (⟨hc, rfl⟩ | ⟨hc, m, hm, hcm, hl⟩)
    · exact ⟨n, hn, hc, by simp [Session.hears]⟩
    · have hmn : m ≠ n := by omega
      refine ⟨m, hm, hcm, ?_⟩
      simp only [Function.update_of_ne hmn]
      exact hl

/-- Nothing is promised of any other status. -/
theorem Honest.of_status {s : Sys} (h1 : s.bridge.status ≠ .connected)
    (h2 : s.bridge.status ≠ .connecting) : Honest s :=
  ⟨fun h => absurd h h1, fun _ => ⟨h1, h2⟩⟩

/-! ## The steps -/

section Step

variable {s s' : Sys}

/-- The bridge of a step that reports nothing of a session. -/
theorem Honest.quiet {b : Bridge} {w : List Waiting} (h : Honest s) (hi : Inv s)
    (hc : b.status = .connected → s.bridge.status = .connected ∧
      b.activeUuid = s.bridge.activeUuid)
    (hg : b.status = .connecting → s.bridge.status = .connecting ∨ s.bridge.requestedUuid ≠ none) :
    Honest { s with bridge := b, waiting := w } := by
  refine ⟨fun hs => ?_, fun hl => ⟨fun hs => ?_, fun hs => ?_⟩⟩
  · obtain ⟨hs', ha⟩ := hc hs
    obtain ⟨u, hu, hr⟩ := h.connected hs'
    exact ⟨u, by rw [ha]; exact hu, hr⟩
  · exact (h.lost hl).1 (hc hs).1
  · rcases hg hs with hs | hr
    · exact (h.lost hl).2 hs
    · exact hr (hi.lost hl)

/-- A session reports neither a connection nor a loss, and the status stays or a start is due. -/
theorem Honest.hears {b : Bridge} {n : Nat} {level : Level} (h : Honest s) (hi : Inv s)
    (hn : n < s.count) (hlevel : level ≠ .notConnected)
    (hc : b.status = .connected → s.bridge.status = .connected ∧
      b.activeUuid = s.bridge.activeUuid)
    (hg : b.status = .connecting → s.bridge.status = .connecting ∨ s.bridge.requestedUuid ≠ none) :
    Honest { s with
      bridge := b, sessions := Function.update s.sessions n ((s.sessions n).hears level) } := by
  refine ⟨fun hs => ?_, fun hl => ?_⟩
  · obtain ⟨hs', ha⟩ := hc hs
    obtain ⟨u, hu, hr⟩ := h.connected hs'
    exact ⟨u, by rw [ha]; exact hu, (reported_hears hn).2 (.inl hr)⟩
  · rcases (lost_hears hn).1 hl with ⟨-, hl⟩ | ⟨-, hl⟩
    · exact absurd hl hlevel
    · obtain ⟨h1, h2⟩ := h.lost hl
      refine ⟨fun hs => h1 (hc hs).1, fun hs => ?_⟩
      rcases hg hs with hs | hr
      · exact h2 hs
      · exact hr (hi.lost hl)

/-- A session of the newest start says that it is lost. -/
theorem loss_iff {n : Nat} {connected : Bool} (hi : Inv s) (h : Honest s) (hn : n < s.count)
    (hs : step s (.updateState n connected .notConnected) = some s') :
    Honest s' ↔ believedLevel s n .notConnected := by
  simp only [step, hn, if_true, Option.some.injEq] at hs
  subst hs
  let b : Bridge := { s.bridge with engineState := connected }
  have hb : Sound b := ⟨hi.confirmed, hi.requested⟩
  obtain ⟨hcon, hing, -⟩ : (_ → _) ∧ ((b.onNotConnected s.now).status = .connecting → _) ∧ _ :=
    Bridge.onNotConnected_spec hb
  show Honest _ ↔ (s.count = n + 1 → _)
  rw [← Bridge.lossStatus_disconnected]
  constructor
  · intro h' hc
    obtain ⟨h1, h2⟩ := h'.lost ((lost_hears hn).2 (.inl ⟨hc, rfl⟩))
    by_contra hd
    rcases Bridge.lossStatus_cases s.bridge s.now with hl | ⟨hl, -⟩ | ⟨hl, -⟩
    · exact hd hl
    · refine h1 ?_
      show (b.onNotConnected s.now).status = .connected
      have hne : b.lossStatus s.now ≠ .disconnected := hd
      rw [Bridge.onNotConnected, if_neg hne]
      exact hl
    · refine h2 ?_
      show (b.onNotConnected s.now).status = .connecting
      have hne : b.lossStatus s.now ≠ .disconnected := hd
      rw [Bridge.onNotConnected, if_neg hne]
      exact hl
  · intro hd
    refine ⟨fun hs => ?_, fun hl => ?_⟩
    · obtain ⟨hs', ha⟩ := hcon hs
      obtain ⟨u, hu, hr⟩ := h.connected hs'
      refine ⟨u, ?_, (reported_hears hn).2 (.inl hr)⟩
      show u ∈ (b.onNotConnected s.now).activeUuid
      rw [ha]
      exact hu
    · rcases (lost_hears hn).1 hl with ⟨hc, -⟩ | ⟨hc, hl⟩
      · have hst : (b.onNotConnected s.now).status = .disconnected := by
          have he : b.lossStatus s.now = .disconnected := hd hc
          rw [Bridge.onNotConnected, if_pos he]
        have hst' : (s.bridge.updateState s.now connected .notConnected).status = .disconnected :=
          hst
        simp [hst']
      · obtain ⟨h1, -⟩ := h.lost hl
        exact ⟨fun hs => h1 (hcon hs).1, fun hs => hing hs (hi.lost hl)⟩

/-- A session says that it is connected. -/
theorem connected_iff {n : Nat} {connected : Bool} (hn : n < s.count)
    (hs : step s (.updateState n connected .connected) = some s') :
    Honest s' ↔ believedLevel s n .connected := by
  simp only [step, hn, if_true, Option.some.injEq] at hs
  subst hs
  constructor
  · intro h'
    obtain ⟨u, hu, hr⟩ := h'.connected rfl
    refine ⟨⟨u, hu, ?_⟩, ?_⟩
    · rcases (reported_hears hn).1 hr with hr | ⟨-, hr⟩
      · exact .inr hr
      · exact .inl hr
    · by_cases hc : s.count = n + 1
      · exact .inl hc
      · exact .inr fun hl => (h'.lost ((lost_hears hn).2 (.inr ⟨hc, hl⟩))).1 rfl
  · rintro ⟨⟨u, hu, hr⟩, hc⟩
    refine ⟨fun _ => ⟨u, hu, (reported_hears hn).2 ?_⟩, fun hl => ?_⟩
    · rcases hr with hr | hr
      · exact .inr ⟨rfl, hr⟩
      · exact .inl hr
    · rcases (lost_hears hn).1 hl with ⟨-, hl⟩ | ⟨hne, hl⟩
      · cases hl
      · exact absurd hl (hc.resolve_left hne)

/-- A session says that it is coming up. -/
theorem start_iff {n : Nat} {connected : Bool} {level : Level} (hi : Inv s) (h : Honest s)
    (hn : n < s.count)
    (hlevel : level = .start ∨ level = .connectingServerReplied ∨
      level = .connectingNoServerReplyYet)
    (hs : step s (.updateState n connected level) = some s') :
    Honest s' ↔ s.count = n + 1 ∨ ¬s.lost ∨ s.bridge.connectedConfirmed = true ∨
      (s.bridge.requestedUuid = none ∧ s.bridge.activeUuid = none) := by
  simp only [step, hn, if_true, Option.some.injEq] at hs
  have hup : s.bridge.updateState s.now connected level =
      Bridge.onConnecting { s.bridge with engineState := connected } := by
    rcases hlevel with rfl | rfl | rfl <;> rfl
  have hnot : level ≠ .notConnected := by
    rcases hlevel with rfl | rfl | rfl <;> simp
  subst hs
  by_cases hg : (!s.bridge.connectedConfirmed &&
      (s.bridge.requestedUuid.isSome || s.bridge.activeUuid.isSome)) = true
  · -- the callback is shown
    have hst : (s.bridge.updateState s.now connected level).status = .connecting := by
      rw [hup, Bridge.onConnecting, if_pos hg]
    have hguard : ¬(s.bridge.connectedConfirmed = true ∨
        (s.bridge.requestedUuid = none ∧ s.bridge.activeUuid = none)) := by
      simp only [Bool.and_eq_true, Bool.not_eq_true', Bool.or_eq_true] at hg
      obtain ⟨hg1, hg2⟩ := hg
      rintro (ht | ⟨hr, ha⟩)
      · rw [hg1] at ht
        cases ht
      · simp [hr, ha] at hg2
    constructor
    · intro h'
      by_cases hc : s.count = n + 1
      · exact .inl hc
      · exact .inr (.inl fun hl => (h'.lost ((lost_hears hn).2 (.inr ⟨hc, hl⟩))).2 hst)
    · intro hc
      refine ⟨fun hs => ?_, fun hl => ?_⟩
      · have hs : (s.bridge.updateState s.now connected level).status = .connected := hs
        rw [hst] at hs
        cases hs
      · rcases (lost_hears hn).1 hl with ⟨-, hl⟩ | ⟨hne, hl⟩
        · exact absurd hl hnot
        · rcases hc with hc | hc | hc
          · exact absurd hc hne
          · exact absurd hl hc
          · exact absurd hc hguard
  · have hsame : s.bridge.updateState s.now connected level =
        { s.bridge with engineState := connected } := by
      rw [hup, Bridge.onConnecting, if_neg hg]
    refine ⟨fun _ => ?_, fun _ => ?_⟩
    · simp only [Bool.and_eq_true, Bool.not_eq_true', Bool.or_eq_true, not_and_or, not_or,
        Bool.not_eq_false, Option.not_isSome_iff_eq_none] at hg
      exact .inr (.inr hg)
    · rw [hsame]
      exact h.hears hi hn hnot (fun hs => ⟨hs, rfl⟩) .inl

theorem updateState_iff {n : Nat} {connected : Bool} {level : Level} (hi : Inv s) (h : Honest s)
    (hs : step s (.updateState n connected level) = some s') :
    Honest s' ↔ believedLevel s n level := by
  by_cases hn : n < s.count
  · cases level with
    | connected => exact connected_iff hn hs
    | notConnected => exact loss_iff hi h hn hs
    | start => exact start_iff hi h hn (.inl rfl) hs
    | connectingServerReplied => exact start_iff hi h hn (.inr (.inl rfl)) hs
    | connectingNoServerReplyYet => exact start_iff hi h hn (.inr (.inr rfl)) hs
    | authFailed | nonetwork | waitingForUserInput | vpnPaused =>
      simp only [step, hn, if_true, Option.some.injEq] at hs
      subst hs
      exact ⟨fun _ => trivial, fun _ => .of_status (fun he => by cases he) (fun he => by cases he)⟩
    | unknown =>
      simp only [step, hn, if_true, Option.some.injEq] at hs
      subst hs
      refine ⟨fun _ => trivial, fun _ => h.hears hi hn (by simp) (fun hc => ?_) fun hg => ?_⟩
      · simp only [Bridge.updateState, Bridge.onUnknown] at hc ⊢
        split at hc
        · cases hc
        · rename_i hu
          rw [if_neg hu]
          exact ⟨hc, rfl⟩
      · simp only [Bridge.updateState, Bridge.onUnknown] at hg
        split at hg
        · rename_i hu
          simp only [Bool.and_eq_true] at hu
          exact .inr (Option.isSome_iff_ne_none.1 hu.2)
        · exact .inl hg
  · simp only [step, hn, if_false] at hs
    cases hs

theorem setConnectedVPN_iff {uuid : Option Nat} (hi : Inv s) (h : Honest s)
    (hs : step s (.setConnectedVPN uuid) = some s') :
    Honest s' ↔ believed s (.setConnectedVPN uuid) := by
  cases hs
  cases uuid with
  | none =>
    refine ⟨fun _ => trivial, fun _ => ?_⟩
    simp only [Bridge.setConnectedVPN]
    split
    · exact .of_status (fun he => by cases he) (fun he => by cases he)
    · rename_i hc
      have hst : s.bridge.status ≠ .connected := fun he => hc (hi.confirmed.2 he)
      exact h.quiet hi (fun hs => absurd hs hst) .inl
  | some uuid =>
    by_cases hst : s.bridge.status = .connected
    · have hconf := hi.confirmed.2 hst
      have hreq : s.bridge.requestedUuid = none := by
        by_contra hr
        rw [hi.requested hr] at hconf
        cases hconf
      have hset : s.bridge.setConnectedVPN (some uuid) =
          { s.bridge with activeUuid := some uuid } := by
        simp [Bridge.setConnectedVPN, hreq]
      rw [hset]
      constructor
      · intro h' _
        obtain ⟨u, hu, hr⟩ := h'.connected hst
        cases hu
        exact hr
      · intro hb
        exact ⟨fun _ => ⟨uuid, rfl, hb hst⟩, fun hl => h.lost hl⟩
    · have hkeep : (s.bridge.setConnectedVPN (some uuid)).status = s.bridge.status := by
        simp only [Bridge.setConnectedVPN]
        split <;> rfl
      refine ⟨fun _ hc => absurd hc hst, fun _ => h.quiet hi (fun hs => ?_) fun hg => ?_⟩
      · rw [hkeep] at hs
        exact absurd hs hst
      · rw [hkeep] at hg
        exact .inl hg

/-! ## The commands -/

theorem stopEngineNow_spec {b : Bridge} {now : Nat} {bound : Bool} (h : Sound b) :
    ((b.stopEngineNow now bound).status = .connected →
        b.status = .connected ∧ (b.stopEngineNow now bound).activeUuid = b.activeUuid) ∧
      ((b.stopEngineNow now bound).status = .connecting →
        b.status = .connecting ∨ b.requestedUuid ≠ none) := by
  unfold Bridge.stopEngineNow
  split
  · exact ⟨fun hs => ⟨hs, rfl⟩, .inl⟩
  · have h' : Sound { b with engineState := false } := ⟨h.confirmed, h.requested⟩
    exact ⟨(Bridge.onNotConnected_spec h').1, fun hs => .inr ((Bridge.onNotConnected_spec h').2.1 hs)⟩

theorem wait_honest {w : Waiting} {bound : Bool} (hi : Inv s) (h : Honest s) :
    Honest (s.wait w bound) :=
  h.quiet hi (stopEngineNow_spec hi.sound).1 (stopEngineNow_spec hi.sound).2

theorem wait_inv {w : Waiting} {bound : Bool} (hi : Inv s) : Inv (s.wait w bound) := by
  have hb : Sound (s.wait w bound).bridge := Bridge.stopEngineNow_sound hi.sound
  refine ⟨hb.confirmed, hb.requested, fun hl => ?_⟩
  by_contra hne
  exact Bridge.stopEngineNow_requested hi.sound hne (hi.lost hl)

/-- A new session has said nothing yet. -/
theorem begin_not_lost {uuid : Nat} {starts : Bool} : ¬(s.begin uuid starts).lost := by
  rintro ⟨n, -, hc, hl⟩
  have hc : s.count + 1 = n + 1 := hc
  obtain rfl : n = s.count := by omega
  simp [Sys.begin] at hl

theorem begin_honest {uuid : Nat} {starts : Bool} : Honest (s.begin uuid starts) := by
  refine ⟨fun hs => ?_, fun hl => absurd hl begin_not_lost⟩
  cases starts <;> cases hs

theorem begin_inv {uuid : Nat} {starts : Bool} : Inv (s.begin uuid starts) := by
  have hb : Sound (s.begin uuid starts).bridge := Bridge.request_sound
  exact ⟨hb.confirmed, hb.requested, fun hl => absurd hl begin_not_lost⟩

theorem drop_lost {uuid : Nat} {b : Bridge} {w : List Waiting}
    (hl : Sys.lost { s with bridge := b, waiting := w, sessions := s.drop uuid }) : s.lost := by
  obtain ⟨n, hn, hc, hl⟩ := hl
  refine ⟨n, hn, hc, ?_⟩
  simp only [Sys.drop] at hl
  split at hl <;> exact hl

/-- A profile that is deleted is not the one shown. -/
theorem drop_reported {uuid u : Nat} (hu : u ≠ uuid) (h : s.Reported u) :
    Sys.Reported { s with sessions := s.drop uuid } u := by
  obtain ⟨n, hn, hnu, hl, hr⟩ := h
  refine ⟨n, hn, ?_⟩
  have hne : (s.sessions n).uuid ≠ uuid := by rw [hnu]; exact hu
  simp only [Sys.drop, hne, if_false]
  exact ⟨hnu, hl, hr⟩

theorem resume_honest (w : Waiting) : Honest (s.resume w) := by
  cases w with
  | connect uuid starts => exact begin_honest
  | disconnect => exact .of_status (fun he => by cases he) (fun he => by cases he)
  | delete uuid => exact .of_status (fun he => by cases he) (fun he => by cases he)

theorem resume_inv (w : Waiting) : Inv (s.resume w) := by
  cases w with
  | connect uuid starts => exact begin_inv
  | disconnect =>
    have hb : Sound s.bridge.disconnected := Bridge.disconnected_sound
    exact ⟨hb.confirmed, hb.requested, fun _ => rfl⟩
  | delete uuid =>
    have hb : Sound s.bridge.reset := Bridge.reset_sound
    exact ⟨hb.confirmed, hb.requested, fun _ => rfl⟩

/-! ## All steps -/

theorem step_iff {a : Act} (hi : Inv s) (h : Honest s) (hs : step s a = some s') :
    Honest s' ↔ believed s a := by
  cases a with
  | updateState n connected level => exact updateState_iff hi h hs
  | setConnectedVPN uuid => exact setConnectedVPN_iff hi h hs
  | tick ms =>
    cases hs
    exact ⟨fun _ => trivial, fun _ => ⟨h.connected, h.lost⟩⟩
  | connectSaved uuid found starts bound =>
    refine ⟨fun _ => trivial, fun _ => ?_⟩
    simp only [step] at hs
    split at hs
    · cases hs
      exact h
    · split at hs
      · cases hs
        exact wait_honest hi h
      · cases hs
        exact begin_honest
  | disconnect installed bound =>
    refine ⟨fun _ => trivial, fun _ => ?_⟩
    simp only [step] at hs
    split at hs
    · cases hs
      exact wait_honest ⟨hi.confirmed, hi.requested, hi.lost⟩ ⟨h.connected, h.lost⟩
    · cases hs
      exact h
  | delete uuid bound =>
    refine ⟨fun _ => trivial, fun _ => ?_⟩
    simp only [step] at hs
    split at hs
    · cases hs
      exact wait_honest hi h
    · rename_i how
      cases hs
      refine ⟨fun hst => ?_, fun hl => h.lost (drop_lost hl)⟩
      obtain ⟨u, hu, hr⟩ := h.connected hst
      have hne : u ≠ uuid := by
        rintro rfl
        refine how ?_
        have hu : s.bridge.activeUuid = some u := hu
        simp [Bridge.owns, hu]
      exact ⟨u, hu, drop_reported hne hr⟩
  | resume i =>
    refine ⟨fun _ => trivial, fun _ => ?_⟩
    simp only [step] at hs
    split at hs
    · cases hs
    · cases hs
      exact resume_honest _

/-- The invariant of the runs in which the status is honest. -/
theorem step_inv {a : Act} (hi : Inv s) (h' : Honest s') (hs : step s a = some s') : Inv s' := by
  cases a with
  | tick ms =>
    cases hs
    exact ⟨hi.confirmed, hi.requested, hi.lost⟩
  | updateState n connected level =>
    simp only [step] at hs
    split at hs
    · rename_i hn
      cases hs
      have hb : Sound (s.bridge.updateState s.now connected level) :=
        Bridge.updateState_sound hi.sound
      refine ⟨hb.confirmed, hb.requested, fun hl => ?_⟩
      rcases (lost_hears hn).1 hl with ⟨-, rfl⟩ | ⟨-, hold⟩
      · -- the loss is shown, so nothing is requested any more
        obtain ⟨h1, h2⟩ := h'.lost hl
        by_contra hne
        rcases Bridge.lossStatus_cases { s.bridge with engineState := connected } s.now with
          hd | ⟨hd, -⟩ | ⟨hd, -⟩
        · refine hne ?_
          show (Bridge.onNotConnected _ s.now).requestedUuid = none
          rw [Bridge.onNotConnected, if_pos hd]
        · refine h1 ?_
          show (Bridge.onNotConnected _ s.now).status = .connected
          rw [Bridge.onNotConnected, if_neg (by rw [hd]; simp)]
          exact hd
        · refine h2 ?_
          show (Bridge.onNotConnected _ s.now).status = .connecting
          rw [Bridge.onNotConnected, if_neg (by rw [hd]; simp)]
          exact hd
      · by_contra hne
        exact Bridge.updateState_requested hi.sound hne (hi.lost hold)
    · cases hs
  | setConnectedVPN uuid =>
    cases hs
    have hb : Sound (s.bridge.setConnectedVPN uuid) := Bridge.setConnectedVPN_sound hi.sound
    refine ⟨hb.confirmed, hb.requested, fun hl => ?_⟩
    have hreq : (s.bridge.setConnectedVPN uuid).requestedUuid = s.bridge.requestedUuid := by
      cases uuid <;> simp only [Bridge.setConnectedVPN] <;> split <;> rfl
    show (s.bridge.setConnectedVPN uuid).requestedUuid = none
    rw [hreq]
    exact hi.lost hl
  | connectSaved uuid found starts bound =>
    simp only [step] at hs
    split at hs
    · cases hs
      exact hi
    · split at hs
      · cases hs
        exact wait_inv hi
      · cases hs
        exact begin_inv
  | disconnect installed bound =>
    simp only [step] at hs
    split at hs
    · cases hs
      exact wait_inv ⟨hi.confirmed, hi.requested, hi.lost⟩
    · cases hs
      exact hi
  | delete uuid bound =>
    simp only [step] at hs
    split at hs
    · cases hs
      exact wait_inv hi
    · cases hs
      exact ⟨hi.confirmed, hi.requested, fun hl => hi.lost (drop_lost hl)⟩
  | resume i =>
    simp only [step] at hs
    split at hs
    · cases hs
    · cases hs
      exact resume_inv _

end Step

theorem fresh_inv : Inv .fresh :=
  ⟨⟨fun h => (by cases h), fun h => (by cases h)⟩, fun h => absurd rfl h, fun _ => rfl⟩

theorem fresh_honest : Honest .fresh := .of_status (fun he => by cases he) (fun he => by cases he)

/-- A profile is connected and lost a while later. -/
def connectedThenLost : List Act :=
  [.connectSaved 7 true true true, .updateState 0 false .start, .setConnectedVPN (some 7),
    .updateState 0 true .connected, .tick 5000, .updateState 0 false .notConnected]

/-- The same, but it is lost within a second. -/
def lostAtOnce : List Act :=
  [.connectSaved 7 true true true, .updateState 0 false .start, .setConnectedVPN (some 7),
    .updateState 0 true .connected, .tick 800, .updateState 0 false .notConnected]

end Ghajar.Ovpn
