import Ghajar.Vpn.Coordinator

/-!
# The last broadcast

Every broadcast is handled on its own thread, so handlers publish in any order.
`inTurn` says a handler publishes only while no broadcast delivered after its
own has been published, with IKE idle. In a run of broadcasts and handlers that
keeps this, the state published in the end is the last accepted report.
-/

namespace Ghajar.Vpn

open Run

/-- Nothing but broadcasts, their handlers and time. -/
def Act.isBroadcast : Act → Bool
  | .tick _ | .deliver _ | .handler _ => true
  | _ => false

/-- The handler is about to ask whether IKE owns the tunnel, or about to publish its report. -/
def Task.decides (t : Task) : Bool :=
  !t.loc.published && match t.code with
    | .stopUnless .ikeIdle :: _ | .skipUnless .ikeIdle :: _ | .publish _ :: _ => true
    | _ => false

/-- A handler publishes its report before those of later broadcasts, and IKE is idle. -/
def inTurn (s : Sys) : Act → Bool
  | .handler n => s.handlers[n]?.all fun t => !Task.decides t ||
      (!s.sh.ikeActive && (s.handlers.drop (n + 1)).all fun u => !u.loc.published)
  | _ => true

def Task.report (t : Task) : Option Report :=
  match t.loc.role with
  | .handler r => some r
  | _ => none

/-- The last report among the handlers with the property, or `c` if there is none. -/
def lastReport (p : Task → Bool) (c : Connection) : List Task → Connection
  | [] => c
  | t :: ts => lastReport p (if p t then t.report.elim c Report.connection else c) ts

/-! ## The last of a list -/

theorem lastReport_append (p : Task → Bool) (c : Connection) (ts us : List Task) :
    lastReport p c (ts ++ us) = lastReport p (lastReport p c ts) us := by
  induction ts generalizing c with
  | nil => rfl
  | cons t ts ih => exact ih _

theorem lastReport_none {p : Task → Bool} {c : Connection} {ts : List Task}
    (h : ∀ t ∈ ts, p t = false) : lastReport p c ts = c := by
  induction ts generalizing c with
  | nil => rfl
  | cons t ts ih =>
    simp only [lastReport, h t List.mem_cons_self, Bool.false_eq_true, if_false]
    exact ih fun u hu => h u (List.mem_cons_of_mem _ hu)

theorem lastReport_congr {p q : Task → Bool} {c : Connection} {ts : List Task}
    (h : ∀ t ∈ ts, p t = q t) : lastReport p c ts = lastReport q c ts := by
  induction ts generalizing c with
  | nil => rfl
  | cons t ts ih =>
    simp only [lastReport, h t List.mem_cons_self]
    exact ih fun u hu => h u (List.mem_cons_of_mem _ hu)

/-- Replacing a thread by one that looks the same changes nothing. -/
theorem lastReport_set_same {p : Task → Bool} {c : Connection} {ts : List Task} {n : Nat}
    {t t' : Task} (ht : ts[n]? = some t) (hp : p t' = p t) (hr : t'.report = t.report) :
    lastReport p c (ts.set n t') = lastReport p c ts := by
  induction ts generalizing c n with
  | nil => rfl
  | cons u us ih =>
    cases n with
    | zero =>
      cases ht
      simp only [List.set, lastReport, hp, hr]
    | succ n =>
      simp only [List.set, lastReport]
      exact ih ht

/-- With nothing after it, a thread is the last. -/
theorem lastReport_set_last {p : Task → Bool} {c : Connection} {ts : List Task} {n : Nat}
    {t' : Task} {r : Report} (hn : n < ts.length) (hp : p t' = true) (hr : t'.report = some r)
    (hl : ∀ u ∈ ts.drop (n + 1), p u = false) :
    lastReport p c (ts.set n t') = r.connection := by
  induction ts generalizing c n with
  | nil => cases hn
  | cons u us ih =>
    cases n with
    | zero =>
      simp only [List.set, lastReport, hp, hr, if_true, Option.elim]
      exact lastReport_none hl
    | succ n =>
      simp only [List.set, lastReport]
      exact ih (Nat.lt_of_succ_lt_succ hn) hl

/-! ## The phases of a handler -/

/-- What follows the publishing of a report. -/
def aftermath : Report → List Stmt
  | .connected => onTunnelConfirmed
  | .error => onTunnelFailed
  | .disconnected => onTunnelTeardown

def ikeGuard : Report → Stmt
  | .disconnected => .skipUnless .ikeIdle
  | _ => .stopUnless .ikeIdle

theorem dispatch_eq (r : Report) :
    dispatch r = ikeGuard r :: .publish r.connection :: aftermath r := by
  cases r <;> rfl

/-- Statements that publish nothing unless the state is DISCONNECTING. -/
def Calm : List Stmt → Bool
  | [] => true
  | .stopUnless (.stateIn [.disconnecting]) :: _ => true
  | .take _ :: rest | .cancel :: rest | .forget _ :: rest | .clear :: rest => Calm rest
  | _ => false

theorem aftermath_calm (r : Report) : Calm (aftermath r) = true := by
  cases r <;> rfl

/-- Where a handler can stand while IKE is idle. -/
inductive Phase (r : Report) : Bool → Bool → List Stmt → Prop where
  | load : Phase r false false (handle r)
  | judge : Phase r false false (.judge r :: dispatch r)
  | rejected : Phase r false false []
  | ask : Phase r true false (dispatch r)
  | publish : Phase r true false (.publish r.connection :: aftermath r)
  | after {code : List Stmt} (hc : Calm code = true) : Phase r true true code

/-- The handler is in one of the phases of its report. -/
def InPhase (t : Task) : Prop :=
  ∃ r, t.loc.role = .handler r ∧ Phase r t.loc.accepted t.loc.published t.code

/-- What one statement of a handler does: nothing to the published state, or its report. -/
structure HandlerStep (s s' : Shared) (t t' : Task) : Prop where
  phase : InPhase t'
  role : t'.loc.role = t.loc.role
  ike : s'.ikeActive = s.ikeActive
  state : (t'.loc.published = t.loc.published ∧ s'.state = s.state) ∨
    (Task.decides t = true ∧ t'.loc.published = true ∧
      ∃ r, t.report = some r ∧ s'.state = r.connection)

/-- A handler behind its report only disarms. -/
theorem calm_step {i : Stmt} {rest : List Stmt} {s : Shared} {l : Local}
    (hc : Calm (i :: rest) = true) (hd : s.state ≠ .disconnecting) :
    Calm (i.next s l rest) = true ∧ (i.effect s l).state = s.state ∧
      (i.effect s l).ikeActive = s.ikeActive ∧ (i.save s l).role = l.role ∧
      (i.save s l).accepted = l.accepted ∧ (i.save s l).published = l.published := by
  unfold Calm at hc
  split at hc
  · rename_i h; cases h
  · rename_i h
    cases h
    simp [Stmt.next, Guard.holds, Stmt.effect, Stmt.save, hd, Calm]
  · rename_i h
    cases h
    exact ⟨hc, rfl, rfl, rfl, rfl, rfl⟩
  · rename_i h
    cases h
    exact ⟨hc, rfl, rfl, rfl, rfl, rfl⟩
  · rename_i h
    cases h
    exact ⟨hc, setWatchdog_state _ _ _, setWatchdog_ikeActive _ _ _, rfl, rfl, rfl⟩
  · rename_i h
    cases h
    exact ⟨hc, rfl, rfl, rfl, rfl, rfl⟩
  · cases hc

theorem decides_ikeGuard (r : Report) {l : Local} {code : List Stmt} (hl : l.published = false) :
    Task.decides ⟨l, ikeGuard r :: code⟩ = true := by
  cases r <;> simp [Task.decides, ikeGuard, hl]

theorem ikeGuard_next (r : Report) {s : Shared} {l : Local} {c : List Stmt}
    (hs : s.ikeActive = false) :
    (ikeGuard r).next s l c = c ∧ (ikeGuard r).effect s l = s ∧ (ikeGuard r).save s l = l := by
  cases r <;> simp [ikeGuard, Stmt.next, Guard.holds, Stmt.effect, Stmt.save, hs]

/-- **One statement of a handler**, while IKE is idle wherever it matters. -/
theorem handler_step {s s' : Shared} {t t' : Task} (hp : InPhase t)
    (hi : Task.decides t = true → s.ikeActive = false)
    (hd : t.loc.published = true → s.state ≠ .disconnecting)
    (hs : Thread.step exec s t = some (s', t')) : HandlerStep s s' t t' := by
  obtain ⟨l, code⟩ := t
  obtain ⟨l', code'⟩ := t'
  obtain ⟨i, rest, hc, he⟩ := Thread.step_some hs
  obtain ⟨r, hr, hph⟩ := hp
  obtain ⟨hs', hl', hcode⟩ := exec_some he
  simp only at hc hs' hl' hcode hr hph hd
  subst hs' hl' hcode
  generalize ha : l.accepted = a at hph
  generalize hb : l.published = b at hph
  cases hph with
  | load =>
    cases hc
    refine ⟨⟨r, hr, ?_⟩, rfl, rfl, .inl ⟨rfl, rfl⟩⟩
    cases hcmd : s.lastCommand with
    | none =>
      simp only [Stmt.save, Stmt.next, hcmd, hb, Option.isNone_none, if_true]
      exact .ask
    | some k =>
      simp only [Stmt.save, Stmt.next, hcmd, hb, Option.isNone_some, Bool.false_eq_true, if_false]
      exact .judge
  | judge =>
    cases hc
    refine ⟨⟨r, hr, ?_⟩, rfl, rfl, .inl ⟨rfl, rfl⟩⟩
    cases hacc : accepts s l r with
    | true =>
      simp only [Stmt.save, Stmt.next, hacc, hb, if_true]
      exact .ask
    | false =>
      simp only [Stmt.save, Stmt.next, hacc, hb, Bool.false_eq_true, if_false]
      exact .rejected
  | rejected => cases hc
  | ask =>
    rw [dispatch_eq] at hc
    cases hc
    have hidle : s.ikeActive = false := by
      refine hi ?_
      rw [dispatch_eq]
      exact decides_ikeGuard r hb
    obtain ⟨hn, hef, hsv⟩ := ikeGuard_next r (l := l) (c := .publish r.connection :: aftermath r)
      hidle
    refine ⟨⟨r, ?_, ?_⟩, ?_, ?_, .inl ⟨?_, ?_⟩⟩
    · rw [hsv]; exact hr
    · rw [hn, hsv, ha, hb]; exact .publish
    · rw [hsv]
    · rw [hef]
    · rw [hsv]
    · rw [hef]
  | publish =>
    cases hc
    refine ⟨⟨r, hr, ?_⟩, rfl, rfl, .inr ⟨?_, rfl, r, ?_, rfl⟩⟩
    · simp only [Stmt.save, Stmt.next, ha]
      exact .after (aftermath_calm r)
    · simp [Task.decides, hb]
    · simp [Task.report, hr]
  | after hcalm =>
    cases hc
    obtain ⟨h1, h2, h3, h4, h5, h6⟩ := calm_step (l := l) hcalm (hd hb)
    refine ⟨⟨r, h4.trans hr, ?_⟩, h4, h3, .inl ⟨h6, h2⟩⟩
    simp only [h5, h6, ha, hb]
    exact .after h1

/-! ## The run -/

/-- The published state is the last one published by a handler, or `c`. -/
structure Told (c : Connection) (s : Sys) : Prop where
  phase : ∀ t ∈ s.handlers, InPhase t
  state : s.sh.state = lastReport (fun t => t.loc.published) c s.handlers

/-- The last report is never DISCONNECTING. -/
theorem lastReport_ne_disconnecting {ts : List Task} {c : Connection}
    (h : c ≠ .disconnecting ∨ ∃ t ∈ ts, t.loc.published = true ∧ t.report.isSome = true) :
    lastReport (fun t => t.loc.published) c ts ≠ .disconnecting := by
  induction ts generalizing c with
  | nil =>
    rcases h with h | ⟨t, ht, -⟩
    · exact h
    · cases ht
  | cons t ts ih =>
    refine ih ?_
    cases hp : t.loc.published && t.report.isSome with
    | true =>
      obtain ⟨hp, hr⟩ := Bool.and_eq_true_iff.1 hp
      obtain ⟨r, hr⟩ := Option.isSome_iff_exists.1 hr
      refine .inl ?_
      simp only [hp, hr, if_true, Option.elim]
      cases r <;> decide
    | false =>
      rcases h with h | ⟨u, hu, hpu, hru⟩
      · refine .inl ?_
        cases hpt : t.loc.published with
        | false => simpa [hpt] using h
        | true =>
          have hr : t.report = none := by simpa [hpt] using hp
          simpa [hpt, hr] using h
      · rcases List.mem_cons.1 hu with rfl | hu
        · simp [hpu, hru] at hp
        · exact .inr ⟨u, hu, hpu, hru⟩

theorem InPhase.report {t : Task} (h : InPhase t) : t.report.isSome = true := by
  obtain ⟨r, hr, -⟩ := h
  simp [Task.report, hr]

theorem step_told {c : Connection} {s s' : Sys} {a : Act} (h : Told c s)
    (hC : a.isBroadcast = true ∧ inTurn s a = true) (hs : step s a = some s') : Told c s' := by
  obtain ⟨ha, ht⟩ := hC
  cases a with
  | tick ms =>
    cases hs
    exact ⟨h.phase, h.state⟩
  | deliver r =>
    simp only [step] at hs
    split at hs
    · cases hs
      refine ⟨fun t ht => ?_, ?_⟩
      · rcases List.mem_append.1 ht with ht | ht
        · exact h.phase t ht
        · rw [List.mem_singleton.1 ht]
          exact ⟨r, rfl, .load⟩
      · rw [lastReport_append]
        exact h.state
    · cases hs
  | handler n =>
    obtain ⟨⟨sh, ts⟩, hm, he⟩ := Option.map_eq_some_iff.1 hs
    cases he
    obtain ⟨t, t', hn, hst, rfl⟩ := Thread.move_some hm
    have hmem : t ∈ s.handlers := List.mem_of_getElem? hn
    have hturn : Task.decides t = true → s.sh.ikeActive = false ∧
        ∀ u ∈ s.handlers.drop (n + 1), u.loc.published = false := by
      intro hdec
      simpa [inTurn, hn, hdec] using ht
    have hstep := handler_step (h.phase t hmem) (fun hdec => (hturn hdec).1)
      (fun hp => by
        rw [h.state]
        exact lastReport_ne_disconnecting (.inr ⟨t, hmem, hp, (h.phase t hmem).report⟩)) hst
    have hrep : Task.report t' = Task.report t := by simp only [Task.report, hstep.role]
    refine ⟨fun u hu => ?_, ?_⟩
    · rcases List.mem_or_eq_of_mem_set hu with hu | rfl
      · exact h.phase u hu
      · exact hstep.phase
    · rcases hstep.state with ⟨hp, hst⟩ | ⟨hdec, hp, r, hr, hst⟩
      · rw [lastReport_set_same hn hp hrep]
        exact hst.trans h.state
      · have hlt : n < s.handlers.length := (List.getElem?_eq_some_iff.1 hn).1
        rw [lastReport_set_last hlt hp (hrep.trans hr) (hturn hdec).2]
        exact hst
  | _ => cases ha

/-- A handler that is done has published its report if it was accepted. -/
theorem InPhase.done {t : Task} (h : InPhase t) (hc : t.code = []) :
    t.loc.published = t.loc.accepted := by
  obtain ⟨r, -, hph⟩ := h
  generalize t.loc.accepted = a at hph ⊢
  generalize t.loc.published = b at hph ⊢
  rw [hc] at hph
  generalize hcode : ([] : List Stmt) = code at hph
  cases hph with
  | rejected => rfl
  | after => rfl
  | ask => rw [dispatch_eq] at hcode; cases hcode
  | _ => cases hcode

/-- **The last broadcast wins** in a run of broadcasts whose handlers take their turn: once all
are done, the state is the last report accepted, or what it was if there is none. -/
theorem last_broadcast_wins {s s' : Sys} {acts : List Act} (h0 : s.handlers = [])
    (hm : Meets step (fun s a => a.isBroadcast = true ∧ inTurn s a = true) s acts)
    (hr : run step s acts = some s') (hd : ∀ t ∈ s'.handlers, t.code = []) :
    s'.sh.state = lastReport (fun t => t.loc.accepted) s.sh.state s'.handlers := by
  have h : Told s.sh.state s' :=
    run_inv (fun _ _ _ => step_told) ⟨by simp [h0], by simp [h0, lastReport]⟩ hm hr
  rw [h.state]
  exact lastReport_congr fun t ht => (h.phase t ht).done (hd t ht)

/-- Two broadcasts, each handled as it comes. -/
def oneByOne : List Act :=
  .deliver .connected :: List.replicate 7 (.handler 0) ++
    .deliver .disconnected :: List.replicate 11 (.handler 1)

theorem oneByOne_last : ∃ s', run step .fresh oneByOne = some s' ∧
    s'.sh.state = lastReport (fun t => t.loc.accepted) .disconnected s'.handlers := by
  have hm : Meets step (fun s a => a.isBroadcast = true ∧ inTurn s a = true) .fresh oneByOne := by
    decide
  refine ⟨_, rfl, last_broadcast_wins rfl hm rfl ?_⟩
  decide

/-- The same two broadcasts; the second handler runs first. -/
def overtaken : List Act :=
  .deliver .connected :: .deliver .disconnected :: List.replicate 11 (.handler 1) ++
    List.replicate 7 (.handler 0)

/-- Both reports are accepted, the last is "disconnected", the app shows CONNECTED. -/
theorem overtaken_connected : ∃ s', run step .fresh overtaken = some s' ∧
    (∀ t ∈ s'.handlers, t.code = [] ∧ t.loc.accepted = true) ∧
    s'.sh.state = .connected ∧
    lastReport (fun t => t.loc.accepted) .disconnected s'.handlers = .disconnected := by
  refine ⟨_, rfl, ?_, ?_, ?_⟩ <;> decide

end Ghajar.Vpn
